import Mathlib.Data.List.Pairwise
import SmellCheck.Fix.Fixer
import SmellCheck.Proofs.Places

/-!
Planning edits. A session is followed through a history of requests, each of which it plans or
refuses; the requests that it has planned are exactly the ones that it will carry out, and no two of
them get in each other's way.
-/

set_option autoImplicit false

namespace SmellCheck

inductive Request where
  | replace (target : Node) (nodes : List Tree)
  | splice (target : Node) (elements : List Element)
  | insertBefore (target : Node) (nodes : List Tree)
  | insertAfter (target : Node) (nodes : List Tree)
  | remove (target : Node)
deriving DecidableEq

namespace Request

def target : Request → Node
  | .replace target _ | .splice target _ | .insertBefore target _ | .insertAfter target _
  | .remove target => target

def edit : Request → Edit
  | .replace _ nodes => if nodes.isEmpty then .remove else .replace nodes
  | .splice _ elements => if elements.isEmpty then .remove else .splice elements
  | .insertBefore _ nodes => .insertBefore nodes
  | .insertAfter _ nodes => .insertAfter nodes
  | .remove _ => .remove

def isDestructive : Request → Bool
  | .replace .. | .splice .. | .remove _ => true
  | .insertBefore .. | .insertAfter .. => false

def planned (request : Request) : List Nat × Edit := (request.target.path, request.edit)

-- Neither request has the other's target, or destroys it.
def Apart (a b : Request) : Prop :=
  a.target ≠ b.target ∧ (a.isDestructive → a.target ∉ b.target.ancestors) ∧
    (b.isDestructive → b.target ∉ a.target.ancestors)

-- What a session on the tree of a node plans after the given requests.
def Admissible (home : Node) (done : List Request) (request : Request) : Prop :=
  request.target.SameTree home ∧ request.target ≠ .ofRoot home.snapshot home.root ∧
    ∀ earlier ∈ done, Apart earlier request

def Refusal (home : Node) (request : Request) (error : EditError) : Prop :=
  (¬ request.target.SameTree home ∧ error = .foreignNode request.target.range) ∨
  (request.target.SameTree home ∧ request.target = .ofRoot home.snapshot home.root ∧
    error = .rootEdit) ∨
  (request.target.SameTree home ∧ request.target ≠ .ofRoot home.snapshot home.root ∧
    error = .overlap request.target.range)

theorem apart_symm {a b : Request} (apart : a.Apart b) : b.Apart a := ⟨apart.1.symm, apart.2.2, apart.2.1⟩

theorem edit_is_destructive (request : Request) : request.edit.isDestructive = request.isDestructive := by
  cases request with
  | replace _ nodes => cases nodes <;> rfl
  | splice _ elements => cases elements <;> rfl
  | insertBefore _ _ => rfl
  | insertAfter _ _ => rfl
  | remove _ => rfl

end Request

theorem same_tree_of_class_scope (node : Node) : node.classScope.SameTree node := by
  rw [Node.classScope]
  cases found : node.ancestorsOrSelf.find? (·.kind == .classDecl) with
  | none => exact ⟨rfl, rfl⟩
  | some scope =>
      rcases List.mem_cons.mp (List.mem_of_find?_eq_some found) with rfl | above
      · exact ⟨rfl, rfl⟩
      · exact Node.same_tree_of_ancestor scope node above

theorem same_tree_in_scope (home node : Node) (below : node ∈ home.classScope.descendantsOrSelf) : node.SameTree home :=
  Node.same_tree_trans (Node.same_tree_of_descendant _ node below) (same_tree_of_class_scope home)

theorem to_option_ok {ε α : Type} {result : Except ε α} {value : α} (found : result.toOption = some value) :
    result = .ok value := by
  cases result with
  | error _ => cases found
  | ok _ => exact congrArg Except.ok (Option.some.inj found)

namespace Session

def perform (session : Session) : Request → Except EditError Session
  | .replace target nodes => session.replace target nodes
  | .splice target elements => session.splice target elements
  | .insertBefore target nodes => session.insertBefore target nodes
  | .insertAfter target nodes => session.insertAfter target nodes
  | .remove target => session.remove target

def step (session : Session) (request : Request) : Session := session.orSkip (session.perform request)

def run (session : Session) (history : List Request) : Session := history.foldl step session

def accepted (session : Session) : List Request → List Request
  | [] => []
  | request :: rest =>
      match session.perform request with
      | .ok next => request :: next.accepted rest
      | .error _ => session.accepted rest

theorem perform_eq (session : Session) (request : Request) :
    session.perform request = session.plan request.target request.edit := by
  cases request <;> rfl

theorem plan_ok (session next : Session) (target : Node) (edit : Edit) (planned : session.plan target edit = .ok next) :
    next = { session with edits := session.edits ++ [(target.path, edit)] } := by
  unfold plan at planned
  split at planned
  · cases planned
  · split at planned
    · cases planned
    · split at planned
      · cases planned
      · exact (Except.ok.inj planned).symm

theorem plan_all_keeps {α : Type} (Keeps : Session → Prop) (session : Session)
    (plan : Session → α → Except EditError Session) (items : List α) (before : Keeps session)
    (step : ∀ session item next, item ∈ items → Keeps session → plan session item = .ok next → Keeps next) :
    Keeps (session.planAll plan items) := by
  induction items generalizing session with
  | nil => exact before
  | cons item rest ih =>
      have after : Keeps (session.orSkip (plan session item)) := by
        cases planned : plan session item with
        | error _ => exact before
        | ok next => exact step session item next (by simp) before planned
      exact ih _ after fun session item next member => step session item next (by simp [member])

theorem holds_iff (session : Session) (home node : Node) (snapshot : session.snapshot = home.snapshot)
    (root : session.root = home.root) : session.holds node ↔ node.SameTree home := by
  simp [holds, Node.SameTree, snapshot, root]

theorem clash_iff (a b : Request) (same : a.target.SameTree b.target) :
    clash a.target.path a.edit b.target.path b.edit ↔ ¬ a.Apart b := by
  have backwards := Node.same_tree_symm same
  have samePath : a.target.path = b.target.path ↔ a.target = b.target :=
    ⟨Node.eq_of_path _ _ same, fun eq => by rw [eq]⟩
  have above := Node.mem_ancestors_iff a.target b.target same
  have below := Node.mem_ancestors_iff b.target a.target backwards
  simp only [clash, Request.edit_is_destructive, Bool.or_eq_true, Bool.and_eq_true, beq_iff_eq,
    List.isPrefixOf_iff_prefix, samePath, Request.Apart, above, below]
  by_cases eq : a.target = b.target
  · simp [eq]
  · have different : b.target ≠ a.target := fun back => eq back.symm
    simp only [eq, different, ne_eq, not_false_eq_true, true_and, and_true, false_or]
    grind

structure Reached (home : Node) (session : Session) (done : List Request) : Prop where
  snapshot : session.snapshot = home.snapshot
  root : session.root = home.root
  edits : session.edits = done.map Request.planned
  within : ∀ request ∈ done, request.target.SameTree home ∧ request.target ≠ .ofRoot home.snapshot home.root
  apart : done.Pairwise Request.Apart

theorem reached_start (home : Node) : Reached home (start home) [] :=
  ⟨rfl, rfl, rfl, by simp, .nil⟩

section
variable {home : Node} {session : Session} {done : List Request}

theorem clashes_iff (reached : Reached home session done) (request : Request)
    (same : request.target.SameTree home) :
    (session.edits.any fun planned => clash planned.1 planned.2 request.target.path request.edit) ↔
      ¬ ∀ earlier ∈ done, earlier.Apart request := by
  rw [reached.edits, List.any_map, List.any_eq_true]
  constructor
  · rintro ⟨earlier, member, clashes⟩ apart
    have sameTree := Node.same_tree_trans (reached.within earlier member).1 (Node.same_tree_symm same)
    exact (clash_iff earlier request sameTree).mp clashes (apart earlier member)
  · intro notApart
    obtain ⟨earlier, rest⟩ := Classical.not_forall.mp notApart
    obtain ⟨member, conflict⟩ := Classical.not_imp.mp rest
    have sameTree := Node.same_tree_trans (reached.within earlier member).1 (Node.same_tree_symm same)
    exact ⟨earlier, member, (clash_iff earlier request sameTree).mpr conflict⟩

theorem perform_admissible (reached : Reached home session done) (request : Request)
    (admissible : request.Admissible home done) :
    session.perform request = .ok { session with edits := session.edits ++ [request.planned] } := by
  obtain ⟨same, notRoot, apart⟩ := admissible
  have held := (holds_iff session home request.target reached.snapshot reached.root).mpr same
  have inner : ¬ request.target.isRoot := fun isRoot =>
    notRoot ((Node.is_root_iff request.target home same).mp isRoot)
  have free := (not_congr (clashes_iff reached request same)).mpr (not_not_intro apart)
  rw [perform_eq, plan, if_neg (by simp [held]), if_neg inner, if_neg free]
  rfl

theorem perform_refused (reached : Reached home session done) (request : Request)
    (refused : ¬ request.Admissible home done) :
    ∃ error, session.perform request = .error error ∧ request.Refusal home error := by
  rw [perform_eq, plan]
  by_cases same : request.target.SameTree home
  · have held := (holds_iff session home request.target reached.snapshot reached.root).mpr same
    rw [if_neg (by simp [held])]
    by_cases isRoot : request.target.isRoot
    · rw [if_pos isRoot]
      exact ⟨_, rfl, .inr (.inl ⟨same, (Node.is_root_iff request.target home same).mp isRoot, rfl⟩)⟩
    · have notRoot : request.target ≠ .ofRoot home.snapshot home.root := fun eq =>
        isRoot ((Node.is_root_iff request.target home same).mpr eq)
      have clashes := (clashes_iff reached request same).mpr fun apart => refused ⟨same, notRoot, apart⟩
      rw [if_neg isRoot, if_pos clashes]
      exact ⟨_, rfl, .inr (.inr ⟨same, notRoot, rfl⟩)⟩
  · have notHeld := (not_congr (holds_iff session home request.target reached.snapshot reached.root)).mpr same
    rw [if_pos (by simp [notHeld])]
    exact ⟨_, rfl, .inl ⟨same, rfl⟩⟩

theorem perform_ok_iff (reached : Reached home session done) (request : Request) :
    (∃ next, session.perform request = .ok next) ↔ request.Admissible home done := by
  constructor
  · rintro ⟨next, performed⟩
    by_contra refused
    obtain ⟨error, failed, -⟩ := perform_refused reached request refused
    rw [failed] at performed
    cases performed
  · intro admissible
    exact ⟨_, perform_admissible reached request admissible⟩

theorem reached_step (reached : Reached home session done) (request : Request) (next : Session)
    (performed : session.perform request = .ok next) : Reached home next (done ++ [request]) := by
  have admissible := (perform_ok_iff reached request).mp ⟨next, performed⟩
  rw [perform_admissible reached request admissible] at performed
  cases performed
  refine ⟨reached.snapshot, reached.root, ?_, ?_, ?_⟩
  · simp [reached.edits]
  · intro planned member
    rcases List.mem_append.mp member with earlier | last
    · exact reached.within planned earlier
    · rw [List.mem_singleton.mp last]
      exact ⟨admissible.1, admissible.2.1⟩
  · refine List.pairwise_append.mpr ⟨reached.apart, List.pairwise_singleton _ _, ?_⟩
    intro earlier member last isLast
    rw [List.mem_singleton.mp isLast]
    exact admissible.2.2 earlier member

theorem reached_run (reached : Reached home session done) (history : List Request) :
    Reached home (session.run history) (done ++ session.accepted history) := by
  induction history generalizing session done with
  | nil => simpa [run, accepted] using reached
  | cons request rest ih =>
      cases performed : session.perform request with
      | error error => simpa [run, accepted, step, orSkip, performed] using ih reached
      | ok next =>
          have later := ih (reached_step reached request next performed)
          simpa [run, accepted, step, orSkip, performed] using later

theorem apart_of_mem (reached : Reached home session done) (a b : Request) (first : a ∈ done) (second : b ∈ done)
    (different : a ≠ b) : a.Apart b := by
  have symmetric : Std.Symm Request.Apart := ⟨fun _ _ => Request.apart_symm⟩
  exact reached.apart.forall first second different

end

theorem run_append (session : Session) (front back : List Request) :
    session.run (front ++ back) = (session.run front).run back := List.foldl_append

theorem accepted_append (session : Session) (front back : List Request) :
    session.accepted (front ++ back) = session.accepted front ++ (session.run front).accepted back := by
  induction front generalizing session with
  | nil => rfl
  | cons request rest ih =>
      cases performed : session.perform request with
      | error _ => simpa [accepted, run, step, orSkip, performed] using ih session
      | ok next => simpa [accepted, run, step, orSkip, performed] using ih next

theorem mem_accepted (session : Session) (history : List Request) (request : Request)
    (member : request ∈ session.accepted history) : request ∈ history := by
  induction history generalizing session with
  | nil => cases member
  | cons first rest ih =>
      rw [accepted] at member
      split at member
      · rcases List.mem_cons.mp member with rfl | later
        · exact List.mem_cons_self
        · exact List.mem_cons_of_mem _ (ih _ later)
      · exact List.mem_cons_of_mem _ (ih _ member)

theorem plan_all_eq_run {α : Type} (session : Session) (request : α → Request) (items : List α) :
    session.planAll (fun session item => session.perform (request item)) items = session.run (items.map request) := by
  rw [run, List.foldl_map]
  rfl

theorem reached_history (home : Node) (history : List Request) :
    Reached home ((start home).run history) ((start home).accepted history) :=
  reached_run (reached_start home) history

theorem accepted_earlier (session : Session) (front back : List Request) (request : Request)
    (member : request ∈ session.accepted front) : request ∈ session.accepted (front ++ back) := by
  rw [accepted_append]
  exact List.mem_append_left _ member

theorem accepted_or_clash (home : Node) (history : List Request) (request : Request) (member : request ∈ history)
    (same : request.target.SameTree home) (inner : request.target.isRoot = false) :
    request ∈ (start home).accepted history ∨ ∃ front back, history = front ++ request :: back ∧
      ∃ earlier ∈ (start home).accepted front, ¬ earlier.Apart request := by
  obtain ⟨front, back, rfl⟩ := List.append_of_mem member
  have notRoot : request.target ≠ .ofRoot home.snapshot home.root := fun atRoot =>
    Bool.eq_false_iff.mp inner ((Node.is_root_iff _ _ same).mpr atRoot)
  by_cases free : ∀ earlier ∈ (start home).accepted front, earlier.Apart request
  · obtain ⟨next, performed⟩ := (perform_ok_iff (reached_history home front) request).mpr ⟨same, notRoot, free⟩
    refine .inl ?_
    rw [accepted_append, accepted, performed]
    exact List.mem_append_right _ List.mem_cons_self
  · refine .inr ⟨front, back, rfl, ?_⟩
    obtain ⟨earlier, clash⟩ := Classical.not_forall.mp free
    obtain ⟨present, notApart⟩ := Classical.not_imp.mp clash
    exact ⟨earlier, present, notApart⟩

theorem target_accepted (home : Node) (history : List Request)
    (apart : ∀ first ∈ history, ∀ second ∈ history, first.target ≠ second.target → first.Apart second)
    (request : Request) (member : request ∈ history) (same : request.target.SameTree home)
    (inner : request.target.isRoot = false) :
    ∃ planned ∈ (start home).accepted history, planned.target = request.target := by
  rcases accepted_or_clash home history request member same inner with planned | ⟨front, back, split, earlier, planned, conflict⟩
  · exact ⟨request, planned, rfl⟩
  · have inHistory : earlier ∈ history := by
      rw [split]
      exact List.mem_append_left _ (mem_accepted _ _ _ planned)
    have sameTarget : earlier.target = request.target := by
      by_contra different
      exact conflict (apart earlier inHistory request member different)
    refine ⟨earlier, ?_, sameTarget⟩
    rw [split]
    exact accepted_earlier _ _ _ _ planned

theorem accepted_above (home : Node) (history : List Request)
    (ordered : history.Pairwise fun earlier later => later.target ∉ earlier.target.ancestors)
    (request : Request) (member : request ∈ history) (same : request.target.SameTree home)
    (inner : request.target.isRoot = false) :
    ∃ planned ∈ (start home).accepted history, planned.target ∈ request.target.ancestorsOrSelf := by
  rcases accepted_or_clash home history request member same inner with planned | ⟨front, back, split, earlier, planned, conflict⟩
  · exact ⟨request, planned, List.mem_cons_self⟩
  · have inFront := mem_accepted _ _ _ planned
    rw [split] at ordered
    have notBelow := (List.pairwise_append.mp ordered).2.2 earlier inFront request List.mem_cons_self
    refine ⟨earlier, ?_, ?_⟩
    · rw [split]
      exact accepted_earlier _ _ _ _ planned
    · by_contra aside
      obtain ⟨different, notAbove⟩ := not_or.mp (mt List.mem_cons.mpr aside)
      exact conflict ⟨different, fun _ => notAbove, fun _ => notBelow⟩

theorem run_edits_prefix (session : Session) (home : Node) (done history : List Request)
    (reached : Reached home session done) : session.edits <+: (session.run history).edits := by
  rw [reached.edits, (reached_run reached history).edits, List.map_append]
  exact List.prefix_append _ _

theorem refusals_exclusive (home : Node) (request : Request) (a b : EditError)
    (first : request.Refusal home a) (second : request.Refusal home b) : a = b := by
  grind [Request.Refusal]

-- What a session plans and refuses, whatever was asked of it before.
theorem planning_exact (home : Node) (history later : List Request) (request : Request) :
    let session := (start home).run history
    let done := (start home).accepted history
    ((∃ next, session.perform request = .ok next) ↔ request.Admissible home done) ∧
    (∀ error, session.perform request = .error error ↔
      ¬ request.Admissible home done ∧ request.Refusal home error) ∧
    (∀ error, session.perform request = .error error → session.step request = session) ∧
    session.edits = done.map Request.planned ∧
    session.length = done.length ∧
    done.Pairwise Request.Apart ∧
    session.edits <+: (session.run later).edits := by
  intro session done
  have reached : Reached home session done := reached_history home history
  have decided := perform_ok_iff reached request
  refine ⟨decided, ?_, ?_, reached.edits, ?_, reached.apart, ?_⟩
  · intro error
    constructor
    · intro failed
      have refused : ¬ request.Admissible home done := by
        intro admissible
        rw [perform_admissible reached request admissible] at failed
        cases failed
      obtain ⟨reason, same, refusal⟩ := perform_refused reached request refused
      rw [same] at failed
      cases failed
      exact ⟨refused, refusal⟩
    · rintro ⟨refused, refusal⟩
      obtain ⟨reason, failed, actual⟩ := perform_refused reached request refused
      rw [failed, refusals_exclusive home request reason error actual refusal]
  · intro error failed
    simp [step, orSkip, failed]
  · rw [length, reached.edits, List.length_map]
  · exact run_edits_prefix session home done later reached

end Session

end SmellCheck
