import SmellCheck.Proofs.Descent
import SmellCheck.Proofs.Planning
import SmellCheck.Proofs.Rewriting

/-!
Confinement. Edits strictly below a place change the subtree of that place and nothing else, provided
that the kinds above it are written with their own numbers; so a session that plans only below a class
gives the same document with another class in the same place.
-/

set_option autoImplicit false

namespace SmellCheck

namespace Node

def wholeTree (node : Node) : List Node := (ofRoot node.snapshot node.root).descendantsOrSelf

-- The tree of the node with at most the subtree of the node exchanged for one of the same kind.
def Exchanged (node : Node) (result : Tree) : Prop :=
  ∃ subtree : Tree, subtree.raw = node.focus.raw ∧ result = Frame.rise subtree node.context

theorem exchanged_self (node : Node) : node.Exchanged node.root := ⟨node.focus, rfl, rfl⟩

-- Every node is written with the number of its kind.
def KindsKnown (node : Node) : Prop := ∀ other ∈ node.wholeTree, other.kind.raw = other.focus.raw

instance (node : Node) : Decidable node.KindsKnown := inferInstanceAs (Decidable (∀ _ ∈ _, _))

theorem kinds_known_of_same_tree (home node : Node) (known : home.KindsKnown) (same : node.SameTree home) :
    node.KindsKnown := by
  rw [KindsKnown, wholeTree, same.1, same.2]
  exact known

theorem kind_known (home node : Node) (known : home.KindsKnown) (same : node.SameTree home) :
    node.kind.raw = node.focus.raw :=
  known node (mem_whole_tree home node same)

theorem frames_known (node : Node) (known : node.KindsKnown) :
    ∀ frame ∈ node.context, (Kind.ofRaw frame.raw).raw = frame.raw := by
  intro frame member
  obtain ⟨inner, outer, split⟩ := List.append_of_mem member
  have above : (⟨node.snapshot, frame.plug (Frame.rise node.focus inner), outer⟩ : Node) ∈ node.ancestors := by
    refine (mem_ancestors _ node).mpr ⟨inner ++ [frame], outer, by simp [split], by simp, ?_⟩
    rw [Frame.rise_append]
    rfl
  exact kind_known node _ known (same_tree_of_ancestor _ node above)

theorem class_scope_above (node : Node) : node.classScope ∈ node.ancestorsOrSelf := by
  unfold classScope
  cases found : node.ancestorsOrSelf.find? (·.kind == .classDecl) with
  | some scope => exact List.mem_of_find?_eq_some found
  | none =>
      have sameTree : (ofRoot node.snapshot node.root).SameTree node := ⟨rfl, rfl⟩
      exact (mem_ancestors_or_self_iff _ node sameTree).mpr ⟨node.path, rfl⟩

theorem class_scope_kind (node : Node) : node.classScope.kind = .classDecl ∨ node.classScope.isRoot := by
  unfold classScope
  cases found : node.ancestorsOrSelf.find? (·.kind == .classDecl) with
  | some scope => exact .inl (by simpa using List.find?_some found)
  | none => exact .inr rfl

theorem class_scope_self (node : Node) (isScope : node.kind = .classDecl ∨ node.isRoot) : node.classScope = node := by
  unfold classScope
  by_cases isClass : node.kind = .classDecl
  · rw [ancestorsOrSelf, List.find?_cons, beq_iff_eq.mpr isClass]
    rfl
  · have isRoot : node.isRoot := isScope.resolve_left isClass
    have top : node.ancestors = [] := by
      rw [ancestors, List.isEmpty_iff.mp isRoot]
      rfl
    rw [ancestorsOrSelf, top, List.find?_cons, beq_eq_false_iff_ne.mpr isClass]
    exact (root_of_is_root node isRoot).symm

theorem strictly_below_scope (scope node : Node) (isScope : scope.kind = .classDecl ∨ scope.isRoot)
    (above : scope ∈ node.ancestorsOrSelf) (other : node.kind ≠ .classDecl) (inner : node.isRoot = false) :
    scope ∈ node.ancestors := by
  rcases List.mem_cons.mp above with rfl | higher
  · rcases isScope with isClass | isRoot
    · exact absurd isClass other
    · rw [inner] at isRoot
      cases isRoot
  · exact higher

end Node

def Plan.Below (plan : Plan) (path : List Nat) : Prop := ∀ entry ∈ plan, ∃ step rest, entry.1 = path ++ step :: rest

theorem into_child (plan : Plan) (frame : Frame) (outer : List Frame) (below : plan.Below (Frame.pathOf (frame :: outer)))
    (rest : List Nat) (edit : Edit) (member : (rest, edit) ∈ plan.below (Frame.pathOf outer)) :
    ∃ step tail, rest = frame.before.length :: step :: tail := by
  obtain ⟨step, tail, entry⟩ := below _ ((Plan.mem_below _ _ _ _).mp member)
  rw [Frame.path_of_cons, List.append_assoc] at entry
  exact ⟨step, tail, List.append_cancel_left entry⟩

theorem below_parent (plan : Plan) (frame : Frame) (outer : List Frame) (below : plan.Below (Frame.pathOf (frame :: outer))) :
    plan.Below (Frame.pathOf outer) := by
  intro entry member
  obtain ⟨step, rest, same⟩ := below entry member
  exact ⟨frame.before.length, step :: rest, by simp [same, Frame.path_of_cons]⟩

theorem frame_rewrite_below (plan : Plan) (frame : Frame) (outer : List Frame)
    (below : plan.Below (Frame.pathOf (frame :: outer))) :
    (frame.rewrite (plan.below (Frame.pathOf outer))).before = frame.before ∧
      (frame.rewrite (plan.below (Frame.pathOf outer))).after = frame.after := by
  have into := into_child plan frame outer below
  have noEdit : frame.edit? (plan.below (Frame.pathOf outer)) = none := by
    rw [Frame.edit?, Plan.edit?, Option.map_eq_none_iff, List.find?_eq_none]
    rintro ⟨rest, edit⟩ member
    obtain ⟨step, tail, rfl⟩ := into rest edit member
    simp
  refine frame_rewrite_alone _ frame ?_ (by rw [noEdit]; rfl) (by rw [noEdit]; rfl)
  intro index other
  refine List.eq_nil_iff_forall_not_mem.mpr ?_
  rintro ⟨rest, edit⟩ member
  obtain ⟨_, _, same⟩ := into _ edit ((Plan.mem_under _ _ _ _).mp member)
  exact other (List.cons.inj same).1

theorem rewrite_all_path (plan : Plan) (context : List Frame) (below : plan.Below (Frame.pathOf context)) :
    Frame.pathOf (Frame.rewriteAll plan context) = Frame.pathOf context := by
  induction context with
  | nil => rfl
  | cons frame outer ih =>
      rw [Frame.rewriteAll, Frame.path_of_cons, Frame.path_of_cons, ih (below_parent plan frame outer below),
        (frame_rewrite_below plan frame outer below).1]

theorem rewrite_all_below (plan : Plan) (context : List Frame) (below : plan.Below (Frame.pathOf context))
    (known : ∀ frame ∈ context, (Kind.ofRaw frame.raw).raw = frame.raw) : Frame.rewriteAll plan context = context := by
  induction context with
  | nil => rfl
  | cons frame outer ih =>
      rw [Frame.rewriteAll, frame_same _ frame (known frame List.mem_cons_self) (frame_rewrite_below plan frame outer below),
        ih (below_parent plan frame outer below) fun frame member => known frame (List.mem_cons_of_mem _ member)]

theorem survives_of_below (plan : Plan) (node : Node) (below : plan.Below node.path) : node.Survives plan := by
  intro path edit within _ planned
  obtain ⟨entry, found, -⟩ := Option.map_eq_some_iff.mp planned
  obtain ⟨step, rest, longer⟩ := below entry (List.mem_of_find?_eq_some found)
  have same : entry.1 = path := by simpa using List.find?_some found
  have lengths := within.length_le
  rw [← same, longer, List.length_append, List.length_cons] at lengths
  omega

theorem rewrite_below (plan : Plan) (node : Node) (below : plan.Below node.path)
    (known : ∀ frame ∈ node.context, (Kind.ofRaw frame.raw).raw = frame.raw) :
    node.root.rewrite plan = Frame.rise (node.focus.rewrite (plan.below node.path)) node.context := by
  rw [← Node.rewritten_root plan node (survives_of_below plan node below)]
  show Frame.rise _ (Frame.rewriteAll plan node.context) = _
  rw [rewrite_all_below plan node.context below known]
  rfl

section
variable (frame : Frame) (outer : List Frame) (tree : Tree) (plan : Plan)
  (single : plan = [(Frame.pathOf (frame :: outer), .replace [tree])])
include single

theorem exchange_below : plan.Below (Frame.pathOf outer) := by
  intro entry member
  rw [single] at member
  rw [List.mem_singleton.mp member, Frame.path_of_cons]
  exact ⟨frame.before.length, [], rfl⟩

theorem exchange_here : frame.edit? (plan.below (Frame.pathOf outer)) = some (.replace [tree]) := by
  rw [Frame.edit?, Plan.edit_below, single, Frame.path_of_cons, Plan.edit?]
  simp

theorem exchange_around : (frame.rewrite (plan.below (Frame.pathOf outer))).before = frame.before ∧
    (frame.rewrite (plan.below (Frame.pathOf outer))).after = frame.after := by
  have here := exchange_here frame outer tree plan single
  refine frame_rewrite_alone _ frame ?_ (by rw [here]; rfl) (by rw [here]; rfl)
  intro index other
  refine List.eq_nil_iff_forall_not_mem.mpr ?_
  rintro ⟨rest, edit⟩ member
  have entry := (Plan.mem_below _ _ _ _).mp ((Plan.mem_under _ _ _ _).mp member)
  rw [single, List.mem_singleton, Frame.path_of_cons] at entry
  exact other (List.cons.inj (List.append_cancel_left (congrArg Prod.fst entry))).1

end

theorem exchange_stands (node : Node) (tree : Tree) (inner : node.isRoot = false) :
    (node.inPlace [(node.path, .replace [tree])] tree).root = node.root.rewrite [(node.path, .replace [tree])] ∧
      (node.inPlace [(node.path, .replace [tree])] tree).path = node.path := by
  obtain ⟨snapshot, focus, context⟩ := node
  cases context with
  | nil => cases inner
  | cons frame outer =>
      obtain ⟨plan, single⟩ : ∃ plan : Plan, plan = [(Frame.pathOf (frame :: outer), .replace [tree])] := ⟨_, rfl⟩
      have below := exchange_below frame outer tree plan single
      have here := exchange_here frame outer tree plan single
      have survives : Node.Survives plan ⟨snapshot, frame.plug focus, outer⟩ := survives_of_below plan _ below
      show (Node.inPlace [(Frame.pathOf (frame :: outer), .replace [tree])] _ tree).root = _ ∧
        (Node.inPlace [(Frame.pathOf (frame :: outer), .replace [tree])] _ tree).path = _
      rw [Node.path_eq, ← single]
      constructor
      · refine Node.in_place_root plan ⟨snapshot, focus, frame :: outer⟩ _ tree rfl survives ?_
        rw [Frame.edit?, Plan.edit_below] at here
        rw [Node.parent_path ⟨snapshot, focus, frame :: outer⟩ frame outer rfl, here]
        rfl
      · show Frame.pathOf (frame.rewrite (plan.below (Frame.pathOf outer)) :: Frame.rewriteAll plan outer) =
          Frame.pathOf (frame :: outer)
        rw [Frame.path_of_cons, Frame.path_of_cons, rewrite_all_path plan outer below,
          (exchange_around frame outer tree plan single).1]

theorem rewrite_single (node : Node) (tree : Tree) (inner : node.isRoot = false)
    (known : ∀ frame ∈ node.context, (Kind.ofRaw frame.raw).raw = frame.raw) :
    node.root.rewrite [(node.path, .replace [tree])] = Frame.rise tree node.context := by
  rw [← (exchange_stands node tree inner).1]
  obtain ⟨snapshot, focus, context⟩ := node
  cases context with
  | nil => cases inner
  | cons frame outer =>
      obtain ⟨plan, single⟩ : ∃ plan : Plan, plan = [(Frame.pathOf (frame :: outer), .replace [tree])] := ⟨_, rfl⟩
      show (Node.inPlace [(Frame.pathOf (frame :: outer), .replace [tree])] _ tree).root = _
      rw [← single]
      show Frame.rise tree (frame.rewrite (plan.below (Frame.pathOf outer)) :: Frame.rewriteAll plan outer) = _
      rw [frame_same _ frame (known frame List.mem_cons_self) (exchange_around frame outer tree plan single),
        rewrite_all_below plan outer (exchange_below frame outer tree plan single)
          fun outside member => known outside (List.mem_cons_of_mem _ member)]

namespace Session

theorem plan_inner (session next : Session) (target : Node) (edit : Edit) (planned : session.plan target edit = .ok next) :
    target.isRoot = false := by
  unfold plan at planned
  split at planned
  · cases planned
  · split at planned
    · cases planned
    · rename_i inner
      simpa using inner

structure StaysIn (scope : Node) (session : Session) : Prop where
  root : session.root = scope.root
  edits : session.edits.Below scope.path

theorem stays_in_start (scope home : Node) (same : scope.SameTree home) : (start home).StaysIn scope :=
  ⟨same.2.symm, by intro entry member; cases member⟩

theorem stays_in_plan (scope : Node) (session next : Session) (target : Node) (edit : Edit) (stays : session.StaysIn scope)
    (below : scope ∈ target.ancestors) (planned : session.plan target edit = .ok next) : next.StaysIn scope := by
  rw [plan_ok session next target edit planned]
  refine ⟨stays.root, ?_⟩
  intro entry member
  rcases List.mem_append.mp member with old | fresh
  · exact stays.edits entry old
  · rw [List.mem_singleton.mp fresh]
    exact Node.path_of_ancestor scope target below

theorem stays_in_plan_of_scope (scope : Node) (isScope : scope.kind = .classDecl ∨ scope.isRoot) (session next : Session)
    (target : Node) (edit : Edit) (stays : session.StaysIn scope) (above : scope ∈ target.ancestorsOrSelf)
    (other : target.kind ≠ .classDecl) (planned : session.plan target edit = .ok next) : next.StaysIn scope :=
  stays_in_plan scope session next target edit stays
    (Node.strictly_below_scope scope target isScope above other (plan_inner session next target edit planned)) planned

theorem stays_in_run (scope : Node) (history : List Request) (below : ∀ request ∈ history, scope ∈ request.target.ancestors) :
    ((start scope).run history).StaysIn scope := by
  have reached := reached_history scope history
  refine ⟨reached.root, ?_⟩
  intro entry member
  rw [reached.edits] at member
  obtain ⟨request, planned, rfl⟩ := List.mem_map.mp member
  exact Node.path_of_ancestor scope request.target (below request (mem_accepted _ _ _ planned))

theorem stays_in_stands (scope : Node) (session : Session) (stays : session.StaysIn scope) :
    (scope.rewritten session.edits).root = session.apply ∧ (scope.rewritten session.edits).path = scope.path := by
  refine ⟨?_, rewrite_all_path _ _ stays.edits⟩
  rw [Node.rewritten_root _ scope (survives_of_below _ scope stays.edits), apply, stays.root]

theorem stays_in_apply (scope : Node) (known : scope.KindsKnown) (session : Session) (stays : session.StaysIn scope) :
    scope.Exchanged session.apply := by
  refine ⟨scope.focus.rewrite (session.edits.below scope.path), ?_, ?_⟩
  · have own : scope.kind.raw = scope.focus.raw := Node.kind_known scope scope known ⟨rfl, rfl⟩
    unfold Tree.rewrite
    split
    · exact own
    · rfl
  · rw [apply, stays.root]
    exact rewrite_below session.edits scope stays.edits (Node.frames_known scope known)

theorem stays_in_apply_if_any (scope : Node) (known : scope.KindsKnown) (session : Session) (result : Tree)
    (stays : session.StaysIn scope) (applied : session.applyIfAny = some result) : scope.Exchanged result := by
  unfold applyIfAny at applied
  split at applied
  · cases applied
  · cases applied
    exact stays_in_apply scope known session stays

end Session

end SmellCheck
