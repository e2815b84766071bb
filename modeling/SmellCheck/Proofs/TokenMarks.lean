import Mathlib.Data.List.Basic
import SmellCheck.Proofs.Conservation

/-!
Marks on the tokens of a tree. When nodes give way to a part of what they hold, each token of the tree
stays or goes. A node that leaves nothing takes one whitespace token with it: the nearest one before it
that still stays and has nothing that stays after it, else the one right after it. The tokens that are
marked to stay are, in order, the tokens of the rewritten tree.
-/

set_option autoImplicit false

namespace SmellCheck

abbrev Leaf := Kind × String

abbrev Marks := List (Leaf × Bool)

namespace Marks

def all (stays : Bool) (leaves : List Leaf) : Marks := leaves.map (·, stays)

def leaves (marks : Marks) : List Leaf := marks.map Prod.fst

def staying (marks : Marks) : List Leaf := (marks.filter (·.2)).map Prod.fst

theorem leaves_all (stays : Bool) (leaves : List Leaf) : (all stays leaves).leaves = leaves := by
  rw [Marks.leaves, all, List.map_map]
  exact List.map_id _

theorem staying_all_true (leaves : List Leaf) : (all true leaves).staying = leaves := by
  induction leaves with
  | nil => rfl
  | cons leaf rest ih => exact congrArg (List.cons leaf) ih

theorem staying_all_false (leaves : List Leaf) : (all false leaves).staying = [] := by
  induction leaves with
  | nil => rfl
  | cons leaf rest ih => exact ih

theorem leaves_append (front back : Marks) : (front ++ back).leaves = front.leaves ++ back.leaves := List.map_append

theorem staying_append (front back : Marks) : (front ++ back).staying = front.staying ++ back.staying := by
  rw [staying, List.filter_append, List.map_append]
  rfl

end Marks

mutual
def Element.leaves : Element → List Leaf
  | .token raw text => [(Kind.ofRaw raw, text)]
  | .node _ children => Forest.leaves children

def Forest.leaves : List Element → List Leaf
  | [] => []
  | element :: rest => element.leaves ++ Forest.leaves rest
end

def Tree.leaves (tree : Tree) : List Leaf := Forest.leaves tree.children

theorem forest_leaves_append (front back : List Element) :
    Forest.leaves (front ++ back) = Forest.leaves front ++ Forest.leaves back := by
  induction front with
  | nil => rfl
  | cons element rest ih => rw [List.cons_append, Forest.leaves, Forest.leaves, ih, List.append_assoc]

-- What goes before, what stays and what goes after, where a node gives way to a part of what it holds.
structure Cut where
  before : List Element
  contents : List Element
  after : List Element

namespace Cut

def leaves (cut : Cut) : List Leaf := Forest.leaves (cut.before ++ cut.contents ++ cut.after)

def marks (cut : Cut) : Marks :=
  .all false (Forest.leaves cut.before) ++ .all true (Forest.leaves cut.contents) ++ .all false (Forest.leaves cut.after)

def edit (cut : Cut) : Edit := if cut.contents.isEmpty then .remove else .splice cut.contents

structure Of (element : Element) (cut : Cut) : Prop where
  leaves : cut.leaves = element.leaves
  trimmed : Written.Firm cut.contents.reverse

theorem leaves_marks (cut : Cut) : cut.marks.leaves = cut.leaves := by
  simp only [marks, Marks.leaves_append, Marks.leaves_all, Cut.leaves, forest_leaves_append]

theorem staying_marks (cut : Cut) : cut.marks.staying = Forest.leaves cut.contents := by
  simp only [marks, Marks.staying_append, Marks.staying_all_true, Marks.staying_all_false, List.nil_append, List.append_nil]

end Cut

structure Passed where
  marks : Marks
  isSpace : Bool
  stays : Bool

def Passed.final (passed : Passed) : Marks := if passed.stays then passed.marks else .all false passed.marks.leaves

-- The children that were passed, last first, and whether a removal still waits for its white space.
structure Trail where
  passed : List Passed
  awaitsSpace : Bool

namespace Trail

def take : List Passed → Option (List Passed)
  | [] => none
  | last :: front =>
      if last.stays then if last.isSpace then some ({ last with stays := false } :: front) else none
      else (take front).map (last :: ·)

def solid (trail : Trail) (marks : Marks) : Trail := ⟨⟨marks, false, true⟩ :: trail.passed, false⟩

def space (trail : Trail) (leaf : Leaf) : Trail := ⟨⟨[(leaf, true)], true, !trail.awaitsSpace⟩ :: trail.passed, false⟩

def removal (trail : Trail) (marks : Marks) : Trail :=
  match take trail.passed with
  | some passed => ⟨⟨marks, false, false⟩ :: passed, false⟩
  | none => ⟨⟨marks, false, false⟩ :: trail.passed, true⟩

def cut (trail : Trail) (cut : Cut) : Trail :=
  if cut.contents.isEmpty then trail.removal cut.marks else trail.solid cut.marks

def marks (trail : Trail) : Marks := trail.passed.reverse.flatMap Passed.final

end Trail

mutual
def Element.marks (goes : List Nat → Bool) (cut : Element → Cut) : Element → Marks
  | .token raw text => [((Kind.ofRaw raw, text), true)]
  | .node _ children => (Forest.trail goes cut 0 ⟨[], false⟩ children).marks

def Forest.trail (goes : List Nat → Bool) (cut : Element → Cut) (index : Nat) (trail : Trail) : List Element → Trail
  | [] => trail
  | element :: rest =>
      let marks := element.marks (fun path => goes (index :: path)) cut
      let next := match element with
        | .token raw text =>
            if Kind.ofRaw raw = .whitespace then trail.space (Kind.ofRaw raw, text) else trail.solid marks
        | .node .. => if goes [index] then trail.cut (cut element) else trail.solid marks
      Forest.trail goes cut (index + 1) next rest
end

def Tree.marks (goes : List Nat → Bool) (cut : Element → Cut) (tree : Tree) : Marks := tree.toElement.marks goes cut

namespace Trail

theorem take_marks (passed taken : List Passed) (found : take passed = some taken) :
    taken.map Passed.marks = passed.map Passed.marks := by
  induction passed generalizing taken with
  | nil => cases found
  | cons last front ih =>
      rw [take] at found
      split at found
      · split at found
        · cases found
          rfl
        · cases found
      · obtain ⟨rest, earlier, rfl⟩ := Option.map_eq_some_iff.mp found
        exact congrArg (List.cons last.marks) (ih rest earlier)

theorem leaves_marks (trail : Trail) : trail.marks.leaves = (trail.passed.map Passed.marks).reverse.flatMap Marks.leaves := by
  have final : ∀ passed : Passed, passed.final.leaves = passed.marks.leaves := by
    intro passed
    rw [Passed.final]
    split
    · rfl
    · exact Marks.leaves_all _ _
  rw [marks, Marks.leaves, List.map_flatMap, ← List.map_reverse, List.flatMap_map]
  exact List.flatMap_congr fun passed _ => final passed

theorem leaves_solid (trail : Trail) (marks : Marks) : (trail.solid marks).marks.leaves = trail.marks.leaves ++ marks.leaves := by
  rw [leaves_marks, leaves_marks]
  simp [solid]

theorem leaves_space (trail : Trail) (leaf : Leaf) : (trail.space leaf).marks.leaves = trail.marks.leaves ++ [leaf] := by
  rw [leaves_marks, leaves_marks]
  simp [space, Marks.leaves]

theorem leaves_removal (trail : Trail) (marks : Marks) : (trail.removal marks).marks.leaves = trail.marks.leaves ++ marks.leaves := by
  rw [leaves_marks, leaves_marks]
  unfold removal
  split
  · rename_i taken found
    simp [take_marks _ _ found]
  · simp

theorem leaves_cut (trail : Trail) (cut : Cut) : (trail.cut cut).marks.leaves = trail.marks.leaves ++ cut.leaves := by
  unfold Trail.cut
  split
  · rw [leaves_removal, cut.leaves_marks]
  · rw [leaves_solid, cut.leaves_marks]

end Trail

mutual
theorem element_marks_leaves (cut : Element → Cut) (sound : ∀ element, element.isNode → (cut element).Of element)
    (goes : List Nat → Bool) : (element : Element) → (element.marks goes cut).leaves = element.leaves
  | .token raw text => rfl
  | .node raw children => by
      rw [Element.marks, Element.leaves]
      exact forest_trail_leaves cut sound goes 0 children ⟨[], false⟩

theorem forest_trail_leaves (cut : Element → Cut) (sound : ∀ element, element.isNode → (cut element).Of element)
    (goes : List Nat → Bool) (index : Nat) : (forest : List Element) → (trail : Trail) →
    (Forest.trail goes cut index trail forest).marks.leaves = trail.marks.leaves ++ Forest.leaves forest
  | [], trail => by rw [Forest.trail, Forest.leaves, List.append_nil]
  | .token raw text :: rest, trail => by
      rw [Forest.trail, forest_trail_leaves cut sound goes (index + 1) rest, Forest.leaves, ← List.append_assoc]
      congr 1
      split
      · exact trail.leaves_space _
      · exact trail.leaves_solid _
  | .node raw children :: rest, trail => by
      rw [Forest.trail, forest_trail_leaves cut sound goes (index + 1) rest, Forest.leaves, ← List.append_assoc]
      congr 1
      split
      · rw [trail.leaves_cut, (sound _ rfl).leaves]
      · rw [trail.leaves_solid, element_marks_leaves cut sound (fun path => goes (index :: path)) (.node raw children)]
end

-- The elements that have been written, last first, after the children of a trail. A part that is written
-- does not end in white space, so only a child that is white space can be taken back.
inductive Follows : List Passed → List Element → Prop
  | nil : Follows [] []
  | gone (last : Passed) (front : List Passed) (elements : List Element) : last.stays = false → Follows front elements →
      Follows (last :: front) elements
  | space (raw : RawKind) (text : String) (front : List Passed) (elements : List Element) :
      Kind.ofRaw raw = .whitespace → Follows front elements →
      Follows (⟨[((Kind.ofRaw raw, text), true)], true, true⟩ :: front) (.token raw text :: elements)
  | solid (marks : Marks) (part : List Element) (front : List Passed) (elements : List Element) : part ≠ [] →
      Written.Firm part.reverse → marks.staying = Forest.leaves part → Follows front elements →
      Follows (⟨marks, false, true⟩ :: front) (part.reverse ++ elements)

theorem firm_append (front back : List Element) (some : front ≠ []) (firm : Written.Firm front) : Written.Firm (front ++ back) := by
  cases front with
  | nil => exact absurd rfl some
  | cons element rest => exact firm

theorem follows_take (passed : List Passed) (elements : List Element) (follows : Follows passed elements) :
    (∀ taken, Trail.take passed = some taken →
      ∃ token rest, elements = token :: rest ∧ token.isWhitespaceToken ∧ Follows taken rest) ∧
    (Trail.take passed = none → Written.Firm elements) := by
  induction follows with
  | nil => exact ⟨nofun, fun _ => nofun⟩
  | gone last front elements goes follows ih =>
      rw [Trail.take, if_neg (by simp [goes])]
      constructor
      · intro taken found
        obtain ⟨rest, earlier, rfl⟩ := Option.map_eq_some_iff.mp found
        obtain ⟨token, others, same, white, follows⟩ := ih.1 rest earlier
        exact ⟨token, others, same, white, .gone last rest others goes follows⟩
      · exact fun found => ih.2 (Option.map_eq_none_iff.mp found)
  | space raw text front elements white follows _ =>
      rw [Trail.take, if_pos rfl, if_pos rfl]
      refine ⟨?_, nofun⟩
      rintro taken ⟨⟩
      exact ⟨_, elements, rfl, beq_iff_eq.mpr white, .gone _ front elements rfl follows⟩
  | solid marks part front elements some firm staying follows _ =>
      rw [Trail.take, if_pos rfl, if_neg Bool.false_ne_true]
      exact ⟨nofun, fun _ => firm_append _ _ (by simpa using some) firm⟩

theorem follows_leaves (passed : List Passed) (elements : List Element) (follows : Follows passed elements) :
    Marks.staying (passed.reverse.flatMap Passed.final) = Forest.leaves elements.reverse := by
  induction follows with
  | nil => rfl
  | gone last front elements goes follows ih =>
      rw [List.reverse_cons, List.flatMap_append, Marks.staying_append, ih, List.flatMap_singleton, Passed.final,
        if_neg (by simp [goes]), Marks.staying_all_false, List.append_nil]
  | space raw text front elements white follows ih =>
      rw [List.reverse_cons, List.flatMap_append, Marks.staying_append, ih, List.reverse_cons, forest_leaves_append]
      rfl
  | solid marks part front elements some firm staying follows ih =>
      rw [List.reverse_cons, List.flatMap_append, Marks.staying_append, ih, List.reverse_append, forest_leaves_append,
        List.reverse_reverse, List.flatMap_singleton, Passed.final, if_pos rfl, staying]

structure Trail.Written (trail : Trail) (written : SmellCheck.Written) : Prop where
  follows : Follows trail.passed written.elements
  awaits : trail.awaitsSpace = written.awaitsSpace

section
variable {trail : Trail} {written : Written} (kept : trail.Written written)
include kept

theorem solid_written (marks : Marks) (part : List Element) (some : part ≠ []) (firm : Written.Firm part.reverse)
    (staying : marks.staying = Forest.leaves part) : (trail.solid marks).Written (written.write part) :=
  ⟨.solid marks part _ _ some firm staying kept.follows, rfl⟩

theorem element_written (marks : Marks) (element : Element) (solid : element.isWhitespaceToken = false)
    (staying : marks.staying = element.leaves) : (trail.solid marks).Written (written.write [element]) := by
  refine solid_written kept marks [element] (by simp) ?_ (by rw [staying, Forest.leaves, Forest.leaves, List.append_nil])
  intro last isLast
  obtain rfl : element = last := Option.some.inj isLast
  exact solid

theorem space_written (raw : RawKind) (text : String) (white : Kind.ofRaw raw = .whitespace) :
    (trail.space (Kind.ofRaw raw, text)).Written (written.token (.token raw text)) := by
  have isSpace : (Element.token raw text).isWhitespaceToken := beq_iff_eq.mpr white
  cases waits : trail.awaitsSpace with
  | true =>
      rw [Written.token, if_pos (by rw [← kept.awaits, waits, isSpace]; rfl), Trail.space, waits]
      exact ⟨.gone _ _ _ rfl kept.follows, rfl⟩
  | false =>
      rw [Written.token, if_neg (by rw [← kept.awaits, waits]; exact Bool.false_ne_true), Trail.space, waits]
      exact ⟨.space raw text _ _ white kept.follows, rfl⟩

theorem removal_written (marks : Marks) : (trail.removal marks).Written written.removal := by
  obtain ⟨elements, awaits⟩ := written
  obtain ⟨taken, firm⟩ := follows_take _ _ kept.follows
  unfold Trail.removal
  split
  · rename_i passed found
    obtain ⟨token, rest, same, white, follows⟩ := taken passed found
    obtain rfl : elements = token :: rest := same
    -- The white space that is marked is the one on top of what is written.
    rw [Written.removal]
    dsimp only
    rw [if_pos white]
    exact ⟨.gone _ _ _ rfl follows, rfl⟩
  · rename_i nothing
    have follows : Follows (⟨marks, false, false⟩ :: trail.passed) elements := .gone _ _ _ rfl kept.follows
    cases elements with
    | nil => exact ⟨follows, rfl⟩
    | cons last front =>
        -- With nothing to take in the trail, there is no white space on top either: both wait.
        have solid : last.isWhitespaceToken = false := firm nothing last rfl
        rw [Written.removal]
        dsimp only
        rw [solid, if_neg Bool.false_ne_true]
        exact ⟨follows, rfl⟩

theorem cut_written (cut : Cut) (element rewritten : Element) (separator : String) (sound : cut.Of element) :
    (trail.cut cut).Written (written.child separator (some cut.edit) rewritten) := by
  unfold Trail.cut Cut.edit
  split
  · exact removal_written kept _
  · rename_i some
    exact solid_written kept _ _ (by simpa using some) sound.trimmed cut.staying_marks

end

def Plan.Cuts (plan : Plan) (goes : List Nat → Bool) (cut : Element → Cut) (index : Nat) (forest : List Element) : Prop :=
  ∀ offset path child target, forest[offset]? = some child → child.at? path = some target → target.isNode →
    plan.edit? ((index + offset) :: path) = if goes ((index + offset) :: path) then some (cut target).edit else none

section
variable {plan : Plan} {goes : List Nat → Bool} {cut : Element → Cut} {index : Nat}

theorem cuts_first (element : Element) (rest : List Element) (cuts : plan.Cuts goes cut index (element :: rest)) (isNode : element.isNode) :
    (plan.under index).here? = if goes [index] then some (cut element).edit else none := by
  rw [Plan.here_eq, Plan.edit_under]
  exact cuts 0 [] element element rfl rfl isNode

theorem cuts_inside (raw : RawKind) (children rest : List Element) (cuts : plan.Cuts goes cut index (.node raw children :: rest)) :
    (plan.under index).Cuts (fun path => goes (index :: path)) cut 0 children := by
  intro offset path child target isChild found isNode
  rw [Plan.edit_under, Nat.zero_add]
  exact cuts 0 (offset :: path) (.node raw children) target rfl (Option.bind_eq_some_iff.mpr ⟨child, isChild, found⟩) isNode

theorem cuts_rest (element : Element) (rest : List Element) (cuts : plan.Cuts goes cut index (element :: rest)) :
    plan.Cuts goes cut (index + 1) rest := by
  intro offset path child target isChild found isNode
  rw [Nat.add_right_comm, Nat.add_assoc]
  exact cuts (offset + 1) path child target isChild found isNode

end

theorem token_of_rewrite (plan : Plan) (raw : RawKind) (children : List Element) :
    ((Element.node raw children).rewrite plan).isWhitespaceToken = false := by
  obtain ⟨raw', -, shape⟩ := element_rewrite_shape plan raw children
  rw [shape]
  rfl

mutual
theorem element_marks_staying (cut : Element → Cut) (sound : ∀ element, element.isNode → (cut element).Of element)
    (plan : Plan) (goes : List Nat → Bool) : (element : Element) →
    (∀ raw children, element = .node raw children → plan.Cuts goes cut 0 children) →
    (element.marks goes cut).staying = (element.rewrite plan).leaves
  | .token raw text, _ => rfl
  | .node raw children, cuts => by
      obtain ⟨raw', -, shape⟩ := element_rewrite_shape plan raw children
      have start : (⟨[], false⟩ : Trail).Written ⟨[], false⟩ := ⟨.nil, rfl⟩
      have written := forest_trail_written cut sound plan goes 0 none children (cuts raw children rfl) _ _ start
      rw [shape, Element.marks, Element.leaves]
      exact follows_leaves _ _ written.follows

theorem forest_trail_written (cut : Element → Cut) (sound : ∀ element, element.isNode → (cut element).Of element)
    (plan : Plan) (goes : List Nat → Bool) (index : Nat) (before? : Option Element) : (forest : List Element) →
    plan.Cuts goes cut index forest → (trail : Trail) → (written : Written) → trail.Written written →
    (Forest.trail goes cut index trail forest).Written (Forest.written plan index before? written forest)
  | [], _, _, _, kept => kept
  | .token raw text :: rest, cuts, trail, written, kept => by
      rw [Forest.trail, Forest.written]
      refine forest_trail_written cut sound plan goes (index + 1) _ rest (cuts_rest _ rest cuts) _ _ ?_
      show Trail.Written _ (written.token (.token raw text))
      by_cases white : Kind.ofRaw raw = .whitespace
      · rw [if_pos white]
        exact space_written kept raw text white
      · have solid : (Element.token raw text).isWhitespaceToken = false := beq_eq_false_iff_ne.mpr white
        rw [if_neg white, Written.token, solid, Bool.and_false, if_neg Bool.false_ne_true]
        exact element_written kept _ _ solid rfl
  | .node raw children :: rest, cuts, trail, written, kept => by
      rw [Forest.trail, Forest.written]
      refine forest_trail_written cut sound plan goes (index + 1) _ rest (cuts_rest _ rest cuts) _ _ ?_
      show Trail.Written _ (written.child _ (plan.under index).here? ((Element.node raw children).rewrite (plan.under index)))
      rw [cuts_first _ rest cuts rfl]
      cases goes [index] with
      | true => exact cut_written kept _ _ _ _ (sound _ rfl)
      | false =>
          have inside := cuts_inside raw children rest cuts
          refine element_written kept _ _ ?_ (element_marks_staying cut sound (plan.under index) _ (.node raw children)
            fun raw' children' same => by cases same; exact inside)
          exact token_of_rewrite _ _ _
end

theorem tree_marks (cut : Element → Cut) (sound : ∀ element, element.isNode → (cut element).Of element) (plan : Plan)
    (goes : List Nat → Bool) (tree : Tree) (cuts : plan.Cuts goes cut 0 tree.children) :
    (tree.marks goes cut).leaves = tree.leaves ∧ (tree.marks goes cut).staying = (tree.rewrite plan).leaves := by
  refine ⟨element_marks_leaves cut sound goes tree.toElement, ?_⟩
  have staying := element_marks_staying cut sound plan goes tree.toElement fun raw children same => by
    cases same
    exact cuts
  rw [← tree_rewrite_to_element] at staying
  exact staying

end SmellCheck
