import SmellCheck.Detect.Finding
import SmellCheck.Proofs.Descent

/-!
Spots: the trees at and below a place, each with whether a method is around it. What is asked of a
class when its literals get names is asked of its spots, so it does not depend on where the class is,
apart from the methods around it.
-/

set_option autoImplicit false

namespace SmellCheck

namespace Node

def inMethod (node : Node) : Bool := (node.ancestorOfKind? .methodDecl).isSome

theorem in_method_of_ancestors (node : Node) : node.inMethod = node.ancestors.any (·.kind == .methodDecl) := by
  rw [inMethod, ancestorOfKind?, Bool.eq_iff_iff, List.find?_isSome, List.any_eq_true]

theorem in_method_of_child (node child : Node) (isChild : child ∈ node.children) :
    child.inMethod = (node.inMethod || node.kind == .methodDecl) := by
  rw [in_method_of_ancestors, in_method_of_ancestors, ancestors_of_parent child node (parent_of_child node child isChild),
    List.any_cons, Bool.or_comm]

theorem in_method_of_context (node : Node) :
    node.inMethod = node.context.any fun frame => Kind.ofRaw frame.raw == .methodDecl := by
  obtain ⟨snapshot, focus, context⟩ := node
  rw [in_method_of_ancestors]
  dsimp only [ancestors]
  induction context generalizing focus with
  | nil => rfl
  | cons frame outer ih =>
      rw [ancestorsFrom, List.any_cons, List.any_cons, ih]
      rfl

end Node

-- The second tree is a spot of the first one; each comes with whether a method is around it.
inductive Tree.Spot : Bool → Tree → Bool → Tree → Prop where
  | here (inMethod : Bool) (tree : Tree) : Spot inMethod tree inMethod tree
  | inside (inMethod : Bool) (tree part : Tree) (inMethod' : Bool) (spot : Tree) (isPart : part ∈ tree.subtrees)
      (deeper : Spot (inMethod || tree.kind == .methodDecl) part inMethod' spot) : Spot inMethod tree inMethod' spot

theorem Tree.spot_iff (inMethod : Bool) (tree : Tree) (inMethod' : Bool) (spot : Tree) :
    Spot inMethod tree inMethod' spot ↔ (inMethod' = inMethod ∧ spot = tree) ∨
      ∃ part ∈ tree.subtrees, Spot (inMethod || tree.kind == .methodDecl) part inMethod' spot := by
  constructor
  · intro isSpot
    cases isSpot with
    | here => exact .inl ⟨rfl, rfl⟩
    | inside _ _ part _ _ isPart deeper => exact .inr ⟨part, isPart, deeper⟩
  · rintro (⟨rfl, rfl⟩ | ⟨part, isPart, deeper⟩)
    · exact .here _ _
    · exact .inside _ _ part _ _ isPart deeper

theorem Tree.spot_trans (first second third : Bool) (tree part spot : Tree) (outer : Spot first tree second part)
    (inner : Spot second part third spot) : Spot first tree third spot := by
  induction outer with
  | here => exact inner
  | inside _ _ middle _ _ isPart _ ih => exact .inside _ _ middle _ _ isPart (ih inner)

namespace Node

def Spot (node : Node) (inMethod : Bool) (spot : Tree) : Prop := Tree.Spot node.inMethod node.focus inMethod spot

theorem spot_of_below (node below : Node) (member : below ∈ node.descendantsOrSelf) :
    node.Spot below.inMethod below.focus := by
  induction node using induction_down with
  | step node ih =>
      rcases List.mem_cons.mp member with rfl | deeper
      · exact .here _ _
      · obtain ⟨child, isChild, within⟩ := (mem_descendants _ _).mp deeper
        have isPart : child.focus ∈ node.focus.subtrees := (mem_subtrees_iff _ _).mpr ⟨child, isChild, rfl⟩
        have inChild := ih child isChild within
        rw [Spot, in_method_of_child node child isChild] at inChild
        exact .inside _ _ _ _ _ isPart inChild

theorem below_of_spot (node : Node) (inMethod : Bool) (spot : Tree) (isSpot : node.Spot inMethod spot) :
    ∃ below ∈ node.descendantsOrSelf, below.inMethod = inMethod ∧ below.focus = spot := by
  unfold Spot at isSpot
  generalize flag : node.inMethod = around at isSpot
  generalize tree : node.focus = whole at isSpot
  induction isSpot generalizing node with
  | here => exact ⟨node, List.mem_cons_self, flag, tree⟩
  | inside around whole part _ _ isPart _ ih =>
      rw [← tree] at isPart
      obtain ⟨child, isChild, focus⟩ := (mem_subtrees_iff _ _).mp isPart
      have childFlag : child.inMethod = (around || whole.kind == .methodDecl) := by
        rw [in_method_of_child node child isChild, flag, ← tree]
        rfl
      obtain ⟨below, within, found⟩ := ih child childFlag focus
      exact ⟨below, List.mem_cons_of_mem _ ((mem_descendants _ _).mpr ⟨child, isChild, within⟩), found⟩

end Node

theorem child_of_kind_focus (node : Node) (kind : Kind) :
    (node.childOfKind? kind).map Node.focus = node.focus.subtrees.find? (·.kind == kind) := by
  rw [← Node.children_focus, List.find?_map]
  rfl

theorem children_of_kind_focus (node : Node) (kind : Kind) :
    (node.childrenOfKind kind).map Node.focus = node.focus.subtrees.filter (·.kind == kind) := by
  rw [← Node.children_focus, List.filter_map]
  rfl

theorem first_child_focus (node : Node) : node.firstChild?.map Node.focus = node.focus.subtrees.head? := by
  rw [← Node.children_focus, List.head?_map]
  rfl

def Tree.tokenTexts (tree : Tree) (kind : Kind) : List String := tree.children.filterMap (Element.tokenText? kind)

def Tree.modifiers (tree : Tree) : List String :=
  (tree.subtrees.find? (·.kind == .modifierList)).elim [] (·.tokenTexts .keyword)

theorem modifiers_focus (node : Node) : node.modifiers = node.focus.modifiers := by
  rw [Tree.modifiers, ← child_of_kind_focus, Node.modifiers]
  cases node.childOfKind? .modifierList <;> rfl

end SmellCheck
