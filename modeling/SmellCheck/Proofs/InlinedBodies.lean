import SmellCheck.Proofs.Descent
import SmellCheck.Proofs.ReturningBodies

/-!
Trees without lambda bodies that only return. Such a tree is left as it is by inlining, and inlining
gives such a tree, provided that no return statement returns a block: then an expression that moves up
is never a body itself.
-/

set_option autoImplicit false

namespace SmellCheck

def Tree.Settled (tree : Tree) : Prop := tree.toElement.hasReturningBody = false

theorem forest_settled_iff (inLambda : Bool) (forest : List Element) :
    Forest.hasReturningBody inLambda forest = false ↔
      ∀ tree ∈ forest.filterMap Element.asNode?, tree.Settled ∧ (inLambda → tree.returned? = none) := by
  induction forest with
  | nil => simp [Forest.hasReturningBody]
  | cons element rest ih =>
      rw [Forest.hasReturningBody, Bool.or_eq_false_iff, ih]
      cases element with
      | token _ _ => simp [Element.returned?, Element.asNode?, Element.hasReturningBody]
      | node raw children =>
          rw [List.filterMap_cons, show (Element.node raw children).asNode? = some ⟨raw, children⟩ from rfl,
            List.forall_mem_cons]
          refine and_congr_left fun _ => ?_
          cases inLambda <;> simp [Element.returned?, Element.asNode?, Tree.Settled, Tree.toElement, and_comm]

theorem settled_iff (tree : Tree) :
    tree.Settled ↔ ∀ part ∈ tree.subtrees, part.Settled ∧ (tree.kind.isLambda → part.returned? = none) :=
  forest_settled_iff tree.kind.isLambda tree.children

theorem returned_none_iff (block : Tree) :
    block.returned? = none ↔ ¬ (block.kind = .block ∧
      ∃ statement, block.subtrees = [statement] ∧ statement.kind = .returnStmt ∧ statement.subtrees ≠ []) := by
  rw [Option.eq_none_iff_forall_ne_some]
  constructor
  · rintro other ⟨isBlock, statement, only, isReturn, some⟩
    obtain ⟨expression, rest, split⟩ := List.exists_cons_of_ne_nil some
    exact other expression ((returned_iff _ _).mpr ⟨isBlock, statement, only, isReturn, by rw [split]; rfl⟩)
  · intro other expression returned
    obtain ⟨isBlock, statement, only, isReturn, first⟩ := (returned_iff _ _).mp returned
    refine other ⟨isBlock, statement, only, isReturn, ?_⟩
    intro none
    rw [none] at first
    cases first

theorem returned_of_other (tree : Tree) (other : tree.kind ≠ .block) : tree.returned? = none :=
  (returned_none_iff tree).mpr fun body => other body.1

def Tree.inlineBody (inLambda : Bool) (tree : Tree) : Tree := if inLambda then tree.returned?.getD tree else tree

section
variable (change : Tree → Tree) (sameKind : ∀ tree, (change tree).kind = tree.kind)
  (children : ∀ tree : Tree, tree.kind.isLambda = false → (change tree).subtrees = tree.subtrees.map change)
include sameKind children

theorem returned_changed (tree : Tree) : (change tree).returned? = tree.returned?.map change := by
  unfold Tree.returned?
  rw [sameKind]
  split
  · rename_i isBlock
    rw [children tree (by rw [isBlock]; rfl)]
    cases tree.subtrees with
    | nil => rfl
    | cons statement rest =>
        cases rest with
        | cons _ _ => rfl
        | nil =>
            simp only [List.map_cons, List.map_nil, sameKind]
            split
            · rename_i isReturn
              rw [children statement (by rw [isReturn]; rfl), List.head?_map]
            · rfl
  · rfl

theorem inline_body_changed (inLambda : Bool) (tree : Tree) : (change tree).inlineBody inLambda = change (tree.inlineBody inLambda) := by
  unfold Tree.inlineBody
  split
  · rw [returned_changed change sameKind children]
    cases tree.returned? <;> rfl
  · rfl

end

namespace Fix

theorem inline_tree_eq (tree : Tree) :
    inlineTree tree = if tree.toElement.hasReturningBody then
      ⟨tree.kind.raw, Forest.inlineBodies tree.kind.isLambda tree.children⟩ else tree := by
  simp only [inlineTree, Tree.toElement, Element.inlineBodies, Element.hasReturningBody]
  split <;> rfl

theorem inline_tree_to_element (tree : Tree) : (inlineTree tree).toElement = tree.toElement.inlineBodies := by
  simp only [inlineTree, Tree.toElement, Element.inlineBodies]
  split <;> rfl

theorem inline_tree_kind (tree : Tree) : (inlineTree tree).kind = tree.kind := by
  rw [inline_tree_eq]
  split
  · exact Kind.ofRaw_raw _
  · rfl

theorem inline_settled (tree : Tree) (settled : tree.Settled) : inlineTree tree = tree := by
  have nothing : tree.toElement.hasReturningBody = false := settled
  rw [inline_tree_eq, nothing]
  rfl

theorem inline_body_element (inLambda : Bool) (tree : Tree) :
    tree.toElement.inlineBody inLambda = (tree.inlineBody inLambda).toElement := by
  cases inLambda with
  | false => rfl
  | true =>
      show (tree.returned?.map Tree.toElement).getD tree.toElement = _
      cases returned : tree.returned? <;> simp [Tree.inlineBody, returned]

theorem inline_forest_nodes (inLambda : Bool) (forest : List Element) :
    (Forest.inlineBodies inLambda forest).filterMap Element.asNode? =
      (forest.filterMap Element.asNode?).map fun part => (inlineTree part).inlineBody inLambda := by
  induction forest with
  | nil => rfl
  | cons element rest ih =>
      rw [Forest.inlineBodies]
      cases element with
      | token raw text =>
          have kept : (Element.token raw text).inlineBodies.inlineBody inLambda = .token raw text := by
            cases inLambda <;> rfl
          rw [kept]
          exact ih
      | node raw children =>
          have inlined := inline_tree_to_element ⟨raw, children⟩
          rw [← show (⟨raw, children⟩ : Tree).toElement = .node raw children from rfl, ← inlined, inline_body_element]
          exact congrArg (List.cons _) ih

theorem inline_tree_subtrees (tree : Tree) :
    (inlineTree tree).subtrees = tree.subtrees.map fun part => (inlineTree part).inlineBody tree.kind.isLambda := by
  cases found : tree.toElement.hasReturningBody with
  | true =>
      rw [inline_tree_eq, if_pos found]
      exact inline_forest_nodes _ _
  | false =>
      rw [inline_settled tree found]
      refine (List.map_id _).symm.trans (List.map_congr_left ?_)
      intro part member
      obtain ⟨partSettled, noBody⟩ := (settled_iff tree).mp found part member
      rw [inline_settled part partSettled, Tree.inlineBody]
      split
      · rename_i inLambda
        rw [noBody inLambda]
        rfl
      · rfl

theorem inline_subtrees (tree : Tree) (other : tree.kind.isLambda = false) :
    (inlineTree tree).subtrees = tree.subtrees.map inlineTree := by
  rw [inline_tree_subtrees, other]
  rfl

end Fix

def Node.ReturnsNoBlock (node : Node) : Prop :=
  ∀ statement ∈ node.descendantsOrSelf, statement.kind = .returnStmt → ∀ expression ∈ statement.firstChild?,
    expression.kind ≠ .block

instance (node : Node) : Decidable node.ReturnsNoBlock := inferInstanceAs (Decidable (∀ _ ∈ _, _ → ∀ _ ∈ _, _ ≠ _))

theorem Node.returns_no_block_below (node below : Node) (plain : node.ReturnsNoBlock) (member : below ∈ node.descendantsOrSelf) :
    below.ReturnsNoBlock := by
  intro statement deeper
  exact plain statement (Node.below_trans node below statement member deeper)

namespace Fix

theorem returned_place (body : Node) (expression : Tree) (returned : body.focus.returned? = some expression) :
    ∃ statement, body.children = [statement] ∧ statement.kind = .returnStmt ∧
      ∃ place, statement.firstChild? = some place ∧ place.focus = expression := by
  obtain ⟨-, tree, only, isReturn, first⟩ := (returned_iff _ _).mp returned
  rw [← Node.children_focus] at only
  obtain ⟨statement, isOnly, rfl⟩ := List.map_eq_singleton_iff.mp only
  rw [← Node.children_focus, List.head?_map] at first
  obtain ⟨place, isFirst, rfl⟩ := Option.map_eq_some_iff.mp first
  exact ⟨statement, isOnly, isReturn, place, isFirst, rfl⟩

theorem inline_children (node : Node) (other : node.kind.isLambda = false) :
    (inlineTree node.focus).subtrees = node.children.map fun child => inlineTree child.focus := by
  rw [inline_subtrees node.focus other, ← Node.children_focus, List.map_map]
  rfl

theorem inlined_expression (node : Node) (plain : node.ReturnsNoBlock) (expression : Tree)
    (returned : (inlineTree node.focus).returned? = some expression) : expression.kind ≠ .block := by
  obtain ⟨isBlock, tree, only, isReturn, first⟩ := (returned_iff _ _).mp returned
  have kind : node.kind = .block := (inline_tree_kind node.focus).symm.trans isBlock
  rw [inline_children node (by rw [kind]; rfl)] at only
  obtain ⟨statement, isOnly, rfl⟩ := List.map_eq_singleton_iff.mp only
  have isStatement : statement.kind = .returnStmt := (inline_tree_kind statement.focus).symm.trans isReturn
  rw [inline_children statement (by rw [isStatement]; rfl), List.head?_map] at first
  obtain ⟨place, isFirst, rfl⟩ := Option.map_eq_some_iff.mp first
  rw [inline_tree_kind]
  exact plain statement (Node.child_below node statement (by simp [isOnly])) isStatement place isFirst

theorem inline_focus_settled (node : Node) (plain : node.ReturnsNoBlock) : (inlineTree node.focus).Settled := by
  induction node using Node.induction_down with
  | step node ih =>
      refine (settled_iff _).mpr ?_
      rw [inline_tree_kind, inline_tree_subtrees, ← Node.children_focus, List.map_map]
      intro part member
      obtain ⟨child, isChild, rfl⟩ := List.mem_map.mp member
      have plainBelow := Node.returns_no_block_below node child plain (Node.child_below node child isChild)
      have settled := ih child isChild plainBelow
      rw [Function.comp_apply, Tree.inlineBody]
      split
      · cases returned : (inlineTree child.focus).returned? with
        | none => exact ⟨settled, fun _ => returned⟩
        | some expression =>
            -- The expression moves up; it is no block, so it is no body in its new place.
            obtain ⟨-, statement, only, -, first⟩ := (returned_iff _ _).mp returned
            have statementSettled := ((settled_iff _).mp settled statement (by simp [only])).1
            exact ⟨((settled_iff _).mp statementSettled expression (List.mem_of_head? first)).1,
              fun _ => returned_of_other _ (inlined_expression child plainBelow expression returned)⟩
      · rename_i other
        exact ⟨settled, fun inLambda => absurd inLambda other⟩

end Fix

end SmellCheck
