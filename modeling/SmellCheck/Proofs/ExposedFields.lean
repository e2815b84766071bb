import Mathlib.Algebra.GroupWithZero.Nat
import Mathlib.Algebra.Order.BigOperators.Group.List
import Mathlib.Algebra.Order.Group.Nat
import SmellCheck.Proofs.EncapsulatedUses
import SmellCheck.Proofs.NothingToName

/-!
Exposed fields. Whether a field is exposed is asked of the tree of the field alone. The property that
stands for a field is none, so that it has fewer exposed fields in it than the field; outside of the field
the same ones are exposed as before.
-/

set_option autoImplicit false

namespace SmellCheck

def Tree.isExposedField (tree : Tree) : Bool :=
  tree.kind == .fieldDecl && (tree.modifiers.contains "public" || tree.modifiers.contains "protected") &&
    !(["private", "internal", "const", "static"].any tree.modifiers.contains) && tree.declarators.length == 1

theorem exposed_field_focus (node : Node) : node.isExposedField = node.focus.isExposedField := by
  have declarators : node.declarators.length = node.focus.declarators.length := by
    rw [Tree.declarators, ← declarators_focus, List.length_map]
  have word : node.hasModifier = node.focus.modifiers.contains := by
    funext modifier
    rw [Node.hasModifier, modifiers_focus]
  rw [Node.isExposedField, Node.isExternallyVisible, Node.isRestricted, declarators, word]
  rfl

mutual
def Element.exposures : Element → Nat
  | .token .. => 0
  | .node raw children => (Tree.isExposedField ⟨raw, children⟩).toNat + Forest.exposures children

def Forest.exposures : List Element → Nat
  | [] => 0
  | element :: rest => element.exposures + Forest.exposures rest
end

def Tree.exposures (tree : Tree) : Nat := tree.toElement.exposures

theorem forest_exposures (children : List Element) :
    Forest.exposures children = ((children.filterMap Element.asNode?).map Tree.exposures).sum := by
  induction children with
  | nil => rfl
  | cons element rest ih =>
      cases element with
      | token raw text =>
          rw [Forest.exposures, Element.exposures, Nat.zero_add, ih]
          rfl
      | node raw children =>
          rw [Forest.exposures, ih]
          rfl

theorem exposures_eq (tree : Tree) :
    tree.exposures = tree.isExposedField.toNat + (tree.subtrees.map Tree.exposures).sum := by
  rw [Tree.exposures, Tree.toElement, Element.exposures, forest_exposures]
  rfl

theorem exposures_count (node : Node) : node.descendantsOrSelf.countP Node.isExposedField = node.focus.exposures := by
  induction node using Node.induction_down with
  | step node ih =>
      have below : node.children.map (fun child => child.descendantsOrSelf.countP Node.isExposedField) =
          node.focus.subtrees.map Tree.exposures := by
        rw [← Node.children_focus, List.map_map]
        exact List.map_congr_left ih
      rw [Node.descendantsOrSelf, List.countP_cons, Node.descendants_eq, List.countP_flatMap, exposures_eq, ← exposed_field_focus,
        ← below, Nat.add_comm]
      cases node.isExposedField <;> rfl

theorem sum_of_parts (f : Tree → Nat) (each first second : Kind) (other : each ≠ first) (other' : each ≠ second)
    (different : first ≠ second) (trees : List Tree) :
    ((trees.filter (·.kind == each)).map f).sum + (trees.find? (·.kind == first)).elim 0 f +
      (trees.find? (·.kind == second)).elim 0 f ≤ (trees.map f).sum := by
  induction trees with
  | nil => exact Nat.le_refl _
  | cons tree rest ih =>
      rw [List.map_cons, List.sum_cons, List.filter_cons, List.find?_cons, List.find?_cons]
      by_cases isEach : tree.kind = each
      · rw [if_pos (beq_iff_eq.mpr isEach), beq_false_of_ne (isEach ▸ other), beq_false_of_ne (isEach ▸ other'), List.map_cons,
          List.sum_cons]
        dsimp only
        omega
      · rw [if_neg (by simpa using isEach)]
        by_cases isFirst : tree.kind = first
        · rw [beq_iff_eq.mpr isFirst, beq_false_of_ne (isFirst ▸ different)]
          dsimp only [Option.elim_some]
          omega
        · rw [beq_false_of_ne isFirst]
          by_cases isSecond : tree.kind = second
          · rw [beq_iff_eq.mpr isSecond]
            dsimp only [Option.elim_some]
            omega
          · rw [beq_false_of_ne isSecond]
            dsimp only
            omega

theorem part_exposures (tree part : Tree) (isPart : part ∈ tree.subtrees) : part.exposures ≤ tree.exposures := by
  rw [exposures_eq tree]
  exact Nat.le_add_left_of_le (List.le_sum_of_mem (List.mem_map_of_mem isPart))

theorem property_exposes_less (field : Node) (exposed : field.isExposedField) (property : Tree)
    (made : Fix.propertyFor? field = some property) : property.exposures < field.focus.exposures := by
  obtain ⟨name, declaration, type, isDeclaration, isType, rfl⟩ := Fix.property_for_some field property made
  have parts := sum_of_parts Tree.exposures .attributeList .modifierList .variableDecl nofun nofun nofun field.focus.subtrees
  rw [← children_of_kind_focus, ← child_of_kind_focus, ← child_of_kind_focus, isDeclaration] at parts
  have inDeclaration := part_exposures declaration.focus type.focus
    ((Node.mem_subtrees_iff _ _).mpr ⟨type, List.mem_of_head? isType, rfl⟩)
  have isProperty : (Build.property (Fix.attributeLists field) (Fix.modifierList? field) type.focus name
      Build.autoAccessors).isExposedField = false := by
    rw [Tree.isExposedField, show (Build.property _ _ _ _ _).kind = .propertyDecl from tree_kind _ _]
    rfl
  have accessors : Build.autoAccessors.exposures = 0 := rfl
  have modifiers : ((Fix.modifierList? field).toList.map Tree.exposures).sum = (Fix.modifierList? field).elim 0 Tree.exposures := by
    cases Fix.modifierList? field <;> simp
  have own : field.focus.isExposedField.toNat = 1 := by rw [← exposed_field_focus, exposed]; rfl
  calc (Build.property (Fix.attributeLists field) (Fix.modifierList? field) type.focus name Build.autoAccessors).exposures
      = ((Fix.attributeLists field).map Tree.exposures).sum + (Fix.modifierList? field).elim 0 Tree.exposures +
          type.focus.exposures := by
        rw [exposures_eq, property_subtrees, isProperty, List.map_append, List.map_append, List.sum_append, List.sum_append, modifiers]
        simp [accessors]
    _ ≤ (field.focus.subtrees.map Tree.exposures).sum := Nat.le_trans (Nat.add_le_add_left inDeclaration _) parts
    _ < field.focus.exposures := by rw [exposures_eq, own]; omega

section
variable (field : Node) (property : Tree) (isField : field.kind = .fieldDecl) (isProperty : property.kind = .propertyDecl)
variable (node : Node) (outside : field.Outside node) (other : node ≠ field)
include isField isProperty outside other

theorem after_modifiers : (field.after property node).modifiers = node.modifiers := by
  unfold Node.modifiers
  rw [Node.after_child_where_blind field property node outside other .modifierList fun _ => by rw [isField, isProperty]; rfl]
  cases found : node.childOfKind? .modifierList with
  | none => rfl
  | some list =>
      have isList := (Node.child_of_kind node list _ found).2
      have listOther : list ≠ field := fun same => by rw [same, isField] at isList; cases isList
      rw [Option.map_some, Node.after_other field property list listOther]
      refine rewritten_token_texts _ list .keyword nofun fun path elements planned => ?_
      obtain ⟨tree, replaced⟩ := Node.exchange_exchanges field property path _ planned
      cases replaced

theorem after_declarators : (field.after property node).declarators.length = node.declarators.length := by
  unfold Node.declarators
  rw [Node.after_child_where_blind field property node outside other .variableDecl fun _ => by rw [isField, isProperty]; rfl]
  cases found : node.childOfKind? .variableDecl with
  | none => rfl
  | some declaration =>
      obtain ⟨isChild, isDeclaration⟩ := Node.child_of_kind node declaration _ found
      have declarationOther : declaration ≠ field := fun same => by rw [same, isField] at isDeclaration; cases isDeclaration
      have inside := Node.outside_child field node declaration outside other isChild
      rw [Option.map_some, Option.elim_some, Option.elim_some, Node.after_children_where_blind field property declaration inside
        declarationOther .variableDeclarator fun _ => by rw [isField, isProperty]; rfl, List.length_map]

theorem after_exposed : (field.after property node).isExposedField = node.isExposedField := by
  have word : (field.after property node).hasModifier = node.hasModifier := by
    funext modifier
    rw [Node.hasModifier, Node.hasModifier, after_modifiers field property isField isProperty node outside other]
  rw [Node.isExposedField, Node.isExposedField, Node.isExternallyVisible, Node.isExternallyVisible, Node.isRestricted,
    Node.isRestricted, word, Node.after_kind field property node other,
    after_declarators field property isField isProperty node outside other]

end

theorem sum_one_changed {α : Type} (f g : α → Nat) (items : List α) (one : α) (member : one ∈ items) (once : items.Nodup)
    (rest : ∀ other ∈ items, other ≠ one → g other = f other) (before after : Nat) (changed : g one + before = f one + after) :
    (items.map g).sum + before = (items.map f).sum + after := by
  obtain ⟨front, back, rfl⟩ := List.append_of_mem member
  obtain ⟨-, -, apart⟩ := List.nodup_append.mp once
  have frontSame : front.map g = front.map f := List.map_congr_left fun other isOther =>
    rest other (List.mem_append_left _ isOther) (apart other isOther one List.mem_cons_self)
  have backSame : back.map g = back.map f := List.map_congr_left fun other isOther =>
    rest other (List.mem_append_right _ (List.mem_cons_of_mem _ isOther)) fun same =>
      (List.nodup_cons.mp (List.nodup_append.mp once).2.1).1 (same ▸ isOther)
  simp only [List.map_append, List.map_cons, List.sum_append, List.sum_cons, frontSame, backSame]
  omega

-- A place above the field loses the exposed fields of the field and gains those of the property. By induction on
-- the places above, each with one child at or above the field and others that stay as they are.
theorem exposures_above (field : Node) (property : Tree) (isField : field.kind = .fieldDecl)
    (isProperty : property.kind = .propertyDecl) (node : Node) (above : node ∈ field.ancestorsOrSelf) :
    (field.after property node).focus.exposures + field.focus.exposures = node.focus.exposures + property.exposures := by
  induction node using Node.induction_down with
  | step node ih =>
      rcases List.mem_cons.mp above with rfl | higher
      · rw [Node.after_target]
        exact Nat.add_comm _ _
      · have outside : field.Outside node := ⟨Node.same_tree_of_ancestor node field higher, fun back =>
          Node.not_above_self field (Node.ancestors_trans _ _ _ back higher)⟩
        have other : node ≠ field := fun same => Node.not_above_self field (same ▸ higher)
        obtain ⟨child, isChild, inChild⟩ := (Node.mem_descendants node field).mp ((Node.mem_descendants_iff node field).mpr higher)
        have childAbove := (Node.mem_descendants_or_self_iff child field).mp inChild
        have same : ∀ beside ∈ node.children, beside ≠ child →
            (field.after property beside).focus.exposures = beside.focus.exposures := fun beside isBeside different => by
          rw [Node.after_focus field property beside (Node.aside_beside field node child beside isChild isBeside childAbove different)]
        have inside := sum_one_changed (fun node : Node => node.focus.exposures)
          (fun node => (field.after property node).focus.exposures) node.children child isChild (Node.children_nodup node) same _ _
          (ih child isChild childAbove)
        rw [exposures_eq, exposures_eq node.focus, ← exposed_field_focus, ← exposed_field_focus,
          after_exposed field property isField isProperty node outside other, ← Node.children_focus, ← Node.children_focus,
          Node.after_children field property node outside other]
        simp only [List.map_map, Function.comp_def]
        omega

end SmellCheck
