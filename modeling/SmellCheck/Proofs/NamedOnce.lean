import SmellCheck.Proofs.DeclaredConstants
import SmellCheck.Proofs.NamingPlan
import SmellCheck.Repair

/-!
Literals get names once. A second run over the class finds nothing to name: the constants are those
from before and the new ones, and a literal that was left has neither the value of one of them nor, if
it is a string, a name that is free. Methods inside constant fields and a last constant inside another
one are left out: with them the run changes the values of constants, or copies literals with the
attributes.
-/

set_option autoImplicit false

namespace SmellCheck.Fix

open Node

section
variable (scope : Node) (regular : Regular scope)

def Inert (inMethod : Bool) (spot : Tree) : Prop := spot.isConstantField = false ∧ ¬ (inMethod = true ∧ spot.kind = .literal)

def Unused (node : Node) : Prop := ∀ name, (name, node) ∉ (planConstants scope).uses

theorem unused_of_kind (node : Node) (other : node.kind ≠ .literal) : Unused scope node := fun name use =>
  other (method_literal_below scope node (used_literal scope name node use)).2

include regular in
theorem unused_above (node lower : Node) (above : node ∈ lower.ancestors) : Unused scope node := by
  intro name use
  obtain ⟨below, isLiteral⟩ := method_literal_below scope node (used_literal scope name node use)
  exact not_above scope regular.single node lower below isLiteral above

theorem in_method_of_rewritten (node child : Node) (isChild : child ∈ node.children) :
    (node.inMethod || (node.rewritten (withNames scope).edits).focus.kind == .methodDecl) = child.inMethod := by
  rw [in_method_of_child node child isChild, ← Node.rewritten_kind (withNames scope).edits node]
  rfl

include regular in
theorem successors_cases (isClass : scope.kind = .classDecl) (child : Node) (same : child.SameTree scope) (part : Tree)
    (member : part ∈ child.successors (withNames scope).edits) :
    (Unused scope child ∧ part = (child.rewritten (withNames scope).edits).focus) ∨
    (∃ name, part = Build.identifierName name) ∨
    ((planConstants scope).last? = some child ∧ part ∈ (planConstants scope).newFields child) := by
  have unused : (∀ given, (withNames scope).edits.edit? child.path ≠ some (.replace [Build.identifierName given])) →
      Unused scope child := by
    intro other name use
    obtain ⟨given, edit⟩ := edit_of_used scope regular.single isClass child name use
    exact other given edit
  rw [Node.successors] at member
  rcases edit_cases scope child same with none | ⟨name, -, edit⟩ | ⟨isLast, -, edit⟩
  · rw [none] at member unused
    exact .inl ⟨unused (by simp), List.mem_singleton.mp member⟩
  · rw [edit] at member
    exact .inr (.inl ⟨name, List.mem_singleton.mp member⟩)
  · rw [edit] at member unused
    rcases List.mem_cons.mp member with own | new
    · exact .inl ⟨unused (by simp), own⟩
    · exact .inr (.inr ⟨isLast, new⟩)

theorem own_successor (child : Node) (same : child.SameTree scope)
    (unused : Unused scope child) :
    (child.rewritten (withNames scope).edits).focus ∈ child.successors (withNames scope).edits := by
  rw [Node.successors]
  rcases edit_cases scope child same with none | ⟨name, use, -⟩ | ⟨-, -, edit⟩
  · rw [none]
    exact List.mem_singleton_self _
  · exact absurd use (unused name)
  · rw [edit]
    exact List.mem_cons_self

theorem new_field (last : Node) (field : Tree) (member : field ∈ (planConstants scope).newFields last) :
    ∃ name literals literal, (name, literals) ∈ (planConstants scope).fresh ∧ literal ∈ literals ∧
      field = constantLike last name literal.focus := by
  obtain ⟨⟨name, literals⟩, fresh, made⟩ := List.mem_filterMap.mp member
  obtain ⟨literal, first, rfl⟩ := Option.map_eq_some_iff.mp made
  exact ⟨name, literals, literal, fresh, List.mem_of_head? first, rfl⟩

theorem nothing_in_last (last field : Node) (found : (planConstants scope).last? = some last)
    (member : field ∈ scope.constantFields) : last ∉ field.ancestors := by
  obtain ⟨front, split⟩ := List.getLast?_eq_some_iff.mp (show scope.constantFields.getLast? = some last from found)
  have ordered := (Node.descendants_ordered scope).filter Node.isConstantField
  rw [show scope.descendantsOrSelf.filter Node.isConstantField = front ++ [last] from split] at ordered
  rw [split] at member
  rcases List.mem_append.mp member with earlier | same
  · exact (List.pairwise_append.mp ordered).2.2 field earlier last (List.mem_singleton_self _)
  · rw [List.mem_singleton.mp same]
    exact not_above_self last

include regular in
theorem in_method_of_constant (field : Node) (member : field ∈ scope.constantFields) : field.inMethod = false := by
  rw [Node.inMethod, regular.outside field member]
  rfl

include regular in
theorem spot_of_copied (last child : Node) (found : (planConstants scope).last? = some last) (isChild : child ∈ last.children)
    (inMethod : Bool) (spot : Tree) (isSpot : Tree.Spot false child.focus inMethod spot) : Inert inMethod spot := by
  have isLast := last_constant scope last found
  have inField := constant_field_below scope last isLast
  have flag : child.inMethod = false := by
    rw [in_method_of_child last child isChild, in_method_of_constant scope regular last isLast, inField.2.1]
    rfl
  rw [← flag] at isSpot
  obtain ⟨old, inChild, rfl, rfl⟩ := below_of_spot child _ _ isSpot
  have inLast : old ∈ last.descendants := (mem_descendants last old).mpr ⟨child, isChild, inChild⟩
  have above : last ∈ old.ancestors := ancestor_of_descendant last old inLast
  have below := below_trans scope last old inField.1 (List.mem_cons_of_mem _ inLast)
  refine ⟨Bool.eq_false_iff.mpr fun isConstant => ?_, ?_⟩
  · exact nothing_in_last scope last old found
      (List.mem_filter.mpr ⟨below, (constant_field_focus old).trans isConstant⟩) above
  · rintro ⟨inMethod, isLiteral⟩
    have member : old ∈ methodLiterals scope :=
      List.mem_filter.mpr ⟨below, Bool.and_eq_true_iff.mpr ⟨beq_iff_eq.mpr isLiteral, inMethod⟩⟩
    exact regular.plain old member last isLast above

include regular in
theorem spot_of_new_field (last : Node) (found : (planConstants scope).last? = some last) (field : Tree)
    (member : field ∈ (planConstants scope).newFields last) (inMethod : Bool) (spot : Tree)
    (isSpot : Tree.Spot false field inMethod spot) : (inMethod = false ∧ spot = field) ∨ Inert inMethod spot := by
  obtain ⟨name, literals, literal, fresh, inGroup, rfl⟩ := new_field scope last field member
  obtain ⟨below, isLiteral⟩ := method_literal_below scope literal (fresh_literals scope name literals fresh literal inGroup)
  have leaf : literal.focus.subtrees = [] := by
    rw [← children_focus, (regular.single literal below isLiteral).2]
    rfl
  have kind : (constantLike last name literal.focus).kind = .fieldDecl := tree_kind _ _
  rcases (Tree.spot_iff _ _ _ _).mp isSpot with here | ⟨part, isPart, inPart⟩
  · exact .inl here
  · refine .inr ?_
    rw [kind] at inPart
    rw [constant_like_subtrees, List.append_assoc] at isPart
    rcases List.mem_append.mp isPart with list | rest
    · obtain ⟨child, isChild, rfl⟩ := List.mem_map.mp list
      exact spot_of_copied scope regular last child found (List.mem_filter.mp isChild).1 inMethod spot inPart
    · rcases List.mem_append.mp rest with modifiers | declaration
      · obtain ⟨child, isChild, rfl⟩ := Option.map_eq_some_iff.mp (Option.mem_toList.mp modifiers)
        exact spot_of_copied scope regular last child found (List.mem_of_find?_eq_some isChild) inMethod spot inPart
      · rw [List.mem_singleton.mp declaration] at inPart
        obtain ⟨rfl, quiet⟩ := spot_of_declaration name literal.focus inMethod spot leaf isLiteral inPart
        exact ⟨quiet, by simp⟩

include regular in
theorem spot_of_result (isClass : scope.kind = .classDecl) (node : Node) (below : node ∈ scope.descendantsOrSelf)
    (unused : Unused scope node) (inMethod : Bool) (spot : Tree)
    (isSpot : Tree.Spot node.inMethod (node.rewritten (withNames scope).edits).focus inMethod spot) :
    (∃ old ∈ scope.descendantsOrSelf, Unused scope old ∧ old.inMethod = inMethod ∧
      (old.rewritten (withNames scope).edits).focus = spot) ∨
    (inMethod = false ∧ ∃ last, (planConstants scope).last? = some last ∧ spot ∈ (planConstants scope).newFields last) ∨
    Inert inMethod spot := by
  induction node using Node.induction_down with
  | step node ih =>
      rcases (Tree.spot_iff _ _ _ _).mp isSpot with ⟨rfl, rfl⟩ | ⟨part, isPart, inPart⟩
      · exact .inl ⟨node, below, unused, rfl, rfl⟩
      · rw [Node.rewritten_subtrees] at isPart
        obtain ⟨child, isChild, isSuccessor⟩ := List.mem_flatMap.mp isPart
        have childBelow := List.mem_cons_of_mem scope (Node.below_of_child scope node child below isChild)
        rw [in_method_of_rewritten scope node child isChild] at inPart
        rcases successors_cases scope regular isClass child (Node.same_tree_of_descendant scope child childBelow) part isSuccessor
          with ⟨childUnused, rfl⟩ | ⟨name, rfl⟩ | ⟨isLast, new⟩
        · exact ih child isChild childBelow childUnused inPart
        · rcases (Tree.spot_iff _ _ _ _).mp inPart with ⟨-, rfl⟩ | ⟨inner, isInner, -⟩
          · have kind : (Build.identifierName name).kind = .identifierName := tree_kind _ _
            exact .inr (.inr ⟨rfl, fun both => absurd (kind.symm.trans both.2) (by decide)⟩)
          · cases isInner
        · rw [in_method_of_constant scope regular child (last_constant scope child isLast)] at inPart
          rcases spot_of_new_field scope regular child isLast part new inMethod spot inPart with ⟨rfl, rfl⟩ | inert
          · exact .inr (.inl ⟨rfl, child, isLast, new⟩)
          · exact .inr (.inr inert)

include regular in
theorem spot_kept (node old : Node) (below : node ∈ scope.descendantsOrSelf)
    (inside : old ∈ node.descendantsOrSelf) (unused : Unused scope old) :
    Tree.Spot node.inMethod (node.rewritten (withNames scope).edits).focus old.inMethod
      (old.rewritten (withNames scope).edits).focus := by
  induction node using Node.induction_down with
  | step node ih =>
      rcases List.mem_cons.mp inside with rfl | deeper
      · exact .here _ _
      · obtain ⟨child, isChild, within⟩ := (mem_descendants _ _).mp deeper
        have childBelow := List.mem_cons_of_mem scope (Node.below_of_child scope node child below isChild)
        have childUnused : Unused scope child := by
          rcases List.mem_cons.mp within with rfl | lower
          · exact unused
          · exact unused_above scope regular child old (ancestor_of_descendant child old lower)
        have own := own_successor scope child (Node.same_tree_of_descendant scope child childBelow) childUnused
        refine .inside _ _ _ _ _ ((Node.rewritten_subtrees _ node).symm ▸ List.mem_flatMap.mpr ⟨child, isChild, own⟩) ?_
        rw [in_method_of_rewritten scope node child isChild]
        exact ih child isChild childBelow within

theorem modifier_lists_stay (node : Node) (same : node.SameTree scope) (edit : Edit)
    (planned : (withNames scope).edits.edit? node.path = some edit) : edit.Blind .modifierList node := by
  rcases edit_cases scope node same with none | ⟨name, use, named⟩ | ⟨isLast, -, declared⟩
  · rw [none] at planned
    cases planned
  · obtain rfl := Option.some.inj (named.symm.trans planned)
    have isLiteral := (method_literal_below scope node (used_literal scope name node use)).2
    refine ⟨fun _ => by simp [isLiteral], fun new member => ?_⟩
    rw [List.mem_singleton.mp member, show (Build.identifierName name).kind = .identifierName from tree_kind _ _]
    decide
  · obtain rfl := Option.some.inj (declared.symm.trans planned)
    refine ⟨nofun, fun field member => ?_⟩
    obtain ⟨name, _, literal, -, -, rfl⟩ := new_field scope node field member
    rw [show (constantLike node name literal.focus).kind = .fieldDecl from tree_kind _ _]
    decide

theorem no_splice (path : List Nat) (elements : List Element) :
    (withNames scope).edits.edit? path ≠ some (.splice elements) := by
  rw [withNames, Session.planned_edit (Session.reached_history scope (requests scope))]
  intro planned
  obtain ⟨request, found, edit⟩ := Option.map_eq_some_iff.mp planned
  rcases mem_requests scope request (Session.mem_accepted _ _ _ (Session.on_eq_some path request found).1) with
    ⟨last, -, -, rfl⟩ | ⟨use, -, rfl⟩ <;> cases edit

theorem rewritten_modifiers (node : Node) (same : node.SameTree scope) :
    (node.rewritten (withNames scope).edits).focus.modifiers = node.focus.modifiers := by
  have keywords (list : Node) := rewritten_token_texts (withNames scope).edits list .keyword (by decide) (no_splice scope)
  have lists := Node.rewritten_children_of_kind (withNames scope).edits node .modifierList fun child isChild =>
    modifier_lists_stay scope child (Node.same_tree_trans (Node.same_tree_of_child node child isChild) same)
  rw [Tree.modifiers, Tree.modifiers, ← List.head?_filter, ← List.head?_filter, lists, ← children_of_kind_focus]
  cases node.childrenOfKind .modifierList with
  | nil => rfl
  | cons list rest => exact keywords list

theorem constant_before (old : Node) (below : old ∈ scope.descendantsOrSelf)
    (isConstant : (old.rewritten (withNames scope).edits).focus.isConstantField) : old ∈ scope.constantFields := by
  refine List.mem_filter.mpr ⟨below, ?_⟩
  have kind : (old.rewritten (withNames scope).edits).focus.kind = old.focus.kind := Node.rewritten_kind _ old
  rw [constant_field_focus, Tree.isConstantField, ← kind,
    ← rewritten_modifiers scope old (Node.same_tree_of_descendant scope old below)]
  exact isConstant

def after (scope : Node) : Node := scope.rewritten (withNames scope).edits

theorem after_in_method : (after scope).inMethod = scope.inMethod := by
  rw [in_method_of_context, in_method_of_context]
  show (Frame.rewriteAll (withNames scope).edits scope.context).any _ = _
  generalize scope.context = context
  induction context with
  | nil => rfl
  | cons frame outer ih =>
      rw [Frame.rewriteAll, List.any_cons, List.any_cons, ih, (frame_rewrite_shape _ frame).1]

section
variable (isClass : scope.kind = .classDecl)
include regular isClass

theorem after_spot (inMethod : Bool) (spot : Tree) (isSpot : (after scope).Spot inMethod spot) :
    (∃ old ∈ scope.descendantsOrSelf, Unused scope old ∧ old.inMethod = inMethod ∧
      (old.rewritten (withNames scope).edits).focus = spot) ∨
    (inMethod = false ∧ ∃ last, (planConstants scope).last? = some last ∧ spot ∈ (planConstants scope).newFields last) ∨
    Inert inMethod spot := by
  rw [Node.Spot, after_in_method] at isSpot
  have unused := unused_of_kind scope scope (by simp [isClass])
  exact spot_of_result scope regular isClass scope List.mem_cons_self unused inMethod spot isSpot

theorem after_literal (literal : Tree) (isSpot : (after scope).Spot true literal) (isLiteral : literal.kind = .literal) :
    ∃ old ∈ methodLiterals scope, Unused scope old ∧ old.focus = literal := by
  rcases after_spot scope regular isClass true literal isSpot with ⟨old, below, unused, inMethod, rfl⟩ | ⟨outside, -⟩ | inert
  · have kind : old.kind = .literal := (Node.rewritten_kind _ old).symm.trans isLiteral
    refine ⟨old, List.mem_filter.mpr ⟨below, Bool.and_eq_true_iff.mpr ⟨beq_iff_eq.mpr kind, inMethod⟩⟩, unused, ?_⟩
    exact (literal_kept scope regular.single old below kind).symm
  · cases outside
  · exact absurd ⟨rfl, isLiteral⟩ inert.2

theorem after_field (inMethod : Bool) (field : Tree) (isSpot : (after scope).Spot inMethod field)
    (isConstant : field.isConstantField) : (∃ old ∈ scope.constantFields, old.focus = field) ∨
      ∃ last, (planConstants scope).last? = some last ∧ field ∈ (planConstants scope).newFields last := by
  rcases after_spot scope regular isClass inMethod field isSpot with ⟨old, below, -, -, rfl⟩ | ⟨-, new⟩ | inert
  · have member := constant_before scope old below isConstant
    exact .inl ⟨old, member, (constant_kept scope regular old member).symm⟩
  · exact .inr new
  · rw [inert.1] at isConstant
    cases isConstant

theorem after_constant (constant : String × String) (has : (after scope).HasConstant constant) :
    constant ∈ namedValues scope.constantFields ∨ ∃ name literals literal, (name, literals) ∈ (planConstants scope).fresh ∧
      literal ∈ literals ∧ constant = (name, literal.trimmed) := by
  obtain ⟨inMethod, field, isSpot, isConstant, named⟩ := has
  rcases after_field scope regular isClass inMethod field isSpot isConstant with ⟨old, member, rfl⟩ | ⟨last, found, new⟩
  · rw [named_values_focus]
    exact .inl (List.mem_flatMap.mpr ⟨old.focus, List.mem_map_of_mem member, named⟩)
  · obtain ⟨name, literals, literal, fresh, inGroup, rfl⟩ := new_field scope last field new
    rw [constant_like_values] at named
    exact .inr ⟨name, literals, literal, fresh, inGroup, List.mem_singleton.mp named⟩

omit isClass in
theorem constant_stays (constant : String × String) (member : constant ∈ namedValues scope.constantFields) :
    (after scope).HasConstant constant := by
  rw [named_values_focus] at member
  obtain ⟨tree, isField, named⟩ := List.mem_flatMap.mp member
  obtain ⟨field, present, rfl⟩ := List.mem_map.mp isField
  obtain ⟨below, kind, isConstant⟩ := constant_field_below scope field present
  have spot := spot_kept scope regular scope field List.mem_cons_self below (unused_of_kind scope field (by simp [kind]))
  rw [constant_kept scope regular field present, ← after_in_method scope] at spot
  exact ⟨_, field.focus, spot, (constant_field_focus field).symm.trans isConstant, named⟩

theorem fresh_declared (name : String) (literals : List Node) (fresh : (name, literals) ∈ (planConstants scope).fresh) :
    ∃ value, (after scope).HasConstant (name, value) := by
  have nonempty : (planConstants scope).fresh ≠ [] := List.ne_nil_of_mem fresh
  have fields : scope.constantFields ≠ [] := by
    intro none
    simp [planConstants, none] at fresh
  obtain ⟨last, found⟩ : ∃ last, (planConstants scope).last? = some last := ⟨_, List.getLast?_eq_some_getLast fields⟩
  obtain ⟨literal, inGroup, -⟩ := fresh_group scope name literals fresh
  obtain ⟨first, isFirst⟩ : ∃ first, literals.head? = some first := by
    cases literals with
    | nil => cases inGroup
    | cons first rest => exact ⟨first, rfl⟩
  have new : constantLike last name first.focus ∈ (planConstants scope).newFields last :=
    List.mem_filterMap.mpr ⟨(name, literals), fresh, by simp [isFirst]⟩
  obtain ⟨below, -, isConstant⟩ := constant_field_below scope last (last_constant scope last found)
  have above := target_strictly_below scope isClass _ (declares_mem scope last found nonempty)
  obtain ⟨parent, isParent⟩ := parent_of_inner last (inner_of_ancestor scope last above)
  have isChild := (mem_children_iff parent last).mpr isParent
  have parentBelow : parent ∈ scope.descendantsOrSelf := by
    have higher : scope ∈ last.ancestors := above
    rw [Node.ancestors_of_parent last parent isParent] at higher
    exact (mem_descendants_or_self_iff scope parent).mpr higher
  have unused := unused_above scope regular parent last (parent_mem_ancestors last parent isParent)
  have outer := spot_kept scope regular scope parent List.mem_cons_self parentBelow unused
  have isPart : constantLike last name first.focus ∈ (parent.rewritten (withNames scope).edits).focus.subtrees := by
    rw [Node.rewritten_subtrees]
    refine List.mem_flatMap.mpr ⟨last, isChild, ?_⟩
    rw [Node.successors, edit_of_last scope regular.single isClass last found nonempty]
    exact List.mem_cons_of_mem _ new
  have spot := Tree.spot_trans _ _ _ _ _ _ outer (.inside _ _ _ _ _ isPart (.here _ _))
  rw [← after_in_method scope] at spot
  refine ⟨first.focus.trimmed, _, _, spot, ?_, ?_⟩
  · exact constant_like_constant last name first.focus ((constant_field_focus last).symm.trans isConstant)
  · rw [constant_like_values]
    exact List.mem_singleton_self _

theorem after_quiet : (after scope).Quiet := by
  refine ⟨?_, ?_⟩
  · intro tree isSpot isLiteral constant has same
    obtain ⟨literal, member, unused, rfl⟩ := after_literal scope regular isClass tree isSpot isLiteral
    have left := unused_literal scope literal member unused
    rcases after_constant scope regular isClass constant has with old | ⟨name, literals, first, fresh, inGroup, rfl⟩
    · exact left.1 constant old same
    · -- The literal reads like those of a new constant, so it is one of them.
      have text : literal.trimmed = first.trimmed := same.symm
      obtain ⟨second, -, -, group⟩ := fresh_group scope name literals fresh
      obtain ⟨firstMember, firstText, -, isString⟩ := (group first).mp inGroup
      have alike := regular.agree literal (method_literal_below scope literal member).1 first
        (method_literal_below scope first firstMember).1 (method_literal_below scope literal member).2
        (method_literal_below scope first firstMember).2 text
      have inThis := (group literal).mpr
        ⟨member, text.trans firstText, (constant_for_none_iff _ _).mpr left.1, alike.trans isString⟩
      exact unused name (fresh_use scope name literals literal fresh inThis)
  · intro hasField tree isSpot isLiteral isString
    obtain ⟨literal, member, unused, rfl⟩ := after_literal scope regular isClass tree isSpot isLiteral
    have fields : scope.constantFields ≠ [] := by
      obtain ⟨inMethod, field, spot, isConstant⟩ := hasField
      rcases after_field scope regular isClass inMethod field spot isConstant with ⟨old, present, -⟩ | ⟨last, found, -⟩
      · exact List.ne_nil_of_mem present
      · exact List.ne_nil_of_mem (last_constant scope last found)
    rcases (unused_literal scope literal member unused).2 fields isString with invalid | ⟨value, old⟩ | ⟨others, fresh⟩
    · exact .inl invalid
    · exact .inr ⟨value, constant_stays scope regular _ old⟩
    · exact .inr (fresh_declared scope regular isClass _ others fresh)

theorem class_after : ∃ place : Node, place.root = (replaceMagicValues scope).getD scope.root ∧ place.path = scope.path ∧
    place.kind = .classDecl ∧ place.Quiet := by
  have self := Node.class_scope_self scope (.inl isClass)
  rw [replace_magic_values_eq, self]
  by_cases none : (planConstants scope).uses.isEmpty
  · rw [if_pos none]
    exact ⟨scope, rfl, rfl, isClass, quiet_of_no_uses scope (List.isEmpty_iff.mp none)⟩
  · obtain ⟨root, path⟩ := Session.stays_in_stands scope (withNames scope) (names_stay_in scope isClass)
    rw [if_neg none]
    exact ⟨after scope, root, path, (Node.rewritten_kind _ scope).trans isClass, after_quiet scope regular isClass⟩

end

end

theorem quiet_of_same (first second : Node) (focus : first.focus = second.focus) (context : first.context = second.context)
    (quiet : first.Quiet) : second.Quiet := by
  have flag : first.inMethod = second.inMethod := by
    rw [in_method_of_context, in_method_of_context, context]
  have spots : first.Spot = second.Spot := by
    funext inMethod spot
    rw [Node.Spot, Node.Spot, focus, flag]
  have constants : first.HasConstant = second.HasConstant := by
    funext constant
    rw [Node.HasConstant, Node.HasConstant, spots]
  obtain ⟨values, names⟩ := quiet
  rw [Node.HasConstantField, spots, constants] at names
  rw [spots, constants] at values
  exact ⟨values, names⟩

end SmellCheck.Fix

namespace SmellCheck.Declared

open SmellCheck.Fix Catalog

def text (value : String) : Tree := Build.literal .stringLit value

def constant (name : String) (value : Tree) : Tree :=
  Build.simpleField ["const"] (Build.predefinedType "string") name (some value)

def method (parts : List Tree) : Tree := Build.tree .methodDecl (parts.map Tree.toElement)

def valued (constants parts : List Tree) : Tree :=
  Build.classDecl [] "C" (constant "A" (text "x") :: constants ++ [method parts])

def computed (inner outer : Tree) : Tree := Build.classDecl [] "C" [constant "A" (method [inner]), method [outer]]

def layered (constants : List Element) (parts : List Tree) : Tree :=
  let last := Build.tree .fieldDecl [Build.modifierList ["const"]]
  Build.classDecl [] "C" [constant "A" (Build.tree .block (last.toElement :: constants)), method parts]

def another : List Element := [Build.space, constant "Y" (text "y")]

theorem repaired (tree result : Tree) (rewritten : replaceMagicValues (.ofRoot 0 tree) = some result) :
    builtin.fix Rule.replaceMagicValues.id (.ofRoot 0 tree) = .ok result :=
  builtin_fix .replaceMagicValues replaceMagicValues rfl (.ofRoot 0 tree) result rewritten

end SmellCheck.Declared

namespace SmellCheck.Catalog

open SmellCheck.Fix Declared

-- The class has nothing left to name, so a second run leaves the result of the first one as it is.
theorem naming_repair_idempotent (catalog : Catalog) (scope : Node) (isClass : scope.kind = .classDecl) (regular : Regular scope)
    (result : Tree) (fixed : catalog.fix Rule.replaceMagicValues.id scope = .ok result) :
    (∃ place : Node, place.root = result ∧ place.path = scope.path ∧ place.kind = .classDecl) ∧
      ∀ place : Node, place.root = result → place.path = scope.path →
        place.Quiet ∧ catalog.fix Rule.replaceMagicValues.id place = .ok result := by
  have again := fix_again catalog .replaceMagicValues replaceMagicValues rfl scope
  obtain ⟨found, root, path, kind, quiet⟩ := class_after scope regular isClass
  rw [← (again scope result fixed).1] at root
  refine ⟨⟨found, root, path, kind⟩, ?_⟩
  intro place placeRoot placePath
  obtain ⟨context, focus⟩ := Frame.rise_injective found.context place.context found.focus place.focus
    (path.trans placePath.symm) (root.trans placeRoot.symm)
  have placeClass : place.kind = .classDecl := by
    rw [Node.kind, ← focus]
    exact kind
  have placeQuiet := quiet_of_same found place focus context quiet
  refine ⟨placeQuiet, ?_⟩
  have nothing := no_uses_of_quiet place placeQuiet
  rw [(again place result fixed).2, replace_magic_values_eq, Node.class_scope_self place (.inl placeClass), nothing]
  exact congrArg Except.ok placeRoot

theorem named_values_stay :
    let home := Node.ofRoot 0 (valued [] [text "x", text "y", Build.numberLiteral "1"])
    let result := valued [constant "Y" (text "y")] [Build.identifierName "A", Build.identifierName "Y", Build.numberLiteral "1"]
    home.kind = .classDecl ∧ Regular home ∧ builtin.fix Rule.replaceMagicValues.id home = .ok result ∧
      builtin.fix Rule.replaceMagicValues.id (.ofRoot 1 result) = .ok result := by
  intro home result
  have regular : Regular home := ⟨⟨by decide, by decide, by decide⟩, by decide, by decide⟩
  have fixed : builtin.fix Rule.replaceMagicValues.id home = .ok result := repaired _ _ (by decide)
  exact ⟨rfl, regular, fixed, ((naming_repair_idempotent builtin home rfl regular result fixed).2 (.ofRoot 1 result) rfl rfl).2⟩

-- With a method in a constant the first run changes a value, with a constant in a constant it makes one longer, so
-- that each time the value reads like a literal that is left.
theorem changed_values_name_again :
    let number := Build.numberLiteral
    let name := Build.identifierName
    let long := "const const string Y = y;"
    let differ := fun tree once again : Tree =>
      builtin.fix Rule.replaceMagicValues.id (.ofRoot 0 tree) = .ok once ∧
        builtin.fix Rule.replaceMagicValues.id (.ofRoot 0 once) = .ok again ∧ again ≠ once
    let first := Node.ofRoot 0 (computed (number "1") (number "A"))
    let second := Node.ofRoot 0 (layered [] [text "y", number long])
    (first.kind = .classDecl ∧ Orderly first ∧
      (∀ last ∈ first.constantFields.getLast?, ∀ field ∈ first.constantFields, field ∉ last.ancestors) ∧
      differ first.root (computed (name "A") (number "A")) (computed (name "A") (name "A"))) ∧
    (second.kind = .classDecl ∧ Orderly second ∧
      (∀ literal ∈ methodLiterals second, ∀ field ∈ second.constantFields, field ∉ literal.ancestors) ∧
      differ second.root (layered another [name "Y", number long]) (layered another [name "Y", name "A"])) := by
  intro number name long differ first second
  have changed : differ first.root (computed (name "A") (number "A")) (computed (name "A") (name "A")) :=
    ⟨repaired _ _ (by decide), repaired _ _ (by decide), by decide⟩
  have grown : differ second.root (layered another [name "Y", number long]) (layered another [name "Y", name "A"]) :=
    ⟨repaired _ _ (by decide), repaired _ _ (by decide), by decide⟩
  exact ⟨⟨rfl, ⟨by decide, by decide, by decide⟩, by decide, changed⟩,
    ⟨rfl, ⟨by decide, by decide, by decide⟩, by decide, grown⟩⟩

end SmellCheck.Catalog
