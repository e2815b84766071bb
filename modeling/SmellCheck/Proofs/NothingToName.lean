import SmellCheck.Proofs.Constants
import SmellCheck.Proofs.Spots

/-!
When a class has no literals to name. No literal of a method reads like the value of a constant, and
every string literal of a method makes a name that is no valid one or is that of a constant. The
condition speaks of the spots of the class and not of places, so it goes from one document to another.
-/

set_option autoImplicit false

namespace SmellCheck

namespace Tree

def isConstantField (tree : Tree) : Bool := tree.kind == .fieldDecl && tree.modifiers.contains "const"

def isStringLiteral (tree : Tree) : Bool := (tree.children.find? (!·.isNode)).any (·.kind == .stringLit)

def trimmed (tree : Tree) : String := Text.trim tree.text

def namedValue? (declarator : Tree) : Option (String × String) := do
  let value ← (← declarator.subtrees.find? (·.kind == .equalsValue)).subtrees.head?
  return (← (declarator.tokenTexts .ident).head?, value.trimmed)

def namedValues (field : Tree) : List (String × String) :=
  ((field.subtrees.find? (·.kind == .variableDecl)).elim [] fun declaration =>
    declaration.subtrees.filter (·.kind == .variableDeclarator)).filterMap namedValue?

end Tree

theorem constant_field_focus (node : Node) : node.isConstantField = node.focus.isConstantField := by
  rw [Node.isConstantField, Tree.isConstantField, Node.hasModifier, modifiers_focus]
  rfl

theorem declarators_focus (field : Node) :
    field.declarators.map Node.focus = (field.focus.subtrees.find? (·.kind == .variableDecl)).elim [] fun declaration =>
      declaration.subtrees.filter (·.kind == .variableDeclarator) := by
  rw [← child_of_kind_focus, Node.declarators]
  cases field.childOfKind? .variableDecl with
  | none => rfl
  | some declaration => exact children_of_kind_focus declaration .variableDeclarator

theorem named_value_focus (declarator : Node) :
    (do let value ← (← declarator.childOfKind? .equalsValue).firstChild?
        return (← declarator.name?, value.trimmed)) = declarator.focus.namedValue? := by
  rw [Tree.namedValue?, ← child_of_kind_focus]
  cases declarator.childOfKind? .equalsValue with
  | none => rfl
  | some equals =>
      simp only [Option.map_some, Option.bind_eq_bind, Option.bind_some]
      rw [← first_child_focus]
      cases equals.firstChild? <;> rfl

theorem named_values_focus (fields : List Node) :
    Fix.namedValues fields = (fields.map Node.focus).flatMap Tree.namedValues := by
  induction fields with
  | nil => rfl
  | cons field rest ih =>
      have here : field.declarators.filterMap (fun declarator => declarator.focus.namedValue?) = field.focus.namedValues := by
        rw [Tree.namedValues, ← declarators_focus, List.filterMap_map]
        rfl
      rw [List.map_cons, List.flatMap_cons, ← ih, ← here, Fix.namedValues, Fix.namedValues, List.flatMap_cons,
        List.filterMap_append]
      exact congrArg (· ++ _) (congrArg (List.filterMap · field.declarators) (funext named_value_focus))

namespace Node

def HasConstantField (node : Node) : Prop := ∃ inMethod field, node.Spot inMethod field ∧ field.isConstantField

def HasConstant (node : Node) (constant : String × String) : Prop :=
  ∃ inMethod field, node.Spot inMethod field ∧ field.isConstantField ∧ constant ∈ field.namedValues

structure Quiet (node : Node) : Prop where
  values : ∀ literal, node.Spot true literal → literal.kind = .literal → ∀ constant, node.HasConstant constant →
    constant.2 ≠ literal.trimmed
  names : node.HasConstantField → ∀ literal, node.Spot true literal → literal.kind = .literal → literal.isStringLiteral →
    Identifier.isValid (Identifier.constantName literal.trimmed) = false ∨
      ∃ value, node.HasConstant (Identifier.constantName literal.trimmed, value)

end Node

namespace Fix

open Node

theorem mem_constants (scope : Node) (constant : String × String) :
    constant ∈ namedValues scope.constantFields ↔ scope.HasConstant constant := by
  rw [named_values_focus, List.mem_flatMap]
  constructor
  · rintro ⟨tree, member, named⟩
    obtain ⟨field, isField, rfl⟩ := List.mem_map.mp member
    obtain ⟨below, isConstant⟩ := List.mem_filter.mp isField
    exact ⟨_, _, spot_of_below scope field below, constant_field_focus field ▸ isConstant, named⟩
  · rintro ⟨_, tree, spot, isConstant, named⟩
    obtain ⟨field, below, -, rfl⟩ := below_of_spot scope _ _ spot
    exact ⟨_, List.mem_map_of_mem (List.mem_filter.mpr ⟨below, (constant_field_focus field).trans isConstant⟩), named⟩

theorem has_constant_field_iff (scope : Node) : scope.HasConstantField ↔ scope.constantFields ≠ [] := by
  constructor
  · rintro ⟨_, tree, spot, isConstant⟩ none
    obtain ⟨field, below, -, rfl⟩ := below_of_spot scope _ _ spot
    have member : field ∈ scope.constantFields := List.mem_filter.mpr ⟨below, (constant_field_focus field).trans isConstant⟩
    rw [none] at member
    cases member
  · intro some
    obtain ⟨field, rest, split⟩ := List.exists_cons_of_ne_nil some
    have member : field ∈ scope.constantFields := by simp [split]
    obtain ⟨below, isConstant⟩ := List.mem_filter.mp member
    exact ⟨_, _, spot_of_below scope field below, (constant_field_focus field).symm.trans isConstant⟩

theorem spot_of_method_literal (scope literal : Node) (member : literal ∈ methodLiterals scope) :
    scope.Spot true literal.focus ∧ literal.focus.kind = .literal := by
  obtain ⟨below, shape⟩ := List.mem_filter.mp member
  obtain ⟨isLiteral, inMethod⟩ := Bool.and_eq_true_iff.mp shape
  have spot := spot_of_below scope literal below
  rw [show literal.inMethod = true from inMethod] at spot
  exact ⟨spot, eq_of_beq isLiteral⟩

theorem method_literal_of_spot (scope : Node) (tree : Tree) (spot : scope.Spot true tree) (isLiteral : tree.kind = .literal) :
    ∃ literal ∈ methodLiterals scope, literal.focus = tree := by
  obtain ⟨literal, below, inMethod, rfl⟩ := below_of_spot scope _ _ spot
  exact ⟨literal, List.mem_filter.mpr ⟨below, Bool.and_eq_true_iff.mpr ⟨beq_iff_eq.mpr isLiteral, inMethod⟩⟩, rfl⟩

theorem constant_for_none_iff (constants : List (String × String)) (literal : Node) :
    constantFor? constants literal = none ↔ ∀ constant ∈ constants, constant.2 ≠ literal.trimmed := by
  simp [constantFor?]

theorem group_of_literal (all : List Node) (literal : Node) (member : literal ∈ all) :
    ∃ literals, (literal.trimmed, literals) ∈ groupByText all ∧ literal ∈ literals := by
  refine ⟨all.filter (·.trimmed == literal.trimmed), ?_, by simp [member]⟩
  exact List.mem_map.mpr ⟨literal.trimmed, List.mem_eraseDups.mpr (List.mem_map_of_mem member), rfl⟩

theorem literal_of_group (all : List Node) (text : String) (literals : List Node) (member : (text, literals) ∈ groupByText all) :
    ∃ literal ∈ literals, literal ∈ all ∧ literal.trimmed = text := by
  obtain ⟨own, present, same⟩ := List.mem_map.mp member
  obtain ⟨rfl, rfl⟩ := Prod.mk.inj same
  obtain ⟨literal, isLiteral, rfl⟩ := List.mem_map.mp (List.mem_eraseDups.mp present)
  exact ⟨literal, by simp [isLiteral], isLiteral, rfl⟩

theorem name_groups_nil (taken : List String) (groups : List (String × List Node))
    (blocked : ∀ group ∈ groups, Identifier.isValid (Identifier.constantName group.1) = false ∨
      Identifier.constantName group.1 ∈ taken) : nameGroups taken groups = [] := by
  induction groups with
  | nil => rfl
  | cons group rest ih =>
      obtain ⟨text, literals⟩ := group
      have later := ih fun group member => blocked group (List.mem_cons_of_mem _ member)
      rw [nameGroups, if_neg, later]
      rcases blocked (text, literals) List.mem_cons_self with invalid | named
      · simp [invalid]
      · simp [named]

theorem name_groups_blocked (taken : List String) (groups : List (String × List Node)) (text : String)
    (literals : List Node) (member : (text, literals) ∈ groups) :
    (Identifier.constantName text, literals) ∈ nameGroups taken groups ∨
      Identifier.isValid (Identifier.constantName text) = false ∨ Identifier.constantName text ∈ taken ∨
        ∃ others, (Identifier.constantName text, others) ∈ nameGroups taken groups := by
  induction groups generalizing taken with
  | nil => cases member
  | cons group rest ih =>
      obtain ⟨first, own⟩ := group
      rw [nameGroups]
      split
      · rcases List.mem_cons.mp member with same | later
        · obtain ⟨rfl, rfl⟩ := Prod.mk.inj same
          exact .inl List.mem_cons_self
        · rcases ih (Identifier.constantName first :: taken) later with named | invalid | inTaken | ⟨others, named⟩
          · exact .inl (List.mem_cons_of_mem _ named)
          · exact .inr (.inl invalid)
          · rcases List.mem_cons.mp inTaken with same | before
            · exact .inr (.inr (.inr ⟨own, by rw [same]; exact List.mem_cons_self⟩))
            · exact .inr (.inr (.inl before))
          · exact .inr (.inr (.inr ⟨others, List.mem_cons_of_mem _ named⟩))
      · rename_i blocked
        rcases List.mem_cons.mp member with same | later
        · obtain ⟨rfl, rfl⟩ := Prod.mk.inj same
          by_cases valid : Identifier.isValid (Identifier.constantName text) = true
          · have inTaken : taken.contains (Identifier.constantName text) = true := by
              by_contra free
              exact blocked (Bool.and_eq_true_iff.mpr ⟨valid, by rw [Bool.not_eq_true', Bool.eq_false_iff]; exact free⟩)
            exact .inr (.inr (.inl (List.contains_iff_mem.mp inTaken)))
          · exact .inr (.inl (Bool.eq_false_iff.mpr valid))
        · exact ih taken later

section
variable (scope : Node)

theorem fresh_use (name : String) (literals : List Node) (literal : Node) (fresh : (name, literals) ∈ (planConstants scope).fresh)
    (member : literal ∈ literals) : (name, literal) ∈ (planConstants scope).uses :=
  List.mem_append_right _ (List.mem_flatMap.mpr ⟨(name, literals), fresh, List.mem_map.mpr ⟨literal, member, rfl⟩⟩)

theorem fresh_eq (some : scope.constantFields ≠ []) :
    (planConstants scope).fresh = nameGroups ((namedValues scope.constantFields).map (·.1))
      (groupByText ((methodLiterals scope).filter fun literal =>
        (constantFor? (namedValues scope.constantFields) literal).isNone && isStringLiteral literal)) := by
  simp only [planConstants]
  rw [if_neg (by simpa using some)]

theorem fresh_distinct : ((planConstants scope).fresh.map Prod.fst).Nodup ∧
    ∀ name ∈ (planConstants scope).fresh.map Prod.fst, name ∉ (namedValues scope.constantFields).map Prod.fst := by
  by_cases none : scope.constantFields = []
  · simp [planConstants, none]
  · rw [fresh_eq scope none]
    exact name_groups_distinct _ _

theorem fresh_group (name : String) (literals : List Node) (fresh : (name, literals) ∈ (planConstants scope).fresh) :
    ∃ literal ∈ literals, name = Identifier.constantName literal.trimmed ∧ ∀ other,
      other ∈ literals ↔ other ∈ methodLiterals scope ∧ other.trimmed = literal.trimmed ∧
        constantFor? (namedValues scope.constantFields) other = none ∧ isStringLiteral other := by
  by_cases none : scope.constantFields = []
  · simp [planConstants, none] at fresh
  · rw [fresh_eq scope none] at fresh
    obtain ⟨text, grouped, rfl⟩ := mem_name_groups _ _ name literals fresh
    obtain ⟨literal, member, -, rfl⟩ := literal_of_group _ _ _ grouped
    refine ⟨literal, member, rfl, fun other => ?_⟩
    rw [mem_group_by_text _ literals _ grouped]
    simp only [List.mem_filter, beq_iff_eq, Bool.and_eq_true, Option.isNone_iff_eq_none]
    rw [and_assoc, and_comm (a := _ ∧ _) (b := other.trimmed = literal.trimmed)]

theorem unused_literal (literal : Node) (member : literal ∈ methodLiterals scope)
    (unused : ∀ name, (name, literal) ∉ (planConstants scope).uses) :
    (∀ constant ∈ namedValues scope.constantFields, constant.2 ≠ literal.trimmed) ∧
      (scope.constantFields ≠ [] → isStringLiteral literal →
        Identifier.isValid (Identifier.constantName literal.trimmed) = false ∨
          (∃ value, (Identifier.constantName literal.trimmed, value) ∈ namedValues scope.constantFields) ∨
            ∃ others, (Identifier.constantName literal.trimmed, others) ∈ (planConstants scope).fresh) := by
  have unknown : constantFor? (namedValues scope.constantFields) literal = none := by
    refine Option.eq_none_iff_forall_ne_some.mpr fun name found => unused name ?_
    exact List.mem_append_left _ (List.mem_filterMap.mpr ⟨literal, member, by rw [found]; rfl⟩)
  refine ⟨(constant_for_none_iff _ _).mp unknown, fun some isString => ?_⟩
  have isUnknown : literal ∈ (methodLiterals scope).filter fun literal =>
      (constantFor? (namedValues scope.constantFields) literal).isNone && isStringLiteral literal := by
    simp [member, unknown, isString]
  obtain ⟨literals, grouped, inGroup⟩ := group_of_literal _ literal isUnknown
  rcases name_groups_blocked ((namedValues scope.constantFields).map (·.1)) _ _ _ grouped with
    named | invalid | taken | ⟨others, named⟩
  · rw [← fresh_eq scope some] at named
    exact absurd (fresh_use scope _ _ literal named inGroup) (unused _)
  · exact .inl invalid
  · obtain ⟨⟨name, value⟩, isConstant, same⟩ := List.mem_map.mp taken
    obtain rfl : name = _ := same
    exact .inr (.inl ⟨value, isConstant⟩)
  · rw [← fresh_eq scope some] at named
    exact .inr (.inr ⟨others, named⟩)

theorem quiet_of_no_uses (none : (planConstants scope).uses = []) : scope.Quiet := by
  have unused : ∀ literal name, (name, literal) ∉ (planConstants scope).uses := by
    intro literal name
    rw [none]
    exact List.not_mem_nil
  have nothing : ∀ name literals, (name, literals) ∉ (planConstants scope).fresh := by
    intro name literals fresh
    obtain ⟨literal, member, -⟩ := fresh_group scope name literals fresh
    exact unused literal name (fresh_use scope name literals literal fresh member)
  refine ⟨?_, ?_⟩
  · intro tree spot isLiteral constant isConstant
    obtain ⟨literal, member, rfl⟩ := method_literal_of_spot scope tree spot isLiteral
    exact (unused_literal scope literal member (unused literal)).1 constant ((mem_constants scope constant).mpr isConstant)
  · intro some tree spot isLiteral isString
    obtain ⟨literal, member, rfl⟩ := method_literal_of_spot scope tree spot isLiteral
    rcases (unused_literal scope literal member (unused literal)).2 ((has_constant_field_iff scope).mp some) isString with
      invalid | ⟨value, isConstant⟩ | ⟨others, fresh⟩
    · exact .inl invalid
    · exact .inr ⟨value, (mem_constants scope _).mp isConstant⟩
    · exact absurd fresh (nothing _ _)

theorem no_uses_of_quiet (quiet : scope.Quiet) : (planConstants scope).uses = [] := by
  have unknown : ∀ literal ∈ methodLiterals scope, constantFor? (namedValues scope.constantFields) literal = none := by
    intro literal member
    obtain ⟨spot, isLiteral⟩ := spot_of_method_literal scope literal member
    refine (constant_for_none_iff _ _).mpr fun constant isConstant => ?_
    exact quiet.values literal.focus spot isLiteral constant ((mem_constants scope constant).mp isConstant)
  have fresh : (planConstants scope).fresh = [] := by
    by_cases none : scope.constantFields = []
    · simp [planConstants, none]
    · rw [fresh_eq scope none]
      refine name_groups_nil _ _ ?_
      rintro ⟨text, literals⟩ grouped
      obtain ⟨literal, -, isUnknown, rfl⟩ := literal_of_group _ _ _ grouped
      obtain ⟨member, shape⟩ := List.mem_filter.mp isUnknown
      obtain ⟨spot, isLiteral⟩ := spot_of_method_literal scope literal member
      refine (quiet.names ((has_constant_field_iff scope).mpr none) literal.focus spot isLiteral
        (Bool.and_eq_true_iff.mp shape).2).imp_right ?_
      rintro ⟨value, isConstant⟩
      exact List.mem_map.mpr ⟨_, (mem_constants scope _).mpr isConstant, rfl⟩
  have known : (methodLiterals scope).filterMap (fun literal =>
      (constantFor? (namedValues scope.constantFields) literal).map (·, literal)) = [] := by
    refine List.filterMap_eq_nil_iff.mpr fun literal member => ?_
    rw [unknown literal member]
    rfl
  have split : (planConstants scope).uses = _ ++ ((planConstants scope).fresh.flatMap fun group =>
      group.2.map (group.1, ·)) := rfl
  rw [split, fresh]
  simpa using known

end

end Fix

end SmellCheck
