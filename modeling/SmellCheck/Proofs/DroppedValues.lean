import SmellCheck.Proofs.ExposedFields

/-!
Values that are dropped. A property is made from the attributes, the modifiers, the type and the name of
a field, and has no other tokens than those and its accessors. It is the same with any initial value of
the field and without one.
-/

set_option autoImplicit false

namespace SmellCheck

-- The tokens that are neither white space nor comments, in order.
def Tree.code (tree : Tree) : List (Kind × String) := tree.tokens.filter (!·.1.isTrivia)

theorem spaced_tokens (trees : List Tree) : Forest.tokens (Build.spaced trees) = trees.flatMap Tree.tokens := by
  induction trees with
  | nil => rfl
  | cons tree rest ih =>
      rw [List.flatMap_cons, ← ih]
      rfl

theorem property_tokens (attributes : List Tree) (modifiers : Option Tree) (type : Tree) (name : String) :
    (Build.property attributes modifiers type name Build.autoAccessors).tokens = attributes.flatMap Tree.tokens ++
      modifiers.toList.flatMap Tree.tokens ++ type.tokens ++ (.ident, name) :: Build.autoAccessors.tokens := by
  have own : Forest.tokens [type.toElement, Build.space, Build.ident name, Build.space, Build.autoAccessors.toElement] =
      type.tokens ++ (.ident, name) :: Build.autoAccessors.tokens := rfl
  have ending : Build.bodyEnd Build.autoAccessors = [] := rfl
  rw [Build.property, ending, List.append_nil, Build.tree, Tree.tokens, forest_tokens_append, forest_tokens_append, spaced_tokens,
    spaced_tokens, own, ← List.append_assoc]

theorem property_code (attributes : List Tree) (modifiers : Option Tree) (type : Tree) (name : String) :
    (Build.property attributes modifiers type name Build.autoAccessors).code = attributes.flatMap Tree.code ++
      modifiers.toList.flatMap Tree.code ++ type.code ++ (.ident, name) :: Build.autoAccessors.code := by
  simp only [Tree.code, property_tokens, List.filter_append, List.filter_flatMap]
  rfl

def Element.mapOfKind (kind : Kind) (change : Tree → Tree) : Element → Element
  | .token raw text => .token raw text
  | .node raw children => if Kind.ofRaw raw = kind then (change ⟨raw, children⟩).toElement else .node raw children

def Tree.mapOfKind (kind : Kind) (change : Tree → Tree) (tree : Tree) : Tree :=
  ⟨tree.raw, tree.children.map (Element.mapOfKind kind change)⟩

def Tree.withoutValue (declarator : Tree) : Tree := ⟨declarator.raw, declarator.children.filter (·.kind != .equalsValue)⟩

def Tree.withoutValues (field : Tree) : Tree :=
  field.mapOfKind .variableDecl (Tree.mapOfKind .variableDeclarator Tree.withoutValue)

section
variable (kind : Kind) (change : Tree → Tree) (tree : Tree)

theorem map_of_kind_subtrees : (tree.mapOfKind kind change).subtrees =
    tree.subtrees.map fun part => if part.kind = kind then change part else part := by
  have each : ∀ child : Element, (child.mapOfKind kind change).asNode? =
      child.asNode?.map fun part => if part.kind = kind then change part else part := by
    intro child
    cases child with
    | token raw text => rfl
    | node raw children =>
        have same : (⟨raw, children⟩ : Tree).kind = Kind.ofRaw raw := rfl
        rw [Element.mapOfKind, Element.asNode?, Option.map_some, same]
        split <;> rfl
  rw [Tree.mapOfKind, Tree.subtrees, Tree.subtrees, List.filterMap_map, List.map_filterMap]
  exact List.filterMap_congr fun child _ => each child

variable (sameKind : ∀ part, (change part).kind = part.kind) (other : Kind)
include sameKind

theorem map_of_kind_filter : (tree.mapOfKind kind change).subtrees.filter (·.kind == other) =
    (tree.subtrees.filter (·.kind == other)).map fun part => if other = kind then change part else part := by
  rw [map_of_kind_subtrees]
  trans (tree.subtrees.filter (·.kind == other)).map fun part => if part.kind = kind then change part else part
  · refine filter_map _ _ _ _ fun part _ => ?_
    split
    · rw [sameKind]
    · rfl
  · refine List.map_congr_left fun part member => ?_
    rw [eq_of_beq (List.mem_filter.mp member).2]

theorem map_of_kind_find : (tree.mapOfKind kind change).subtrees.find? (·.kind == other) =
    (tree.subtrees.find? (·.kind == other)).map fun part => if other = kind then change part else part := by
  rw [← List.head?_filter, ← List.head?_filter, map_of_kind_filter kind change tree sameKind, List.head?_map]

end

namespace Tree

def declaration? (field : Tree) : Option Tree := field.subtrees.find? (·.kind == .variableDecl)

def declaredType? (field : Tree) : Option Tree := field.declaration?.bind (·.subtrees.head?)

def declaredName? (field : Tree) : Option String := field.declarators.head?.bind name?

def property? (field : Tree) : Option Tree :=
  (field.declaredName?.bind Identifier.propertyName?).bind fun name => field.declaredType?.map fun type =>
    Build.property (field.subtrees.filter (·.kind == .attributeList)) (field.subtrees.find? (·.kind == .modifierList)) type name
      Build.autoAccessors

end Tree

theorem property_for_focus (field : Node) : Fix.propertyFor? field = field.focus.property? := by
  have names : field.focus.declaredName? = field.declarators.head?.bind Node.name? := by
    have heads : field.focus.declarators.head? = field.declarators.head?.map Node.focus := by
      rw [← List.head?_map, declarators_focus]
      rfl
    rw [Tree.declaredName?, heads, Option.bind_map]
    rfl
  have types : field.focus.declaredType? = ((field.childOfKind? .variableDecl).bind Node.firstChild?).map Node.focus := by
    rw [Tree.declaredType?, Tree.declaration?, ← child_of_kind_focus]
    cases field.childOfKind? .variableDecl with
    | none => rfl
    | some declaration => exact (first_child_focus declaration).symm
  have attributes : field.focus.subtrees.filter (·.kind == .attributeList) = Fix.attributeLists field :=
    (children_of_kind_focus field .attributeList).symm
  have modifiers : field.focus.subtrees.find? (·.kind == .modifierList) = Fix.modifierList? field :=
    (child_of_kind_focus field .modifierList).symm
  rw [Tree.property?, names, types, attributes, modifiers]
  simp only [Fix.propertyFor?, bind, Option.bind_assoc, pure, Option.map_eq_bind]
  rfl

theorem without_value_name (declarator : Tree) : declarator.withoutValue.name? = declarator.name? := by
  have texts : declarator.withoutValue.tokenTexts .ident = declarator.tokenTexts .ident := by
    rw [Tree.tokenTexts, Tree.withoutValue, List.filterMap_filter]
    refine List.filterMap_congr fun child _ => ?_
    by_cases isValue : child.kind = .equalsValue
    · have noName : child.tokenText? .ident = none := by
        cases child with
        | token raw text =>
            have other : Kind.ofRaw raw = .equalsValue := isValue
            rw [Element.tokenText?, other]
            rfl
        | node raw children => rfl
      simp [isValue, noName]
    · simp [isValue]
  rw [Tree.name?, Tree.name?, texts]

section
variable (field : Tree)

theorem without_values_filter (kind : Kind) (other : kind ≠ .variableDecl) :
    field.withoutValues.subtrees.filter (·.kind == kind) = field.subtrees.filter (·.kind == kind) := by
  rw [Tree.withoutValues, map_of_kind_filter .variableDecl (Tree.mapOfKind .variableDeclarator Tree.withoutValue) field fun _ => rfl]
  simp [other]

theorem without_values_find (kind : Kind) (other : kind ≠ .variableDecl) :
    field.withoutValues.subtrees.find? (·.kind == kind) = field.subtrees.find? (·.kind == kind) := by
  rw [← List.head?_filter, ← List.head?_filter, without_values_filter field kind other]

theorem without_values_declaration : field.withoutValues.declaration? =
    field.declaration?.map (Tree.mapOfKind .variableDeclarator Tree.withoutValue) := by
  rw [Tree.declaration?, Tree.withoutValues,
    map_of_kind_find .variableDecl (Tree.mapOfKind .variableDeclarator Tree.withoutValue) field fun _ => rfl]
  rfl

theorem without_values_declarators : field.withoutValues.declarators = field.declarators.map Tree.withoutValue := by
  rw [Tree.declarators, show field.withoutValues.subtrees.find? (·.kind == .variableDecl) = _ from without_values_declaration field,
    Tree.declarators, ← Tree.declaration?]
  cases field.declaration? with
  | none => rfl
  | some declaration => exact map_of_kind_filter .variableDeclarator Tree.withoutValue declaration (fun _ => rfl) .variableDeclarator

theorem without_values_exposed : field.withoutValues.isExposedField = field.isExposedField := by
  have modifiers : field.withoutValues.modifiers = field.modifiers := by
    rw [Tree.modifiers, without_values_find field .modifierList (by decide)]
    rfl
  rw [Tree.isExposedField, modifiers, without_values_declarators, List.length_map]
  rfl

theorem without_values_property (typed : ∀ type ∈ field.declaredType?, type.kind ≠ .variableDeclarator) :
    field.withoutValues.property? = field.property? := by
  have types : field.withoutValues.declaredType? = field.declaredType? := by
    rw [Tree.declaredType?, without_values_declaration]
    unfold Tree.declaredType? at typed ⊢
    cases isDeclaration : field.declaration? with
    | none => rfl
    | some declaration =>
        rw [isDeclaration] at typed
        rw [Option.map_some, Option.bind_some, Option.bind_some, map_of_kind_subtrees, List.head?_map]
        cases isType : declaration.subtrees.head? with
        | none => rfl
        | some type => exact congrArg some (if_neg (typed type isType))
  have names : field.withoutValues.declaredName? = field.declaredName? := by
    rw [Tree.declaredName?, without_values_declarators, List.head?_map, Tree.declaredName?]
    cases field.declarators.head? with
    | none => rfl
    | some declarator => exact without_value_name declarator
  rw [Tree.property?, types, names, without_values_filter field .attributeList (by decide),
    without_values_find field .modifierList (by decide)]
  rfl

end

namespace Fix

def withoutValues (field : Node) : Node := { field with focus := field.focus.withoutValues }

theorem encapsulate_without_values (field : Node) (result : Tree) (fixed : encapsulateField field = some result)
    (typed : ∀ type ∈ field.focus.declaredType?, type.kind ≠ .variableDeclarator) :
    encapsulateField (withoutValues field) = some result := by
  obtain ⟨property, exposed, made, inner, applied⟩ := encapsulate_field_some field result fixed
  have stillExposed : (withoutValues field).isExposedField := by
    rw [exposed_field_focus, withoutValues, without_values_exposed, ← exposed_field_focus, exposed]
  have stillMade : propertyFor? (withoutValues field) = some property := by
    rw [property_for_focus, withoutValues, without_values_property field.focus typed, ← property_for_focus, made]
  rw [encapsulate_field_made (withoutValues field) stillExposed inner property stillMade]
  have same := (exchange_stands (withoutValues field) property inner).1
  exact congrArg some (same.symm.trans ((exchange_stands field property inner).1.trans applied))

end Fix

namespace Catalog

open SmellCheck.Fix

-- The property has the tokens of the attributes, the modifiers and the type of the field, its name and its accessors,
-- whatever value the field has; it is the same for the field without the value, when there is a type.
theorem initial_value_dropped (catalog : Catalog) (field : Node) (result : Tree)
    (fixed : catalog.fix Rule.encapsulateField.id field = .ok result) (rewrites : (encapsulateField field).isSome) :
    ∃ (property declaration type : Node) (name : String), property.root = result ∧ property.path = field.path ∧
      field.childOfKind? .variableDecl = some declaration ∧ declaration.firstChild? = some type ∧
      (field.declarators.head?.bind Node.name?).bind Identifier.propertyName? = some name ∧
      property.focus.code = (attributeLists field).flatMap Tree.code ++ (modifierList? field).toList.flatMap Tree.code ++
        type.focus.code ++ (.ident, name) :: Build.autoAccessors.code ∧
      (type.kind ≠ .variableDeclarator → catalog.fix Rule.encapsulateField.id (withoutValues field) = .ok result) := by
  have rewritten := fix_rewrites catalog .encapsulateField encapsulateField rfl field result fixed rewrites
  obtain ⟨property, exposed, made, inner, applied⟩ := encapsulate_field_some field result rewritten
  have parts := made
  simp only [propertyFor?, bind, Option.bind_eq_some_iff, pure, Option.some.injEq] at parts
  obtain ⟨declarator, isFirst, old, named, name, new, declaration, isDeclaration, type, isType, built⟩ := parts
  obtain ⟨root, path⟩ := exchange_stands field property inner
  refine ⟨_, declaration, type, name, root.trans applied, path, isDeclaration, isType, ?_, ?_, fun isTyped => ?_⟩
  · rw [isFirst, Option.bind_some, named, Option.bind_some, new]
  · rw [← property_code, built]
    rfl
  · have typed : ∀ tree ∈ field.focus.declaredType?, tree.kind ≠ .variableDeclarator := by
      rw [Tree.declaredType?, Tree.declaration?, ← child_of_kind_focus, isDeclaration, Option.map_some, Option.bind_some,
        ← first_child_focus, isType]
      intro tree isTree
      rw [← Option.some.inj isTree]
      exact isTyped
    rw [(fix_again catalog .encapsulateField encapsulateField rfl field (withoutValues field) result fixed).2,
      encapsulate_without_values field result rewritten typed]
    rfl

def countOf (value : String) : Node :=
  let number := Build.simpleField ["public"] (Build.predefinedType "int") "count" (some (Build.numberLiteral value))
  let whole := Node.ofRoot 0 (Build.classDecl [] "C" [number])
  whole.firstChild?.getD whole

def counted : Tree := Build.classDecl [] "C" [visibleProperty "Count"]

theorem number_goes_with_value :
    let field := countOf "5"
    builtin.fix Rule.encapsulateField.id field = .ok counted ∧ (encapsulateField field).isSome ∧
      (withoutValues field).text = "public int count ;" ∧
      builtin.fix Rule.encapsulateField.id (withoutValues field) = .ok counted ∧
      ∃ property : Node, property.root = counted ∧ property.path = field.path ∧ property.focus.code =
        (modifierList? field).toList.flatMap Tree.code ++ [(.keyword, "int"), (.ident, "Count")] ++ Build.autoAccessors.code := by
  intro field
  have rewritten : encapsulateField field = some counted := by decide +kernel
  have fixed := builtin_fix .encapsulateField encapsulateField rfl field _ rewritten
  obtain ⟨property, declaration, type, name, root, path, isDeclaration, isType, named, code, same⟩ :=
    initial_value_dropped builtin field counted fixed (by rw [rewritten]; rfl)
  have isName : (field.declarators.head?.bind Node.name?).bind Identifier.propertyName? = some "Count" := by decide +kernel
  obtain rfl := Option.some.inj (isName.symm.trans named)
  have declared : ((field.childOfKind? .variableDecl).bind Node.firstChild?).map Node.focus = some (Build.predefinedType "int") := by
    decide +kernel
  rw [isDeclaration, Option.bind_some, isType] at declared
  have focus : type.focus = Build.predefinedType "int" := Option.some.inj declared
  have isTyped : type.kind ≠ .variableDeclarator := by
    rw [Node.kind, focus]
    decide
  refine ⟨fixed, by rw [rewritten]; rfl, by decide +kernel, same isTyped, property, root, path, ?_⟩
  rw [code, focus]
  simp [show attributeLists field = [] from rfl, show (Build.predefinedType "int").code = [(.keyword, "int")] from rfl]

theorem number_not_in_property :
    let field := countOf "5"
    let value := Build.numberLiteral "5"
    let place := (Node.ofRoot 0 counted).firstChild?.getD field
    (field.declarators.map fun declarator => (declarator.childOfKind? .equalsValue).bind fun equals =>
        equals.firstChild?.map Node.focus) = [some value] ∧
      builtin.fix Rule.encapsulateField.id field = .ok counted ∧ place.path = field.path ∧ place.kind = .propertyDecl ∧
      ¬ value.code.Sublist place.focus.code := by
  intro field value place
  have rewritten : encapsulateField field = some counted := by decide +kernel
  exact ⟨by decide +kernel, builtin_fix .encapsulateField encapsulateField rfl field _ rewritten, by decide, by decide,
    by decide +kernel⟩

end Catalog

end SmellCheck
