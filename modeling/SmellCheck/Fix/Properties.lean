import SmellCheck.Detect.Members
import SmellCheck.Fix.Fixer
import SmellCheck.Identifier

/-!
Turns an exposed field into a property with accessors that has the same attributes, modifiers and
type.
-/

set_option autoImplicit false

namespace SmellCheck.Fix

def attributeLists (node : Node) : List Tree :=
  (node.childrenOfKind .attributeList).map Node.focus

def modifierList? (node : Node) : Option Tree := (node.childOfKind? .modifierList).map Node.focus

def propertyFor? (field : Node) : Option Tree := do
  let name ← (← field.declarators.head?).name?
  let property ← Identifier.propertyName? name
  let type ← (← field.childOfKind? .variableDecl).firstChild?
  return Build.property (attributeLists field) (modifierList? field) type.focus property
    Build.autoAccessors

theorem property_for_some (field : Node) (property : Tree) (made : propertyFor? field = some property) :
    ∃ name declaration type, field.childOfKind? .variableDecl = some declaration ∧ declaration.firstChild? = some type ∧
      property = Build.property (attributeLists field) (modifierList? field) type.focus name Build.autoAccessors := by
  simp only [propertyFor?, bind, Option.bind_eq_some_iff, pure, Option.some.injEq] at made
  obtain ⟨_, -, _, -, name, -, declaration, isChild, type, isFirst, made⟩ := made
  exact ⟨name, declaration, type, isChild, isFirst, made.symm⟩

def encapsulateField : Fixer := fun field => do
  if !field.isExposedField then none
  else
    let property ← propertyFor? field
    let session ← ((Session.start field).replace field [property]).toOption
    return session.apply

end SmellCheck.Fix
