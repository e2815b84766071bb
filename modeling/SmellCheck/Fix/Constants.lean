import SmellCheck.Fix.Properties

/-!
Gives the literals in method bodies names. A literal that reads like the value of a constant becomes
the name of that constant. In a class that has constants, the other string literals become new
constants, declared after the last one.
-/

set_option autoImplicit false

namespace SmellCheck.Fix

def namedValues (fields : List Node) : List (String × String) :=
  (fields.flatMap Node.declarators).filterMap fun declarator => do
    let value ← (← declarator.childOfKind? .equalsValue).firstChild?
    return (← declarator.name?, value.trimmed)

def methodLiterals (scope : Node) : List Node :=
  scope.descendantsOrSelf.filter fun node =>
    node.kind == .literal && (node.ancestorOfKind? .methodDecl).isSome

def constantFor? (constants : List (String × String)) (literal : Node) : Option String :=
  (constants.find? (·.2 == literal.trimmed)).map (·.1)

def isStringLiteral (literal : Node) : Bool :=
  (literal.elements.find? (!·.isNode)).any (·.kind == .stringLit)

def groupByText (literals : List Node) : List (String × List Node) :=
  (literals.map Node.trimmed).eraseDups.map fun text =>
    (text, literals.filter (·.trimmed == text))

-- Names for groups of literals. A group whose name is no valid one, or is taken by a constant or by
-- a group before it, stays as it is.
def nameGroups (taken : List String) : List (String × List Node) → List (String × List Node)
  | [] => []
  | (text, literals) :: rest =>
      let name := Identifier.constantName text
      if Identifier.isValid name && !taken.contains name then
        (name, literals) :: nameGroups (name :: taken) rest
      else nameGroups taken rest

def constantLike (template : Node) (name : String) (literal : Tree) : Tree :=
  Build.field (attributeLists template) (modifierList? template)
    (Build.variableDeclaration (Build.predefinedType "string")
      [Build.variableDeclarator name (some literal)])

structure ConstantPlan where
  uses : List (String × Node)
  fresh : List (String × List Node)
  last? : Option Node

def planConstants (scope : Node) : ConstantPlan :=
  let fields := scope.constantFields
  let constants := namedValues fields
  let literals := methodLiterals scope
  let known := literals.filterMap fun literal =>
    (constantFor? constants literal).map (·, literal)
  let unknown := literals.filter fun literal =>
    (constantFor? constants literal).isNone && isStringLiteral literal
  let fresh := if fields.isEmpty then []
    else nameGroups (constants.map (·.1)) (groupByText unknown)
  ⟨known ++ fresh.flatMap fun (name, literals) => literals.map (name, ·), fresh,
    fields.getLast?⟩

namespace ConstantPlan

def newFields (plan : ConstantPlan) (template : Node) : List Tree :=
  plan.fresh.filterMap fun (name, literals) =>
    literals.head?.map fun literal => constantLike template name literal.focus

def declare (plan : ConstantPlan) (session : Session) : Session :=
  match plan.last? with
  | some last =>
      if plan.fresh.isEmpty then session
      else session.orSkip (session.insertAfter last (plan.newFields last))
  | none => session

end ConstantPlan

def replaceMagicValues : Fixer := fun node =>
  let scope := node.classScope
  let plan := planConstants scope
  if plan.uses.isEmpty then none
  else
    let session := (plan.declare (.start scope)).planAll
      (fun session (name, literal) => session.replace literal [Build.identifierName name]) plan.uses
    some session.apply

end SmellCheck.Fix
