import SmellCheck.Cover
import SmellCheck.Symbol
import SmellCheck.Text.Blank
import SmellCheck.Text.Search

/-!
Resolution of names by the lexical scopes of one tree. A name is looked up from the innermost scope
outward: the parameters and locals of lambdas, methods and constructors, the members of the types
around, and last the types that the tree declares anywhere and a few of the library.
-/

set_option autoImplicit false

namespace SmellCheck

def Kind.isBodyOwner (kind : Kind) : Bool := kind.isLambda || kind.isMethodLike

def Kind.isTypeWithMembers : Kind → Bool
  | .classDecl | .structDecl => true
  | _ => false

namespace Node

def bodyOwner? (node : Node) : Option Node :=
  (node.ancestors.takeWhile fun ancestor => !ancestor.kind.isTypeWithMembers).find?
    (·.kind.isBodyOwner)

def enclosingType? (node : Node) : Option Node :=
  node.ancestorsOrSelf.find? (·.kind.isTypeWithMembers)

def enclosingTypeName? (node : Node) : Option String := node.enclosingType?.bind name?

def isMemberName (node : Node) : Bool :=
  match node.parent with
  | some access =>
      access.kind == .memberAccess && (access.child? 1).any (·.same node)
  | none => false

def isAssignmentTarget (node : Node) : Bool :=
  match node.parent with
  | some assignment =>
      assignment.kind == .assignment && assignment.firstChild?.any (·.same node) &&
        (assignment.tokenTexts .punct).contains "="
  | none => false

mutual
def unwrapFrom (snapshot : Nat) (context : List Frame) : Element → Option Node
  | .token .. => none
  | .node raw children =>
      if Kind.ofRaw raw = .parenExpr then forestUnwrap snapshot raw context [] children
      else some ⟨snapshot, ⟨raw, children⟩, context⟩

def forestUnwrap (snapshot : Nat) (raw : RawKind) (context : List Frame)
    (before : List Element) : List Element → Option Node
  | [] => none
  | element :: rest =>
      if element.isNode then unwrapFrom snapshot (⟨raw, before, rest⟩ :: context) element
      else forestUnwrap snapshot raw context (element :: before) rest
end

def unwrapped? (node : Node) : Option Node :=
  unwrapFrom node.snapshot node.context node.focus

end Node

namespace Scope

def passingOf (parameter : Node) : Passing :=
  match parameter.modifiers.find? fun word => word == "ref" || word == "out" || word == "in" with
  | some "ref" => .byRef
  | some "out" => .out
  | some "in" => .byIn
  | _ => .byValue

def declaration? (node : Node) : Option (SymbolKind × Option String) :=
  let declaredType? := node.declaredType?.map Node.text
  let firstType? := node.firstChild?.map Node.text
  match node.kind with
  | .parameter => some (.parameter, declaredType?)
  | .variableDeclarator =>
      node.parent.map fun declaration =>
        (if declaration.parentKind? = some .fieldDecl then .field else .local,
          declaration.firstChild?.map Node.text)
  | .forEachStmt | .declarationExpr | .catchClause => some (.local, firstType?)
  | .propertyDecl => some (.property, declaredType?)
  | .methodDecl => some (.method, declaredType?)
  | .classDecl | .structDecl | .enumDecl => some (.type, node.name?)
  | _ => none

def declared? (node : Node) : Option Symbol := do
  let (kind, type?) ← declaration? node
  let name ← node.name?
  return ⟨name, kind, if kind = .parameter then passingOf node else .byValue, type?,
    some node.range⟩

def parametersOf (owner : Node) : List Symbol :=
  let parameters := match owner.kind with
    | .simpleLambda => owner.childrenOfKind .parameter
    | _ => (owner.childOfKind? .parameterList).elim [] (·.childrenOfKind .parameter)
  parameters.filterMap declared?

def isLocalDeclaration : Kind → Bool
  | .variableDeclarator | .forEachStmt | .declarationExpr | .catchClause => true
  | _ => false

def localsOf (owner : Node) : List Symbol :=
  (owner.descendantsOrSelf.filter fun node =>
    isLocalDeclaration node.kind && node.bodyOwner?.any (·.same owner)).filterMap declared?

def memberDeclarations (member : Node) : List Node :=
  match member.kind with
  | .fieldDecl => member.descendantsOfKind .variableDeclarator
  | .propertyDecl | .methodDecl => [member]
  | _ => []

def memberOf? (type : Node) (name : String) : Option Symbol :=
  (type.children.flatMap memberDeclarations).findSome? fun node =>
    if node.name? = some name then declared? node else none

def lookupIn? (scope : Node) (name : String) : Option Symbol :=
  if scope.kind.isBodyOwner then
    (parametersOf scope ++ localsOf scope).find? (·.name == name)
  else if scope.kind.isTypeWithMembers then memberOf? scope name
  else none

def valueTypeKeywords : List String := [
  "bool", "byte", "sbyte", "char", "decimal", "double", "float", "int", "uint", "long", "ulong",
  "short", "ushort", "nint", "nuint"]

def wellKnownStructs : List String := [
  "Boolean", "Byte", "SByte", "Char", "Decimal", "Double", "Single", "Int16", "UInt16", "Int32",
  "UInt32", "Int64", "UInt64", "Guid", "DateTime", "DateTimeOffset", "TimeSpan",
  "CancellationToken", "Nullable"]

def wellKnownTypes : List (String × String) := [
  ("ArgumentNullException", "System.ArgumentNullException"),
  ("ArgumentException", "System.ArgumentException"),
  ("ArgumentOutOfRangeException", "System.ArgumentOutOfRangeException"),
  ("InvalidOperationException", "System.InvalidOperationException"),
  ("NullReferenceException", "System.NullReferenceException"),
  ("Exception", "System.Exception"),
  ("Guid", "System.Guid"),
  ("DateTime", "System.DateTime"),
  ("TimeSpan", "System.TimeSpan")]

def namesOf (root : Node) (kind : Kind) : List String :=
  (root.descendantsOrSelf.filter (·.kind == kind)).filterMap Node.name?

def typeSymbol? (root : Node) (name : String) : Option Symbol :=
  let declared := [Kind.classDecl, .structDecl, .enumDecl].any fun kind =>
    (namesOf root kind).contains name
  (if declared then some name else wellKnownTypes.lookup name).map fun full =>
    ⟨name, .type, .byValue, some full, none⟩

def classifyNamed (root : Node) (name : String) : TypeClass :=
  let base := Text.trim (Text.firstSegment '<' name)
  let short := Text.lastSegment '.' base
  if valueTypeKeywords.contains short || wellKnownStructs.contains short ||
      (namesOf root .structDecl).contains short then .struct
  else if (namesOf root .enumDecl).contains short then .other
  else .reference

-- The class of a type whose text is given from its end: a question mark makes a struct of
-- everything but a reference, and arrays are references.
def classifyReversed (root : Node) : List Char → TypeClass
  | '?' :: rest => if classifyReversed root rest = .reference then .reference else .struct
  | ']' :: _ => .reference
  | chars => classifyNamed root (.ofList chars.reverse)

def classify (root : Node) (type : String) : TypeClass :=
  classifyReversed root type.toList.reverse

def lookup? (root : Node) (scopes : List Node) (name : String) : Option Symbol :=
  (scopes.findSome? (lookupIn? · name)).or (typeSymbol? root name)

-- Only members of `this` are known through their receiver.
def memberAccess? (access : Node) : Option Symbol := do
  let receiver ← access.firstChild?
  let name ← access.child? 1
  if receiver.text = "this" then memberOf? (← access.enclosingType?) name.text else none

def referenced? (root node : Node) : Option Symbol := do
  let node ← node.unwrapped?
  match node.kind with
  | .identifierName =>
      if node.isMemberName then node.parent.bind memberAccess?
      else lookup? root node.ancestorsOrSelf node.text
  | .memberAccess => memberAccess? node
  | _ => none

def typeOf? (root : Node) (symbol : Symbol) : Option TypeInfo :=
  symbol.type?.map fun type =>
    ⟨type, classify root (if symbol.kind = .type then symbol.name else type)⟩

def owner? (root : Node) (symbol : Symbol) : Option Node := do
  let range ← symbol.declaration?
  if symbol.isParameterOrLocal then (root.withRange? range).bind Node.bodyOwner? else none

def read? (root body identifier : Node) : Option Symbol :=
  if identifier.isMemberName || identifier.isAssignmentTarget then none
  else if identifier.text = "this" then some (.this body.enclosingTypeName?)
  else (referenced? root identifier).filter Symbol.isParameterOrLocal

def readsIn (root body : Node) : List Symbol :=
  let identifiers := body.descendantsOrSelf.filter (·.kind == .identifierName)
  (identifiers.filterMap (read? root body)).eraseDups

-- A child of a lambda, method or constructor is a body; instance bodies have a receiver.
def dataFlow? (root body : Node) : Option DataFlow := do
  let owner ← body.parent
  if owner.kind.isBodyOwner then
    let receiver := if owner.kind.isMethodLike && !owner.hasModifier "static"
      then [Symbol.this owner.enclosingTypeName?] else []
    return ⟨parametersOf owner ++ receiver, readsIn root body⟩
  else none

def semantics (node : Node) : Semantics :=
  let root := Node.ofRoot node.snapshot node.root
  ⟨declared?, referenced? root, typeOf? root, owner? root, dataFlow? root⟩

end Scope

end SmellCheck
