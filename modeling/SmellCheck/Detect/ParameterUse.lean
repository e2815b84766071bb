import SmellCheck.Detect.Finding

/-!
Parameters that are not checked, not kept or not used. These rules ask about symbols, so without
answers about them they report nothing.
-/

set_option autoImplicit false

namespace SmellCheck.Detect

def parameterSymbol? (semantics : Semantics) (node : Node) : Option Symbol :=
  (semantics.declared? node).filter (·.kind == .parameter)

def byValueParameter? (semantics : Semantics) (node : Node) : Option Symbol :=
  (parameterSymbol? semantics node).filter (·.passing == .byValue)

def isStruct (semantics : Semantics) (symbol : Symbol) : Bool :=
  (semantics.typeOf? symbol).any (·.classification == .struct)

-- Whether a name at the front of a member access reads like the parameter.
def isDereferenced (method : Node) (name : String) : Bool :=
  (method.descendantsOfKind .memberAccess).any fun access =>
    access.firstChild?.any fun receiver =>
      receiver.kind == .identifierName && receiver.trimmed == name

def isThrow : Kind → Bool
  | .throwStmt | .throwExpr => true
  | _ => false

def namesArgumentNull (semantics : Semantics) (creation : Node) : Bool :=
  creation.firstChild?.any fun type =>
    type.kind == .identifierName && (semantics.referenced? type).any fun symbol =>
      symbol.kind == .type && symbol.type? == some "System.ArgumentNullException"

def hasArgument (creation : Node) (text : String) : Bool :=
  (creation.childOfKind? .argumentList).any fun list =>
    (list.childrenOfKind .argument).any (·.trimmed == text)

def isGuarded (semantics : Semantics) (method : Node) (name : String) : Bool :=
  method.descendantsOrSelf.any fun node =>
    isThrow node.kind && node.firstChild?.any fun creation =>
      creation.kind == .objectCreation && namesArgumentNull semantics creation &&
        hasArgument creation ("nameof(" ++ name ++ ")")

def missingNullValidation : Detector := fun semantics? node => do
  let semantics ← semantics?
  let method ← node.parent.bind Node.parent
  let parameter ← parameterSymbol? semantics node
  Finding.onIf
    (method.kind.isMethodLike && !isStruct semantics parameter && !method.hasModifier "private" &&
      isDereferenced method parameter.name && !isGuarded semantics method parameter.name)
    node

def fieldsSetTo (semantics : Semantics) (constructor : Node) (parameter : Symbol) : List Symbol :=
  (constructor.descendantsOfKind .assignment).filterMap fun assignment => do
    let left ← assignment.firstChild?
    let right ← assignment.child? 1
    if semantics.referenced? right = some parameter then
      (semantics.referenced? left).filter (·.kind == .field)
    else none

def missingConstructorNullValidation : Detector := fun semantics? node => do
  let semantics ← semantics?
  let parameter ← parameterSymbol? semantics node
  let constructor ← semantics.owner? parameter
  let fields := fieldsSetTo semantics constructor parameter
  let type ← constructor.ancestors.find? fun ancestor =>
    ancestor.kind == .classDecl || ancestor.kind == .structDecl
  Finding.onIf
    (constructor.kind == .constructorDecl && !isStruct semantics parameter &&
      !constructor.hasModifier "private" &&
      (type.descendantsOfKind .memberAccess).any fun access =>
        (access.firstChild?.bind semantics.referenced?).any fields.contains)
    node

def parameterReassigned : Detector := fun semantics? node => do
  let semantics ← semantics?
  let parameter ← byValueParameter? semantics node
  let method ← semantics.owner? parameter
  Finding.onIf
    ((method.descendantsOfKind .assignment).any fun assignment =>
      assignment.firstChild?.bind semantics.referenced? == some parameter)
    node

def parameterUnused : Detector := fun semantics? node => do
  let semantics ← semantics?
  let parameter ← byValueParameter? semantics node
  let method ← (semantics.owner? parameter).filter (·.kind == .methodDecl)
  let body ← method.childOfKind? .block
  let flow ← semantics.dataFlow? body
  if flow.writtenOutside.contains parameter && !flow.readInside.contains parameter &&
      parameter.name != "this" then
    return .saying node
      ("A possible improvement would be to remove unused parameter " ++ parameter.name)
  else none

end SmellCheck.Detect
