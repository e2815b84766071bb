import SmellCheck.Detect.Finding
import SmellCheck.Text.Search

/-!
What a member shows to its callers: how many parameters, flags among them, and collection types
that tie callers to one implementation.
-/

set_option autoImplicit false

namespace SmellCheck.Detect

def isLambdaParameterList (list : Node) : Bool := list.parentKind?.any Kind.isLambda

def tooManyParameters : Detector := fun _ node =>
  Finding.onIf (!isLambdaParameterList node && 7 < (node.childrenOfKind .parameter).length) node

def hasFlag (list : Node) : Bool :=
  (list.childrenOfKind .parameter).any fun parameter =>
    parameter.declaredType?.any fun type => ["bool", "Boolean"].contains type.trimmed

-- Methods with attributes are called by frameworks and are exempt.
def boolParameter : Detector := fun _ node =>
  let inAttributed := (node.ancestorOfKind? .methodDecl).any fun method =>
    (method.childOfKind? .attributeList).isSome
  Finding.onIf (!isLambdaParameterList node && hasFlag node && !inAttributed) node

def concreteCollections : List String := [
  "Enumerable", "ReadOnlyCollection", "Collection", "ReadOnlyList", "Dictionary", "List"]

def nonContractParents : List Kind := [
  .objectCreation, .typeOfExpr, .castExpr, .binaryExpr, .typeArgList]

def inVisibleMember (node : Node) : Bool :=
  [Kind.fieldDecl, .methodDecl, .propertyDecl].all fun kind =>
    (node.ancestorOfKind? kind).all Node.isExternallyVisible

def contractType? (node : Node) : Option String :=
  let inContract := !node.parentIsAny nonContractParents && !node.grandparentIs .argument &&
    inVisibleMember node
  match node.kind with
  | .parameter =>
      if !node.parentIs .typeOfExpr && node.isExternallyVisible then
        node.declaredType?.map Node.text
      else none
  | .genericName => if inContract then node.name?.filter (· != "var") else none
  | .predefinedType => if inContract then (some node.text).filter (· != "var") else none
  | _ => none

def concreteCollection : Detector := fun _ node => do
  let type ← contractType? node
  let short := Text.lastSegment '.' (Text.trim type)
  Finding.onIf (concreteCollections.any (Text.startsWith short)) node

end SmellCheck.Detect
