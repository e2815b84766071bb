import SmellCheck.Detect.Finding

/-!
How types and their members are declared: exposed fields and constants, enumerations without a
zero, structs, properties that compute.
-/

set_option autoImplicit false

namespace SmellCheck

namespace Node

def declarators (declaration : Node) : List Node :=
  (declaration.childOfKind? .variableDecl).elim [] (·.childrenOfKind .variableDeclarator)

def isConstantField (node : Node) : Bool := node.kind == .fieldDecl && node.hasModifier "const"

def constantFields (node : Node) : List Node := node.descendantsOrSelf.filter isConstantField

def isRestricted (node : Node) : Bool :=
  ["private", "internal", "const", "static"].any node.hasModifier

def isExposedField (node : Node) : Bool :=
  node.kind == .fieldDecl && node.isExternallyVisible && !node.isRestricted &&
    node.declarators.length == 1

end Node

namespace Detect

def encapsulateField : Detector := fun _ node => Finding.onIf node.isExposedField node

def nonPrivateConstant : Detector := fun _ node =>
  Finding.onIf (node.isExternallyVisible && node.hasModifier "const") node

def everywhere : Detector := fun _ node => some (.on node)

def explicitValues? (enumeration : Node) : Option (List String) :=
  (enumeration.childrenOfKind .enumMember).mapM fun member =>
    (member.childOfKind? .equalsValue).bind fun equals => equals.firstChild?.map Node.trimmed

-- A member without a value means that the enumeration has a zero.
def enumWithoutZero : Detector := fun _ node => do
  let values ← explicitValues? node
  Finding.onIf (!values.isEmpty && !values.contains "0") node

def computingProperty : Detector := fun _ node =>
  Finding.onIf
    (4 ≤ (node.descendantsOfKind .arrowClause).length &&
      node.descendantsOrSelf.any fun descendant =>
        descendant.kind == .invocation || descendant.kind == .objectCreation)
    node

end Detect

end SmellCheck
