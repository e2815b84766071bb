import SmellCheck.Catalog
import SmellCheck.Detect.Contracts
import SmellCheck.Detect.ControlFlow
import SmellCheck.Detect.Members
import SmellCheck.Detect.Names
import SmellCheck.Detect.ParameterUse
import SmellCheck.Detect.Shims
import SmellCheck.Detect.TestCases
import SmellCheck.Dispatch
import SmellCheck.Scope

/-!
Detection: running the rules of a catalog on nodes. A node is answered in catalog order, a tree in
the order of its nodes, parents first.
-/

set_option autoImplicit false

namespace SmellCheck

structure Diagnostic where
  rule : Rule
  severity : Severity
  kind : Kind
  range : Range
  message : String
deriving DecidableEq

def Diagnostic.line (diagnostic : Diagnostic) : String :=
  diagnostic.range.text ++ ": " ++ diagnostic.severity.name ++ "[" ++ diagnostic.rule.id ++ "] " ++
    diagnostic.message

namespace Detect

def ofRule : Rule → Detector
  | .encapsulateField => encapsulateField
  | .replaceMagicValues => everywhere
  | .useLambdaExpression => everywhere
  | .unnecessaryShimsContext => redundantGuard
  | .simplifyFakes => assignedFake
  | .removeFakes => assignedFake
  | .simplifyFakesObject => shimCreation
  | .duplicateShims => duplicateShim
  | .simplifyShims => shimWithInstance
  | .contextualKeyword => contextualKeyword
  | .classNameIsNoun => classNameIsNoun
  | .blankBlock => blankBlock
  | .liskovSubstitution => concreteCollection
  | .toArrayToListInForeach => materializedSource
  | .switchWithoutDefault => switchWithoutDefault
  | .aggregateException => generalException
  | .exceptionWithoutContext => exceptionWithoutContext
  | .enumWithoutDefaultValue => enumWithoutZero
  | .tooManyParameters => tooManyParameters
  | .boolParameter => boolParameter
  | .preferClassOverStruct => everywhere
  | .inappropriateUsageOfProperty => computingProperty
  | .nonPrivateConstants => nonPrivateConstant
  | .singleAssertInUnitOfWork => singleAssert
  | .testCaseArguments => testCaseArguments
  | .missingParameterNullValidation => missingNullValidation
  | .missingConstructorParameterNullValidation => missingConstructorNullValidation
  | .parameterReassigned => parameterReassigned
  | .parameterUnused => parameterUnused

end Detect

def Descriptor.report? (descriptor : Descriptor) (semantics? : Option Semantics) (node : Node) :
    Option Diagnostic :=
  (Detect.ofRule descriptor.rule semantics? node).map fun finding =>
    ⟨descriptor.rule, descriptor.severity, node.kind, finding.range,
      finding.message?.getD descriptor.message⟩

structure Engine where
  catalog : Catalog
  dispatch : Dispatch

namespace Engine

def ofCatalog (catalog : Catalog) : Engine := ⟨catalog, .ofCatalog catalog⟩

def report? (engine : Engine) (semantics? : Option Semantics) (node : Node) (rule : Rule) :
    Option Diagnostic :=
  (engine.catalog.get? rule).bind fun descriptor => descriptor.report? semantics? node

-- What one rule reports on a node; a node of a kind that does not trigger it has no diagnostic.
def detectRule (engine : Engine) (id : String) (semantics? : Option Semantics) (node : Node) :
    Except UnknownRule (Option Diagnostic) :=
  (engine.catalog.describe id).map fun descriptor =>
    if descriptor.triggers.contains node.kind then descriptor.report? semantics? node else none

def detect (engine : Engine) (semantics? : Option Semantics) (node : Node) : List Diagnostic :=
  (engine.dispatch.rulesFor node.kind).filterMap (engine.report? semantics? node)

def analyze (engine : Engine) (semantics? : Option Semantics) (node : Node) : List Diagnostic :=
  node.descendantsOrSelf.flatMap (engine.detect semantics?)

-- Each tree is analyzed with the symbols of its own scopes.
def analyzeAll (engine : Engine) (trees : List Tree) : List (List Diagnostic) :=
  trees.zipIdx.map fun (tree, snapshot) =>
    let root := Node.ofRoot snapshot tree
    engine.analyze (some (Scope.semantics root)) root

end Engine

end SmellCheck
