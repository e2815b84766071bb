import SmellCheck.Detect.Finding

/-!
Test cases that repeat themselves, and groups of assertions that hold one.
-/

set_option autoImplicit false

namespace SmellCheck.Detect

def sharedPosition? : List (List String) → Option Nat
  | [] | [_] => none
  | first :: rest =>
      (List.range first.length).find? fun position =>
        rest.all fun case => case[position]? == first[position]?

def argumentTexts (list? : Option Node) (kind : Kind) : List String :=
  list?.elim [] fun list => (list.childrenOfKind kind).map Node.trimmed

def startsWithName (node : Node) (name : String) : Bool :=
  node.firstChild?.any (·.trimmed == name)

def caseAttributes (method : Node) : List Node :=
  ((method.childrenOfKind .attributeList).flatMap (·.childrenOfKind .attributeUse)).filter
    (startsWithName · "TestCase")

def initializerCases? (initializer : Node) : Option (List (List String)) :=
  let entries := initializer.children
  if !entries.isEmpty && entries.all fun entry =>
      entry.kind == .objectCreation && startsWithName entry "TestCaseData" then
    some (entries.map fun entry => argumentTexts (entry.childOfKind? .argumentList) .argument)
  else none

def testCases? (node : Node) : Option (Node × List (List String)) :=
  match node.kind with
  | .methodDecl =>
      let attributes := caseAttributes node
      attributes.head?.map fun first =>
        (first, attributes.map fun use =>
          argumentTexts (use.childOfKind? .attributeArgList) .attributeArg)
  | .arrayInitializer | .collectionInitializer => (initializerCases? node).map (node, ·)
  | _ => none

def testCaseArguments : Detector := fun _ node => do
  let (anchor, cases) ← testCases? node
  if cases.length = 1 then
    return .saying anchor "Simplify Test Code by removing single Test Case"
  let position ← sharedPosition? cases
  return .saying anchor
    ("Simplify Test Code by removing same arguments across all test cases (argument " ++
      toString (position + 1) ++ ")")

def singleAssert : Detector := fun _ node => do
  let invocation ← node.ancestorOfKind? .invocation
  let arguments ← invocation.childOfKind? .argumentList
  Finding.onIf
    (node.name? == some "ShouldSatisfyAllConditions" &&
      (arguments.childrenOfKind .argument).length ≤ 1)
    node

end SmellCheck.Detect
