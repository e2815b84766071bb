import SmellCheck.Detect.Finding
import SmellCheck.Text.Search

/-!
Statements that do nothing or too little: blank blocks, switches without a default, loops over
copies, and exceptions that tell the caller nothing.
-/

set_option autoImplicit false

namespace SmellCheck.Detect

-- The body of a lambda may be blank.
def blankBlock : Detector := fun _ node =>
  if node.firstChild?.isSome || node.parentKind?.any Kind.isLambda then none
  else match node.parentKind? with
    | some .ifStmt =>
        some (.saying node "This method contains an unnecessary empty if statement")
    | some .catchClause =>
        some (.saying node "The exception is ignored (\"swallowed\") by the try-catch block.")
    | _ => some (.on node)

def switchWithoutDefault : Detector := fun _ node =>
  Finding.onIf (node.descendantsOfKind .defaultLabel).isEmpty node

-- The second child of a loop is what it iterates over, and is what is reported.
def materializedSource : Detector := fun _ node => do
  let source ← node.child? 1
  Finding.onIf ([".ToArray()", ".ToList()"].any (Text.contains source.text)) source

def generalExceptions : List String := [
  "Exception", "ApplicationException", "SystemException", "ExecutionEngineException",
  "IndexOutOfRangeException", "NullReferenceException", "OutOfMemoryException"]

def generalException : Detector := fun _ node => do
  let name ← node.name?
  Finding.onIf
    (generalExceptions.contains name && node.parentIs .objectCreation &&
      node.grandparentIs .throwStmt)
    node

def exceptionWithoutContext : Detector := fun _ node => do
  let arguments ← node.childOfKind? .argumentList
  Finding.onIf (node.parentIs .throwStmt && arguments.firstChild?.isNone) node

end SmellCheck.Detect
