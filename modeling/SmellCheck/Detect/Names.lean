import SmellCheck.Detect.Finding
import SmellCheck.Text.Search

/-!
Names that mislead: words of the language used as names, and class names that say what the class
does rather than what it is.
-/

set_option autoImplicit false

namespace SmellCheck.Detect

def contextualKeywords : List String := [
  "add", "alias", "ascending", "async", "await", "by", "descending", "dynamic", "equals", "from",
  "get", "global", "group", "into", "join", "let", "nameof", "on", "orderby", "partial", "remove",
  "select", "set", "value", "var", "when", "where", "yield"]

-- Where a contextual keyword is a word of the language and not a chosen name.
def keywordPositions : List Kind := [
  .invocation, .variableDecl, .forEachStmt, .forStmt, .whileStmt, .switchStmt, .declarationExpr,
  .typeOfExpr, .methodDecl, .parameter]

def isSetterValue (node : Node) (name : String) : Bool :=
  node.kind == .identifierName && name == "value" && (node.ancestorOfKind? .setAccessor).isSome

def contextualKeyword : Detector := fun _ node => do
  let name ← node.name?
  Finding.onIf
    ((node.kind == .identifierName || node.kind == .parameter) &&
      contextualKeywords.contains name && !node.parentIsAny keywordPositions &&
      !node.grandparentIs .genericName && !isSetterValue node name)
    node

def classNameIsNoun : Detector := fun _ node => do
  let name ← node.name?
  Finding.onIf (["Manager", "Processor", "Data", "Info"].any (Text.endsWith name)) node

end SmellCheck.Detect
