import SmellCheck.Detect.Shims
import SmellCheck.Fix.Fixer

/-!
Rewrites of test set-ups: redundant guards give way to the statements they wrap, and assignments of
lambdas to the members of one receiver are folded into one constructor shim or removed.
-/

set_option autoImplicit false

namespace SmellCheck.Fix

-- The elements between the first and the last one, without whitespace at either end.
def blockContents (block : Tree) : List Element :=
  Text.trimWhere (fun element => element.kind == .whitespace) (block.children.drop 1).dropLast

def unwrappedBody (body : Tree) : List Element :=
  if body.kind = .block then blockContents body else [body]

def removeGuards : Fixer := fun node =>
  if !node.isRedundantGuard then none
  else
    let scope := node.classScope
    ((Session.start scope).planAll
      (fun session guard =>
        session.splice guard (guard.lastChild?.elim [] fun body => unwrappedBody body.focus))
      (scope.descendantsOrSelf.filter Node.isRedundantGuard)).applyIfAny

structure ShimLink where
  statement : Node
  target : Node
  value : Node

def ShimLink.of? (target : Node) : Option ShimLink := do
  let assignment ← target.parent.filter (·.kind == .assignment)
  let value ← (assignment.child? 1).filter (·.kind.isLambda)
  let statement ← assignment.parent.filter (·.kind == .exprStmt)
  if assignment.firstChild?.any (·.same target) then return ⟨statement, target, value⟩ else none

structure ShimChain where
  receiver : String
  diagnosed : Node
  links : List ShimLink

def ShimChain.find? (target : Node) : Option ShimChain := do
  let diagnosed ← ShimLink.of? target
  let receiver := (← target.firstChild?).trimmed
  let links := (target.classScope.descendantsOfKind .memberAccess).filterMap fun access =>
    if access.firstChild?.any (·.trimmed == receiver) then ShimLink.of? access else none
  return ⟨receiver, diagnosed.statement, links⟩

def withoutReceiver? (lambda : Node) : Option Tree := do
  let body ← lambda.lastChild?
  let parameters ← match lambda.kind with
    | .parenLambda => (lambda.childOfKind? .parameterList).map fun list =>
        ((list.childrenOfKind .parameter).drop 1).map Node.focus
    | _ => some []
  return Build.parenLambda (Build.parameterList parameters) body.focus

def ShimLink.entry? (link : ShimLink) : Option Tree := do
  let member ← link.target.child? 1
  return Build.assignment (Build.identifierName member.trimmed) (← withoutReceiver? link.value)

-- One entry for each text of a lambda; `seen` holds the texts that have one.
def entriesFrom? (seen : List String) : List ShimLink → Option (List Tree)
  | [] => some []
  | link :: rest => do
      if seen.contains link.value.text then entriesFrom? seen rest
      else
        let entry ← link.entry?
        return entry :: (← entriesFrom? (link.value.text :: seen) rest)

def constructorShim (type : String) (entries : List Tree) : Tree :=
  let creation := Build.objectCreation (Build.identifierName type)
    (some [Build.identifierName "_"]) (some (Build.initializer .objectInitializer entries))
  let body := Build.block [
    Build.varLocal "instance" creation,
    Build.exprStmt (Build.invocation (Build.dotted "instance.BehaveAsDefaultValue") [])]
  Build.exprStmt
    (Build.assignment (Build.dotted (type ++ ".Constructor")) (Build.simpleLambda "_" body))

def simplifyFakes : Fixer := fun node => do
  let chain ← ShimChain.find? node
  let entries ← entriesFrom? [] chain.links
  let type := Text.trim (Text.firstSegment '.' chain.receiver)
  let session ← ((Session.start chain.diagnosed).replace chain.diagnosed
    [constructorShim type entries]).toOption
  return session.apply

def removeFakes : Fixer := fun node => do
  let chain ← ShimChain.find? node
  let session := (Session.start chain.diagnosed).planAll
    (fun session link => session.remove link.statement) chain.links
  return session.apply

end SmellCheck.Fix
