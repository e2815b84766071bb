import SmellCheck.Detect.Finding
import SmellCheck.Text.Search

/-!
Shims, the test doubles that take the place of members, and the guards in whose scope they work.
-/

set_option autoImplicit false

namespace SmellCheck

def Node.isRedundantGuard (node : Node) : Bool :=
  node.kind == .usingStmt &&
    match node.firstChild?, node.lastChild? with
    | some resource, some body =>
        !resource.same body && Text.contains resource.text "ShimsContext.Create()" &&
          !Text.contains body.text "Shim"
    | _, _ => false

theorem Node.isRedundantGuard_iff (node : Node) :
    node.isRedundantGuard ↔ node.kind = .usingStmt ∧ ∃ resource body, node.firstChild? = some resource ∧
      node.lastChild? = some body ∧ resource.same body = false ∧ Text.contains resource.text "ShimsContext.Create()" ∧
        Text.contains body.text "Shim" = false := by
  unfold isRedundantGuard
  cases node.firstChild? <;> cases node.lastChild? <;> simp [and_assoc]

namespace Detect

-- Only the outermost of nested redundant guards is reported.
def redundantGuard : Detector := fun _ node =>
  Finding.onIf
    (node.isRedundantGuard && !(node.ancestorsOfKind .usingStmt).any Node.isRedundantGuard) node

def assignedFake : Detector := fun _ node =>
  Finding.onIf (node.parentIs .assignment && node.grandparentIs .exprStmt) node

def shimCreation : Detector := fun _ node => do
  let type ← node.firstChild?
  Finding.onIf (Text.startsWith type.trimmed "Shim") node

def duplicateShim : Detector := fun _ node => do
  let method ← node.ancestorOfKind? .methodDecl
  let sameText := (method.descendantsOfKind .memberAccess).filter (·.text == node.text)
  Finding.onIf (Text.contains node.text ".AllInstances." && 1 < sameText.length) node

def shimWithInstance : Detector := fun _ node => do
  let method ← node.ancestorOfKind? .methodDecl
  let hasInstance := (method.descendantsOfKind .objectCreation).any fun creation =>
    creation.firstChild?.any fun type => type.trimmed ++ ".AllInstances" == node.text
  Finding.onIf (Text.endsWith node.text "AllInstances" && hasInstance) node

end Detect

end SmellCheck
