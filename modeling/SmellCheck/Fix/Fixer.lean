import SmellCheck.Edit

/-!
What a fixer is. It gets the node that a rule reports and answers the tree after the fix, or nothing
when it finds nothing to rewrite. Fixers plan into one session and leave refused edits out.
-/

set_option autoImplicit false

namespace SmellCheck

abbrev Fixer := Node → Option Tree

def Node.classScope (node : Node) : Node :=
  (node.ancestorsOrSelf.find? (·.kind == .classDecl)).getD (.ofRoot node.snapshot node.root)

namespace Session

-- Plans an edit for every item, leaving out those that are refused.
def planAll {α : Type} (session : Session) (plan : Session → α → Except EditError Session)
    (items : List α) : Session :=
  items.foldl (fun session item => session.orSkip (plan session item)) session

def applyIfAny (session : Session) : Option Tree :=
  if session.isEmpty then none else some session.apply

end Session

end SmellCheck
