import SmellCheck.Fix.Fixer

/-!
Writes a lambda whose body only returns an expression with the expression as its body. Bodies inside
one another are rewritten together with the outermost one.
-/

set_option autoImplicit false

namespace SmellCheck

def Tree.returned? (block : Tree) : Option Tree :=
  if block.kind = .block then
    match block.subtrees with
    | [statement] => if statement.kind = .returnStmt then statement.subtrees.head? else none
    | _ => none
  else none

def Element.returned? (element : Element) : Option Tree := element.asNode?.bind Tree.returned?

mutual
def Element.hasReturningBody : Element → Bool
  | .token .. => false
  | .node raw children => Forest.hasReturningBody (Kind.ofRaw raw).isLambda children

def Forest.hasReturningBody (inLambda : Bool) : List Element → Bool
  | [] => false
  | element :: rest =>
      (inLambda && element.returned?.isSome) || element.hasReturningBody ||
        Forest.hasReturningBody inLambda rest
end

def Element.inlineBody (inLambda : Bool) (element : Element) : Element :=
  if inLambda then (element.returned?.map Tree.toElement).getD element else element

mutual
def Element.inlineBodies : Element → Element
  | .token raw text => .token raw text
  | .node raw children =>
      let kind := Kind.ofRaw raw
      if Forest.hasReturningBody kind.isLambda children then
        .node kind.raw (Forest.inlineBodies kind.isLambda children)
      else .node raw children

def Forest.inlineBodies (inLambda : Bool) : List Element → List Element
  | [] => []
  | element :: rest =>
      element.inlineBodies.inlineBody inLambda :: Forest.inlineBodies inLambda rest
end

namespace Fix

def returnedBy? (node : Node) : Option Tree :=
  if node.parentKind?.any Kind.isLambda then node.focus.returned? else none

-- The bodies to rewrite: those inside no other one, each with its expression.
def returningBodies (scope : Node) : List (Node × Tree) :=
  scope.descendantsOrSelf.filterMap fun node => do
    let expression ← returnedBy? node
    if node.ancestors.any fun ancestor => (returnedBy? ancestor).isSome then none
    else return (node, expression)

def inlineTree (tree : Tree) : Tree :=
  (tree.toElement.inlineBodies.asNode?).getD tree

def useLambdaExpression : Fixer := fun node =>
  let scope := node.classScope
  ((Session.start scope).planAll
    (fun session (body, expression) => session.replace body [inlineTree expression])
    (returningBodies scope)).applyIfAny

end Fix

end SmellCheck
