import SmellCheck.Build

/-!
Edit sessions. A session collects edits on the nodes of one snapshot and carries all of them out in
one pass. Edits that would destroy each other's targets are refused when they are planned, so the
order of planning does not matter to the result. Targets are told apart by their paths, as nodes are.

A removal takes one whitespace token with it: the one written last before it, else the one right
after it. Subtrees with no edit strictly inside are kept as they are; the nodes above an edit are
written anew, with the numbers of their kinds read through the closed set.
-/

set_option autoImplicit false

namespace SmellCheck

inductive Edit where
  | replace (nodes : List Tree)
  | splice (elements : List Element)
  | insertBefore (nodes : List Tree)
  | insertAfter (nodes : List Tree)
  | remove

def Edit.isDestructive : Edit → Bool
  | .replace _ | .splice _ | .remove => true
  | .insertBefore _ | .insertAfter _ => false

inductive EditError where
  | foreignNode (range : Range)
  | rootEdit
  | overlap (range : Range)
deriving DecidableEq

def EditError.message : EditError → String
  | .foreignNode range => "node at " ++ range.text ++ " belongs to another tree"
  | .rootEdit => "the root node cannot be edited"
  | .overlap range => "edit at " ++ range.text ++ " overlaps an edit already planned"

abbrev Plan := List (List Nat × Edit)

namespace Plan

def here? (plan : Plan) : Option Edit := (plan.find? (·.1.isEmpty)).map (·.2)

def under (plan : Plan) (index : Nat) : Plan :=
  plan.filterMap fun (path, edit) => match path with
    | [] => none
    | step :: rest => if step = index then some (rest, edit) else none

def hasEditInside (plan : Plan) : Bool := plan.any (!·.1.isEmpty)

end Plan

-- A child list while it is written: its elements, last first, and whether a removal still waits for
-- its whitespace.
structure Written where
  elements : List Element
  awaitsSpace : Bool

namespace Written

def separated (separator : String) (nodes : List Tree) : List Element :=
  Build.separatedBy [Build.whitespace separator] nodes

def write (written : Written) (elements : List Element) : Written :=
  ⟨elements.reverse ++ written.elements, false⟩

def token (written : Written) (token : Element) : Written :=
  if written.awaitsSpace && token.isWhitespaceToken then ⟨written.elements, false⟩
  else written.write [token]

def removal (written : Written) : Written :=
  match written.elements with
  | last :: front => if last.isWhitespaceToken then ⟨front, false⟩ else ⟨last :: front, true⟩
  | [] => ⟨[], true⟩

def child (written : Written) (separator : String) (edit? : Option Edit) (rewritten : Element) :
    Written :=
  match edit? with
  | none => written.write [rewritten]
  | some (.replace nodes) => written.write (separated separator nodes)
  | some (.splice elements) => written.write elements
  | some (.insertBefore nodes) =>
      written.write
        (nodes.flatMap (fun node => [node.toElement, Build.whitespace separator]) ++ [rewritten])
  | some (.insertAfter nodes) =>
      written.write
        (rewritten :: nodes.flatMap fun node => [Build.whitespace separator, node.toElement])
  | some .remove => written.removal

end Written

-- What goes between inserted nodes: the whitespace before the target, else one space.
def separatorAfter (before? : Option Element) : String :=
  (before?.bind (Element.tokenText? .whitespace)).getD " "

mutual
def Element.rewrite (plan : Plan) : Element → Element
  | .token raw text => .token raw text
  | .node raw children =>
      if plan.hasEditInside then
        .node (Kind.ofRaw raw).raw (Forest.rewrite plan 0 none ⟨[], false⟩ children)
      else .node raw children

def Forest.rewrite (plan : Plan) (index : Nat) (before? : Option Element) (written : Written) :
    List Element → List Element
  | [] => written.elements.reverse
  | element :: rest =>
      let rewritten := element.rewrite (plan.under index)
      let written := if element.isNode
        then written.child (separatorAfter before?) (plan.under index).here? rewritten
        else written.token element
      Forest.rewrite plan (index + 1) (some element) written rest
end

def Tree.rewrite (plan : Plan) (tree : Tree) : Tree :=
  if plan.hasEditInside then
    ⟨tree.kind.raw, Forest.rewrite plan 0 none ⟨[], false⟩ tree.children⟩
  else tree

structure Session where
  snapshot : Nat
  root : Tree
  edits : Plan

namespace Session

def start (node : Node) : Session := ⟨node.snapshot, node.root, []⟩

def length (session : Session) : Nat := session.edits.length

def isEmpty (session : Session) : Bool := session.edits.isEmpty

def holds (session : Session) (node : Node) : Bool :=
  node.snapshot == session.snapshot && node.root == session.root

-- Two edits clash when they have one target or when one destroys the target of the other.
def clash (path : List Nat) (edit : Edit) (path' : List Nat) (edit' : Edit) : Bool :=
  path == path' || (edit.isDestructive && path.isPrefixOf path') ||
    (edit'.isDestructive && path'.isPrefixOf path)

def plan (session : Session) (target : Node) (edit : Edit) : Except EditError Session :=
  if !session.holds target then .error (.foreignNode target.range)
  else if target.isRoot then .error .rootEdit
  else if session.edits.any fun planned => clash planned.1 planned.2 target.path edit then
    .error (.overlap target.range)
  else .ok { session with edits := session.edits ++ [(target.path, edit)] }

-- Replacing by nothing is a removal.
def replace (session : Session) (target : Node) (nodes : List Tree) : Except EditError Session :=
  session.plan target (if nodes.isEmpty then .remove else .replace nodes)

-- The elements take the target's place as they are, trivia included.
def splice (session : Session) (target : Node) (elements : List Element) :
    Except EditError Session :=
  session.plan target (if elements.isEmpty then .remove else .splice elements)

def insertBefore (session : Session) (anchor : Node) (nodes : List Tree) :
    Except EditError Session :=
  session.plan anchor (.insertBefore nodes)

def insertAfter (session : Session) (anchor : Node) (nodes : List Tree) :
    Except EditError Session :=
  session.plan anchor (.insertAfter nodes)

def remove (session : Session) (target : Node) : Except EditError Session :=
  session.plan target .remove

def apply (session : Session) : Tree := session.root.rewrite session.edits

def orSkip (session : Session) (planned : Except EditError Session) : Session :=
  match planned with
  | .ok session => session
  | .error _ => session

end Session

end SmellCheck
