import SmellCheck.Tree

/-!
Places in a tree. A node is a subtree together with what surrounds it, so every walk (up to the
root, down to the children) stays inside one tree and the root can always be read back.

Identity is by place: two nodes are the same when they have the same path in the same snapshot. Trees
that share equal subtrees and tell a node by its subtree and offset agree with this except for nodes
without text, of which two at one offset may be one shared subtree. No such pair is assumed to occur.
-/

set_option autoImplicit false

namespace SmellCheck

structure Range where
  start : Nat
  stop : Nat
deriving DecidableEq

def Range.text (range : Range) : String := toString range.start ++ ".." ++ toString range.stop

def Range.contains (outer inner : Range) : Bool :=
  outer.start ≤ inner.start && inner.stop ≤ outer.stop

-- What surrounds a child: the kind of its parent and its siblings, those before it nearest first.
structure Frame where
  raw : RawKind
  before : List Element
  after : List Element
deriving DecidableEq

def Frame.plug (frame : Frame) (tree : Tree) : Tree :=
  ⟨frame.raw, frame.before.reverse ++ tree.toElement :: frame.after⟩

-- A place in the tree of a snapshot; the context runs from the parent's frame to the root's.
structure Node where
  snapshot : Nat
  focus : Tree
  context : List Frame
deriving DecidableEq

namespace Node

def ofRoot (snapshot : Nat) (root : Tree) : Node := ⟨snapshot, root, []⟩

def kind (node : Node) : Kind := node.focus.kind

def text (node : Node) : String := node.focus.text

def elements (node : Node) : List Element := node.focus.children

-- The index of the child element taken at each step from the root.
def path (node : Node) : List Nat := (node.context.map (·.before.length)).reverse

def same (a b : Node) : Bool := a.snapshot == b.snapshot && a.path == b.path

def offset : List Frame → Nat
  | [] => 0
  | frame :: outer => Forest.length frame.before + offset outer

def start (node : Node) : Nat := offset node.context

def range (node : Node) : Range := ⟨node.start, node.start + node.focus.length⟩

def parent (node : Node) : Option Node :=
  match node.context with
  | [] => none
  | frame :: outer => some ⟨node.snapshot, frame.plug node.focus, outer⟩

def ancestorsFrom (snapshot : Nat) (focus : Tree) : List Frame → List Node
  | [] => []
  | frame :: outer =>
      ⟨snapshot, frame.plug focus, outer⟩ :: ancestorsFrom snapshot (frame.plug focus) outer

def ancestors (node : Node) : List Node := ancestorsFrom node.snapshot node.focus node.context

def ancestorsOrSelf (node : Node) : List Node := node :: node.ancestors

def root (node : Node) : Tree := node.context.foldl (fun tree frame => frame.plug tree) node.focus

def isRoot (node : Node) : Bool := node.context.isEmpty

def elementBefore? (node : Node) : Option Element :=
  node.context.head?.bind (·.before.head?)

def childrenFrom (snapshot : Nat) (raw : RawKind) (context : List Frame) :
    List Element → List Element → List Node
  | _, [] => []
  | before, .token kind text :: rest =>
      childrenFrom snapshot raw context (.token kind text :: before) rest
  | before, .node kind children :: rest =>
      ⟨snapshot, ⟨kind, children⟩, ⟨raw, before, rest⟩ :: context⟩ ::
        childrenFrom snapshot raw context (.node kind children :: before) rest

def children (node : Node) : List Node :=
  childrenFrom node.snapshot node.focus.raw node.context [] node.focus.children

def firstChild? (node : Node) : Option Node := node.children.head?

def lastChild? (node : Node) : Option Node := node.children.getLast?

mutual
def preorderFrom (snapshot : Nat) (context : List Frame) : Element → List Node
  | .token .. => []
  | .node raw children =>
      ⟨snapshot, ⟨raw, children⟩, context⟩ :: forestPreorder snapshot raw context [] children

def forestPreorder (snapshot : Nat) (raw : RawKind) (context : List Frame)
    (before : List Element) : List Element → List Node
  | [] => []
  | element :: rest =>
      preorderFrom snapshot (⟨raw, before, rest⟩ :: context) element ++
        forestPreorder snapshot raw context (element :: before) rest
end

def descendants (node : Node) : List Node :=
  forestPreorder node.snapshot node.focus.raw node.context [] node.focus.children

def descendantsOrSelf (node : Node) : List Node := node :: node.descendants

def ancestorsOfKind (node : Node) (kind : Kind) : List Node :=
  node.ancestors.filter (·.kind == kind)

def descendantsOfKind (node : Node) (kind : Kind) : List Node :=
  node.descendants.filter (·.kind == kind)

def childrenOfKind (node : Node) (kind : Kind) : List Node :=
  node.children.filter (·.kind == kind)

def childOfKind? (node : Node) (kind : Kind) : Option Node :=
  node.children.find? (·.kind == kind)

def child? (node : Node) (index : Nat) : Option Node := node.children[index]?

def parentKind? (node : Node) : Option Kind := node.parent.map kind

def grandparentKind? (node : Node) : Option Kind := (node.parent.bind parent).map kind

def tokenTexts (node : Node) (kind : Kind) : List String :=
  node.elements.filterMap (Element.tokenText? kind)

def name? (node : Node) : Option String := (node.tokenTexts .ident).head?

def modifiers (node : Node) : List String :=
  match node.childOfKind? .modifierList with
  | some list => list.tokenTexts .keyword
  | none => []

def hasModifier (node : Node) (modifier : String) : Bool := node.modifiers.contains modifier

def isExternallyVisible (node : Node) : Bool :=
  node.hasModifier "public" || node.hasModifier "protected"

def declaredType? (node : Node) : Option Node :=
  node.children.find? fun child => child.kind != .attributeList && child.kind != .modifierList

end Node

end SmellCheck
