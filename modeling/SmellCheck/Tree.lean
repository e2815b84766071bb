import SmellCheck.Kind

/-!
Trees of nodes and tokens. Every character of the text is in a token, so the text of a tree is the
concatenation of its tokens, and lengths are counted in UTF-8 bytes of that text. Equality of trees
is equality of structure, raw kinds included.
-/

set_option autoImplicit false

namespace SmellCheck

inductive Element where
  | token (raw : RawKind) (text : String)
  | node (raw : RawKind) (children : List Element)

structure Tree where
  raw : RawKind
  children : List Element

def Tree.toElement (tree : Tree) : Element := .node tree.raw tree.children

instance : Coe Tree Element := ⟨Tree.toElement⟩

mutual
def Element.text : Element → String
  | .token _ text => text
  | .node _ children => Forest.text children

def Forest.text : List Element → String
  | [] => ""
  | element :: rest => element.text ++ Forest.text rest
end

mutual
def Element.length : Element → Nat
  | .token _ text => text.utf8ByteSize
  | .node _ children => Forest.length children

def Forest.length : List Element → Nat
  | [] => 0
  | element :: rest => element.length + Forest.length rest
end

mutual
def Element.decEq : (a b : Element) → Decidable (a = b)
  | .token raw text, .token raw' text' =>
      if same : raw = raw' ∧ text = text' then isTrue (by rw [same.1, same.2])
      else isFalse (by rintro ⟨⟩; exact same ⟨rfl, rfl⟩)
  | .node raw children, .node raw' children' =>
      if sameRaw : raw = raw' then
        match Forest.decEq children children' with
        | isTrue same => isTrue (by rw [sameRaw, same])
        | isFalse differ => isFalse (by rintro ⟨⟩; exact differ rfl)
      else isFalse (by rintro ⟨⟩; exact sameRaw rfl)
  | .token .., .node .. => isFalse nofun
  | .node .., .token .. => isFalse nofun

def Forest.decEq : (a b : List Element) → Decidable (a = b)
  | [], [] => isTrue rfl
  | a :: rest, b :: rest' =>
      match Element.decEq a b, Forest.decEq rest rest' with
      | isTrue same, isTrue sameRest => isTrue (by rw [same, sameRest])
      | isFalse differ, _ => isFalse (by rintro ⟨⟩; exact differ rfl)
      | _, isFalse differ => isFalse (by rintro ⟨⟩; exact differ rfl)
  | [], _ :: _ => isFalse nofun
  | _ :: _, [] => isFalse nofun
end

instance : DecidableEq Element := Element.decEq

deriving instance DecidableEq for Tree

namespace Element

def raw : Element → RawKind
  | .token raw _ => raw
  | .node raw _ => raw

def kind (element : Element) : Kind := .ofRaw element.raw

def isTrivia (element : Element) : Bool := element.kind.isTrivia

def isWhitespaceToken : Element → Bool
  | .token raw _ => Kind.ofRaw raw == .whitespace
  | .node .. => false

def asNode? : Element → Option Tree
  | .token .. => none
  | .node raw children => some ⟨raw, children⟩

def isNode (element : Element) : Bool := element.asNode?.isSome

def tokenText? (kind : Kind) : Element → Option String
  | .token raw text => if Kind.ofRaw raw = kind then some text else none
  | .node .. => none

end Element

theorem Forest.text_append (front back : List Element) :
    Forest.text (front ++ back) = Forest.text front ++ Forest.text back := by
  induction front with
  | nil => simp [Forest.text]
  | cons element rest ih => simp [Forest.text, ih, String.append_assoc]

theorem Forest.length_append (front back : List Element) :
    Forest.length (front ++ back) = Forest.length front + Forest.length back := by
  induction front with
  | nil => simp [Forest.length]
  | cons element rest ih => simp [Forest.length, ih, Nat.add_assoc]

mutual
theorem Element.utf8ByteSize_text : (element : Element) → element.text.utf8ByteSize = element.length
  | .token _ _ => rfl
  | .node _ children => Forest.utf8ByteSize_text children

theorem Forest.utf8ByteSize_text :
    (forest : List Element) → (Forest.text forest).utf8ByteSize = Forest.length forest
  | [] => rfl
  | element :: rest => by
      simp [Forest.text, Forest.length, Element.utf8ByteSize_text element,
        Forest.utf8ByteSize_text rest]
end

namespace Tree

def kind (tree : Tree) : Kind := .ofRaw tree.raw

def text (tree : Tree) : String := Forest.text tree.children

def length (tree : Tree) : Nat := Forest.length tree.children

def subtrees (tree : Tree) : List Tree := tree.children.filterMap Element.asNode?

theorem utf8ByteSize_text (tree : Tree) : tree.text.utf8ByteSize = tree.length :=
  Forest.utf8ByteSize_text tree.children

end Tree

end SmellCheck
