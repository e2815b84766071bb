import SmellCheck.Node

/-!
From a range of the text back to a place: the deepest node that covers it.
-/

set_option autoImplicit false

namespace SmellCheck

-- Whether a search for the range goes into the element that starts at the offset. A range with text
-- goes into the one sibling that holds it. An empty range goes into the sibling that has it
-- strictly inside, else into the last sibling that ends at it, else into the first sibling of all.
def Range.goesInto (range : Range) (start : Nat) (element : Element) (isFirst : Bool)
    (next? : Option Element) : Bool :=
  let stop := start + element.length
  if range.start < range.stop then start ≤ range.start && range.stop ≤ stop
  else
    (start < range.start && range.start < stop) ||
      (stop == range.start && next?.all fun next => 0 < next.length) ||
      (isFirst && start == range.start && range.start < stop)

namespace Node

mutual
def coveringFrom (snapshot : Nat) (range : Range) (context : List Frame) (start : Nat) :
    Element → Option Node
  | .token .. => none
  | .node raw children =>
      (forestCovering snapshot range raw context [] start children).or
        (some ⟨snapshot, ⟨raw, children⟩, context⟩)

def forestCovering (snapshot : Nat) (range : Range) (raw : RawKind) (context : List Frame)
    (before : List Element) (start : Nat) : List Element → Option Node
  | [] => none
  | element :: rest =>
      if range.goesInto start element before.isEmpty rest.head? then
        coveringFrom snapshot range (⟨raw, before, rest⟩ :: context) start element
      else
        forestCovering snapshot range raw context (element :: before)
          (start + element.length) rest
end

def covering? (node : Node) (range : Range) : Option Node :=
  if node.range.contains range then
    coveringFrom node.snapshot range node.context node.start node.focus
  else none

def withRange? (node : Node) (range : Range) : Option Node :=
  (node.covering? range).bind fun deepest =>
    deepest.ancestorsOrSelf.find? (·.range == range)

end Node

end SmellCheck
