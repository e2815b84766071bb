import SmellCheck.Symbol
import SmellCheck.Text.Blank

/-!
What a detector answers about one node, and the look-ups that detectors share.
-/

set_option autoImplicit false

namespace SmellCheck

-- A reported range; without a message of its own it has the message of its rule.
structure Finding where
  range : Range
  message? : Option String
deriving DecidableEq

abbrev Detector := Option Semantics → Node → Option Finding

namespace Finding

def on (node : Node) : Finding := ⟨node.range, none⟩

def saying (node : Node) (message : String) : Finding := ⟨node.range, some message⟩

def onIf (condition : Bool) (node : Node) : Option Finding :=
  if condition then some (on node) else none

end Finding

namespace Node

def trimmed (node : Node) : String := Text.trim node.text

def ancestorOfKind? (node : Node) (kind : Kind) : Option Node :=
  node.ancestors.find? (·.kind == kind)

def parentIs (node : Node) (kind : Kind) : Bool := node.parentKind? == some kind

def grandparentIs (node : Node) (kind : Kind) : Bool := node.grandparentKind? == some kind

def parentIsAny (node : Node) (kinds : List Kind) : Bool := node.parentKind?.any kinds.contains

end Node

end SmellCheck
