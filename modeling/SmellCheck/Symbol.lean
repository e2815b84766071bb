import SmellCheck.Node

/-!
Symbols and the questions that rules ask about them. Rules see only the answers of a `Semantics`;
where they come from is not their concern.
-/

set_option autoImplicit false

namespace SmellCheck

inductive SymbolKind where
  | parameter | «local» | field | property | method | type
deriving DecidableEq

inductive Passing where
  | byValue | byRef | out | byIn
deriving DecidableEq

-- A declaration. The type is its text as written, or the qualified name of a type symbol; a symbol
-- that no node declares has no range.
structure Symbol where
  name : String
  kind : SymbolKind
  passing : Passing
  type? : Option String
  declaration? : Option Range
deriving DecidableEq

def Symbol.this (type? : Option String) : Symbol := ⟨"this", .parameter, .byValue, type?, none⟩

def Symbol.isParameterOrLocal (symbol : Symbol) : Bool :=
  symbol.kind == .parameter || symbol.kind == .local

inductive TypeClass where
  | struct
  | reference
  -- Enumerations.
  | other
deriving DecidableEq

structure TypeInfo where
  name : String
  classification : TypeClass
deriving DecidableEq

structure DataFlow where
  writtenOutside : List Symbol
  readInside : List Symbol
deriving DecidableEq

structure Semantics where
  declared? : Node → Option Symbol
  referenced? : Node → Option Symbol
  typeOf? : Symbol → Option TypeInfo
  owner? : Symbol → Option Node
  dataFlow? : Node → Option DataFlow

end SmellCheck
