import SmellCheck.Catalog
import SmellCheck.Toml.Reader

/-!
Configurations as TOML text. All keys are optional and no others are allowed:

    [rules]
    disabled = ["blank_block_code"]
    [rules.severity]
    parameter_unused = "info"

The table of rules may also be written as an array of its two values in this order.
-/

set_option autoImplicit false

namespace SmellCheck

inductive ConfigError where
  | malformed
  | unknownRule (error : UnknownRule)
deriving DecidableEq

namespace Config

open Toml

def text? : Value → Option String
  | .string text => some text
  | _ => none

def texts? : Value → Option (List String)
  | .array items => items.mapM text?
  | _ => none

def isEmptyValue : Value → Bool
  | .array items => items.isEmpty
  | .table _ entries => entries.isEmpty
  | .tables items => items.isEmpty
  | _ => false

-- A severity is its name, or a table with the name as its only key and nothing below it.
def severity? : Value → Option Severity
  | .string name => Severity.ofName? name
  | .table _ [(name, value)] => if isEmptyValue value then Severity.ofName? name else none
  | _ => none

def severities? : Value → Option (List (String × Severity))
  | .table _ entries => entries.mapM fun (id, value) => (severity? value).map (id, ·)
  | _ => none

def optional {α : Type} (read : Value → Option α) (absent : α) : Option Value → Option α
  | none => some absent
  | some value => read value

def hasOnly (keys : List String) (entries : Entries) : Bool :=
  entries.all fun (key, _) => keys.contains key

def ofParts? (disabled severity : Option Value) : Option Config := do
  return ⟨← optional texts? [] disabled, ← optional severities? [] severity⟩

def ofRules? : Value → Option Config
  | .table _ entries =>
      if hasOnly ["disabled", "severity"] entries then
        ofParts? (entries.lookup "disabled") (entries.lookup "severity")
      else none
  | .array items => ofParts? items[0]? items[1]?
  | _ => none

def ofDocument? (entries : Entries) : Option Config :=
  if hasOnly ["rules"] entries then optional ofRules? empty (entries.lookup "rules") else none

def parse (text : String) : Except ConfigError Config :=
  match (Toml.read text).bind ofDocument? with
  | none => .error .malformed
  | some config =>
      match config.unknownId? with
      | some id => .error (.unknownRule ⟨id⟩)
      | none => .ok config

end Config

def Catalog.ofConfigText (text : String) : Except ConfigError Catalog :=
  match Config.parse text with
  | .error error => .error error
  | .ok config => (Catalog.configured config).mapError .unknownRule

end SmellCheck
