import SmellCheck.Rule

/-!
Catalogs and configurations. A catalog is the set of rules in force, each with a severity; a
configuration takes rules out of the full catalog and gives others a severity of its own. Naming a
rule that does not exist is an error.
-/

set_option autoImplicit false

namespace SmellCheck

structure UnknownRule where
  id : String
deriving DecidableEq

def UnknownRule.message (error : UnknownRule) : String := "unknown rule id `" ++ error.id ++ "`"

structure Config where
  disabled : List String
  severity : List (String × Severity)
deriving DecidableEq

namespace Config

def empty : Config := ⟨[], []⟩

def disabledRules (config : Config) : List Rule :=
  Rule.all.filter (config.disabled.contains ·.id)

def severityOf? (config : Config) (rule : Rule) : Option Severity := config.severity.lookup rule.id

def severityOverrides (config : Config) : List (Rule × Severity) :=
  Rule.all.filterMap fun rule => (config.severityOf? rule).map (rule, ·)

def least? (texts : List String) : Option String :=
  texts.foldl (fun least? text => match least? with
    | none => some text
    | some least => some (if text < least then text else least)) none

def isUnknown (id : String) : Bool := (Rule.ofId? id).isNone

-- The first unknown id among the disabled ones, else the least of those given a severity.
def unknownId? (config : Config) : Option String :=
  (config.disabled.find? isUnknown).or
    (least? ((config.severity.map (·.1)).filter isUnknown))

end Config

structure Catalog where
  severity? : Rule → Option Severity

namespace Catalog

def ofRules (rules : List Rule) : Catalog :=
  ⟨fun rule => if rules.contains rule then some rule.descriptor.severity else none⟩

def builtin : Catalog := ofRules Rule.all

def configured (config : Config) : Except UnknownRule Catalog :=
  match config.unknownId? with
  | some id => .error ⟨id⟩
  | none => .ok ⟨fun rule =>
      if config.disabled.contains rule.id then none
      else some ((config.severityOf? rule).getD rule.descriptor.severity)⟩

def get? (catalog : Catalog) (rule : Rule) : Option Descriptor :=
  (catalog.severity? rule).map fun severity => { rule.descriptor with severity }

def all (catalog : Catalog) : List Descriptor := Rule.all.filterMap catalog.get?

def size (catalog : Catalog) : Nat := catalog.all.length

def isEmpty (catalog : Catalog) : Bool := catalog.all.isEmpty

-- An id that names no rule and one that names a rule not in force are the same error.
def describe (catalog : Catalog) (id : String) : Except UnknownRule Descriptor :=
  match (Rule.ofId? id).bind catalog.get? with
  | some descriptor => .ok descriptor
  | none => .error ⟨id⟩

theorem rule_of_get (catalog : Catalog) (rule : Rule) (descriptor : Descriptor) (found : catalog.get? rule = some descriptor) :
    descriptor.rule = rule := by
  obtain ⟨severity, -, rfl⟩ := Option.map_eq_some_iff.mp found
  exact rule.descriptor_rule

theorem builtin_get (rule : Rule) : builtin.get? rule = some rule.descriptor := by
  simp [get?, builtin, ofRules, Rule.mem_all]

end Catalog

end SmellCheck
