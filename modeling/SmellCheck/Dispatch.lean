import SmellCheck.Catalog

/-!
Dispatch tables: the rules that each kind of node triggers, gathered once for a catalog, so that a
node is shown only to the rules that ask for its kind.
-/

set_option autoImplicit false

namespace SmellCheck

abbrev Dispatch := List (Kind × List Rule)

namespace Dispatch

def rulesFor : Dispatch → Kind → List Rule
  | [], _ => []
  | (listed, rules) :: rest, kind => if kind = listed then rules else rulesFor rest kind

def add (rule : Rule) : Dispatch → Kind → Dispatch
  | [], kind => [(kind, [rule])]
  | (listed, rules) :: rest, kind =>
      if kind = listed then (listed, rules ++ [rule]) :: rest
      else (listed, rules) :: add rule rest kind

def addTriggers (table : Dispatch) (descriptor : Descriptor) : Dispatch :=
  descriptor.triggers.foldl (add descriptor.rule) table

def ofCatalog (catalog : Catalog) : Dispatch := catalog.all.foldl addTriggers []

theorem rulesFor_add (table : Dispatch) (rule : Rule) (added kind : Kind) :
    (add rule table added).rulesFor kind =
      if kind = added then table.rulesFor kind ++ [rule] else table.rulesFor kind := by
  induction table with
  | nil => by_cases same : kind = added <;> simp [add, rulesFor, same]
  | cons entry rest ih =>
      obtain ⟨listed, rules⟩ := entry
      by_cases isListed : added = listed
      · subst isListed
        by_cases same : kind = added <;> simp [add, rulesFor, same]
      · by_cases same : kind = listed
        · simp [add, rulesFor, isListed, same, Ne.symm isListed]
        · simp [add, rulesFor, isListed, same, ih]

end Dispatch

end SmellCheck
