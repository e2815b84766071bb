import SmellCheck.Catalog
import SmellCheck.Fix.Constants
import SmellCheck.Fix.LambdaBodies
import SmellCheck.Fix.Shims

/-!
Repair: applying the fixer of a rule in force to a node. A fixer that finds nothing to rewrite
leaves the tree as it is.
-/

set_option autoImplicit false

namespace SmellCheck

inductive FixError where
  | unknownRule (error : UnknownRule)
  | notFixable (rule : Rule)
deriving DecidableEq

def FixError.message : FixError → String
  | .unknownRule error => error.message
  | .notFixable rule => "rule `" ++ rule.id ++ "` has no automated fix"

def Fix.ofRule? : Rule → Option Fixer
  | .encapsulateField => some encapsulateField
  | .replaceMagicValues => some replaceMagicValues
  | .useLambdaExpression => some useLambdaExpression
  | .unnecessaryShimsContext => some removeGuards
  | .simplifyFakes => some simplifyFakes
  | .removeFakes => some removeFakes
  | _ => none

namespace Catalog

def fixer (catalog : Catalog) (id : String) : Except FixError Fixer :=
  match catalog.describe id with
  | .error error => .error (.unknownRule error)
  | .ok descriptor =>
      match Fix.ofRule? descriptor.rule with
      | none => .error (.notFixable descriptor.rule)
      | some fixer => .ok fixer

def fix (catalog : Catalog) (id : String) (node : Node) : Except FixError Tree :=
  (catalog.fixer id).map fun fixer => (fixer node).getD node.root

end Catalog

theorem Catalog.fixer_ok (catalog : Catalog) (id : String) (fixer : Fixer) (found : catalog.fixer id = .ok fixer) :
    ∃ rule, id = rule.id ∧ Fix.ofRule? rule = some fixer := by
  unfold Catalog.fixer at found
  split at found
  · cases found
  · rename_i descriptor described
    split at found
    · cases found
    · rename_i own fixable
      obtain rfl : own = fixer := Except.ok.inj found
      refine ⟨descriptor.rule, ?_, fixable⟩
      unfold describe at described
      split at described
      · rename_i inForce
        cases Except.ok.inj described
        obtain ⟨rule, isRule, found⟩ := Option.bind_eq_some_iff.mp inForce
        rw [rule_of_get catalog rule descriptor found]
        exact Rule.id_of_ofId? id rule isRule
      · cases described

theorem Catalog.fix_iff (catalog : Catalog) (id : String) (node : Node) (result : Tree) :
    catalog.fix id node = .ok result ↔ ∃ fixer, catalog.fixer id = .ok fixer ∧ result = (fixer node).getD node.root := by
  unfold fix
  cases catalog.fixer id with
  | error error => simp [Except.map]
  | ok fixer => simp [Except.map, eq_comm]

theorem Catalog.fix_ok (catalog : Catalog) (id : String) (node : Node) (result : Tree) (fixed : catalog.fix id node = .ok result) :
    ∃ rule fixer, id = rule.id ∧ Fix.ofRule? rule = some fixer ∧ result = (fixer node).getD node.root := by
  obtain ⟨fixer, found, rfl⟩ := (fix_iff catalog id node result).mp fixed
  obtain ⟨rule, same, fixable⟩ := fixer_ok catalog id fixer found
  exact ⟨rule, fixer, same, fixable, rfl⟩

theorem Catalog.fix_again (catalog : Catalog) (rule : Rule) (fixer : Fixer) (fixable : Fix.ofRule? rule = some fixer)
    (node other : Node) (result : Tree) (fixed : catalog.fix rule.id node = .ok result) :
    result = (fixer node).getD node.root ∧ catalog.fix rule.id other = .ok ((fixer other).getD other.root) := by
  obtain ⟨own, found, rfl⟩ := (fix_iff catalog rule.id node result).mp fixed
  obtain ⟨rule', same, fixable'⟩ := fixer_ok catalog rule.id own found
  rw [← Rule.id_injective _ _ same, fixable] at fixable'
  obtain rfl : fixer = own := Option.some.inj fixable'
  exact ⟨rfl, (fix_iff catalog rule.id other _).mpr ⟨fixer, found, rfl⟩⟩

theorem Catalog.fix_rewrites (catalog : Catalog) (rule : Rule) (fixer : Fixer) (fixable : Fix.ofRule? rule = some fixer)
    (node : Node) (result : Tree) (fixed : catalog.fix rule.id node = .ok result) (rewrites : (fixer node).isSome) :
    fixer node = some result := by
  obtain ⟨tree, rewritten⟩ := Option.isSome_iff_exists.mp rewrites
  rw [(fix_again catalog rule fixer fixable node node result fixed).1, rewritten]
  rfl

theorem Catalog.fix_in_force (catalog : Catalog) (rule : Rule) (fixer : Fixer) (fixable : Fix.ofRule? rule = some fixer)
    (inForce : (catalog.get? rule).isSome) (node : Node) : catalog.fix rule.id node = .ok ((fixer node).getD node.root) := by
  obtain ⟨descriptor, found⟩ := Option.isSome_iff_exists.mp inForce
  obtain rfl := rule_of_get catalog rule descriptor found
  simp [fix, Catalog.fixer, describe, Rule.ofId?_id, found, fixable, Except.map]

theorem Catalog.builtin_fix (rule : Rule) (fixer : Fixer) (fixable : Fix.ofRule? rule = some fixer) (node : Node)
    (tree : Tree) (rewritten : fixer node = some tree) : builtin.fix rule.id node = .ok tree := by
  rw [fix_in_force builtin rule fixer fixable (by rw [builtin_get]; rfl), rewritten]
  rfl

end SmellCheck
