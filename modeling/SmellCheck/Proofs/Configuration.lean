import Mathlib.Data.List.Induction
import SmellCheck.Proofs.ByteOrder
import SmellCheck.Proofs.Reporting

/-!
What a configuration does. One that names an unknown rule is an error that says which; with any other
one, an analysis reports what the full catalog reports, without the rules that are disabled and with
the severities that are given.
-/

set_option autoImplicit false

namespace SmellCheck

namespace Config

def weighed (config : Config) : List String := config.severity.map (·.1)

-- The unknown id that is reported: the first one that is disabled, else the one that is given a severity and comes
-- first in the order of bytes.
def FirstUnknown (config : Config) (id : String) : Prop :=
  (isUnknown id ∧ ∃ before after, config.disabled = before ++ id :: after ∧ ∀ other ∈ before, isUnknown other = false) ∨
  ((∀ other ∈ config.disabled, isUnknown other = false) ∧ isUnknown id ∧ id ∈ config.weighed ∧
    ∀ other ∈ config.weighed, isUnknown other → other ≠ id → Text.bytes id < Text.bytes other)

theorem least_append (front : List String) (text : String) :
    least? (front ++ [text]) = some ((least? front).elim text fun least => if text < least then text else least) := by
  rw [least?, List.foldl_append, ← least?, List.foldl_cons, List.foldl_nil]
  cases least? front <;> rfl

theorem least_none (texts : List String) (none : least? texts = none) : texts = [] := by
  rcases texts.eq_nil_or_concat with empty | ⟨front, text, rfl⟩
  · exact empty
  · rw [List.concat_eq_append, least_append] at none
    cases none

theorem least_mem (texts : List String) (least : String) (found : least? texts = some least) :
    least ∈ texts ∧ ∀ other ∈ texts, least ≤ other := by
  induction texts using List.reverseRecOn generalizing least with
  | nil => cases found
  | append_singleton front text ih =>
      rw [least_append] at found
      cases before : least? front with
      | none =>
          rw [before] at found
          rw [least_none front before]
          cases found
          simp
      | some earlier =>
          obtain ⟨member, bound⟩ := ih earlier before
          rw [before, Option.elim_some, Option.some.injEq] at found
          subst found
          by_cases less : text < earlier
          · rw [if_pos less]
            refine ⟨by simp, fun other isOther => ?_⟩
            rcases List.mem_append.mp isOther with old | new
            · exact (less.trans_le (bound other old)).le
            · exact (List.mem_singleton.mp new).ge
          · rw [if_neg less]
            refine ⟨List.mem_append_left _ member, fun other isOther => ?_⟩
            rcases List.mem_append.mp isOther with old | new
            · exact bound other old
            · rw [List.mem_singleton.mp new]
              exact not_lt.mp less

theorem unknown_id_some (config : Config) (id : String) (unknown : config.unknownId? = some id) : config.FirstUnknown id := by
  rw [unknownId?, Option.or_eq_some_iff] at unknown
  rcases unknown with disabled | ⟨known, least⟩
  · obtain ⟨isUnknown, before, after, split, known⟩ := List.find?_eq_some_iff_append.mp disabled
    exact .inl ⟨isUnknown, before, after, split, fun other member => by simpa using known other member⟩
  · obtain ⟨member, bound⟩ := least_mem _ _ least
    obtain ⟨weighed, isUnknown⟩ := List.mem_filter.mp member
    refine .inr ⟨fun other disabled => by simpa using List.find?_eq_none.mp known other disabled, isUnknown, weighed, ?_⟩
    intro other otherWeighed otherUnknown different
    have ordered := bound other (List.mem_filter.mpr ⟨otherWeighed, otherUnknown⟩)
    exact (Text.bytes_lt_iff id other).mpr (lt_of_le_of_ne ordered different.symm)

theorem unknown_id_none (config : Config) (none : config.unknownId? = none) :
    ∀ id ∈ config.disabled ++ config.weighed, isUnknown id = false := by
  obtain ⟨disabled, least⟩ := Option.or_eq_none_iff.mp none
  intro id named
  rcases List.mem_append.mp named with isDisabled | isWeighed
  · simpa using List.find?_eq_none.mp disabled id isDisabled
  · simpa using List.filter_eq_nil_iff.mp (least_none _ least) id isWeighed

def Disables (config : Config) (rule : Rule) : Prop := ∃ id ∈ config.disabled, Rule.ofId? id = some rule

def override? (config : Config) (rule : Rule) : Option Severity :=
  (config.severity.find? fun entry => Rule.ofId? entry.1 = some rule).map (·.2)

instance (config : Config) (rule : Rule) : Decidable (config.Disables rule) := by
  unfold Disables
  infer_instance

-- What the configuration makes of a diagnostic: nothing when its rule is disabled, else the same one with the severity
-- that is given to the rule, if any.
def adjust? (config : Config) (diagnostic : Diagnostic) : Option Diagnostic :=
  if config.Disables diagnostic.rule then none
  else some { diagnostic with severity := (config.override? diagnostic.rule).getD diagnostic.severity }

theorem disables_iff (config : Config) (rule : Rule) : config.Disables rule ↔ rule.id ∈ config.disabled := by
  constructor
  · rintro ⟨id, member, named⟩
    rwa [← Rule.id_of_ofId? id rule named]
  · exact fun member => ⟨rule.id, member, Rule.ofId?_id rule⟩

theorem override_eq (config : Config) (rule : Rule) : config.override? rule = config.severityOf? rule := by
  rw [override?, severityOf?]
  induction config.severity with
  | nil => rfl
  | cons entry rest ih =>
      rw [List.find?_cons, List.lookup_cons]
      by_cases here : entry.1 = rule.id
      · simp [here, Rule.ofId?_id]
      · have other : ¬ Rule.ofId? entry.1 = some rule := fun named => here (Rule.id_of_ofId? _ _ named)
        simp only [other, decide_false, beq_eq_false_iff_ne.mpr (Ne.symm here)]
        exact ih

end Config

def Descriptor.reweighted (descriptor : Descriptor) (severity : Severity) : Descriptor := { descriptor with severity }

theorem answer_reweighted (descriptor : Descriptor) (severity : Severity) (semantics? : Option Semantics) (node : Node) :
    (descriptor.reweighted severity).answer? semantics? node =
      (descriptor.answer? semantics? node).map ({ · with severity }) := by
  unfold Descriptor.answer?
  rw [show (descriptor.reweighted severity).triggers = descriptor.triggers from rfl]
  by_cases triggered : descriptor.triggers.contains node.kind
  · rw [if_pos triggered, if_pos triggered, Descriptor.report?, Descriptor.report?, Option.map_map]
    rfl
  · rw [if_neg triggered, if_neg triggered]
    rfl

def Config.description? (config : Config) (rule : Rule) : Option Descriptor :=
  if config.Disables rule then none
  else some (rule.descriptor.reweighted ((config.override? rule).getD rule.descriptor.severity))

theorem adjusted_answer (config : Config) (rule : Rule) (semantics? : Option Semantics) (node : Node) :
    (rule.descriptor.answer? semantics? node).bind config.adjust? =
      (config.description? rule).bind (·.answer? semantics? node) := by
  unfold Config.description?
  by_cases disabled : config.Disables rule
  · rw [if_pos disabled, Option.bind_none, Option.bind_eq_none_iff]
    intro diagnostic answered
    obtain ⟨sameRule, -⟩ := answer_described rule.descriptor semantics? node diagnostic answered
    rw [Config.adjust?, sameRule, rule.descriptor_rule, if_pos disabled]
  · rw [if_neg disabled, Option.bind_some, answer_reweighted, Option.map_eq_bind]
    refine Option.bind_congr fun diagnostic answered => ?_
    obtain ⟨sameRule, sameSeverity⟩ := answer_described rule.descriptor semantics? node diagnostic answered
    rw [rule.descriptor_rule] at sameRule
    subst sameRule
    rw [Config.adjust?, if_neg disabled, sameSeverity]
    rfl

namespace Catalog

theorem configured_cases (config : Config) :
    (∃ id, configured config = .error ⟨id⟩ ∧ config.unknownId? = some id) ∨
    ∃ catalog, configured config = .ok catalog ∧ config.unknownId? = none ∧
      ∀ rule, catalog.get? rule = config.description? rule := by
  unfold configured
  split
  · rename_i id unknown
    exact .inl ⟨id, rfl, unknown⟩
  · rename_i known
    refine .inr ⟨_, rfl, known, fun rule => ?_⟩
    rw [get?, Config.description?, config.override_eq]
    by_cases disabled : config.Disables rule
    · simp [disabled, (config.disables_iff rule).mp disabled]
    · simp [disabled, mt (config.disables_iff rule).mpr disabled, Descriptor.reweighted]

end Catalog

namespace Engine

theorem detect_rules (catalog : Catalog) (semantics? : Option Semantics) (node : Node) :
    (ofCatalog catalog).detect semantics? node =
      Rule.all.filterMap fun rule => (catalog.get? rule).bind (·.answer? semantics? node) := by
  rw [detect_eq, Catalog.all, List.filterMap_filterMap]

theorem analyze_configured (config : Config) (catalog : Catalog) (described : ∀ rule, catalog.get? rule = config.description? rule)
    (semantics? : Option Semantics) (node : Node) :
    (ofCatalog catalog).analyze semantics? node = ((ofCatalog .builtin).analyze semantics? node).filterMap config.adjust? := by
  have here (place : Node) : (ofCatalog catalog).detect semantics? place =
      ((ofCatalog .builtin).detect semantics? place).filterMap config.adjust? := by
    rw [detect_rules, detect_rules, List.filterMap_filterMap]
    congr 1
    funext rule
    rw [described, Catalog.builtin_get, Option.bind_some, adjusted_answer]
  rw [analyze, analyze, List.filterMap_flatMap]
  congr 1
  funext place
  exact here place

-- Only an unknown id is an error, the first one; any other configuration filters and re-weights what is reported.
theorem configuration_filters_and_reweights (config : Config) :
    match Catalog.configured config with
    | .error error => config.FirstUnknown error.id
    | .ok catalog => (∀ id ∈ config.disabled ++ config.weighed, Config.isUnknown id = false) ∧
        ∀ semantics? node, (ofCatalog catalog).analyze semantics? node =
          ((ofCatalog .builtin).analyze semantics? node).filterMap config.adjust? := by
  rcases Catalog.configured_cases config with ⟨id, failed, unknown⟩ | ⟨catalog, succeeded, known, described⟩
  · rw [failed]
    exact config.unknown_id_some id unknown
  · rw [succeeded]
    exact ⟨config.unknown_id_none known, analyze_configured config catalog described⟩

end Engine

end SmellCheck
