import Mathlib.Data.List.Nodup
import Mathlib.Data.List.ReduceOption
import SmellCheck.Detection
import SmellCheck.Proofs.Descent

/-!
What an engine reports. The dispatch table of a catalog gives a node to exactly those rules that the
kind of the node triggers, in the order of the catalog, so running all rules on a node is running them
one by one; and what is reported on a tree is in the order of its nodes, each with its rules in order.
-/

set_option autoImplicit false

namespace SmellCheck

theorem Finding.on_if_some (condition : Bool) (node : Node) : (onIf condition node).isSome = condition := by
  cases condition <;> rfl

theorem Rule.triggers_nodup (rule : Rule) : rule.descriptor.triggers.Nodup := by
  cases rule <;> decide

namespace Catalog

theorem mem_all_iff (catalog : Catalog) (descriptor : Descriptor) :
    descriptor ∈ catalog.all ↔ catalog.get? descriptor.rule = some descriptor := by
  rw [all, List.mem_filterMap]
  constructor
  · rintro ⟨rule, -, found⟩
    rw [rule_of_get catalog rule descriptor found]
    exact found
  · intro found
    exact ⟨descriptor.rule, Rule.mem_all _, found⟩

theorem triggers_of_mem (catalog : Catalog) (descriptor : Descriptor) (member : descriptor ∈ catalog.all) :
    descriptor.triggers.Nodup := by
  obtain ⟨severity, -, described⟩ := Option.map_eq_some_iff.mp ((mem_all_iff catalog descriptor).mp member)
  rw [← described]
  exact Rule.triggers_nodup _

theorem rules_eq (catalog : Catalog) : catalog.all.map Descriptor.rule = Rule.all.filter (catalog.get? · |>.isSome) := by
  rw [all, List.map_filterMap, ← List.filterMap_eq_filter]
  congr 1
  funext rule
  cases inForce : catalog.severity? rule <;> simp [get?, inForce, Option.guard, rule.descriptor_rule]

theorem rules_nodup (catalog : Catalog) : (catalog.all.map Descriptor.rule).Nodup := by
  have once : Rule.all.Nodup := by decide
  rw [rules_eq]
  exact once.filter _

theorem all_of_rule (catalog : Catalog) (rule : Rule) : catalog.all.filter (·.rule == rule) = (catalog.get? rule).toList := by
  have own : ∀ other, (catalog.get? other).filter (·.rule == rule) = if other == rule then catalog.get? other else none := by
    intro other
    cases found : catalog.get? other with
    | none => simp
    | some descriptor => rw [Option.filter_some, rule_of_get catalog other descriptor found]
  have once : Rule.all.filter (· == rule) = [rule] := by cases rule <;> decide
  rw [all, List.filter_filterMap, List.filterMap_congr fun other _ => own other, ← List.filterMap_filter, once]
  cases found : catalog.get? rule <;> simp [found]

def Before (catalog : Catalog) (first second : Rule) : Prop := [first, second].Sublist (catalog.all.map Descriptor.rule)

theorem not_before_self (catalog : Catalog) (rule : Rule) : ¬ catalog.Before rule rule :=
  List.nodup_iff_sublist.mp (rules_nodup catalog) rule

theorem all_in_order (catalog : Catalog) : catalog.all.Pairwise fun first second => catalog.Before first.rule second.rule :=
  List.pairwise_map.mp (List.pairwise_iff_forall_sublist.mpr fun before => before)

theorem describe_iff (catalog : Catalog) (id : String) (descriptor : Descriptor) :
    catalog.describe id = .ok descriptor ↔ descriptor ∈ catalog.all ∧ id = descriptor.rule.id := by
  have known : catalog.describe id = .ok descriptor ↔ (Rule.ofId? id).bind catalog.get? = some descriptor := by
    unfold describe
    cases (Rule.ofId? id).bind catalog.get? <;> simp
  rw [known, Option.bind_eq_some_iff, mem_all_iff]
  constructor
  · rintro ⟨rule, named, found⟩
    rw [rule_of_get catalog rule descriptor found]
    exact ⟨found, Rule.id_of_ofId? id rule named⟩
  · rintro ⟨found, rfl⟩
    exact ⟨descriptor.rule, Rule.ofId?_id _, found⟩

end Catalog

namespace Dispatch

theorem rules_for_triggers (table : Dispatch) (rule : Rule) (triggers : List Kind) (once : triggers.Nodup) (kind : Kind) :
    (triggers.foldl (add rule) table).rulesFor kind =
      table.rulesFor kind ++ if triggers.contains kind then [rule] else [] := by
  induction triggers generalizing table with
  | nil => simp
  | cons trigger rest ih =>
      obtain ⟨absent, later⟩ := List.nodup_cons.mp once
      rw [List.foldl_cons, ih (add rule table trigger) later, rulesFor_add]
      by_cases same : kind = trigger
      · subst same
        simp [absent]
      · simp [same]

theorem rules_for_descriptors (table : Dispatch) (descriptors : List Descriptor)
    (once : ∀ descriptor ∈ descriptors, descriptor.triggers.Nodup) (kind : Kind) :
    (descriptors.foldl addTriggers table).rulesFor kind =
      table.rulesFor kind ++ (descriptors.filter (·.triggers.contains kind)).map Descriptor.rule := by
  induction descriptors generalizing table with
  | nil => simp
  | cons descriptor rest ih =>
      have here := rules_for_triggers table descriptor.rule descriptor.triggers (once descriptor List.mem_cons_self) kind
      rw [List.foldl_cons, ih _ fun other member => once other (List.mem_cons_of_mem _ member), addTriggers, here]
      by_cases triggered : descriptor.triggers.contains kind <;> simp only [triggered, List.filter_cons] <;> simp

theorem rules_for_catalog (catalog : Catalog) (kind : Kind) :
    (ofCatalog catalog).rulesFor kind = (catalog.all.filter (·.triggers.contains kind)).map Descriptor.rule :=
  rules_for_descriptors [] catalog.all (Catalog.triggers_of_mem catalog) kind

end Dispatch

def Descriptor.answer? (descriptor : Descriptor) (semantics? : Option Semantics) (node : Node) : Option Diagnostic :=
  if descriptor.triggers.contains node.kind then descriptor.report? semantics? node else none

theorem answer_described (descriptor : Descriptor) (semantics? : Option Semantics) (node : Node) (diagnostic : Diagnostic)
    (answered : descriptor.answer? semantics? node = some diagnostic) :
    diagnostic.rule = descriptor.rule ∧ diagnostic.severity = descriptor.severity := by
  unfold Descriptor.answer? at answered
  split at answered
  · obtain ⟨finding, -, rfl⟩ := Option.map_eq_some_iff.mp answered
    exact ⟨rfl, rfl⟩
  · cases answered

theorem answer_of_rule (catalog : Catalog) (rule : Rule) (semantics? : Option Semantics) (node : Node) :
    ((catalog.get? rule).bind (·.answer? semantics? node)).isSome =
      ((catalog.get? rule).isSome && rule.descriptor.triggers.contains node.kind && (Detect.ofRule rule semantics? node).isSome) := by
  cases found : catalog.get? rule with
  | none => rfl
  | some descriptor =>
      have same := Catalog.rule_of_get catalog rule descriptor found
      have triggers : descriptor.triggers = rule.descriptor.triggers := by
        obtain ⟨severity, -, rfl⟩ := Option.map_eq_some_iff.mp found
        rfl
      rw [Option.bind_some, Descriptor.answer?, triggers, Descriptor.report?, same]
      cases rule.descriptor.triggers.contains node.kind with
      | false => rfl
      | true => exact Option.isSome_map

namespace Engine

section
variable (catalog : Catalog) (semantics? : Option Semantics) (node : Node)

theorem detect_rule_of_mem (descriptor : Descriptor) (member : descriptor ∈ catalog.all) :
    (ofCatalog catalog).detectRule descriptor.rule.id semantics? node = .ok (descriptor.answer? semantics? node) := by
  have described := (Catalog.describe_iff catalog descriptor.rule.id descriptor).mpr ⟨member, rfl⟩
  rw [detectRule, ofCatalog, described]
  rfl

theorem detect_rule_ok (id : String) (answer? : Option Diagnostic)
    (answered : (ofCatalog catalog).detectRule id semantics? node = .ok answer?) :
    ∃ descriptor ∈ catalog.all, id = descriptor.rule.id ∧ answer? = descriptor.answer? semantics? node := by
  cases described : catalog.describe id with
  | error error =>
      rw [detectRule, ofCatalog, described] at answered
      cases answered
  | ok descriptor =>
      obtain ⟨member, rfl⟩ := (Catalog.describe_iff catalog id descriptor).mp described
      rw [detect_rule_of_mem catalog semantics? node descriptor member] at answered
      exact ⟨descriptor, member, rfl, (Except.ok.inj answered).symm⟩

theorem detect_eq : (ofCatalog catalog).detect semantics? node = catalog.all.filterMap (·.answer? semantics? node) := by
  have report : ∀ descriptor ∈ catalog.all, (ofCatalog catalog).report? semantics? node descriptor.rule =
      descriptor.report? semantics? node := by
    intro descriptor member
    rw [report?, show (ofCatalog catalog).catalog = catalog from rfl, (Catalog.mem_all_iff catalog descriptor).mp member]
    rfl
  rw [detect, show (ofCatalog catalog).dispatch = Dispatch.ofCatalog catalog from rfl, Dispatch.rules_for_catalog,
    List.filterMap_map, List.filterMap_filter]
  refine List.filterMap_congr fun descriptor member => ?_
  rw [Function.comp_apply, report descriptor member]
  rfl

theorem ask_all (descriptors : List Descriptor) (known : ∀ descriptor ∈ descriptors, descriptor ∈ catalog.all) :
    descriptors.mapM (fun descriptor => (ofCatalog catalog).detectRule descriptor.rule.id semantics? node) =
      .ok (descriptors.map (·.answer? semantics? node)) := by
  induction descriptors with
  | nil => rfl
  | cons descriptor rest ih =>
      rw [List.mapM_cons, detect_rule_of_mem catalog semantics? node descriptor (known descriptor List.mem_cons_self),
        ih fun other member => known other (List.mem_cons_of_mem _ member)]
      rfl

def reports (engine : Engine) (semantics? : Option Semantics) (node : Node) : List (Node × Diagnostic) :=
  node.descendantsOrSelf.flatMap fun place => (engine.detect semantics? place).map (place, ·)

theorem reports_diagnostics (engine : Engine) : (engine.reports semantics? node).map Prod.snd = engine.analyze semantics? node := by
  rw [reports, analyze, List.map_flatMap]
  congr 1
  funext place
  rw [List.map_map]
  exact List.map_id _

def Earlier (catalog : Catalog) (first second : Node × Diagnostic) : Prop :=
  first.1.path < second.1.path ∨ first.1 = second.1 ∧ catalog.Before first.2.rule second.2.rule

theorem detect_in_order : ((ofCatalog catalog).detect semantics? node).Pairwise fun first second =>
    catalog.Before first.rule second.rule := by
  rw [detect_eq, List.pairwise_filterMap]
  refine (Catalog.all_in_order catalog).imp ?_
  intro first second before diagnostic answered diagnostic' answered'
  rw [(answer_described first semantics? node diagnostic answered).1, (answer_described second semantics? node diagnostic' answered').1]
  exact before

theorem reports_in_order : ((ofCatalog catalog).reports semantics? node).Pairwise (Earlier catalog) := by
  rw [reports, List.pairwise_flatMap]
  refine ⟨fun place _ => ?_, (Node.descendants_in_order node).imp ?_⟩
  · refine List.pairwise_map.mpr ((detect_in_order catalog semantics? place).imp ?_)
    exact fun before => .inr ⟨rfl, before⟩
  · intro earlier later before first isFirst second isSecond
    obtain ⟨diagnostic, -, rfl⟩ := List.mem_map.mp isFirst
    obtain ⟨diagnostic', -, rfl⟩ := List.mem_map.mp isSecond
    exact .inl before

theorem not_earlier_same (first second : Node × Diagnostic) (earlier : Earlier catalog first second) :
    (first.1, first.2.rule) ≠ (second.1, second.2.rule) := by
  intro same
  obtain ⟨sameNode, sameRule⟩ := Prod.mk.inj same
  rcases earlier with before | ⟨-, before⟩
  · rw [sameNode] at before
    exact List.lt_irrefl _ before
  · rw [sameRule] at before
    exact Catalog.not_before_self catalog _ before

theorem mem_reports (place : Node) (diagnostic : Diagnostic) :
    (place, diagnostic) ∈ (ofCatalog catalog).reports semantics? node ↔ place ∈ node.descendantsOrSelf ∧
      ∃ descriptor ∈ catalog.all, descriptor.answer? semantics? place = some diagnostic := by
  rw [reports, List.mem_flatMap]
  constructor
  · rintro ⟨other, below, member⟩
    obtain ⟨_, found, same⟩ := List.mem_map.mp member
    obtain ⟨rfl, rfl⟩ := Prod.mk.inj same
    rw [detect_eq] at found
    exact ⟨below, List.mem_filterMap.mp found⟩
  · rintro ⟨below, answered⟩
    refine ⟨place, below, List.mem_map_of_mem ?_⟩
    rw [detect_eq]
    exact List.mem_filterMap.mpr answered

theorem analyze_of_rule (rule : Rule) : ((ofCatalog catalog).analyze semantics? node).filter (·.rule == rule) =
    node.descendantsOrSelf.filterMap fun place => (catalog.get? rule).bind (·.answer? semantics? place) := by
  have here : ∀ place, ((ofCatalog catalog).detect semantics? place).filter (·.rule == rule) =
      ((catalog.get? rule).bind (·.answer? semantics? place)).toList := by
    intro place
    have own : ∀ descriptor : Descriptor, (descriptor.answer? semantics? place).filter (·.rule == rule) =
        if descriptor.rule == rule then descriptor.answer? semantics? place else none := by
      intro descriptor
      cases found : descriptor.answer? semantics? place with
      | none => simp
      | some diagnostic => rw [Option.filter_some, (answer_described descriptor semantics? place diagnostic found).1]
    rw [detect_eq, List.filter_filterMap, List.filterMap_congr fun descriptor _ => own descriptor, ← List.filterMap_filter,
      Catalog.all_of_rule]
    cases catalog.get? rule with
    | none => rfl
    | some descriptor => cases found : descriptor.answer? semantics? place <;> simp [found]
  rw [analyze, List.filter_flatMap, List.flatMap_congr fun place _ => here place, List.filterMap_eq_flatMap_toList]

-- A node is answered as by its rules one by one, and a tree node by node in the order of the catalog.
theorem detection_rule_by_rule :
    (∀ place : Node, ∃ answers, catalog.all.mapM (fun descriptor =>
        (ofCatalog catalog).detectRule descriptor.rule.id semantics? place) = .ok answers ∧
      (ofCatalog catalog).detect semantics? place = answers.reduceOption) ∧
    ∃ reports : List (Node × Diagnostic), reports.map Prod.snd = (ofCatalog catalog).analyze semantics? node ∧
      reports.Pairwise (Earlier catalog) ∧ (reports.map fun report => (report.1, report.2.rule)).Nodup ∧
      ∀ place diagnostic id, (place, diagnostic) ∈ reports ∧ id = diagnostic.rule.id ↔
        place ∈ node.descendantsOrSelf ∧ (ofCatalog catalog).detectRule id semantics? place = .ok (some diagnostic) := by
  refine ⟨?_, (ofCatalog catalog).reports semantics? node, reports_diagnostics semantics? node _,
    reports_in_order catalog semantics? node, ?_, ?_⟩
  · intro place
    refine ⟨_, ask_all catalog semantics? place catalog.all fun _ member => member, ?_⟩
    rw [detect_eq, List.reduceOption, List.filterMap_map]
    rfl
  · exact List.pairwise_map.mpr ((reports_in_order catalog semantics? node).imp (not_earlier_same catalog _ _))
  · intro place diagnostic id
    rw [mem_reports]
    constructor
    · rintro ⟨⟨below, descriptor, member, answered⟩, rfl⟩
      rw [(answer_described descriptor semantics? place diagnostic answered).1,
        detect_rule_of_mem catalog semantics? place descriptor member, answered]
      exact ⟨below, rfl⟩
    · rintro ⟨below, found⟩
      obtain ⟨descriptor, member, rfl, answered⟩ := detect_rule_ok catalog semantics? place id _ found
      rw [(answer_described descriptor semantics? place diagnostic answered.symm).1]
      exact ⟨⟨below, descriptor, member, answered.symm⟩, rfl⟩

end

end Engine

end SmellCheck
