import SmellCheck.Proofs.ChildCounts
import SmellCheck.Proofs.Confinement
import SmellCheck.Proofs.KindCounts
import SmellCheck.Proofs.Reporting

/-!
Reporting and repairing in turns. A guard that is spliced gives way to a part of its body, so every
repair of a redundant guard leaves fewer guards, even when the guard it was asked for has to wait for
one that is planned before; taking turns comes to an end, and only where nothing is left to report.
-/

set_option autoImplicit false

namespace SmellCheck

theorem child_kind_count (kind : Kind) (node child : Node) (isChild : child ∈ node.children) :
    child.focus.kindCount kind ≤ Forest.kindCount kind node.focus.children := by
  have subtree : child.focus ∈ node.focus.subtrees := (Node.mem_subtrees_iff _ _).mpr ⟨child, isChild, rfl⟩
  obtain ⟨element, member, isNode⟩ := List.mem_filterMap.mp subtree
  cases element with
  | token raw text => cases isNode
  | node raw children =>
      rw [← Option.some.inj isNode]
      exact forest_kind_count_mem kind _ _ member

namespace Fix

theorem unwrapped_body_count (kind : Kind) (body : Tree) :
    Forest.kindCount kind (unwrappedBody body) ≤ body.kindCount kind := by
  unfold unwrappedBody
  split
  · have within : (blockContents body).Sublist body.children :=
      (Text.trim_where_sublist _ _).trans ((List.dropLast_sublist _).trans (List.drop_sublist _ _))
    exact Nat.le_trans (forest_kind_count_sublist kind _ _ within) (Nat.le_add_left _ _)
  · exact Nat.le_refl _

theorem guard_shrinks (guard : Node) (redundant : guard.isRedundantGuard) :
    (guardRequest guard).Shrinks .usingStmt guard.focus.toElement := by
  obtain ⟨isUsing, -, body, -, last, -⟩ := (Node.isRedundantGuard_iff guard).mp redundant
  refine ⟨rfl, ?_⟩
  have isGuard : Kind.ofRaw guard.focus.raw = .usingStmt := isUsing
  have inBody := child_kind_count .usingStmt guard body (List.mem_of_getLast? last)
  have given : (guardRequest guard).given = unwrappedBody body.focus := by
    rw [guardRequest, last]
    rfl
  rw [given, Tree.toElement, Element.kindCount, if_pos isGuard]
  have kept := unwrapped_body_count .usingStmt body.focus
  omega

theorem some_guard_removed (home : Node) (redundant : home.isRedundantGuard) (inner : home.isRoot = false) :
    removed .unnecessaryShimsContext home ≠ [] := by
  have below : home ∈ home.classScope.descendantsOrSelf :=
    (Node.mem_descendants_or_self_iff _ _).mpr (Node.class_scope_above home)
  obtain ⟨outer, -, goes⟩ := guard_above home home redundant redundant below inner
  exact List.ne_nil_of_mem goes

theorem guard_removal_shrinks (home : Node) (redundant : home.isRedundantGuard) (inner : home.isRoot = false) :
    ((Session.start home).run (removals .unnecessaryShimsContext home)).apply.kindCount .usingStmt <
      home.root.kindCount .usingStmt := by
  refine session_shrinks .usingStmt home _ ?_ (some_guard_removed home redundant inner)
  intro request goes
  obtain ⟨guard, -, isGuard, rfl⟩ := ((guard_requests home redundant).1 request).mp (Session.mem_accepted _ _ _ goes)
  exact guard_shrinks guard isGuard

end Fix

theorem apply_kind (session : Session) : session.apply.kind = session.root.kind :=
  (tree_rewrite_shape session.edits session.root).1

namespace Catalog

open SmellCheck.Fix

def Reports (catalog : Catalog) (rule : Rule) (place : Node) : Prop :=
  ∃ semantics? diagnostic, (Engine.ofCatalog catalog).detectRule rule.id semantics? place = .ok (some diagnostic)

-- Some place of the first tree is reported, and its repair gives the second one.
def Turn (catalog : Catalog) (rule : Rule) (before after : Tree) : Prop :=
  ∃ place, place.root = before ∧ catalog.Reports rule place ∧ catalog.fix rule.id place = .ok after

-- The trees that any places reported one after the other lead to, with the number of repairs.
inductive Turns (catalog : Catalog) (rule : Rule) (first : Tree) : Nat → Tree → Prop
  | none : catalog.Turns rule first 0 first
  | more {count : Nat} {before after : Tree} : catalog.Turns rule first count before → catalog.Turn rule before after →
      catalog.Turns rule first (count + 1) after

theorem reports_iff (catalog : Catalog) (rule : Rule) (place : Node) :
    catalog.Reports rule place ↔ (catalog.get? rule).isSome ∧ rule.descriptor.triggers.contains place.kind ∧
      ∃ semantics?, (Detect.ofRule rule semantics? place).isSome := by
  constructor
  · rintro ⟨semantics?, diagnostic, answered⟩
    obtain ⟨descriptor, member, same, found⟩ := Engine.detect_rule_ok catalog semantics? place rule.id _ answered
    obtain rfl := Rule.id_injective _ _ same
    have both := answer_of_rule catalog descriptor.rule semantics? place
    rw [(mem_all_iff catalog descriptor).mp member, Option.bind_some, ← found] at both
    obtain ⟨triggers, detects⟩ := Bool.and_eq_true_iff.mp both.symm
    exact ⟨by rw [(mem_all_iff catalog descriptor).mp member]; rfl, (Bool.and_eq_true_iff.mp triggers).2, semantics?, detects⟩
  · rintro ⟨inForce, triggers, semantics?, detects⟩
    have both := answer_of_rule catalog rule semantics? place
    rw [inForce, triggers, detects] at both
    obtain ⟨diagnostic, answered⟩ := Option.isSome_iff_exists.mp both
    obtain ⟨descriptor, found, answered⟩ := Option.bind_eq_some_iff.mp answered
    have same := rule_of_get catalog rule descriptor found
    refine ⟨semantics?, diagnostic, ?_⟩
    rw [← same, Engine.detect_rule_of_mem catalog semantics? place descriptor ((mem_all_iff catalog descriptor).mpr (same.symm ▸ found)),
      answered]

theorem fix_of_reports (catalog : Catalog) (rule : Rule) (fixer : Fixer) (fixable : ofRule? rule = some fixer) (place : Node)
    (reported : catalog.Reports rule place) : catalog.fix rule.id place = .ok ((fixer place).getD place.root) :=
  fix_in_force catalog rule fixer fixable ((reports_iff catalog rule place).mp reported).1 place

theorem guard_found_iff (semantics? : Option Semantics) (place : Node) :
    (Detect.ofRule .unnecessaryShimsContext semantics? place).isSome ↔
      place.isRedundantGuard ∧ ∀ outer ∈ place.ancestors, ¬ outer.isRedundantGuard := by
  have detects : (Detect.ofRule .unnecessaryShimsContext semantics? place).isSome =
      (place.isRedundantGuard && !(place.ancestorsOfKind .usingStmt).any Node.isRedundantGuard) := Finding.on_if_some _ _
  rw [detects, Bool.and_eq_true, Bool.not_eq_true', List.any_eq_false]
  refine and_congr_right fun _ => ⟨fun needed outer above redundant => ?_, fun needed outer member => ?_⟩
  · have isUsing := ((Node.isRedundantGuard_iff outer).mp redundant).1
    exact needed outer (List.mem_filter.mpr ⟨above, beq_iff_eq.mpr isUsing⟩) redundant
  · exact needed outer (List.mem_filter.mp member).1

theorem guard_reports_iff (catalog : Catalog) (place : Node) :
    catalog.Reports .unnecessaryShimsContext place ↔ (catalog.get? .unnecessaryShimsContext).isSome ∧
      place.isRedundantGuard ∧ ∀ outer ∈ place.ancestors, ¬ outer.isRedundantGuard := by
  simp only [reports_iff, guard_found_iff, exists_const]
  refine and_congr_right fun _ => and_iff_right_of_imp fun ⟨redundant, _⟩ => ?_
  rw [((Node.isRedundantGuard_iff place).mp redundant).1]
  rfl

theorem guard_turn (catalog : Catalog) (place : Node) (reported : catalog.Reports .unnecessaryShimsContext place)
    (bare : place.root.kind ≠ .usingStmt) :
    ∃ after, catalog.fix Rule.unnecessaryShimsContext.id place = .ok after ∧
      after.kindCount .usingStmt < place.root.kindCount .usingStmt ∧ after.kind ≠ .usingStmt := by
  obtain ⟨-, redundant, -⟩ := (guard_reports_iff catalog place).mp reported
  have isUsing := ((Node.isRedundantGuard_iff place).mp redundant).1
  have inner : place.isRoot = false := Node.inner_of_kind place (by rw [isUsing]; exact bare)
  refine ⟨_, fix_of_reports catalog _ removeGuards rfl place reported, ?_⟩
  rw [removal_applied .unnecessaryShimsContext (.inl rfl) removeGuards rfl place]
  refine ⟨guard_removal_shrinks place redundant inner, ?_⟩
  rw [apply_kind, (Session.reached_history place _).root]
  exact bare

theorem guard_turn_of_reports (catalog : Catalog) (place : Node) (reported : catalog.Reports .unnecessaryShimsContext place)
    (bare : place.root.kind ≠ .usingStmt) : ∃ after, catalog.Turn .unnecessaryShimsContext place.root after := by
  obtain ⟨after, fixed, -⟩ := guard_turn catalog place reported bare
  exact ⟨after, place, rfl, reported, fixed⟩

theorem guard_turns (catalog : Catalog) (first after : Tree) (count : Nat) (bare : first.kind ≠ .usingStmt)
    (turns : catalog.Turns .unnecessaryShimsContext first count after) :
    count + after.kindCount .usingStmt ≤ first.kindCount .usingStmt ∧ after.kind ≠ .usingStmt := by
  induction turns with
  | none => exact ⟨Nat.le_of_eq (Nat.zero_add _), bare⟩
  | more _ turn ih =>
      obtain ⟨place, rfl, reported, fixed⟩ := turn
      obtain ⟨after, fixed', fewer, bare⟩ := guard_turn catalog place reported ih.2
      rw [fixed] at fixed'
      obtain rfl := Except.ok.inj fixed'
      exact ⟨by omega, bare⟩

def Silent (catalog : Catalog) (rule : Rule) (tree : Tree) : Prop :=
  ∀ place : Node, place.root = tree → ¬ catalog.Reports rule place

theorem silent_iff_no_turn (catalog : Catalog) (tree : Tree) (bare : tree.kind ≠ .usingStmt) :
    catalog.Silent .unnecessaryShimsContext tree ↔ ∀ next, ¬ catalog.Turn .unnecessaryShimsContext tree next := by
  constructor
  · rintro silent next ⟨place, isPlace, reported, -⟩
    exact silent place isPlace reported
  · rintro stuck place rfl reported
    obtain ⟨next, turn⟩ := guard_turn_of_reports catalog place reported bare
    exact stuck next turn

theorem turns_trans (catalog : Catalog) (rule : Rule) (first middle last : Tree) (count count' : Nat)
    (front : catalog.Turns rule first count middle) (back : catalog.Turns rule middle count' last) :
    catalog.Turns rule first (count + count') last := by
  induction back with
  | none => exact front
  | more _ turn ih => exact .more ih turn

theorem guard_turns_to_silence (catalog : Catalog) (tree : Tree) (bare : tree.kind ≠ .usingStmt) :
    ∃ count last, catalog.Turns .unnecessaryShimsContext tree count last ∧ catalog.Silent .unnecessaryShimsContext last := by
  induction left : tree.kindCount .usingStmt using Nat.strong_induction_on generalizing tree with
  | _ guards ih =>
      subst left
      by_cases silent : catalog.Silent .unnecessaryShimsContext tree
      · exact ⟨0, tree, .none, silent⟩
      · obtain ⟨next, turn⟩ : ∃ next, catalog.Turn .unnecessaryShimsContext tree next := by
          by_contra stuck
          exact silent ((silent_iff_no_turn catalog tree bare).mpr (not_exists.mp stuck))
        have single : catalog.Turns .unnecessaryShimsContext tree (0 + 1) next := .more .none turn
        obtain ⟨fewer, nextBare⟩ := guard_turns catalog tree next _ bare single
        obtain ⟨count, last, turns, silent⟩ := ih _ (by omega) next nextBare rfl
        exact ⟨_, last, turns_trans catalog _ _ _ _ _ _ single turns, silent⟩

-- Where the root is no guard, every reported guard is repaired and leaves fewer guards; so no more turns
-- can be taken than there are guards, and turns that cannot go on have come to where nothing is reported.
theorem guard_repairs_terminate (catalog : Catalog) (tree : Tree) (bare : tree.kind ≠ .usingStmt) :
    (∀ place : Node, place.root = tree → catalog.Reports .unnecessaryShimsContext place →
      ∃ after, catalog.fix Rule.unnecessaryShimsContext.id place = .ok after ∧
        after.kindCount .usingStmt < tree.kindCount .usingStmt ∧ after.kind ≠ .usingStmt) ∧
    (∀ count after, catalog.Turns .unnecessaryShimsContext tree count after →
      count + after.kindCount .usingStmt ≤ tree.kindCount .usingStmt ∧ after.kind ≠ .usingStmt ∧
        (catalog.Silent .unnecessaryShimsContext after ↔ ∀ next, ¬ catalog.Turn .unnecessaryShimsContext after next) ∧
        ∃ more last, catalog.Turns .unnecessaryShimsContext after more last ∧
          catalog.Silent .unnecessaryShimsContext last) := by
  constructor
  · rintro place rfl reported
    exact guard_turn catalog place reported bare
  · intro count after turns
    obtain ⟨fewer, afterBare⟩ := guard_turns catalog tree after count bare turns
    exact ⟨fewer, afterBare, silent_iff_no_turn catalog after afterBare, guard_turns_to_silence catalog after afterBare⟩

end Catalog

namespace Guarded

def alone (statements : List Tree) : Node := ⟨0, guard statements, [body]⟩

def within (statements : List Tree) : Node :=
  ⟨0, guard statements, [body, ⟨Kind.usingStmt.raw, (guard []).children.dropLast.reverse, []⟩, body]⟩

end Guarded

namespace Catalog

open SmellCheck.Fix Guarded

theorem guard_turn_of_only (home : Node) (after : Tree) (redundant : home.isRedundantGuard)
    (outermost : home.ancestors.filter Node.isRedundantGuard = [])
    (only : home.classScope.descendantsOrSelf.filter Node.isRedundantGuard = [home])
    (unwrapped : ((Session.start home.classScope).planAll (fun session guard => session.perform (guardRequest guard))
      [home]).applyIfAny = some after) :
    builtin.Turn .unnecessaryShimsContext home.root after := by
  have reported := (guard_reports_iff builtin home).mpr ⟨by rw [builtin_get]; rfl, redundant, List.filter_eq_nil_iff.mp outermost⟩
  refine ⟨home, rfl, reported, builtin_fix .unnecessaryShimsContext removeGuards rfl home after ?_⟩
  rw [removeGuards, if_neg (by simp [redundant])]
  simp only [only]
  exact unwrapped

theorem nested_guards_terminate :
    let tree := Build.block [guard [guard [call "a"]]]
    let last := Build.block [call "a"]
    tree.kind ≠ .usingStmt ∧ tree.kindCount .usingStmt = 2 ∧ builtin.Turns .unnecessaryShimsContext tree 2 last ∧
      builtin.Silent .unnecessaryShimsContext last := by
  intro tree last
  have bare : tree.kind ≠ .usingStmt := by decide
  have inner : builtin.Turn .unnecessaryShimsContext tree (Build.block [guard [call "a"]]) :=
    guard_turn_of_only (within [call "a"]) _ (by decide +kernel) (by decide +kernel) (by decide +kernel) (by decide)
  have outer : builtin.Turn .unnecessaryShimsContext (Build.block [guard [call "a"]]) last :=
    guard_turn_of_only (alone [call "a"]) _ (by decide +kernel) (by decide +kernel) (by decide +kernel) (by decide)
  have turns : builtin.Turns .unnecessaryShimsContext tree 2 last := .more (.more .none inner) outer
  refine ⟨bare, by decide, turns, ?_⟩
  obtain ⟨-, -, -, more, final, further, silent⟩ := (guard_repairs_terminate builtin tree bare).2 2 last turns
  cases further with
  | none => exact silent
  | more earlier turn =>
      obtain ⟨bound, -⟩ := (guard_repairs_terminate builtin tree bare).2 _ _
        (turns_trans builtin _ _ _ _ _ _ turns (.more earlier turn))
      have guards : tree.kindCount .usingStmt = 2 := by decide
      omega

end Catalog

end SmellCheck
