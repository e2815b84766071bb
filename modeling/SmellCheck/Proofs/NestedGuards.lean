import SmellCheck.Proofs.UnwrappedGuards

/-!
Guards in guards. The text that makes a `using` statement a guard holds the word that keeps the guard around
its body from being redundant; so among redundant guards one is above another only beside its body, and only
there one stays unreported or has to wait for another.
-/

set_option autoImplicit false

namespace SmellCheck

def Node.BesideBody (outer place : Node) : Prop :=
  ∃ child ∈ outer.children, outer.lastChild? ≠ some child ∧ place ∈ child.descendantsOrSelf

instance (outer place : Node) : Decidable (outer.BesideBody place) :=
  inferInstanceAs (Decidable (∃ child ∈ outer.children, outer.lastChild? ≠ some child ∧ place ∈ child.descendantsOrSelf))

namespace Fix

theorem guard_above_iff (outer guard : Node) (redundant : outer.isRedundantGuard) (isGuard : guard.isRedundantGuard) :
    outer ∈ guard.ancestors ↔ outer.BesideBody guard := by
  rw [← Node.mem_descendants_iff, Node.mem_descendants]
  constructor
  · rintro ⟨child, isChild, within⟩
    exact ⟨child, isChild, fun last => no_guard_in_body outer child guard redundant last within isGuard, within⟩
  · exact fun ⟨child, isChild, _, within⟩ => ⟨child, isChild, within⟩

theorem guard_found_apart_iff (semantics? : Option Semantics) (place : Node) :
    (Detect.ofRule .unnecessaryShimsContext semantics? place).isSome ↔
      place.isRedundantGuard ∧ ∀ outer : Node, outer.isRedundantGuard → ¬ outer.BesideBody place := by
  rw [Catalog.guard_found_iff]
  refine and_congr_right fun isGuard => ⟨fun outermost outer redundant beside => ?_, fun apart outer above redundant => ?_⟩
  · exact outermost outer ((guard_above_iff outer place redundant isGuard).mpr beside) redundant
  · exact apart outer redundant ((guard_above_iff outer place redundant isGuard).mp above)

theorem guards_ordered (home : Node) : (guards home).Pairwise fun earlier later => later ∉ earlier.ancestors :=
  (Node.descendants_ordered home.classScope).filter Node.isRedundantGuard

theorem guards_nodup (home : Node) : (guards home).Nodup :=
  (Node.places_nodup home.classScope).filter Node.isRedundantGuard

section
variable (home : Node) (front back : List Node) (guard : Node) (split : guards home = front ++ guard :: back)
include split

theorem guard_of_split : guard.isRedundantGuard ∧ guard.SameTree home :=
  of_guards home guard (split ▸ List.mem_append_right _ List.mem_cons_self)

theorem before_guard : ∀ earlier ∈ front, earlier ∈ guards home ∧ earlier ≠ guard ∧ guard ∉ earlier.ancestors := by
  intro earlier inFront
  have ordered := guards_ordered home
  have once := guards_nodup home
  rw [split] at ordered once
  exact ⟨split ▸ List.mem_append_left _ inFront, (List.nodup_append.mp once).2.2 earlier inFront guard List.mem_cons_self,
    (List.pairwise_append.mp ordered).2.2 earlier inFront guard List.mem_cons_self⟩

theorem guard_in_front (outer : Node) (member : outer ∈ guards home) (above : outer ∈ guard.ancestors) : outer ∈ front := by
  have ordered := guards_ordered home
  rw [split] at ordered member
  rcases List.mem_append.mp member with inFront | later
  · exact inFront
  · rcases List.mem_cons.mp later with rfl | inBack
    · exact absurd above (Node.not_above_self outer)
    · have notAbove := (List.pairwise_cons.mp (List.pairwise_append.mp ordered).2.1).1 outer inBack
      exact absurd above notAbove

theorem guard_apart (aside : ∀ outer ∈ guards home, outer.isRoot = false → outer ∉ guard.ancestors) :
    ∀ earlier ∈ (Session.start home).accepted (front.map guardRequest), earlier.Apart (guardRequest guard) := by
  intro earlier planned
  obtain ⟨outer, inFront, rfl⟩ := List.mem_map.mp (Session.mem_accepted _ _ _ planned)
  obtain ⟨asked, other, notBelow⟩ := before_guard home front back guard split outer inFront
  have notRoot := ((Session.reached_history home (front.map guardRequest)).within _ planned).2
  have inner : outer.isRoot = false := Bool.eq_false_iff.mpr (mt (Node.is_root_iff outer home (of_guards home outer asked).2).mp notRoot)
  exact ⟨other, fun _ => aside outer asked inner, fun _ => notBelow⟩

theorem guard_not_apart (outer : Node) (asked : outer ∈ guards home) (inner : outer.isRoot = false) (above : outer ∈ guard.ancestors) :
    ∃ earlier ∈ (Session.start home).accepted (front.map guardRequest), ¬ earlier.Apart (guardRequest guard) := by
  have ordered := guards_ordered home
  rw [split] at ordered
  have orderedFront : (front.map guardRequest).Pairwise fun earlier later => later.target ∉ earlier.target.ancestors :=
    List.pairwise_map.mpr (List.pairwise_append.mp ordered).1
  obtain ⟨planned, goes, higher⟩ := Session.accepted_above home _ orderedFront (guardRequest outer)
    (List.mem_map_of_mem (guard_in_front home front back guard split outer asked above)) (of_guards home outer asked).2 inner
  refine ⟨planned, goes, fun apart => ?_⟩
  obtain ⟨_, -, rfl⟩ := List.mem_map.mp (Session.mem_accepted _ _ _ goes)
  refine apart.2.1 rfl ?_
  rcases List.mem_cons.mp higher with same | beyond
  · exact same ▸ above
  · exact Node.ancestors_trans _ _ _ beyond above

theorem guard_clashes_iff :
    (∃ earlier ∈ (Session.start home).accepted (front.map guardRequest), ¬ earlier.Apart (guardRequest guard)) ↔
      ∃ outer ∈ guards home, outer.isRoot = false ∧ outer.BesideBody guard := by
  have isGuard := (guard_of_split home front back guard split).1
  have byBody : ∀ outer ∈ guards home, (outer ∈ guard.ancestors ↔ outer.BesideBody guard) := fun outer asked =>
    guard_above_iff outer guard (of_guards home outer asked).1 isGuard
  constructor
  · rintro ⟨earlier, planned, clash⟩
    by_contra! aside
    refine clash (guard_apart home front back guard split (fun outer asked inner above => ?_) earlier planned)
    exact aside outer asked inner ((byBody outer asked).mp above)
  · rintro ⟨outer, asked, inner, beside⟩
    exact guard_not_apart home front back guard split outer asked inner ((byBody outer asked).mpr beside)

theorem guard_skipped_iff (error : EditError) :
    ((Session.start home.classScope).run (front.map guardRequest)).perform (guardRequest guard) = .error error ↔
      (guard.isRoot ∧ error = .rootEdit) ∨
      ((∃ outer ∈ guards home, outer.isRoot = false ∧ outer.BesideBody guard) ∧ error = .overlap guard.range) := by
  obtain ⟨isGuard, tree⟩ := guard_of_split home front back guard split
  have rootIff := Node.is_root_iff guard home tree
  have clashes := guard_clashes_iff home front back guard split
  rw [Session.start_same _ _ (same_tree_of_class_scope home), (Session.planning_exact home _ [] (guardRequest guard)).2.1, ← clashes]
  constructor
  · rintro ⟨refused, foreign | ⟨-, atRoot, rfl⟩ | ⟨-, notRoot, rfl⟩⟩
    · exact absurd tree foreign.1
    · exact .inl ⟨rootIff.mpr atRoot, rfl⟩
    · refine .inr ⟨?_, rfl⟩
      by_contra free
      exact refused ⟨tree, notRoot, fun earlier planned => by_contra fun clash => free ⟨earlier, planned, clash⟩⟩
  · rintro (⟨isRoot, rfl⟩ | ⟨⟨earlier, planned, clash⟩, rfl⟩)
    · exact ⟨fun admissible => admissible.2.1 (rootIff.mp isRoot), .inr (.inl ⟨tree, rootIff.mp isRoot, rfl⟩)⟩
    · refine ⟨fun admissible => clash (admissible.2.2 earlier planned), .inr (.inr ⟨tree, fun atRoot => ?_, rfl⟩)⟩
      -- Nothing is above the root.
      obtain ⟨outer, asked, -, beside⟩ := clashes.mp ⟨earlier, planned, clash⟩
      have above := (guard_above_iff outer guard (of_guards home outer asked).1 isGuard).mpr beside
      rw [show guard = _ from atRoot] at above
      cases above

end

theorem remove_guards_eq_run (home : Node) (redundant : home.isRedundantGuard) :
    removeGuards home = ((Session.start home.classScope).run ((guards home).map guardRequest)).applyIfAny := by
  rw [removeGuards, if_neg (by simp [redundant]), ← Session.plan_all_eq_run]
  rfl

end Fix

namespace Catalog

open SmellCheck.Fix Guarded

-- No redundant guard is in the body of another one. So every redundant guard is reported but those beside the
-- body of another one, and of those that a repair asks for only these are skipped as overlaps.
theorem redundant_guards_beside_bodies (catalog : Catalog) (inForce : (catalog.get? .unnecessaryShimsContext).isSome) :
    (∀ outer body guard : Node, outer.isRedundantGuard → outer.lastChild? = some body → guard ∈ body.descendantsOrSelf →
      ¬ guard.isRedundantGuard) ∧
    (∀ semantics? place, ∃ answer?,
      (Engine.ofCatalog catalog).detectRule Rule.unnecessaryShimsContext.id semantics? place = .ok answer? ∧
        (answer?.isSome ↔ place.isRedundantGuard ∧ ∀ outer : Node, outer.isRedundantGuard → ¬ outer.BesideBody place)) ∧
    (∀ home : Node, home.isRedundantGuard →
      removeGuards home = ((Session.start home.classScope).run ((guards home).map guardRequest)).applyIfAny ∧
      ∀ front guard back, guards home = front ++ guard :: back → ∀ error,
        ((Session.start home.classScope).run (front.map guardRequest)).perform (guardRequest guard) = .error error ↔
          (guard.isRoot ∧ error = .rootEdit) ∨
          ((∃ outer ∈ guards home, outer.isRoot = false ∧ outer.BesideBody guard) ∧ error = .overlap guard.range)) := by
  refine ⟨no_guard_in_body, fun semantics? place => ?_, fun home redundant => ⟨remove_guards_eq_run home redundant, ?_⟩⟩
  · obtain ⟨descriptor, found⟩ := Option.isSome_iff_exists.mp inForce
    have same := rule_of_get catalog _ descriptor found
    have answered := Engine.detect_rule_of_mem catalog semantics? place descriptor ((mem_all_iff catalog descriptor).mpr (same.symm ▸ found))
    rw [same] at answered
    have decided := answer_of_rule catalog .unnecessaryShimsContext semantics? place
    rw [found, Option.bind_some, Option.isSome_some, Bool.true_and] at decided
    refine ⟨_, answered, ?_⟩
    rw [decided, Bool.and_eq_true, guard_found_apart_iff]
    refine and_iff_right_of_imp fun ⟨redundant, _⟩ => ?_
    rw [((Node.isRedundantGuard_iff place).mp redundant).1]
    rfl
  · exact fun front guard back split error => guard_skipped_iff home front back guard split error

end Catalog

namespace Guarded

def resourceful : Node := ⟨0, Build.tree .usingStmt [(Build.block [guard []]).toElement, (Build.block []).toElement], [body]⟩

def resource : Node := ⟨0, guard [], [body, ⟨Kind.usingStmt.raw, [], [(Build.block []).toElement]⟩, body]⟩

end Guarded

namespace Catalog

open SmellCheck.Fix Guarded

theorem guard_in_resource :
    (builtin.get? .unnecessaryShimsContext).isSome ∧ resourceful.isRedundantGuard ∧ resource.isRedundantGuard ∧
      resourceful.BesideBody resource ∧ guards resourceful = [resourceful] ++ resource :: [] ∧
      (∀ semantics?, (Engine.ofCatalog builtin).detectRule Rule.unnecessaryShimsContext.id semantics? resource = .ok none) ∧
      ((Session.start resourceful.classScope).run ([resourceful].map guardRequest)).perform (guardRequest resource) =
        .error (.overlap resource.range) := by
  have inForce : (builtin.get? .unnecessaryShimsContext).isSome := by
    rw [builtin_get]
    rfl
  have redundant : resourceful.isRedundantGuard := by decide +kernel
  have beside : resourceful.BesideBody resource := by decide +kernel
  have split : guards resourceful = [resourceful] ++ resource :: [] := by decide +kernel
  obtain ⟨-, reports, runs⟩ := redundant_guards_beside_bodies builtin inForce
  refine ⟨inForce, redundant, by decide +kernel, beside, split, fun semantics? => ?_, ?_⟩
  · obtain ⟨answer?, answered, reported⟩ := reports semantics? resource
    cases answer? with
    | none => exact answered
    | some _ => exact absurd beside ((reported.mp rfl).2 resourceful redundant)
  · exact ((runs resourceful redundant).2 _ _ _ split _).mpr
      (.inr ⟨⟨resourceful, split ▸ List.mem_cons_self, by decide, beside⟩, rfl⟩)

end Catalog

end SmellCheck
