import SmellCheck.Fix.Constants
import SmellCheck.Proofs.Planning

/-!
What the plan for the constants of a class holds: literals of its methods, each with the name of a
constant that has the same text as value, or of a new one made from the first of its group.
-/

set_option autoImplicit false

namespace SmellCheck.Fix

theorem mem_name_groups (taken : List String) (groups : List (String × List Node)) (name : String)
    (literals : List Node) (member : (name, literals) ∈ nameGroups taken groups) :
    ∃ text, (text, literals) ∈ groups ∧ name = Identifier.constantName text := by
  induction groups generalizing taken with
  | nil => cases member
  | cons group rest ih =>
      obtain ⟨text, first⟩ := group
      rw [nameGroups] at member
      split at member
      · rcases List.mem_cons.mp member with here | later
        · obtain ⟨rfl, rfl⟩ := Prod.mk.inj here
          exact ⟨text, List.mem_cons_self, rfl⟩
        · obtain ⟨other, present, named⟩ := ih _ later
          exact ⟨other, List.mem_cons_of_mem _ present, named⟩
      · obtain ⟨other, present, named⟩ := ih _ member
        exact ⟨other, List.mem_cons_of_mem _ present, named⟩

theorem name_groups_distinct (taken : List String) (groups : List (String × List Node)) :
    ((nameGroups taken groups).map Prod.fst).Nodup ∧ ∀ name ∈ (nameGroups taken groups).map Prod.fst, name ∉ taken := by
  induction groups generalizing taken with
  | nil => exact ⟨.nil, nofun⟩
  | cons group rest ih =>
      obtain ⟨text, literals⟩ := group
      rw [nameGroups]
      split
      · rename_i usable
        obtain ⟨distinct, free⟩ := ih (Identifier.constantName text :: taken)
        refine ⟨List.nodup_cons.mpr ⟨fun again => free _ again List.mem_cons_self, distinct⟩, ?_⟩
        intro name member
        rcases List.mem_cons.mp member with rfl | later
        · simpa using (Bool.and_eq_true_iff.mp usable).2
        · exact fun isTaken => free name later (List.mem_cons_of_mem _ isTaken)
      · exact ih taken

theorem mem_group_by_text (all literals : List Node) (text : String) (member : (text, literals) ∈ groupByText all) :
    literals = all.filter (·.trimmed == text) := by
  obtain ⟨other, -, same⟩ := List.mem_map.mp member
  obtain ⟨rfl, rfl⟩ := Prod.mk.inj same
  rfl

theorem method_literal (scope literal : Node) (member : literal ∈ methodLiterals scope) :
    literal.SameTree scope ∧ literal.kind = .literal := by
  obtain ⟨below, shape⟩ := List.mem_filter.mp member
  exact ⟨Node.same_tree_of_descendant scope literal below, eq_of_beq (Bool.and_eq_true_iff.mp shape).1⟩

theorem fresh_literals (scope : Node) (name : String) (literals : List Node)
    (member : (name, literals) ∈ (planConstants scope).fresh) : ∀ literal ∈ literals, literal ∈ methodLiterals scope := by
  intro literal inGroup
  simp only [planConstants] at member
  split at member
  · cases member
  · obtain ⟨text, grouped, -⟩ := mem_name_groups _ _ name literals member
    rw [mem_group_by_text _ literals text grouped] at inGroup
    exact (List.mem_filter.mp (List.mem_filter.mp inGroup).1).1

theorem used_literal (scope : Node) (name : String) (literal : Node) (member : (name, literal) ∈ (planConstants scope).uses) :
    literal ∈ methodLiterals scope := by
  rcases List.mem_append.mp member with known | made
  · obtain ⟨other, present, named⟩ := List.mem_filterMap.mp known
    obtain ⟨constant, -, same⟩ := Option.map_eq_some_iff.mp named
    obtain ⟨-, rfl⟩ := Prod.mk.inj same
    exact present
  · obtain ⟨⟨group, literals⟩, fresh, use⟩ := List.mem_flatMap.mp made
    obtain ⟨other, inGroup, same⟩ := List.mem_map.mp use
    obtain ⟨-, rfl⟩ := Prod.mk.inj same
    exact fresh_literals scope group literals fresh other inGroup

theorem last_constant (scope last : Node) (found : (planConstants scope).last? = some last) : last ∈ scope.constantFields :=
  List.mem_of_getLast? found

theorem same_tree_of_constant_field (scope field : Node) (member : field ∈ scope.constantFields) : field.SameTree scope :=
  Node.same_tree_of_descendant scope field (List.mem_filter.mp member).1

end SmellCheck.Fix
