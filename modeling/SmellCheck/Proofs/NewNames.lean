import Mathlib.Data.List.Nodup
import SmellCheck.Proofs.NothingToName

/-!
The names that new constants get. Each is made from a string literal of a method that reads like no
constant, the first one with its text, unless the name is no valid one or is taken by a constant or by a
literal before it; and they come in the order of these literals.
-/

set_option autoImplicit false

namespace SmellCheck.Fix

structure Unvalued (scope literal : Node) : Prop where
  inMethod : literal ∈ methodLiterals scope
  isString : isStringLiteral literal
  unknown : constantFor? (namedValues scope.constantFields) literal = none

-- New names, each with the first of the literals that it is for.
structure NewNames (scope : Node) (made : List (String × Node)) : Prop where
  ordered : made.Pairwise fun first second => first.2.path < second.2.path
  exact : ∀ name literal, (name, literal) ∈ made ↔
    scope.constantFields ≠ [] ∧ Unvalued scope literal ∧
      (∀ other, Unvalued scope other → other.trimmed = literal.trimmed → ¬ other.path < literal.path) ∧
      name = Identifier.constantName literal.trimmed ∧ Identifier.isValid name ∧
      name ∉ (namedValues scope.constantFields).map Prod.fst ∧
      ∀ earlier ∈ made, earlier.2.path < literal.path → earlier.1 ≠ name

theorem group_cons (first : Node) (rest : List Node) : groupByText (first :: rest) =
    (first.trimmed, first :: rest.filter (·.trimmed == first.trimmed)) ::
      groupByText (rest.filter fun literal => !literal.trimmed == first.trimmed) := by
  rw [groupByText, List.map_cons, List.eraseDups_cons, List.filter_map, List.map_cons, List.filter_cons_of_pos (by simp),
    groupByText, Function.comp_def]
  refine congrArg (List.cons _) (List.map_congr_left fun text member => ?_)
  obtain ⟨literal, kept, rfl⟩ := List.mem_map.mp (List.mem_eraseDups.mp member)
  have other : literal.trimmed ≠ first.trimmed := by simpa using (List.mem_filter.mp kept).2
  rw [List.filter_cons_of_neg (by simpa using other.symm), List.filter_filter]
  refine congrArg (Prod.mk _) (List.filter_congr fun candidate _ => ?_)
  by_cases same : candidate.trimmed = literal.trimmed
  · simp [same, other]
  · simp [same]

theorem groups_in_order (Before : Node → Node → Prop) : (literals : List Node) → literals.Pairwise Before →
    (groupByText literals).Pairwise fun first second => ∀ a ∈ first.2.head?, ∀ b ∈ second.2.head?, Before a b
  | [], _ => .nil
  | first :: rest, ordered => by
      obtain ⟨earliest, later⟩ := List.pairwise_cons.mp ordered
      rw [group_cons]
      refine .cons ?_ (groups_in_order Before _ (later.filter _))
      rintro ⟨text, literals⟩ grouped a isFirst b isHead
      obtain rfl : first = a := Option.some.inj isFirst
      rw [mem_group_by_text _ literals text grouped] at isHead
      exact earliest b (List.mem_filter.mp (List.mem_filter.mp (List.mem_of_head? isHead)).1).1
  termination_by literals => literals.length
  decreasing_by exact Nat.lt_succ_of_le (List.length_filter_le _ _)

theorem name_groups_append (taken : List String) (front back : List (String × List Node)) : nameGroups taken (front ++ back) =
    nameGroups taken front ++ nameGroups (((nameGroups taken front).map Prod.fst).reverse ++ taken) back := by
  induction front generalizing taken with
  | nil => rfl
  | cons group rest ih =>
      obtain ⟨text, literals⟩ := group
      rw [List.cons_append, nameGroups, nameGroups]
      split
      · simp [ih]
      · exact ih taken

theorem name_groups_sublist (taken : List String) (groups : List (String × List Node)) :
    ((nameGroups taken groups).map Prod.snd).Sublist (groups.map Prod.snd) := by
  induction groups generalizing taken with
  | nil => exact .slnil
  | cons group rest ih =>
      obtain ⟨text, literals⟩ := group
      rw [nameGroups]
      split
      · exact (ih _).cons_cons literals
      · exact (ih _).cons literals

theorem name_groups_valid (taken : List String) (groups : List (String × List Node)) (name : String) (literals : List Node)
    (member : (name, literals) ∈ nameGroups taken groups) : Identifier.isValid name := by
  induction groups generalizing taken with
  | nil => cases member
  | cons group rest ih =>
      rw [nameGroups] at member
      split at member
      · rename_i usable
        rcases List.mem_cons.mp member with here | later
        · obtain ⟨rfl, -⟩ := Prod.mk.inj here
          exact (Bool.and_eq_true_iff.mp usable).1
        · exact ih _ later
      · exact ih _ member

theorem name_groups_free (taken : List String) (front back : List (String × List Node)) (text : String) (literals : List Node)
    (valid : Identifier.isValid (Identifier.constantName text)) (free : Identifier.constantName text ∉ taken)
    (unused : Identifier.constantName text ∉ (nameGroups taken front).map Prod.fst) :
    (Identifier.constantName text, literals) ∈ nameGroups taken (front ++ (text, literals) :: back) := by
  have usable : Identifier.constantName text ∉ ((nameGroups taken front).map Prod.fst).reverse ++ taken := by
    simp only [List.mem_append, List.mem_reverse, not_or]
    exact ⟨unused, free⟩
  rw [name_groups_append, nameGroups, if_pos]
  · exact List.mem_append_right _ List.mem_cons_self
  · rw [valid, Bool.true_and, Bool.not_eq_true', Bool.eq_false_iff]
    exact fun contained => usable (List.contains_iff_mem.mp contained)

section
variable (scope : Node)

def made : List (String × Node) :=
  (planConstants scope).fresh.filterMap fun (name, literals) => literals.head?.map (name, ·)

theorem mem_made (name : String) (literal : Node) :
    (name, literal) ∈ made scope ↔ ∃ literals, (name, literals) ∈ (planConstants scope).fresh ∧ literals.head? = some literal := by
  constructor
  · intro member
    obtain ⟨⟨own, literals⟩, fresh, first⟩ := List.mem_filterMap.mp member
    obtain ⟨head, isHead, same⟩ := Option.map_eq_some_iff.mp first
    obtain ⟨rfl, rfl⟩ := Prod.mk.inj same
    exact ⟨literals, fresh, isHead⟩
  · rintro ⟨literals, fresh, isHead⟩
    exact List.mem_filterMap.mpr ⟨(name, literals), fresh, by simp [isHead]⟩

def unvalued : List Node := (methodLiterals scope).filter fun literal =>
  (constantFor? (namedValues scope.constantFields) literal).isNone && isStringLiteral literal

theorem mem_unvalued (literal : Node) : literal ∈ unvalued scope ↔ Unvalued scope literal := by
  rw [unvalued, List.mem_filter, Bool.and_eq_true, Option.isNone_iff_eq_none]
  exact ⟨fun ⟨inMethod, unknown, isString⟩ => ⟨inMethod, isString, unknown⟩,
    fun ⟨inMethod, isString, unknown⟩ => ⟨inMethod, unknown, isString⟩⟩

theorem fresh_of_unvalued (some : scope.constantFields ≠ []) : (planConstants scope).fresh =
    nameGroups ((namedValues scope.constantFields).map Prod.fst) (groupByText (unvalued scope)) :=
  fresh_eq scope some

theorem unvalued_in_order : (unvalued scope).Pairwise fun first second => first.path < second.path :=
  ((Node.descendants_in_order scope).filter _).filter _

theorem head_of_group (text : String) (literals : List Node) (grouped : (text, literals) ∈ groupByText (unvalued scope))
    (first : Node) (isHead : literals.head? = some first) : Unvalued scope first ∧ first.trimmed = text ∧
      ∀ other, Unvalued scope other → other.trimmed = text → other = first ∨ first.path < other.path := by
  have group := mem_group_by_text _ literals text grouped
  obtain ⟨rest, split⟩ : ∃ rest, literals = first :: rest := List.head?_eq_some_iff.mp isHead
  have ordered := (unvalued_in_order scope).filter fun literal => literal.trimmed == text
  rw [← group, split] at ordered
  have own : first ∈ literals := List.mem_of_head? isHead
  rw [group, List.mem_filter, mem_unvalued, beq_iff_eq] at own
  refine ⟨own.1, own.2, fun other isOther same => ?_⟩
  have inGroup : other ∈ literals := by
    rw [group, List.mem_filter, mem_unvalued, beq_iff_eq]
    exact ⟨isOther, same⟩
  rw [split] at inGroup
  exact (List.mem_cons.mp inGroup).imp_right ((List.pairwise_cons.mp ordered).1 other)

theorem made_ordered : (made scope).Pairwise fun first second => first.2.path < second.2.path := by
  by_cases none : scope.constantFields = []
  · simp [made, planConstants, none]
  · have groups : ((groupByText (unvalued scope)).map Prod.snd).Pairwise fun first second =>
        ∀ a ∈ first.head?, ∀ b ∈ second.head?, a.path < b.path :=
      List.pairwise_map.mpr (groups_in_order _ _ (unvalued_in_order scope))
    rw [made, fresh_of_unvalued scope none]
    refine (List.pairwise_map.mp (groups.sublist (name_groups_sublist _ _))).filterMap _ ?_
    rintro ⟨name, literals⟩ ⟨name', literals'⟩ before ⟨_, first⟩ isFirst ⟨_, first'⟩ isFirst'
    obtain ⟨head, isHead, same⟩ := Option.map_eq_some_iff.mp isFirst
    obtain ⟨head', isHead', same'⟩ := Option.map_eq_some_iff.mp isFirst'
    obtain ⟨-, rfl⟩ := Prod.mk.inj same
    obtain ⟨-, rfl⟩ := Prod.mk.inj same'
    exact before head isHead head' isHead'

theorem made_once (name : String) (first second : Node) (isFirst : (name, first) ∈ made scope)
    (isSecond : (name, second) ∈ made scope) : first = second := by
  obtain ⟨literals, fresh, isHead⟩ := (mem_made scope name first).mp isFirst
  obtain ⟨literals', fresh', isHead'⟩ := (mem_made scope name second).mp isSecond
  obtain ⟨-, rfl⟩ := Prod.mk.inj (List.inj_on_of_nodup_map (fresh_distinct scope).1 fresh fresh' rfl)
  exact Option.some.inj (isHead.symm.trans isHead')

theorem made_of_unvalued (some : scope.constantFields ≠ []) (literal : Node) (isUnvalued : Unvalued scope literal)
    (earliest : ∀ other, Unvalued scope other → other.trimmed = literal.trimmed → ¬ other.path < literal.path)
    (valid : Identifier.isValid (Identifier.constantName literal.trimmed))
    (free : Identifier.constantName literal.trimmed ∉ (namedValues scope.constantFields).map Prod.fst)
    (unused : ∀ earlier ∈ made scope, earlier.2.path < literal.path → earlier.1 ≠ Identifier.constantName literal.trimmed) :
    (Identifier.constantName literal.trimmed, literal) ∈ made scope := by
  obtain ⟨literals, grouped, inGroup⟩ := group_of_literal _ literal ((mem_unvalued scope literal).mpr isUnvalued)
  obtain ⟨first, isFirst⟩ := Option.isSome_iff_exists.mp (List.isSome_head?.mpr (List.ne_nil_of_mem inGroup))
  obtain ⟨isOther, same, before⟩ := head_of_group scope _ literals grouped first isFirst
  obtain rfl : literal = first := (before literal isUnvalued rfl).resolve_right (earliest first isOther same)
  obtain ⟨front, back, split⟩ := List.append_of_mem grouped
  have ordered := groups_in_order _ _ (unvalued_in_order scope)
  rw [split] at ordered
  refine (mem_made scope _ literal).mpr ⟨literals, ?_, isFirst⟩
  rw [fresh_of_unvalued scope some, split]
  refine name_groups_free _ front back literal.trimmed literals valid free fun taken => ?_
  -- A group that took the name before has its first literal before this one.
  obtain ⟨⟨name, others⟩, inFront, rfl⟩ := List.mem_map.mp taken
  have fresh : (Identifier.constantName literal.trimmed, others) ∈ (planConstants scope).fresh := by
    rw [fresh_of_unvalued scope some, split, name_groups_append]
    exact List.mem_append_left _ inFront
  obtain ⟨other, isOther, -⟩ := fresh_group scope _ others fresh
  obtain ⟨earlier, isEarlier⟩ := Option.isSome_iff_exists.mp (List.isSome_head?.mpr (List.ne_nil_of_mem isOther))
  obtain ⟨text, before, -⟩ := mem_name_groups _ _ _ others inFront
  have less := (List.pairwise_append.mp ordered).2.2 _ before _ List.mem_cons_self earlier isEarlier literal isFirst
  exact unused _ ((mem_made scope _ earlier).mpr ⟨others, fresh, isEarlier⟩) less rfl

theorem made_new_names : NewNames scope (made scope) := by
  refine ⟨made_ordered scope, fun name literal => ⟨fun member => ?_, ?_⟩⟩
  · obtain ⟨literals, fresh, isHead⟩ := (mem_made scope name literal).mp member
    have some : scope.constantFields ≠ [] := by
      intro none
      simp [planConstants, none] at fresh
    have distinct := (fresh_distinct scope).2 name (List.mem_map_of_mem fresh)
    rw [fresh_of_unvalued scope some] at fresh
    obtain ⟨text, grouped, rfl⟩ := mem_name_groups _ _ name literals fresh
    obtain ⟨isUnvalued, rfl, before⟩ := head_of_group scope text literals grouped literal isHead
    refine ⟨some, isUnvalued, ?_, rfl, name_groups_valid _ _ _ _ fresh, distinct, ?_⟩
    · intro other isOther same less
      rcases before other isOther same with rfl | more
      · exact List.lt_irrefl _ less
      · exact List.lt_asymm less more
    · rintro ⟨name, earlier⟩ inMade less rfl
      rw [made_once scope _ _ _ inMade member] at less
      exact List.lt_irrefl _ less
  · rintro ⟨some, isUnvalued, earliest, rfl, valid, free, unused⟩
    exact made_of_unvalued scope some literal isUnvalued earliest valid free unused

end

end SmellCheck.Fix
