import Mathlib.Data.List.TakeWhile
import SmellCheck.Text.Blank

/-!
Trimming items of a class from both ends of a list. What is left begins and ends with an item that is none of
the class, what goes is of the class alone, and nothing in between is touched.
-/

set_option autoImplicit false

namespace SmellCheck.Text

theorem trim_where_split {α : Type} (drop : α → Bool) (items : List α) :
    items.takeWhile drop ++ trimWhere drop items ++ ((items.dropWhile drop).reverse.takeWhile drop).reverse = items := by
  rw [trimWhere, List.append_assoc, ← List.reverse_append, List.takeWhile_append_dropWhile, List.reverse_reverse,
    List.takeWhile_append_dropWhile]

theorem trim_where_first {α : Type} (drop : α → Bool) (items : List α) (first : α)
    (isFirst : first ∈ (trimWhere drop items).head?) : drop first = false := by
  have kept : trimWhere drop items <+: items.dropWhile drop := by
    refine ⟨((items.dropWhile drop).reverse.takeWhile drop).reverse, ?_⟩
    rw [trimWhere, ← List.reverse_append, List.takeWhile_append_dropWhile, List.reverse_reverse]
  obtain ⟨rest, same⟩ := List.head?_eq_some_iff.mp isFirst
  obtain ⟨more, whole⟩ := kept
  have head := List.head?_dropWhile_not drop items
  rw [← whole, same] at head
  simpa using head

theorem trim_where_last {α : Type} (drop : α → Bool) (items : List α) (last : α)
    (isLast : last ∈ (trimWhere drop items).reverse.head?) : drop last = false := by
  rw [trimWhere, List.reverse_reverse, Option.mem_def] at isLast
  have first := List.head?_dropWhile_not drop (items.dropWhile drop).reverse
  rwa [isLast] at first

theorem trim_blank_ends {α : Type} (drop : α → Bool) (front items back : List α) (blankFront : front.all drop)
    (blankBack : back.all drop) : trimWhere drop (front ++ items ++ back) = trimWhere drop items := by
  have noBack : back.dropWhile drop = [] := List.dropWhile_eq_nil_iff.mpr (List.all_eq_true.mp blankBack)
  have noBack' : ∀ others, (back.reverse ++ others).dropWhile drop = others.dropWhile drop := fun others =>
    List.dropWhile_append_of_pos fun item member => List.all_eq_true.mp blankBack item (List.mem_reverse.mp member)
  rw [trimWhere, trimWhere, List.append_assoc, List.dropWhile_append_of_pos (List.all_eq_true.mp blankFront), List.dropWhile_append]
  by_cases nothing : items.dropWhile drop = []
  · rw [nothing, List.isEmpty_nil, if_pos rfl, noBack]
  · rw [if_neg (by simpa using nothing), List.reverse_append, noBack']

theorem trim_keeps {α : Type} (drop : α → Bool) (items : List α) :
    (trimWhere drop items).filter (!drop ·) = items.filter (!drop ·) := by
  have blank : ∀ others : List α, (others.takeWhile drop).filter (!drop ·) = [] := by
    intro others
    refine List.filter_eq_nil_iff.mpr fun item member => ?_
    simpa using List.mem_takeWhile_imp member
  have parts := congrArg (List.filter (!drop ·)) (trim_where_split drop items)
  rwa [List.filter_append, List.filter_append, blank, List.filter_reverse, blank, List.nil_append, List.reverse_nil,
    List.append_nil] at parts

theorem trim_surrounded_iff {α : Type} (drop : α → Bool) (front items back : List α) :
    trimWhere drop (front ++ items ++ back) = trimWhere drop items ↔ front.all drop ∧ back.all drop := by
  have blank : ∀ others : List α, (others.filter (!drop ·)).length = 0 ↔ others.all drop := by
    intro others
    simp [List.filter_eq_nil_iff]
  constructor
  · intro same
    have lengths := congrArg List.length (congrArg (List.filter (!drop ·)) same)
    simp only [trim_keeps, List.filter_append, List.length_append] at lengths
    exact ⟨(blank front).mp (by omega), (blank back).mp (by omega)⟩
  · intro ⟨blankFront, blankBack⟩
    exact trim_blank_ends drop front items back blankFront blankBack

theorem trim_nothing {α : Type} (drop : α → Bool) (items : List α) (solid : ∀ item ∈ items, drop item = false) :
    trimWhere drop items = items := by
  have kept : items.filter (!drop ·) = items := List.filter_eq_self.mpr fun item member => by rw [solid item member]; rfl
  have within : (items.filter (!drop ·)).Sublist (trimWhere drop items) := trim_keeps drop items ▸ List.filter_sublist
  rw [kept] at within
  exact (trim_where_sublist drop items).eq_of_length_le within.length_le

end SmellCheck.Text
