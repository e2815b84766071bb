import Mathlib.Data.List.TakeDrop
import SmellCheck.Proofs.RemovalMarks
import SmellCheck.Proofs.TokenPlaces

/-!
The ends of a block. What stays of a block that a guard gives way to is told by the indices of its
elements: the first and the last one go, and with them the white space that is next to these.
-/

set_option autoImplicit false

namespace SmellCheck

-- Nothing but items to drop is between the first item, or the last one, and the item with the index,
-- itself included; so the first and the last item are at the ends too.
def atEnds {α : Type} (drop : α → Bool) (items : List α) (index : Nat) : Bool :=
  ((items.take (index + 1)).drop 1).all drop || (items.drop index).dropLast.all drop

theorem at_ends_drop {α : Type} (drop : α → Bool) (items : List α) (index : Nat) (item : α) (found : items[index]? = some item)
    (ends : atEnds drop items index) : index = 0 ∨ index + 1 = items.length ∨ drop item := by
  obtain ⟨bound, -⟩ := List.getElem?_eq_some_iff.mp found
  by_cases first : index = 0
  · exact .inl first
  by_cases last : index + 1 = items.length
  · exact .inr (.inl last)
  refine .inr (.inr ?_)
  have inFront : item ∈ (items.take (index + 1)).drop 1 := by
    refine List.mem_iff_getElem?.mpr ⟨index - 1, ?_⟩
    rw [List.getElem?_drop, List.getElem?_take_of_lt (by omega), show 1 + (index - 1) = index by omega, found]
  have inBack : item ∈ (items.drop index).dropLast := by
    rw [List.dropLast_drop_eq_drop_dropLast]
    refine List.mem_iff_getElem?.mpr ⟨0, ?_⟩
    rw [List.getElem?_drop, Nat.add_zero, List.getElem?_dropLast, if_pos (by omega), found]
  rcases Bool.or_eq_true_iff.mp ends with front | back
  · exact List.all_eq_true.mp front _ inFront
  · exact List.all_eq_true.mp back _ inBack

structure Ended {α : Type} (drop : α → Bool) (front middle back : List α) : Prop where
  dropsFront : ∀ item ∈ front.drop 1, drop item
  dropsBack : ∀ item ∈ back.dropLast, drop item
  keepsFirst : ∀ item ∈ middle.head?, drop item = false
  keepsLast : ∀ item ∈ middle.getLast?, drop item = false
  around : middle ≠ [] → front ≠ [] ∧ back ≠ []

section
variable {α : Type} {drop : α → Bool} {front middle back : List α} (ended : Ended drop front middle back) (index : Nat)
include ended

theorem at_ends_front (bound : index < front.length) : atEnds drop (front ++ middle ++ back) index := by
  refine Bool.or_eq_true_iff.mpr (.inl (List.all_eq_true.mpr fun item member => ended.dropsFront item ?_))
  rw [List.append_assoc, List.take_append_of_le_length (by omega)] at member
  exact ((List.take_sublist (index + 1) front).drop 1).subset member

theorem at_ends_back (bound : front.length + middle.length ≤ index) : atEnds drop (front ++ middle ++ back) index := by
  refine Bool.or_eq_true_iff.mpr (.inr (List.all_eq_true.mpr fun item member => ended.dropsBack item ?_))
  rw [List.drop_append, List.drop_of_length_le (by simpa using bound), List.nil_append,
    List.dropLast_drop_eq_drop_dropLast] at member
  exact List.mem_of_mem_drop member

theorem at_ends_middle (low : front.length ≤ index) (high : index < front.length + middle.length) :
    atEnds drop (front ++ middle ++ back) index = false := by
  have some : middle ≠ [] := by
    rintro rfl
    exact absurd high (by simpa using low)
  obtain ⟨frontSome, backSome⟩ := ended.around some
  have frontLength := List.length_pos_iff.mpr frontSome
  have backLength := List.length_pos_iff.mpr backSome
  have middleLength := List.length_pos_iff.mpr some
  refine Bool.or_eq_false_iff.mpr ⟨?_, ?_⟩
  · -- The first item that stays is between the first one and the index.
    refine List.all_eq_false.mpr ⟨middle.head some, ?_, by simp [ended.keepsFirst _ (List.head?_eq_some_head some)]⟩
    refine List.mem_iff_getElem?.mpr ⟨front.length - 1, ?_⟩
    rw [List.getElem?_drop, List.getElem?_take_of_lt (by omega), show 1 + (front.length - 1) = front.length by omega,
      List.append_assoc, List.getElem?_append_right (Nat.le_refl _), Nat.sub_self, List.getElem?_append_left middleLength,
      ← List.head?_eq_getElem?, List.head?_eq_some_head some]
  · -- The last one that stays is between the index and the last one.
    refine List.all_eq_false.mpr ⟨middle.getLast some, ?_, by simp [ended.keepsLast _ (List.getLast?_eq_some_getLast some)]⟩
    rw [List.dropLast_drop_eq_drop_dropLast]
    refine List.mem_iff_getElem?.mpr ⟨front.length + middle.length - 1 - index, ?_⟩
    rw [List.getElem?_drop, show index + (front.length + middle.length - 1 - index) = front.length + (middle.length - 1) by omega,
      List.getElem?_dropLast, if_pos (by simp; omega), List.append_assoc, List.getElem?_append_right (by omega),
      Nat.add_sub_cancel_left, List.getElem?_append_left (by omega), ← List.getLast?_eq_getElem?, List.getLast?_eq_some_getLast some]

end

theorem trimmed_ended {α : Type} (drop : α → Bool) (items : List α) :
    let inside := (items.drop 1).dropLast
    Ended drop (items.take 1 ++ inside.takeWhile drop) (Text.trimWhere drop inside)
      (((inside.dropWhile drop).reverse.takeWhile drop).reverse ++ (items.drop 1).getLast?.toList) := by
  intro inside
  have firstKept := Text.trim_where_first drop inside
  have lastKept := Text.trim_where_last drop inside
  rw [List.head?_reverse] at lastKept
  cases items with
  | nil => exact ⟨nofun, nofun, firstKept, lastKept, fun some => absurd rfl some⟩
  | cons first rest =>
      refine ⟨?_, ?_, firstKept, lastKept, ?_⟩
      · exact fun item member => List.all_eq_true.mp List.all_takeWhile item member
      · cases rest using List.reverseRecOn with
        | nil => exact nofun
        | append_singleton middle last =>
            intro item member
            simp only [List.drop_succ_cons, List.drop_zero, List.getLast?_append, List.getLast?_singleton, Option.some_or,
              Option.toList_some, List.dropLast_concat, List.mem_reverse] at member
            exact List.all_eq_true.mp List.all_takeWhile item member
      · intro some
        refine ⟨by simp, ?_⟩
        cases rest with
        | nil => exact absurd rfl some
        | cons second others => simp

namespace Fix

-- The elements of a block that go with its braces, and the braces themselves, by their indices.
def edges (block : Tree) (index : Nat) : Bool := atEnds isBlank block.children index

def braces (block : Tree) (index : Nat) : Bool := index == 0 || index + 1 == block.children.length

theorem braces_are_edges (block : Tree) (index : Nat) (isBrace : braces block index) : edges block index := by
  rcases Bool.or_eq_true_iff.mp isBrace with first | last
  · rw [eq_of_beq first]
    exact Bool.or_eq_true_iff.mpr (.inl (by simp))
  · refine Bool.or_eq_true_iff.mpr (.inr ?_)
    rw [List.dropLast_drop_eq_drop_dropLast, List.drop_of_length_le (by simp [← eq_of_beq last])]
    rfl

theorem edge_blank (block : Tree) (index : Nat) (element : Element) (found : block.children[index]? = some element)
    (isEdge : edges block index) : braces block index ∨ isBlank element := by
  rcases at_ends_drop isBlank block.children index element found isEdge with first | last | blank
  · exact .inl (by simp [braces, first])
  · exact .inl (by simp [braces, last])
  · exact .inr blank

section
variable (block : Tree)

theorem block_ended : ∃ front back, block.children = front ++ blockContents block ++ back ∧ Ended isBlank front (blockContents block) back :=
  ⟨_, _, (trimmed_split isBlank block.children).symm, trimmed_ended isBlank block.children⟩

theorem block_contents_kept (path : List Nat) :
    Forest.tokens (blockContents block) = kept (fun place => !(place.drop path.length).head?.any (edges block)) (block.placed path) := by
  obtain ⟨front, back, split, ended⟩ := block_ended block
  have step : ∀ (index : Nat) (forest : List Element), ∀ token ∈ Forest.placed path index forest, ∃ step,
      index ≤ step ∧ step < index + forest.length ∧ (token.1.drop path.length).head? = some step := by
    intro index forest token member
    obtain ⟨step, rest, raw, text, place, low, found, -⟩ := forest_placed_at path index token forest member
    obtain ⟨element, access, -⟩ := Option.bind_eq_some_iff.mp found
    have high := (List.getElem?_eq_some_iff.mp access).choose
    exact ⟨step, low, by omega, by rw [place, List.drop_left]; rfl⟩
  have ends : ∀ index, edges block index = atEnds isBlank (front ++ blockContents block ++ back) index := by
    intro index
    rw [edges, split]
  rw [Tree.placed, split, forest_placed_append, forest_placed_append, kept_append, kept_append, kept_none _ (Forest.placed path 0 front),
    kept_none _ (Forest.placed path _ back), kept_all, forest_placed_tokens, List.nil_append, List.append_nil]
  · intro token member
    obtain ⟨index, low, high, isStep⟩ := step _ _ token member
    rw [isStep, Option.any_some, ends, at_ends_middle ended index (by omega) (by omega)]
    rfl
  · intro token member
    obtain ⟨index, low, high, isStep⟩ := step _ _ token member
    rw [isStep, Option.any_some, ends, at_ends_back ended index (by simpa using low)]
    rfl
  · intro token member
    obtain ⟨index, low, high, isStep⟩ := step _ _ token member
    rw [isStep, Option.any_some, ends, at_ends_front ended index (by omega)]
    rfl

theorem block_nodes_kept_iff : block.subtrees.Sublist ((blockContents block).filterMap Element.asNode?) ↔
    ∀ index (tree : Tree), block.children[index]? = some tree.toElement → edges block index = false := by
  obtain ⟨front, back, split, ended⟩ := block_ended block
  have nodes : block.subtrees = front.filterMap Element.asNode? ++ (blockContents block).filterMap Element.asNode? ++
      back.filterMap Element.asNode? := by
    rw [Tree.subtrees, split, List.filterMap_append, List.filterMap_append]
  have ends : ∀ index, edges block index = atEnds isBlank (front ++ blockContents block ++ back) index := by
    intro index
    rw [edges, split]
  constructor
  · intro all index tree found
    have lengths := all.length_le
    rw [nodes] at lengths
    simp only [List.length_append] at lengths
    have noFront : front.filterMap Element.asNode? = [] := List.length_eq_zero_iff.mp (by omega)
    have noBack : back.filterMap Element.asNode? = [] := List.length_eq_zero_iff.mp (by omega)
    have absent : ∀ forest : List Element, forest.filterMap Element.asNode? = [] → tree.toElement ∉ forest := by
      intro forest none member
      cases List.filterMap_eq_nil_iff.mp none _ member
    rw [split, List.append_assoc] at found
    rw [ends]
    have low : front.length ≤ index := by
      by_contra inFront
      rw [List.getElem?_append_left (by omega)] at found
      exact absent front noFront (List.mem_of_getElem? found)
    rw [List.getElem?_append_right low] at found
    have high : index < front.length + (blockContents block).length := by
      by_contra inBack
      rw [List.getElem?_append_right (by omega)] at found
      exact absent back noBack (List.mem_of_getElem? found)
    exact at_ends_middle ended index low high
  · intro inside
    have none : ∀ part : List Element, (∀ (offset : Nat) (element : Element), part[offset]? = some element → ∃ index : Nat,
        block.children[index]? = some element ∧ edges block index) → part.filterMap Element.asNode? = [] := by
      intro part atEnd
      refine List.filterMap_eq_nil_iff.mpr fun element member => ?_
      cases element with
      | token raw text => rfl
      | node raw children =>
          obtain ⟨offset, found⟩ := List.mem_iff_getElem?.mp member
          obtain ⟨index, here, ends⟩ := atEnd offset _ found
          rw [inside index ⟨raw, children⟩ here] at ends
          cases ends
    rw [nodes, none front, none back, List.nil_append, List.append_nil]
    · intro offset element found
      refine ⟨front.length + (blockContents block).length + offset, ?_, ?_⟩
      · rw [split, List.getElem?_append_right (by simp)]
        simpa using found
      · rw [ends]
        exact at_ends_back ended _ (by omega)
    · intro offset element found
      have bound := (List.getElem?_eq_some_iff.mp found).choose
      refine ⟨offset, ?_, ?_⟩
      · rw [split, List.append_assoc, List.getElem?_append_left bound]
        exact found
      · rw [ends]
        exact at_ends_front ended _ bound

end

end Fix

end SmellCheck
