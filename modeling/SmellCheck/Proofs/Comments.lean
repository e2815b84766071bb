import Mathlib.Data.List.Perm.Basic
import Mathlib.Data.List.Perm.Subperm
import SmellCheck.Proofs.Applying
import SmellCheck.Proofs.Spots

/-!
Comments. Each is a token of one node, so the comments of a tree are those of its places. A session keeps
them all exactly when what it gives has every comment of what it destroys; and parts that are copied out
of a place have all its comments exactly when there is none beside them.
-/

set_option autoImplicit false

namespace SmellCheck

def commentsOf (tokens : List (Kind × String)) : List String := (tokens.filter (·.1 == .comment)).map Prod.snd

namespace Tree

def comments (tree : Tree) : List String := commentsOf tree.tokens

-- Every comment of the one tree is in the other, as often as it is in the first.
def KeepsComments (before after : Tree) : Prop := before.comments.Subperm after.comments

instance (before after : Tree) : Decidable (before.KeepsComments after) := inferInstanceAs (Decidable (List.Subperm _ _))

end Tree

namespace Node

def ownComments (node : Node) : List String := node.tokenTexts .comment

-- No comment at or below the node is outside of the parts.
def CommentsWithin (node : Node) (parts : List Node) : Prop :=
  ∀ holder ∈ node.descendantsOrSelf, holder.ownComments ≠ [] → ∃ part ∈ parts, holder ∈ part.descendantsOrSelf

instance (node : Node) (parts : List Node) : Decidable (node.CommentsWithin parts) :=
  inferInstanceAs (Decidable (∀ _ ∈ _, _ → ∃ _ ∈ _, _ ∈ _))

end Node

theorem comments_of_append (front back : List (Kind × String)) : commentsOf (front ++ back) = commentsOf front ++ commentsOf back := by
  simp [commentsOf]

theorem comments_of_flat_map {α : Type} (items : List α) (tokens : α → List (Kind × String)) :
    commentsOf (items.flatMap tokens) = items.flatMap fun item => commentsOf (tokens item) := by
  simp [commentsOf, List.filter_flatMap, List.map_flatMap]

theorem comments_of_perm (first second : List (Kind × String)) (same : first.Perm second) :
    (commentsOf first).Perm (commentsOf second) := (same.filter _).map _

theorem forest_comments (forest : List Element) : (commentsOf (Forest.tokens forest)).Perm
    (forest.filterMap (Element.tokenText? .comment) ++ (forest.filterMap Element.asNode?).flatMap Tree.comments) := by
  induction forest with
  | nil => exact .nil
  | cons element rest ih =>
      rw [Forest.tokens, comments_of_append]
      cases element with
      | token raw text =>
          have nodes : (Element.token raw text :: rest).filterMap Element.asNode? = rest.filterMap Element.asNode? := rfl
          rw [nodes]
          by_cases isComment : Kind.ofRaw raw = .comment
          · simpa [commentsOf, Element.tokens, Element.tokenText?, isComment] using ih
          · by_cases white : Kind.ofRaw raw = .whitespace <;>
              simpa [commentsOf, Element.tokens, Element.tokenText?, isComment, white] using ih
      | node raw children => exact (ih.append_left _).trans (List.perm_append_comm_assoc _ _ _)

theorem tree_comments (tree : Tree) : tree.comments.Perm (tree.tokenTexts .comment ++ tree.subtrees.flatMap Tree.comments) :=
  forest_comments tree.children

namespace Node

theorem comments_of_places (node : Node) : node.focus.comments.Perm (node.descendantsOrSelf.flatMap ownComments) := by
  induction node using induction_down with
  | step node ih =>
      have below : (node.focus.subtrees.flatMap Tree.comments).Perm (node.descendants.flatMap ownComments) := by
        rw [← children_focus, List.flatMap_map, descendants_eq, List.flatMap_assoc]
        exact List.Perm.flatMap_left _ ih
      exact (tree_comments node.focus).trans (below.append_left _)

end Node

section
variable {α : Type} (own : α → List String) (items : List α)

theorem flat_map_filter (keeps : α → Bool) :
    ((items.filter keeps).flatMap own ++ (items.filter (!keeps ·)).flatMap own).Perm (items.flatMap own) := by
  rw [← List.flatMap_append]
  exact List.Perm.flatMap_right _ (List.filter_append_perm keeps items)

theorem all_kept_iff (keeps : α → Bool) :
    (items.flatMap own).Subperm ((items.filter keeps).flatMap own) ↔ ∀ item ∈ items, own item ≠ [] → keeps item := by
  have split := flat_map_filter own items keeps
  constructor
  · intro kept item member some
    by_contra left
    have shorter := kept.length_le
    have empty : (items.filter (!keeps ·)).flatMap own = [] := by
      have whole := split.length_eq
      rw [List.length_append] at whole
      exact List.length_eq_zero_iff.mp (by omega)
    exact some (List.flatMap_eq_nil_iff.mp empty item (List.mem_filter.mpr ⟨member, by simpa using left⟩))
  · intro none
    have empty : (items.filter (!keeps ·)).flatMap own = [] := by
      refine List.flatMap_eq_nil_iff.mpr fun item member => ?_
      by_contra some
      obtain ⟨isItem, left⟩ := List.mem_filter.mp member
      simp [none item isItem some] at left
    rw [empty, List.append_nil] at split
    exact split.symm.subperm

end

namespace Node

section
variable (node : Node) (parts : List Node) (inside : ∀ part ∈ parts, part ∈ node.descendantsOrSelf)
  (apart : parts.Pairwise fun first second => List.Disjoint first.descendantsOrSelf second.descendantsOrSelf)
include inside apart

theorem places_of_parts : (parts.flatMap descendantsOrSelf).Perm
    (node.descendantsOrSelf.filter fun holder => parts.any fun part => holder ∈ part.descendantsOrSelf) := by
  refine (List.perm_ext_iff_of_nodup ?_ ((places_nodup node).filter _)).mpr fun holder => ?_
  · exact List.nodup_flatMap.mpr ⟨fun part _ => places_nodup part, apart⟩
  · simp only [List.mem_flatMap, List.mem_filter, List.any_eq_true, decide_eq_true_iff]
    refine ⟨fun ⟨part, isPart, within⟩ => ⟨below_trans node part holder (inside part isPart) within, part, isPart, within⟩, And.right⟩

theorem comments_within_iff :
    node.focus.comments.Subperm (parts.flatMap (·.focus.comments)) ↔ node.CommentsWithin parts := by
  have copied : (parts.flatMap (·.focus.comments)).Perm
      ((node.descendantsOrSelf.filter fun holder => parts.any fun part => holder ∈ part.descendantsOrSelf).flatMap ownComments) := by
    refine (List.Perm.flatMap_left _ fun part _ => comments_of_places part).trans ?_
    rw [← List.flatMap_assoc]
    exact List.Perm.flatMap_right _ (places_of_parts node parts inside apart)
  rw [(comments_of_places node).subperm_right, copied.subperm_left, all_kept_iff]
  simp [CommentsWithin]

end

end Node

namespace Request

def goneComments (request : Request) : List String := commentsOf request.destroyed

def newComments (request : Request) : List String := commentsOf (Forest.tokens request.given)

end Request

theorem Session.keeps_comments_iff (home : Node) (history : List Request) :
    home.root.KeepsComments ((start home).run history).apply ↔
      (((start home).accepted history).flatMap Request.goneComments).Subperm
        (((start home).accepted history).flatMap Request.newComments) := by
  have conserved : (((start home).run history).apply.comments ++ ((start home).accepted history).flatMap Request.goneComments).Perm
      (home.root.comments ++ ((start home).accepted history).flatMap Request.newComments) := by
    have tokens := comments_of_perm _ _ (apply_substitutes home history).2.1
    rw [comments_of_append, comments_of_append, comments_of_flat_map, comments_of_flat_map] at tokens
    exact tokens
  rw [List.perm_iff_count] at conserved
  rw [Tree.KeepsComments, List.subperm_iff_count, List.subperm_iff_count]
  refine forall_congr' fun comment => ?_
  have balance := conserved comment
  rw [List.count_append, List.count_append] at balance
  omega

end SmellCheck
