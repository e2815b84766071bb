import Mathlib.Data.List.Basic
import SmellCheck.Proofs.Spared

/-!
Tokens with their places. A law about the tokens of a document after its repair says of each token,
by its path in the document before, whether it stays. Where every request destroys its target and gives
the tokens of it that stay, the tokens after the substitution are those that stay, in their order.
-/

set_option autoImplicit false

namespace SmellCheck

abbrev PlacedToken := List Nat × Kind × String

mutual
def Element.placed (path : List Nat) : Element → List PlacedToken
  | .token raw text => if Kind.ofRaw raw = .whitespace then [] else [(path, Kind.ofRaw raw, text)]
  | .node _ children => Forest.placed path 0 children

def Forest.placed (path : List Nat) (index : Nat) : List Element → List PlacedToken
  | [] => []
  | element :: rest => element.placed (path ++ [index]) ++ Forest.placed path (index + 1) rest
end

def Tree.placed (path : List Nat) (tree : Tree) : List PlacedToken := Forest.placed path 0 tree.children

def kept (stays : List Nat → Bool) (placed : List PlacedToken) : List (Kind × String) :=
  (placed.filter fun token => stays token.1).map Prod.snd

theorem kept_append (stays : List Nat → Bool) (front back : List PlacedToken) :
    kept stays (front ++ back) = kept stays front ++ kept stays back := by
  rw [kept, List.filter_append, List.map_append]
  rfl

theorem kept_congr (stays stays' : List Nat → Bool) (placed : List PlacedToken)
    (agree : ∀ token ∈ placed, stays token.1 = stays' token.1) : kept stays placed = kept stays' placed :=
  congrArg (List.map Prod.snd) (List.filter_congr agree)

theorem kept_all (stays : List Nat → Bool) (placed : List PlacedToken) (all : ∀ token ∈ placed, stays token.1 = true) :
    kept stays placed = placed.map Prod.snd :=
  congrArg (List.map Prod.snd) (List.filter_eq_self.mpr all)

theorem kept_none (stays : List Nat → Bool) (placed : List PlacedToken) (none : ∀ token ∈ placed, stays token.1 = false) :
    kept stays placed = [] := by
  rw [kept, List.filter_eq_nil_iff.mpr fun token member => by simp [none token member]]
  rfl

theorem kept_flat_map {α : Type} (stays : List Nat → Bool) (items : List α) (placed : α → List PlacedToken) :
    kept stays (items.flatMap placed) = items.flatMap fun item => kept stays (placed item) := by
  induction items with
  | nil => rfl
  | cons item rest ih => rw [List.flatMap_cons, kept_append, ih, List.flatMap_cons]

theorem forest_placed_eq (path : List Nat) (index : Nat) (forest : List Element) :
    Forest.placed path index forest = (forest.zipIdx index).flatMap fun (element, step) => element.placed (path ++ [step]) := by
  induction forest generalizing index with
  | nil => rfl
  | cons element rest ih => rw [Forest.placed, ih, List.zipIdx_cons, List.flatMap_cons]

theorem forest_placed_append (path : List Nat) (index : Nat) (front back : List Element) :
    Forest.placed path index (front ++ back) =
      Forest.placed path index front ++ Forest.placed path (index + front.length) back := by
  rw [forest_placed_eq, forest_placed_eq, forest_placed_eq, List.zipIdx_append, List.flatMap_append]

theorem forest_tokens_eq (forest : List Element) : Forest.tokens forest = forest.flatMap Element.tokens := by
  induction forest with
  | nil => rfl
  | cons element rest ih => rw [Forest.tokens, ih, List.flatMap_cons]

mutual
theorem element_placed_tokens (path : List Nat) : (element : Element) → (element.placed path).map Prod.snd = element.tokens
  | .token raw text => by
      rw [Element.placed, Element.tokens]
      split <;> rfl
  | .node raw children => forest_placed_tokens path 0 children

theorem forest_placed_tokens (path : List Nat) (index : Nat) :
    (forest : List Element) → (Forest.placed path index forest).map Prod.snd = Forest.tokens forest
  | [] => rfl
  | element :: rest => by
      rw [Forest.placed, List.map_append, element_placed_tokens (path ++ [index]) element, forest_placed_tokens path (index + 1) rest,
        Forest.tokens]
end

mutual
theorem element_placed_at (path : List Nat) (token : PlacedToken) : (element : Element) → token ∈ element.placed path →
    ∃ rest raw text, token.1 = path ++ rest ∧ element.at? rest = some (.token raw text) ∧ Kind.ofRaw raw ≠ .whitespace
  | .token raw text, member => by
      rw [Element.placed] at member
      split at member
      · cases member
      · rename_i solid
        rw [List.mem_singleton.mp member]
        exact ⟨[], raw, text, (List.append_nil path).symm, rfl, solid⟩
  | .node raw children, member => by
      obtain ⟨step, rest, raw', text, place, -, found, solid⟩ := forest_placed_at path 0 token children member
      exact ⟨step :: rest, raw', text, place, found, solid⟩

theorem forest_placed_at (path : List Nat) (index : Nat) (token : PlacedToken) :
    (forest : List Element) → token ∈ Forest.placed path index forest → ∃ step rest raw text,
      token.1 = path ++ step :: rest ∧ index ≤ step ∧
        forest[step - index]?.bind (Element.at? rest) = some (.token raw text) ∧ Kind.ofRaw raw ≠ .whitespace
  | [], member => by cases member
  | element :: others, member => by
      rcases List.mem_append.mp member with here | later
      · obtain ⟨rest, raw, text, place, found, solid⟩ := element_placed_at (path ++ [index]) token element here
        refine ⟨index, rest, raw, text, by rw [place, List.append_assoc]; rfl, Nat.le_refl _, ?_, solid⟩
        rw [Nat.sub_self]
        exact found
      · obtain ⟨step, rest, raw, text, place, bound, found, solid⟩ := forest_placed_at path (index + 1) token others later
        refine ⟨step, rest, raw, text, place, by omega, ?_, solid⟩
        rw [show step - index = (step - (index + 1)) + 1 by omega]
        exact found
end

theorem substitute_kept (done : List Request) (stays : List Nat → Bool) (node : Node)
    (within : ∀ request ∈ done, request.target.SameTree node)
    (gives : ∀ request ∈ done, request.isDestructive ∧
      Forest.tokens request.given = kept stays (request.target.focus.placed request.target.path))
    (keeps : ∀ parent ∈ node.descendantsOrSelf, parent.Spared done → ∀ index raw text,
      parent.elements[index]? = some (.token raw text) → stays (parent.path ++ [index]) = true)
    (spared : node.Spared done) :
    (node.focus.substitute fun path => Request.on? done (node.path ++ path)).tokens = kept stays (node.focus.placed node.path) := by
  induction node using Node.induction_down with
  | step node ih =>
      rw [Tree.tokens, Tree.placed, forest_placed_eq, kept_flat_map]
      show Forest.tokens (Forest.substitute _ 0 node.focus.children) = _
      rw [forest_substitute_eq, forest_tokens_eq, List.flatMap_assoc]
      refine List.flatMap_congr ?_
      rintro ⟨element, index⟩ member
      have found : node.elements[index]? = some element := List.mem_zipIdx_iff_getElem?.mp member
      rw [← forest_tokens_eq]
      cases element with
      | token raw text =>
          rw [kept_all, element_placed_tokens]
          · exact List.append_nil _
          · intro token present
            obtain ⟨rest, _, _, place, here, -⟩ := element_placed_at _ _ _ present
            cases rest with
            | nil => rw [place, List.append_nil]; exact keeps node List.mem_cons_self spared index raw text found
            | cons _ _ => cases here
      | node raw children =>
          obtain ⟨child, isChild, focus, path, childWithin, planned⟩ :=
            node.spared_child done within spared index ⟨raw, children⟩ found
          show Forest.tokens (Request.fill _ (Request.on? done (node.path ++ [index]))) =
            kept stays (Forest.placed (node.path ++ [index]) 0 children)
          rw [← path]
          rcases planned with ⟨request, present, target, planned⟩ | ⟨free, childSpared⟩
          · obtain ⟨destructive, given⟩ := gives request present
            rw [planned, fill_destructive _ request destructive, given, target, focus]
            rfl
          · have inside := ih child isChild childWithin
              (fun parent below => keeps parent (Node.below_trans node child parent (Node.child_below node child isChild) below)) childSpared
            rw [focus] at inside
            simp only [path, List.append_assoc, List.singleton_append] at inside
            rw [free, path]
            exact (List.append_nil _).trans inside

end SmellCheck
