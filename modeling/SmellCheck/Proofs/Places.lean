import Mathlib.Data.List.Induction
import SmellCheck.Node

/-!
Places by their paths. A place of a tree is known by its path, the places above it are those whose
paths are proper prefixes of its own, and the places below it are those that have it above them.
-/

set_option autoImplicit false

namespace SmellCheck

theorem to_element_injective (a b : Tree) (same : a.toElement = b.toElement) : a = b := by
  cases a
  cases b
  simpa [Tree.toElement] using same

namespace Frame

def pathOf (context : List Frame) : List Nat := (context.map (·.before.length)).reverse

def rise (focus : Tree) (frames : List Frame) : Tree :=
  frames.foldl (fun tree frame => frame.plug tree) focus

theorem path_of_append (below above : List Frame) : pathOf (below ++ above) = pathOf above ++ pathOf below := by
  simp [pathOf]

theorem path_of_cons (frame : Frame) (outer : List Frame) : pathOf (frame :: outer) = pathOf outer ++ [frame.before.length] := by
  simp [pathOf]

theorem path_of_length (context : List Frame) : (pathOf context).length = context.length := by
  simp [pathOf]

theorem rise_append (focus : Tree) (below above : List Frame) :
    rise focus (below ++ above) = rise (rise focus below) above := by
  simp [rise]

theorem plug_injective (frame frame' : Frame) (tree tree' : Tree) (same : frame.plug tree = frame'.plug tree')
    (index : frame.before.length = frame'.before.length) : frame = frame' ∧ tree = tree' := by
  obtain ⟨raw, before, after⟩ := frame
  obtain ⟨raw', before', after'⟩ := frame'
  obtain ⟨rfl, childrenEq⟩ := Tree.mk.inj same
  obtain ⟨beforeEq, restEq⟩ := List.append_inj childrenEq (by simpa using index)
  obtain ⟨treeEq, rfl⟩ := List.cons.inj restEq
  obtain rfl : before = before' := List.reverse_inj.mp beforeEq
  exact ⟨rfl, to_element_injective tree tree' treeEq⟩

theorem rise_injective (context context' : List Frame) (focus focus' : Tree)
    (path : pathOf context = pathOf context') (root : rise focus context = rise focus' context') :
    context = context' ∧ focus = focus' := by
  induction context using List.reverseRecOn generalizing context' with
  | nil =>
      have empty : context' = [] := by
        have lengths := congrArg List.length path
        rw [path_of_length, path_of_length] at lengths
        exact List.length_eq_zero_iff.mp lengths.symm
      subst empty
      exact ⟨rfl, root⟩
  | append_singleton inner outermost ih =>
      cases context' using List.reverseRecOn with
      | nil => simp [pathOf] at path
      | append_singleton inner' outermost' =>
          rw [path_of_append, path_of_append] at path
          obtain ⟨indexEq, pathEq⟩ := List.cons.inj path
          rw [rise_append, rise_append] at root
          obtain ⟨frameEq, treeEq⟩ := plug_injective outermost outermost' _ _ root indexEq
          obtain ⟨innerEq, focusEq⟩ := ih inner' pathEq treeEq
          exact ⟨by rw [innerEq, frameEq], focusEq⟩

end Frame

namespace Node

open SmellCheck.Frame

theorem path_eq (node : Node) : node.path = pathOf node.context := rfl

theorem root_eq (node : Node) : node.root = rise node.focus node.context := rfl

def SameTree (a b : Node) : Prop := a.snapshot = b.snapshot ∧ a.root = b.root

instance (a b : Node) : Decidable (a.SameTree b) := inferInstanceAs (Decidable (_ ∧ _))

theorem same_tree_symm {a b : Node} (same : a.SameTree b) : b.SameTree a := ⟨same.1.symm, same.2.symm⟩

theorem same_tree_trans {a b c : Node} (first : a.SameTree b) (second : b.SameTree c) : a.SameTree c :=
  ⟨first.1.trans second.1, first.2.trans second.2⟩

theorem eq_of_path (a b : Node) (same : a.SameTree b) (path : a.path = b.path) : a = b := by
  obtain ⟨snapshot, focus, context⟩ := a
  obtain ⟨snapshot', focus', context'⟩ := b
  obtain ⟨contextEq, focusEq⟩ := rise_injective context context' focus focus' path same.2
  have snapshotEq : snapshot = snapshot' := same.1
  rw [snapshotEq, contextEq, focusEq]

theorem root_of_is_root (node : Node) (isRoot : node.isRoot) : node = ofRoot node.snapshot node.root := by
  obtain ⟨snapshot, focus, context⟩ := node
  have empty : context = [] := List.isEmpty_iff.mp isRoot
  subst empty
  rfl

theorem inner_of_kind (node : Node) (other : node.root.kind ≠ node.kind) : node.isRoot = false := by
  refine Bool.eq_false_iff.mpr fun isRoot => other ?_
  conv_rhs => rw [root_of_is_root node isRoot]
  rfl

theorem is_root_iff (node home : Node) (same : node.SameTree home) :
    node.isRoot ↔ node = ofRoot home.snapshot home.root := by
  constructor
  · intro isRoot
    rw [← same.1, ← same.2]
    exact root_of_is_root node isRoot
  · intro eq
    rw [eq]
    rfl

theorem same_iff (a b : Node) (sameTree : a.SameTree b) : a.same b ↔ a = b := by
  constructor
  · intro same
    have parts : a.snapshot = b.snapshot ∧ a.path = b.path := by simpa [Node.same] using same
    exact eq_of_path a b sameTree parts.2
  · intro eq
    simp [Node.same, eq]

theorem mem_ancestors_from (a : Node) (snapshot : Nat) (focus : Tree) (context : List Frame) :
    a ∈ ancestorsFrom snapshot focus context ↔
      ∃ below above, context = below ++ above ∧ below ≠ [] ∧ a = ⟨snapshot, rise focus below, above⟩ := by
  induction context generalizing focus with
  | nil =>
      constructor
      · intro member
        simp [ancestorsFrom] at member
      · rintro ⟨below, above, split, nonempty, -⟩
        exact absurd (List.append_eq_nil_iff.mp split.symm).1 nonempty
  | cons frame outer ih =>
      rw [ancestorsFrom, List.mem_cons, ih]
      constructor
      · rintro (parent | ⟨below, above, split, -, eq⟩)
        · exact ⟨[frame], outer, rfl, by simp, parent⟩
        · exact ⟨frame :: below, above, by rw [split]; rfl, by simp, eq⟩
      · rintro ⟨below, above, split, nonempty, eq⟩
        cases below with
        | nil => exact absurd rfl nonempty
        | cons head rest =>
            obtain ⟨rfl, rfl⟩ := List.cons.inj split
            by_cases last : rest = []
            · subst last
              exact Or.inl eq
            · exact Or.inr ⟨rest, above, rfl, last, eq⟩

theorem mem_ancestors (a node : Node) :
    a ∈ node.ancestors ↔ ∃ below above, node.context = below ++ above ∧ below ≠ [] ∧
      a = ⟨node.snapshot, rise node.focus below, above⟩ :=
  mem_ancestors_from a node.snapshot node.focus node.context

theorem same_tree_of_ancestor (a node : Node) (above : a ∈ node.ancestors) : a.SameTree node := by
  obtain ⟨below, outer, split, -, rfl⟩ := (mem_ancestors a node).mp above
  refine ⟨rfl, ?_⟩
  rw [root_eq node, split, rise_append]
  rfl

theorem mem_ancestors_iff (a node : Node) (same : a.SameTree node) :
    a ∈ node.ancestors ↔ a.path <+: node.path ∧ a ≠ node := by
  constructor
  · intro member
    obtain ⟨below, above, split, nonempty, rfl⟩ := (mem_ancestors a node).mp member
    refine ⟨⟨pathOf below, by rw [path_eq node, split, path_of_append]; rfl⟩, ?_⟩
    intro eq
    have lengths := congrArg (fun n => n.context.length) eq
    simp only [split, List.length_append] at lengths
    exact nonempty (List.length_eq_zero_iff.mp (by omega))
  · rintro ⟨isPrefix, different⟩
    obtain ⟨suffix, join⟩ := isPrefix
    have lengths := congrArg List.length join
    rw [List.length_append, path_eq, path_eq, path_of_length, path_of_length] at lengths
    have split := (List.take_append_drop suffix.length node.context).symm
    have candidate : a = ⟨node.snapshot, rise node.focus (node.context.take suffix.length),
        node.context.drop suffix.length⟩ := by
      apply eq_of_path
      · refine ⟨same.1, same.2.trans ?_⟩
        rw [root_eq node]
        conv_lhs => rw [split]
        rw [rise_append]
        rfl
      · have paths : pathOf node.context = pathOf (node.context.drop suffix.length) ++
            pathOf (node.context.take suffix.length) := by
          conv_lhs => rw [split]
          exact path_of_append _ _
        rw [path_eq node, paths] at join
        refine (List.append_inj join ?_).1
        rw [path_eq, path_of_length, path_of_length, List.length_drop]
        omega
    refine (mem_ancestors a node).mpr ⟨_, _, split, ?_, candidate⟩
    intro empty
    rw [empty, List.nil_append] at split
    apply different
    rw [candidate, ← split, empty]
    rfl

theorem path_of_ancestor (above node : Node) (higher : above ∈ node.ancestors) :
    ∃ step rest, node.path = above.path ++ step :: rest := by
  obtain ⟨inner, outer, split, nonempty, rfl⟩ := (mem_ancestors above node).mp higher
  have path : node.path = pathOf outer ++ pathOf inner := by
    rw [path_eq, split, path_of_append]
  cases steps : pathOf inner with
  | nil =>
      have length := path_of_length inner
      rw [steps] at length
      exact absurd (List.length_eq_zero_iff.mp length.symm) nonempty
  | cons step rest => exact ⟨step, rest, by rw [path, steps]; rfl⟩

theorem inner_of_ancestor (above node : Node) (higher : above ∈ node.ancestors) : node.isRoot = false := by
  by_contra top
  have empty : node.context = [] := by simpa [isRoot] using top
  rw [ancestors, empty] at higher
  cases higher

theorem mem_ancestors_or_self_iff (a node : Node) (same : a.SameTree node) :
    a ∈ node.ancestorsOrSelf ↔ a.path <+: node.path := by
  rw [ancestorsOrSelf, List.mem_cons, mem_ancestors_iff a node same]
  constructor
  · rintro (self | ⟨isPrefix, -⟩)
    · exact self ▸ List.prefix_refl _
    · exact isPrefix
  · intro isPrefix
    by_cases self : a = node
    · exact Or.inl self
    · exact Or.inr ⟨isPrefix, self⟩

theorem not_above_self (node : Node) : node ∉ node.ancestors :=
  fun above => ((mem_ancestors_iff node node ⟨rfl, rfl⟩).mp above).2 rfl

theorem ancestors_trans (a b c : Node) (first : a ∈ b.ancestors) (second : b ∈ c.ancestors) : a ∈ c.ancestors := by
  obtain ⟨below, above, split, nonempty, rfl⟩ := (mem_ancestors a b).mp first
  obtain ⟨inner, outer, split', -, rfl⟩ := (mem_ancestors b c).mp second
  refine (mem_ancestors _ c).mpr ⟨inner ++ below, above, ?_, by simp [nonempty], ?_⟩
  · have whole : outer = below ++ above := split
    rw [split', whole, List.append_assoc]
  · rw [rise_append]

theorem not_around (a b : Node) (above : a ∈ b.ancestors) : b ∉ a.ancestorsOrSelf := by
  intro around
  rcases List.mem_cons.mp around with rfl | higher
  · exact not_above_self _ above
  · exact not_above_self _ (ancestors_trans _ _ _ above higher)

theorem parent_of_child_from (node : Node) (snapshot : Nat) (raw : RawKind) (context : List Frame)
    (before rest : List Element) (member : node ∈ childrenFrom snapshot raw context before rest) :
    node.parent = some ⟨snapshot, ⟨raw, before.reverse ++ rest⟩, context⟩ := by
  induction rest generalizing before with
  | nil => cases member
  | cons element rest ih =>
      cases element with
      | token kind text => simpa using ih _ member
      | node kind children =>
          rcases List.mem_cons.mp member with rfl | later
          · rfl
          · simpa using ih _ later

theorem parent_of_child (node child : Node) (member : child ∈ node.children) : child.parent = some node :=
  parent_of_child_from child node.snapshot node.focus.raw node.context [] node.focus.children member

theorem parent_mem_ancestors (node parent : Node) (isParent : node.parent = some parent) : parent ∈ node.ancestors := by
  obtain ⟨snapshot, focus, context⟩ := node
  cases context with
  | nil => cases isParent
  | cons frame outer =>
      cases isParent
      exact List.mem_cons_self

theorem same_tree_of_parent (node parent : Node) (isParent : node.parent = some parent) : parent.SameTree node :=
  same_tree_of_ancestor parent node (parent_mem_ancestors node parent isParent)

theorem same_tree_of_child (node child : Node) (member : child ∈ node.children) : child.SameTree node :=
  same_tree_symm (same_tree_of_parent child node (parent_of_child node child member))

mutual
theorem above_of_preorder (node : Node) (snapshot : Nat) (context : List Frame) : (element : Element) →
    node ∈ preorderFrom snapshot context element →
    ∃ raw children, element = .node raw children ∧ (⟨snapshot, ⟨raw, children⟩, context⟩ : Node) ∈ node.ancestorsOrSelf
  | .token _ _, member => by cases member
  | .node raw children, member => by
      refine ⟨raw, children, rfl, ?_⟩
      rcases List.mem_cons.mp member with rfl | deeper
      · exact List.mem_cons_self
      · exact List.mem_cons_of_mem _ (above_of_forest_preorder node snapshot raw context [] children deeper)

theorem above_of_forest_preorder (node : Node) (snapshot : Nat) (raw : RawKind) (context : List Frame)
    (before : List Element) : (rest : List Element) → node ∈ forestPreorder snapshot raw context before rest →
    (⟨snapshot, ⟨raw, before.reverse ++ rest⟩, context⟩ : Node) ∈ node.ancestors
  | [], member => by cases member
  | element :: rest, member => by
      rcases List.mem_append.mp member with here | later
      · obtain ⟨raw', children, rfl, above⟩ := above_of_preorder node snapshot (⟨raw, before, rest⟩ :: context) element here
        have parent : (⟨snapshot, ⟨raw, before.reverse ++ .node raw' children :: rest⟩, context⟩ : Node) ∈
            (⟨snapshot, ⟨raw', children⟩, ⟨raw, before, rest⟩ :: context⟩ : Node).ancestors := List.mem_cons_self
        rcases List.mem_cons.mp above with rfl | higher
        · exact parent
        · exact ancestors_trans _ _ _ parent higher
      · simpa using above_of_forest_preorder node snapshot raw context (element :: before) rest later
end

theorem ancestor_of_descendant (node below : Node) (member : below ∈ node.descendants) : node ∈ below.ancestors :=
  above_of_forest_preorder below node.snapshot node.focus.raw node.context [] node.focus.children member

theorem same_tree_of_descendant (node below : Node) (member : below ∈ node.descendantsOrSelf) : below.SameTree node := by
  rcases List.mem_cons.mp member with rfl | deeper
  · exact ⟨rfl, rfl⟩
  · exact same_tree_symm (same_tree_of_ancestor node below (ancestor_of_descendant node below deeper))

theorem same_tree_of_child_of_kind (node child : Node) (kind : Kind) (found : node.childOfKind? kind = some child) :
    child.SameTree node :=
  same_tree_of_child node child (List.mem_of_find?_eq_some found)

theorem same_tree_of_children_of_kind (node child : Node) (kind : Kind) (member : child ∈ node.childrenOfKind kind) :
    child.SameTree node :=
  same_tree_of_child node child (List.mem_filter.mp member).1

theorem same_tree_of_child_at (node child : Node) (index : Nat) (found : node.child? index = some child) :
    child.SameTree node :=
  same_tree_of_child node child (List.mem_of_getElem? found)

theorem same_tree_of_first_child (node child : Node) (found : node.firstChild? = some child) : child.SameTree node :=
  same_tree_of_child node child (List.mem_of_head? found)

theorem same_tree_of_last_child (node child : Node) (found : node.lastChild? = some child) : child.SameTree node :=
  same_tree_of_child node child (List.mem_of_getLast? found)

end Node

end SmellCheck
