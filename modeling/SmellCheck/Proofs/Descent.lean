import Mathlib.Data.List.Nodup
import Mathlib.Data.List.Pairwise
import SmellCheck.Proofs.Places

/-!
Going down. What is below a place is each of its children and what is below that, so a property that
goes from the children of a place to the place itself holds everywhere. The places below are those
that have it above them, and no place comes before one that is above it.
-/

set_option autoImplicit false

namespace SmellCheck.Node

open SmellCheck.Frame

theorem mem_children_from (child : Node) (snapshot : Nat) (raw : RawKind) (context : List Frame)
    (before rest : List Element) :
    child ∈ childrenFrom snapshot raw context before rest ↔ ∃ front tree after,
      rest = front ++ Tree.toElement tree :: after ∧
        child = ⟨snapshot, tree, ⟨raw, front.reverse ++ before, after⟩ :: context⟩ := by
  induction rest generalizing before with
  | nil => simp [childrenFrom]
  | cons element rest ih =>
      have later : child ∈ childrenFrom snapshot raw context (element :: before) rest ↔
          ∃ front tree after, element :: rest = (element :: front) ++ Tree.toElement tree :: after ∧
            child = ⟨snapshot, tree, ⟨raw, (element :: front).reverse ++ before, after⟩ :: context⟩ := by
        rw [ih]
        simp
      cases element with
      | token kind text =>
          rw [childrenFrom, later]
          constructor
          · rintro ⟨front, tree, after, split, place⟩
            exact ⟨_, tree, after, split, place⟩
          · rintro ⟨front, tree, after, split, place⟩
            cases front with
            | nil => cases (List.cons.inj split).1
            | cons first front =>
                obtain ⟨rfl, -⟩ := List.cons.inj split
                exact ⟨front, tree, after, split, place⟩
      | node kind children =>
          rw [childrenFrom, List.mem_cons, later]
          constructor
          · rintro (here | ⟨front, tree, after, split, place⟩)
            · exact ⟨[], ⟨kind, children⟩, rest, rfl, here⟩
            · exact ⟨_, tree, after, split, place⟩
          · rintro ⟨front, tree, after, split, place⟩
            cases front with
            | nil =>
                obtain ⟨same, rfl⟩ := List.cons.inj split
                obtain rfl : (⟨kind, children⟩ : Tree) = tree := to_element_injective _ _ same
                exact .inl place
            | cons first front =>
                obtain ⟨rfl, -⟩ := List.cons.inj split
                exact .inr ⟨front, tree, after, split, place⟩

theorem mem_children_iff (node child : Node) : child ∈ node.children ↔ child.parent = some node := by
  constructor
  · exact parent_of_child node child
  · intro isParent
    obtain ⟨snapshot, focus, context⟩ := child
    cases context with
    | nil => cases isParent
    | cons frame outer =>
        cases isParent
        refine (mem_children_from _ _ _ _ _ _).mpr ⟨frame.before.reverse, focus, frame.after, rfl, ?_⟩
        rw [List.reverse_reverse, List.append_nil]
        rfl

theorem child_element (node child : Node) (member : child ∈ node.children) : child.focus.toElement ∈ node.elements := by
  obtain ⟨front, tree, after, split, rfl⟩ := (mem_children_from _ _ _ _ _ _).mp member
  rw [elements, split]
  simp

theorem child_smaller (node child : Node) (member : child ∈ node.children) : sizeOf child.focus < sizeOf node.focus := by
  have smaller := List.sizeOf_lt_of_mem (child_element node child member)
  obtain ⟨snapshot, ⟨raw, children⟩, context⟩ := node
  obtain ⟨snapshot', ⟨raw', children'⟩, context'⟩ := child
  simp only [elements, Tree.toElement, Element.node.sizeOf_spec, Tree.mk.sizeOf_spec] at smaller ⊢
  omega

theorem induction_down {Holds : Node → Prop} (step : ∀ node, (∀ child ∈ node.children, Holds child) → Holds node)
    (node : Node) : Holds node :=
  step node fun child _ => induction_down step child
termination_by sizeOf node.focus
decreasing_by exact child_smaller node child (by assumption)

theorem children_from_in_order (snapshot : Nat) (raw : RawKind) (context : List Frame) (before rest : List Element) :
    (childrenFrom snapshot raw context before rest).Pairwise fun first second =>
      ∃ index index', index < index' ∧ first.path = pathOf context ++ [index] ∧ second.path = pathOf context ++ [index'] := by
  induction rest generalizing before with
  | nil => exact .nil
  | cons element rest ih =>
      cases element with
      | token _ _ => exact ih _
      | node kind children =>
          refine .cons ?_ (ih _)
          intro child later
          obtain ⟨front, tree, after, -, rfl⟩ := (mem_children_from _ _ _ _ _ _).mp later
          exact ⟨_, _, by simp; omega, path_of_cons _ _, path_of_cons _ _⟩

theorem children_in_order (node : Node) : node.children.Pairwise fun first second =>
    ∃ index index', index < index' ∧ first.path = node.path ++ [index] ∧ second.path = node.path ++ [index'] :=
  children_from_in_order _ _ _ _ _

theorem children_nodup (node : Node) : node.children.Nodup := by
  refine (children_in_order node).imp ?_
  rintro first second ⟨index, index', less, path, path'⟩ rfl
  have same := List.append_cancel_left (path.symm.trans path')
  exact Nat.ne_of_lt less (List.cons.inj same).1

theorem forest_preorder_eq (snapshot : Nat) (raw : RawKind) (context : List Frame) (before rest : List Element) :
    forestPreorder snapshot raw context before rest =
      (childrenFrom snapshot raw context before rest).flatMap descendantsOrSelf := by
  induction rest generalizing before with
  | nil => rfl
  | cons element rest ih =>
      cases element with
      | token _ _ =>
          rw [forestPreorder, childrenFrom, ih]
          rfl
      | node kind children =>
          rw [forestPreorder, childrenFrom, ih]
          rfl

theorem descendants_eq (node : Node) : node.descendants = node.children.flatMap descendantsOrSelf :=
  forest_preorder_eq _ _ _ _ _

theorem mem_descendants (node below : Node) :
    below ∈ node.descendants ↔ ∃ child ∈ node.children, below ∈ child.descendantsOrSelf := by
  rw [descendants_eq, List.mem_flatMap]

theorem below_of_child (node parent child : Node) (below : parent ∈ node.descendantsOrSelf)
    (member : child ∈ parent.children) : child ∈ node.descendants := by
  induction node using induction_down with
  | step node ih =>
      rcases List.mem_cons.mp below with rfl | deeper
      · exact (mem_descendants _ _).mpr ⟨child, member, List.mem_cons_self⟩
      · obtain ⟨first, isChild, within⟩ := (mem_descendants _ _).mp deeper
        exact (mem_descendants _ _).mpr ⟨first, isChild, List.mem_cons_of_mem _ (ih first isChild within)⟩

theorem child_below (node child : Node) (member : child ∈ node.children) : child ∈ node.descendantsOrSelf :=
  List.mem_cons_of_mem _ ((mem_descendants _ _).mpr ⟨child, member, List.mem_cons_self⟩)

theorem child_of_kind (node child : Node) (kind : Kind) (found : node.childOfKind? kind = some child) :
    child ∈ node.children ∧ child.kind = kind :=
  ⟨List.mem_of_find?_eq_some found, by simpa using List.find?_some found⟩

theorem frame_of_parent (node parent : Node) (isParent : node.parent = some parent) :
    ∃ frame, node.context = frame :: parent.context ∧ parent.focus = frame.plug node.focus := by
  obtain ⟨snapshot, focus, context⟩ := node
  cases context with
  | nil => cases isParent
  | cons frame outer =>
      cases isParent
      exact ⟨frame, rfl, rfl⟩

theorem inner_of_parent (node parent : Node) (isParent : node.parent = some parent) : node.isRoot = false := by
  obtain ⟨frame, context, -⟩ := frame_of_parent node parent isParent
  rw [isRoot, context, List.isEmpty_cons]

theorem parent_of_inner (node : Node) (inner : node.isRoot = false) : ∃ parent, node.parent = some parent := by
  obtain ⟨snapshot, focus, context⟩ := node
  cases context with
  | nil => cases inner
  | cons frame outer => exact ⟨_, rfl⟩

theorem ancestors_of_parent (node parent : Node) (isParent : node.parent = some parent) :
    node.ancestors = parent :: parent.ancestors := by
  obtain ⟨snapshot, focus, context⟩ := node
  cases context with
  | nil => cases isParent
  | cons frame outer =>
      cases isParent
      rfl

theorem mem_descendants_or_self_iff (node below : Node) :
    below ∈ node.descendantsOrSelf ↔ node ∈ below.ancestorsOrSelf := by
  constructor
  · intro member
    rcases List.mem_cons.mp member with rfl | deeper
    · exact List.mem_cons_self
    · exact List.mem_cons_of_mem _ (ancestor_of_descendant node below deeper)
  · intro above
    obtain ⟨snapshot, focus, context⟩ := below
    induction context generalizing focus with
    | nil =>
        obtain rfl : node = ⟨snapshot, focus, []⟩ := by simpa [ancestorsOrSelf, ancestors, ancestorsFrom] using above
        exact List.mem_cons_self
    | cons frame outer ih =>
        rcases List.mem_cons.mp above with rfl | higher
        · exact List.mem_cons_self
        · exact List.mem_cons_of_mem _ (below_of_child node _ _ (ih (frame.plug focus) higher)
            ((mem_children_iff _ _).mpr rfl))

theorem mem_descendants_iff (node below : Node) : below ∈ node.descendants ↔ node ∈ below.ancestors := by
  constructor
  · exact ancestor_of_descendant node below
  · intro above
    rcases List.mem_cons.mp ((mem_descendants_or_self_iff node below).mpr (List.mem_cons_of_mem _ above)) with rfl | deeper
    · exact absurd above (not_above_self below)
    · exact deeper

theorem below_trans (node middle below : Node) (first : middle ∈ node.descendantsOrSelf)
    (second : below ∈ middle.descendantsOrSelf) : below ∈ node.descendantsOrSelf := by
  rw [mem_descendants_or_self_iff] at first second ⊢
  rcases List.mem_cons.mp second with rfl | lower
  · exact first
  · rcases List.mem_cons.mp first with rfl | higher
    · exact second
    · exact List.mem_cons_of_mem _ (ancestors_trans _ _ _ higher lower)

theorem mem_whole_tree (home node : Node) (same : node.SameTree home) :
    node ∈ (ofRoot home.snapshot home.root).descendantsOrSelf := by
  have sameTree : (ofRoot home.snapshot home.root).SameTree node := ⟨same.1.symm, same.2.symm⟩
  exact (mem_descendants_or_self_iff _ _).mpr ((mem_ancestors_or_self_iff _ node sameTree).mpr ⟨node.path, rfl⟩)

theorem path_of_descendant (node below : Node) (member : below ∈ node.descendantsOrSelf) :
    ∃ rest, below.path = node.path ++ rest := by
  rcases List.mem_cons.mp ((mem_descendants_or_self_iff node below).mp member) with rfl | above
  · exact ⟨[], (List.append_nil _).symm⟩
  · obtain ⟨step, rest, path⟩ := path_of_ancestor node below above
    exact ⟨step :: rest, path⟩

theorem descendants_in_order (node : Node) :
    node.descendantsOrSelf.Pairwise fun earlier later => earlier.path < later.path := by
  induction node using induction_down with
  | step node ih =>
      refine .cons ?_ ?_
      · intro later below
        obtain ⟨step, rest, path⟩ := path_of_ancestor node later (ancestor_of_descendant node later below)
        have more : [] < step :: rest := List.Lex.nil
        rw [path]
        simpa using List.append_left_lt more
      · rw [descendants_eq, List.pairwise_flatMap]
        refine ⟨ih, (children_in_order node).imp ?_⟩
        rintro first second ⟨index, index', less, firstPath, secondPath⟩ earlier underFirst later underSecond
        obtain ⟨rest, path⟩ := path_of_descendant first earlier underFirst
        obtain ⟨rest', path'⟩ := path_of_descendant second later underSecond
        rw [path, path', firstPath, secondPath, List.append_assoc, List.append_assoc]
        exact List.append_left_lt (List.Lex.rel less)

theorem places_nodup (node : Node) : node.descendantsOrSelf.Nodup := by
  refine (descendants_in_order node).imp ?_
  rintro first second before rfl
  exact List.lt_irrefl _ before

theorem descendants_nodup (node : Node) : node.descendants.Nodup := (List.nodup_cons.mp (places_nodup node)).2

theorem child_of_place (node child other place : Node) (isChild : child ∈ node.children) (isOther : other ∈ node.children)
    (inChild : place ∈ child.descendantsOrSelf) (inOther : place ∈ other.descendantsOrSelf) : other = child := by
  have apart := (List.nodup_flatMap.mp (descendants_eq node ▸ descendants_nodup node)).2
  have symmetric : Std.Symm (Function.onFun List.Disjoint descendantsOrSelf) := ⟨fun _ _ disjoint => List.disjoint_symm disjoint⟩
  by_contra different
  exact apart.forall isOther isChild different inOther inChild

theorem descendants_ordered (node : Node) :
    node.descendantsOrSelf.Pairwise fun earlier later => later ∉ earlier.ancestors := by
  refine (descendants_in_order node).imp ?_
  intro earlier later before above
  obtain ⟨step, rest, path⟩ := path_of_ancestor later earlier above
  rw [path] at before
  exact List.not_lt.mpr List.le_append_left before

theorem children_from_focus (snapshot : Nat) (raw : RawKind) (context : List Frame) (before rest : List Element) :
    (childrenFrom snapshot raw context before rest).map focus = rest.filterMap Element.asNode? := by
  induction rest generalizing before with
  | nil => rfl
  | cons element rest ih =>
      cases element with
      | token _ _ => exact ih _
      | node kind children => exact congrArg (List.cons _) (ih _)

theorem children_focus (node : Node) : node.children.map focus = node.focus.subtrees :=
  children_from_focus _ _ _ _ _

theorem mem_subtrees_iff (node : Node) (part : Tree) : part ∈ node.focus.subtrees ↔ ∃ child ∈ node.children, child.focus = part := by
  rw [← children_focus, List.mem_map]

end SmellCheck.Node
