import Mathlib.Data.List.Forall2
import SmellCheck.Proofs.Confinement

/-!
Places after one node is exchanged for another tree. Every place that is not below that node has a
place in the new document, with the same path; parents, ancestors and children go over with it, and a
place that has nothing to do with the node keeps its subtree.
-/

set_option autoImplicit false

namespace SmellCheck

theorem flat_map_map {α β γ δ : Type} (f : α → β) (g : γ → δ) (p : α → List γ) (q : β → List δ) (items : List α)
    (agree : ∀ item ∈ items, q (f item) = (p item).map g) : (items.map f).flatMap q = (items.flatMap p).map g := by
  rw [List.flatMap_map, List.map_flatMap]
  exact List.flatMap_congr agree

-- Frames that say the same about where a child is: the kind of the parent, and the index.
structure Frame.Alike (frame frame' : Frame) : Prop where
  kind : Kind.ofRaw frame'.raw = Kind.ofRaw frame.raw
  index : frame'.before.length = frame.before.length

structure Node.Beside (node node' : Node) : Prop where
  snapshot : node'.snapshot = node.snapshot
  context : List.Forall₂ Frame.Alike node.context node'.context

theorem alike_path (context context' : List Frame) (alike : List.Forall₂ Frame.Alike context context') :
    Frame.pathOf context' = Frame.pathOf context := by
  induction alike with
  | nil => rfl
  | cons here _ ih => rw [Frame.path_of_cons, Frame.path_of_cons, ih, here.index]

theorem children_beside (snapshot : Nat) (raw raw' : RawKind) (kind : Kind.ofRaw raw' = Kind.ofRaw raw)
    (context context' : List Frame) (around : List.Forall₂ Frame.Alike context context') (before before' rest rest' : List Element)
    (index : before'.length = before.length) (same : rest'.map Element.isNode = rest.map Element.isNode) :
    List.Forall₂ Node.Beside (Node.childrenFrom snapshot raw context before rest)
      (Node.childrenFrom snapshot raw' context' before' rest') := by
  induction rest generalizing before before' rest' with
  | nil =>
      obtain rfl := List.map_eq_nil_iff.mp same
      exact .nil
  | cons element rest ih =>
      cases rest' with
      | nil => cases same
      | cons element' rest' =>
          obtain ⟨here, later⟩ := List.cons.inj same
          have next := ih (element :: before) (element' :: before') rest' (congrArg (· + 1) index) later
          cases element with
          | token _ _ =>
              cases element' with
              | token _ _ => exact next
              | node _ _ => cases here
          | node _ _ =>
              cases element' with
              | token _ _ => cases here
              | node _ _ => exact .cons ⟨rfl, .cons ⟨kind, index⟩ around⟩ next

def Plan.Exchanges (plan : Plan) : Prop := ∀ path edit, plan.edit? path = some edit → ∃ tree, edit = .replace [tree]

theorem exchanges_below (plan : Plan) (exchanges : plan.Exchanges) (path : List Nat) : (plan.below path).Exchanges := by
  intro rest edit planned
  rw [Plan.edit_below] at planned
  exact exchanges _ edit planned

section
variable (plan : Plan) (exchanges : plan.Exchanges)
include exchanges

theorem next_exchanged (index : Nat) (before? : Option Element) (start : List Element) (element : Element) :
    ∃ one : Element, one.isNode = element.isNode ∧
      Written.next plan index before? ⟨start, false⟩ element = ⟨one :: start, false⟩ := by
  cases element with
  | token raw text => exact ⟨.token raw text, rfl, rfl⟩
  | node raw children =>
      rw [Written.next, if_pos (by rfl), Plan.here_eq, Plan.edit_under]
      cases planned : plan.edit? [index] with
      | none => exact ⟨_, rewrite_is_node _ _, rfl⟩
      | some edit =>
          obtain ⟨tree, rfl⟩ := exchanges _ edit planned
          exact ⟨tree.toElement, rfl, rfl⟩

theorem written_exchanged (index : Nat) (before? : Option Element) (start forest : List Element) :
    ∃ written : List Element, Forest.written plan index before? ⟨start, false⟩ forest = ⟨written.reverse ++ start, false⟩ ∧
      written.map Element.isNode = forest.map Element.isNode := by
  induction forest generalizing index before? start with
  | nil => exact ⟨[], rfl, rfl⟩
  | cons element rest ih =>
      obtain ⟨one, same, next⟩ := next_exchanged plan exchanges index before? start element
      obtain ⟨written, shape, later⟩ := ih (index + 1) (some element) (one :: start)
      refine ⟨one :: written, ?_, by rw [List.map_cons, List.map_cons, same, later]⟩
      rw [Forest.written, next, shape]
      simp

theorem frame_rewrite_alike (frame : Frame) : frame.Alike (frame.rewrite plan) := by
  obtain ⟨kind, before, -⟩ := frame_rewrite_shape plan frame
  obtain ⟨written, shape, same⟩ := written_exchanged plan exchanges 0 none [] frame.before.reverse
  have lengths := congrArg List.length same
  have leading : Edit.leading frame.separator (frame.edit? plan) = [] := by
    cases planned : frame.edit? plan with
    | none => rfl
    | some edit =>
        obtain ⟨tree, rfl⟩ := exchanges _ edit planned
        rfl
  refine ⟨kind, ?_⟩
  rw [before, leading, Frame.writtenBefore, shape]
  simpa using lengths

theorem rewrite_all_alike (context : List Frame) : List.Forall₂ Frame.Alike context (Frame.rewriteAll plan context) := by
  induction context with
  | nil => exact .nil
  | cons frame outer ih =>
      exact .cons (frame_rewrite_alike _ (exchanges_below plan exchanges _) frame) ih

theorem rewritten_children_beside (node : Node) : List.Forall₂ Node.Beside node.children (node.rewritten plan).children := by
  obtain ⟨kind, children⟩ := tree_rewrite_shape (plan.below node.path) node.focus
  obtain ⟨written, shape, same⟩ :=
    written_exchanged (plan.below node.path) (exchanges_below plan exchanges _) 0 none [] node.focus.children
  refine children_beside _ _ _ kind _ _ (rewrite_all_alike plan exchanges node.context) [] [] _ _ rfl ?_
  have inside : (node.rewritten plan).focus.children = _ := children
  rw [inside, shape]
  simpa using same

end

namespace Node

section
variable (target : Node) (tree : Tree)

def exchange : Plan := [(target.path, .replace [tree])]

theorem exchange_edit (path : List Nat) :
    (target.exchange tree).edit? path = if path = target.path then some (.replace [tree]) else none := by
  rw [exchange, Plan.edit?]
  by_cases same : path = target.path
  · simp [same]
  · have other : ¬ target.path = path := fun back => same back.symm
    simp [same, other]

theorem exchange_exchanges : (target.exchange tree).Exchanges := by
  intro path edit planned
  rw [exchange_edit] at planned
  split at planned
  · exact ⟨tree, (Option.some.inj planned).symm⟩
  · cases planned

def after (node : Node) : Node :=
  if node = target then node.inPlace (target.exchange tree) tree else node.rewritten (target.exchange tree)

theorem after_target : target.after tree target = target.inPlace (target.exchange tree) tree := if_pos rfl

theorem after_other (node : Node) (other : node ≠ target) :
    target.after tree node = node.rewritten (target.exchange tree) := if_neg other

theorem after_beside (node : Node) : node.Beside (target.after tree node) := by
  have alike := rewrite_all_alike _ (exchange_exchanges target tree) node.context
  unfold after
  split <;> exact ⟨rfl, alike⟩

theorem after_path (node : Node) : (target.after tree node).path = node.path :=
  alike_path _ _ (after_beside target tree node).context

theorem after_same (first second : Node) : (target.after tree first).same (target.after tree second) = first.same second := by
  rw [same, same, (after_beside target tree first).snapshot, (after_beside target tree second).snapshot, after_path, after_path]

theorem after_kind (node : Node) (other : node ≠ target) : (target.after tree node).kind = node.kind := by
  rw [after_other target tree node other]
  exact (tree_rewrite_shape _ _).1

structure Outside (node : Node) : Prop where
  inTree : node.SameTree target
  notBelow : target ∉ node.ancestors

theorem outside_self : target.Outside target := ⟨⟨rfl, rfl⟩, not_above_self target⟩

theorem outside_parent (node parent : Node) (outside : target.Outside node) (isParent : node.parent = some parent) :
    target.Outside parent ∧ parent ≠ target := by
  have above := parent_mem_ancestors node parent isParent
  refine ⟨⟨same_tree_trans (same_tree_of_parent node parent isParent) outside.inTree, fun higher => ?_⟩, ?_⟩
  · exact outside.notBelow (ancestors_trans _ _ _ higher above)
  · rintro rfl
    exact outside.notBelow above

theorem after_standing (node : Node) (inTree : node.SameTree target) :
    Edit.standing? (node.focus.rewrite ((target.exchange tree).below node.path)) ((target.exchange tree).edit? node.path) =
      some (target.after tree node).focus := by
  rw [exchange_edit]
  by_cases here : node = target
  · subst here
    rw [if_pos rfl, after_target]
    rfl
  · rw [if_neg fun path => here (eq_of_path node target inTree path), after_other target tree node here]
    rfl

theorem after_in_place (node : Node) :
    target.after tree node = node.inPlace (target.exchange tree) (target.after tree node).focus := by
  unfold after
  split <;> rfl

theorem after_parent (node : Node) (outside : target.Outside node) :
    (target.after tree node).parent = node.parent.map (target.after tree) := by
  have standing := after_standing target tree node outside.inTree
  have place := after_in_place target tree node
  obtain ⟨snapshot, focus, context⟩ := node
  cases context with
  | nil =>
      rw [place]
      rfl
  | cons frame outer =>
      have other := (outside_parent target ⟨snapshot, focus, frame :: outer⟩ _ outside rfl).2
      rw [parent_path ⟨snapshot, focus, frame :: outer⟩ frame outer rfl, Plan.below_append, ← Plan.edit_below] at standing
      have up := Frame.plug_rewrite _ frame focus _ standing
      rw [place]
      refine congrArg some ((congrArg (fun around => (⟨snapshot, around, _⟩ : Node)) up).trans ?_)
      exact (after_other target tree ⟨snapshot, frame.plug focus, outer⟩ other).symm

theorem after_ancestors (node : Node) (outside : target.Outside node) :
    (target.after tree node).ancestors = node.ancestors.map (target.after tree) := by
  obtain ⟨snapshot, focus, context⟩ := node
  induction context generalizing focus with
  | nil => rw [after_in_place]; rfl
  | cons frame outer ih =>
      have isParent := after_parent target tree _ outside
      have higher := ih (frame.plug focus) (outside_parent target _ _ outside rfl).1
      rw [ancestors_of_parent _ _ isParent, higher]
      rfl

theorem after_ancestors_or_self (node : Node) (outside : target.Outside node) :
    (target.after tree node).ancestorsOrSelf = node.ancestorsOrSelf.map (target.after tree) :=
  congrArg (List.cons _) (after_ancestors target tree node outside)

theorem outside_child (node child : Node) (outside : target.Outside node) (other : node ≠ target)
    (isChild : child ∈ node.children) : target.Outside child := by
  refine ⟨same_tree_trans (same_tree_of_child node child isChild) outside.inTree, ?_⟩
  rw [ancestors_of_parent child node (parent_of_child node child isChild)]
  exact fun above => (List.mem_cons.mp above).elim (fun same => other same.symm) outside.notBelow

theorem after_children (node : Node) (outside : target.Outside node) (other : node ≠ target) :
    (target.after tree node).children = node.children.map (target.after tree) := by
  have beside := rewritten_children_beside _ (exchange_exchanges target tree) node
  rw [← after_other target tree node other] at beside
  obtain ⟨lengths, each⟩ := List.forall₂_iff_zip.mp beside
  have same : List.Forall₂ (fun child child' => target.after tree child = child')
      node.children (target.after tree node).children := by
    refine List.forall₂_iff_zip.mpr ⟨lengths, ?_⟩
    intro child child' pair
    obtain ⟨isChild, isChild'⟩ := List.of_mem_zip pair
    have childOutside := outside_child target node child outside other isChild
    have isParent := after_parent target tree child childOutside
    rw [parent_of_child node child isChild] at isParent
    have inTree := same_tree_of_parent _ _ isParent
    refine eq_of_path _ _ (same_tree_trans (same_tree_symm inTree) (same_tree_symm (same_tree_of_child _ child' isChild'))) ?_
    rw [after_path]
    exact (alike_path _ _ (each pair).context).symm
  rw [← List.forall₂_map_left_iff, List.forall₂_eq_eq_eq] at same
  exact same.symm

-- A place that has nothing to do with the target.
structure AsideOf (node : Node) : Prop where
  inTree : node.SameTree target
  notBelow : target ∉ node.ancestorsOrSelf
  notAbove : node ∉ target.ancestors

theorem outside_of_aside (node : Node) (aside : target.AsideOf node) : target.Outside node ∧ node ≠ target :=
  ⟨⟨aside.inTree, fun above => aside.notBelow (List.mem_cons_of_mem _ above)⟩,
    fun same => aside.notBelow (same ▸ List.mem_cons_self)⟩

theorem outside_of_above (node above : Node) (aside : target.AsideOf node) (higher : above ∈ node.ancestorsOrSelf) :
    target.Outside above ∧ target ∉ above.ancestorsOrSelf := by
  have below := (mem_descendants_or_self_iff above node).mpr higher
  have notBelow : target ∉ above.ancestorsOrSelf := by
    intro inside
    have underTarget := below_trans target above node ((mem_descendants_or_self_iff target above).mpr inside) below
    exact aside.notBelow ((mem_descendants_or_self_iff target node).mp underTarget)
  have inTree := same_tree_symm (same_tree_of_descendant above node below)
  exact ⟨⟨same_tree_trans inTree aside.inTree, fun inside => notBelow (List.mem_cons_of_mem _ inside)⟩, notBelow⟩

theorem aside_of_child (node child : Node) (aside : target.AsideOf node) (isChild : child ∈ node.children) :
    target.AsideOf child := by
  have isParent := parent_of_child node child isChild
  refine ⟨same_tree_trans (same_tree_of_child node child isChild) aside.inTree, fun above => ?_, fun above => ?_⟩
  · rcases List.mem_cons.mp above with rfl | higher
    · exact aside.notAbove (parent_mem_ancestors target node isParent)
    · rw [ancestors_of_parent child node isParent] at higher
      exact aside.notBelow higher
  · exact aside.notAbove (ancestors_trans _ _ _ (parent_mem_ancestors child node isParent) above)

theorem aside_beside (node child other : Node) (isChild : child ∈ node.children) (isOther : other ∈ node.children)
    (above : child ∈ target.ancestorsOrSelf) (different : other ≠ child) : target.AsideOf other := by
  have inChild := (mem_descendants_or_self_iff child target).mpr above
  have tree := same_tree_trans (same_tree_of_child node other isOther) (same_tree_symm (same_tree_of_child node child isChild))
  refine ⟨same_tree_trans tree (same_tree_symm (same_tree_of_descendant child target inChild)), fun below => ?_, fun higher => ?_⟩
  · have under := below_trans child target other inChild ((mem_descendants_or_self_iff target other).mpr below)
    exact different (child_of_place node child other other isChild isOther under List.mem_cons_self)
  · have under := (mem_descendants_or_self_iff other target).mpr (List.mem_cons_of_mem _ higher)
    exact different (child_of_place node child other target isChild isOther inChild under)

theorem after_focus (node : Node) (aside : target.AsideOf node) : (target.after tree node).focus = node.focus := by
  obtain ⟨outside, other⟩ := outside_of_aside target node aside
  rw [after_other target tree node other]
  refine tree_rewrite_untouched _ _ ?_
  rw [Bool.eq_false_iff, ne_eq, Plan.has_edit_inside_iff]
  rintro ⟨rest, -, planned⟩
  rw [Plan.edit_below, exchange_edit] at planned
  split at planned
  · rename_i path
    exact aside.notAbove ((mem_ancestors_iff node target aside.inTree).mpr ⟨⟨rest, path⟩, other⟩)
  · cases planned

theorem after_descendants_or_self (node : Node) (aside : target.AsideOf node) :
    (target.after tree node).descendantsOrSelf = node.descendantsOrSelf.map (target.after tree) := by
  induction node using induction_down with
  | step node ih =>
      obtain ⟨outside, other⟩ := outside_of_aside target node aside
      rw [descendantsOrSelf, descendantsOrSelf, List.map_cons, descendants_eq, descendants_eq,
        after_children target tree node outside other]
      refine congrArg _ (flat_map_map _ _ _ _ _ fun child isChild => ?_)
      exact ih child isChild (aside_of_child target node child aside isChild)

theorem aside_below (node below : Node) (aside : target.AsideOf node) (member : below ∈ node.descendantsOrSelf) :
    target.AsideOf below := by
  induction node using induction_down with
  | step node ih =>
      rcases List.mem_cons.mp member with rfl | deeper
      · exact aside
      · obtain ⟨child, isChild, within⟩ := (mem_descendants node below).mp deeper
        exact ih child isChild (aside_of_child target node child aside isChild) within

theorem after_covers (node place : Node) (outside : target.Outside node) (below : place ∈ (target.after tree node).descendantsOrSelf)
    (apart : target.after tree target ∉ place.ancestorsOrSelf) :
    ∃ old, target.Outside old ∧ old ≠ target ∧ place = target.after tree old := by
  induction node using induction_down with
  | step node ih =>
      have other : node ≠ target := fun same =>
        apart ((mem_descendants_or_self_iff (target.after tree target) place).mp (same ▸ below))
      rcases List.mem_cons.mp below with rfl | deeper
      · exact ⟨node, outside, other, rfl⟩
      · obtain ⟨child, isChild, inChild⟩ := (mem_descendants _ place).mp deeper
        rw [after_children target tree node outside other] at isChild
        obtain ⟨old, isOld, rfl⟩ := List.mem_map.mp isChild
        exact ih old isOld (outside_child target node old outside other isOld) inChild

section
variable (inner : target.isRoot = false)
include inner

theorem after_root (node : Node) (outside : target.Outside node) :
    (target.after tree node).root = target.root.rewrite (target.exchange tree) := by
  by_cases here : node = target
  · rw [here, after_target]
    exact (exchange_stands target tree inner).1
  · rw [after_other target tree node here, rewritten_root, outside.inTree.2]
    intro path edit within _ planned
    rw [exchange_edit] at planned
    split at planned
    · rename_i same
      have above := (mem_ancestors_iff target node (same_tree_symm outside.inTree)).mpr ⟨same ▸ within, fun back => here back.symm⟩
      exact absurd above outside.notBelow
    · cases planned

theorem after_in_tree (first second : Node) (isFirst : target.Outside first) (isSecond : target.Outside second) :
    (target.after tree first).SameTree (target.after tree second) := by
  refine ⟨?_, (after_root target tree inner first isFirst).trans (after_root target tree inner second isSecond).symm⟩
  rw [(after_beside target tree first).snapshot, (after_beside target tree second).snapshot, isFirst.inTree.1, isSecond.inTree.1]

theorem after_not_below (node : Node) (outside : target.Outside node) (other : node ≠ target) :
    (target.after tree node).SameTree (target.after tree target) ∧
      target.after tree target ∉ (target.after tree node).ancestorsOrSelf := by
  refine ⟨after_in_tree target tree inner node target outside (outside_self target), fun above => ?_⟩
  rw [after_ancestors_or_self target tree node outside] at above
  obtain ⟨old, isAbove, same⟩ := List.mem_map.mp above
  have path : old.path = target.path := by rw [← after_path target tree old, same, after_path]
  rcases List.mem_cons.mp isAbove with rfl | higher
  · exact other (eq_of_path old target outside.inTree path)
  · have tree := same_tree_trans (same_tree_of_ancestor old node higher) outside.inTree
    exact outside.notBelow (eq_of_path old target tree path ▸ higher)

theorem after_top : target.Outside (.ofRoot target.snapshot target.root) ∧ target.after tree (.ofRoot target.snapshot target.root) =
    .ofRoot (target.after tree target).snapshot (target.after tree target).root := by
  have top : target.Outside (.ofRoot target.snapshot target.root) := ⟨⟨rfl, rfl⟩, nofun⟩
  refine ⟨top, eq_of_path _ _ (after_in_tree target tree inner _ target top (outside_self target)) ?_⟩
  rw [after_path]
  rfl

end

end

end Node

end SmellCheck
