import SmellCheck.Proofs.Confinement

/-!
A document written once more. Every node is copied, but for those in whose place another node is given,
and after a node stands what is to follow it. A plan that leaves one node in the place of each, with
insertions after it alone, writes this copy.
-/

set_option autoImplicit false

namespace SmellCheck

namespace Node

section
variable (instead? : Node → Option Tree) (following : Node → List Element) (snapshot : Nat)

mutual
def copyFrom (context : List Frame) : Element → List Element
  | .token raw text => [.token raw text]
  | .node raw children =>
      let node : Node := ⟨snapshot, ⟨raw, children⟩, context⟩
      ((instead? node).getD ⟨raw, forestCopy raw context [] children⟩).toElement :: following node

def forestCopy (raw : RawKind) (context : List Frame) (before : List Element) : List Element → List Element
  | [] => []
  | element :: rest =>
      copyFrom (⟨raw, before, rest⟩ :: context) element ++ forestCopy raw context (element :: before) rest
end

end

-- The copy of the whole tree that the node is in; its root is always copied.
def copy (instead? : Node → Option Tree) (following : Node → List Element) (node : Node) : Tree :=
  ⟨node.root.raw, forestCopy instead? following node.snapshot node.root.raw [] [] node.root.children⟩

end Node

structure Plan.CopiesAt (plan : Plan) (instead? : Node → Option Tree) (following : Node → List Element) (node : Node) : Prop where
  standing : ∀ rewritten, Edit.standing? rewritten (plan.edit? node.path) = some ((instead? node).getD rewritten)
  leading : Edit.leading (separatorAfter node.elementBefore?) (plan.edit? node.path) = []
  trailing : Edit.trailing (separatorAfter node.elementBefore?) (plan.edit? node.path) = following node

section
variable (plan : Plan) (instead? : Node → Option Tree) (following : Node → List Element) (node : Node)

theorem copies_untouched (edit : plan.edit? node.path = none) (kept : instead? node = none) (alone : following node = []) :
    plan.CopiesAt instead? following node := by
  constructor <;> rw [edit]
  · rw [kept]
    exact fun _ => rfl
  · rfl
  · exact alone.symm

theorem copies_replaced (tree : Tree) (edit : plan.edit? node.path = some (.replace [tree])) (exchanged : instead? node = some tree)
    (alone : following node = []) : plan.CopiesAt instead? following node := by
  constructor <;> rw [edit]
  · rw [exchanged]
    exact fun _ => rfl
  · rfl
  · exact alone.symm

theorem copies_followed (nodes : List Tree) (edit : plan.edit? node.path = some (.insertAfter nodes)) (kept : instead? node = none)
    (followed : following node =
      nodes.flatMap fun new => [Build.whitespace (separatorAfter node.elementBefore?), new.toElement]) :
    plan.CopiesAt instead? following node := by
  constructor <;> rw [edit]
  · rw [kept]
    exact fun _ => rfl
  · rfl
  · exact followed.symm

end

theorem rewrite_of_written (plan : Plan) (raw : RawKind) (children copied : List Element) (known : (Kind.ofRaw raw).raw = raw)
    (inside : Forest.written plan 0 none ⟨[], false⟩ children = ⟨copied.reverse ++ [], false⟩) :
    (Element.node raw children).rewrite plan = (⟨raw, copied⟩ : Tree).toElement := by
  cases touched : plan.hasEditInside with
  | false =>
      have kept := Forest.written_untouched plan 0 none [] children fun _ _ => Plan.under_of_no_edit_inside plan _ touched
      have same : children.reverse = copied.reverse := by simpa using congrArg Written.elements (kept.symm.trans inside)
      rw [rewrite_untouched plan _ touched, List.reverse_inj.mp same]
      rfl
  | true =>
      rw [Element.rewrite, if_pos touched, Forest.rewrite_eq_written, known, inside]
      simp [Tree.toElement]

def Plan.Copies (plan : Plan) (home : Node) (instead? : Node → Option Tree) (following : Node → List Element) : Prop :=
  ∀ node : Node, node.SameTree home → node.isRoot = false → plan.CopiesAt instead? following node

section
variable (home : Node) (plan : Plan) (instead? : Node → Option Tree) (following : Node → List Element)

open Node SmellCheck.Frame

mutual
theorem next_copy (known : home.KindsKnown) (copies : plan.Copies home instead? following) (raw : RawKind) (context : List Frame)
    (before rest start : List Element) : (element : Element) →
    (⟨home.snapshot, ⟨raw, before.reverse ++ element :: rest⟩, context⟩ : Node).SameTree home →
    Written.next (plan.below (pathOf context)) before.length before.head? ⟨start, false⟩ element =
      ⟨(copyFrom instead? following home.snapshot (⟨raw, before, rest⟩ :: context) element).reverse ++ start, false⟩
  | .token _ _, _ => rfl
  | .node raw' children, same => by
      let node : Node := ⟨home.snapshot, ⟨raw', children⟩, ⟨raw, before, rest⟩ :: context⟩
      let copied : Tree := ⟨raw', forestCopy instead? following home.snapshot raw' node.context [] children⟩
      obtain ⟨standing, leading, trailing⟩ := copies node same rfl
      have below : (plan.below (pathOf context)).under before.length = plan.below node.path := by
        rw [show node.path = pathOf context ++ [before.length] from path_of_cons _ _, Plan.below_append]
        rfl
      have rewritten : (Element.node raw' children).rewrite (plan.below node.path) = copied.toElement :=
        rewrite_of_written _ raw' children _ (kind_known home node known same)
          (forest_written_copy known copies raw' node.context [] [] children same)
      have edit : (plan.below node.path).here? = plan.edit? node.path := by
        rw [Plan.here_eq, Plan.edit_below, List.append_nil]
      have turn := Edit.child_of_standing ⟨start, false⟩ (separatorAfter before.head?) _ copied _ (standing copied)
      rw [show separatorAfter before.head? = separatorAfter node.elementBefore? from rfl, leading, trailing] at turn
      rw [Written.next, if_pos (by rfl), below, edit, rewritten]
      exact turn.trans (by simp [Written.onTop, copyFrom, node, copied])
  termination_by structural element => element

theorem forest_written_copy (known : home.KindsKnown) (copies : plan.Copies home instead? following) (raw : RawKind)
    (context : List Frame) (before start : List Element) : (rest : List Element) →
    (⟨home.snapshot, ⟨raw, before.reverse ++ rest⟩, context⟩ : Node).SameTree home →
    Forest.written (plan.below (pathOf context)) before.length before.head? ⟨start, false⟩ rest =
      ⟨(forestCopy instead? following home.snapshot raw context before rest).reverse ++ start, false⟩
  | [], _ => rfl
  | element :: rest, same => by
      have next := forest_written_copy known copies raw context (element :: before)
        ((copyFrom instead? following home.snapshot (⟨raw, before, rest⟩ :: context) element).reverse ++ start) rest
        (by simpa using same)
      rw [Forest.written, next_copy known copies raw context before rest start element same, forestCopy]
      simpa using next
  termination_by structural rest => rest
end

theorem rewrite_copies (known : home.KindsKnown) (copies : plan.Copies home instead? following) :
    home.root.rewrite plan = home.copy instead? following := by
  have same : (ofRoot home.snapshot home.root).SameTree home := ⟨rfl, rfl⟩
  have root := rewrite_of_written plan home.root.raw home.root.children _ (kind_known home (ofRoot home.snapshot home.root) known same)
    (forest_written_copy home plan instead? following known copies home.root.raw [] [] [] home.root.children same)
  exact to_element_injective _ _ ((tree_rewrite_to_element plan home.root).trans root)

end

end SmellCheck
