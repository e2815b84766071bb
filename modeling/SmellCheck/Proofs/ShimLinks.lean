import SmellCheck.Fix.Shims
import SmellCheck.Proofs.Descent
import SmellCheck.Proofs.Planning

/-!
Statements that assign lambdas to members: a link stands in the tree around the member that it
assigns to, and a chain has the links of the members of one class.
-/

set_option autoImplicit false

namespace SmellCheck.Fix

structure ShimLink.Shape (target : Node) (link : ShimLink) (assignment : Node) : Prop where
  member : link.target = target
  parent : target.parent = some assignment
  isAssignment : assignment.kind = .assignment
  value : assignment.child? 1 = some link.value
  statement : assignment.parent = some link.statement
  isStatement : link.statement.kind = .exprStmt

theorem link_iff (target : Node) (link : ShimLink) :
    ShimLink.of? target = some link ↔
      ∃ assignment, link.Shape target assignment ∧ link.value.kind.isLambda ∧ assignment.firstChild? = some target := by
  have isFirst : ∀ assignment, target.parent = some assignment →
      (assignment.firstChild?.any (·.same target) ↔ assignment.firstChild? = some target) := by
    intro assignment isParent
    cases first : assignment.firstChild? with
    | none => simp
    | some child =>
        have tree := Node.same_tree_trans (Node.same_tree_of_first_child assignment child first)
          (Node.same_tree_of_parent target assignment isParent)
        rw [Option.any_some, Node.same_iff child target tree, Option.some_inj]
  simp only [ShimLink.of?, bind, Option.bind_eq_some_iff, Option.filter_eq_some_iff]
  constructor
  · rintro ⟨assignment, ⟨isParent, isAssignment⟩, value, ⟨isChild, isLambda⟩, statement, ⟨isOuter, isStatement⟩, made⟩
    split at made
    · rename_i first
      cases made
      exact ⟨assignment, ⟨rfl, isParent, eq_of_beq isAssignment, isChild, isOuter, eq_of_beq isStatement⟩, isLambda,
        (isFirst assignment isParent).mp first⟩
    · cases made
  · rintro ⟨assignment, ⟨rfl, isParent, isAssignment, isChild, isOuter, isStatement⟩, isLambda, first⟩
    refine ⟨assignment, ⟨isParent, beq_iff_eq.mpr isAssignment⟩, link.value, ⟨isChild, isLambda⟩, link.statement,
      ⟨isOuter, beq_iff_eq.mpr isStatement⟩, ?_⟩
    rw [if_pos ((isFirst assignment isParent).mpr first)]
    rfl

theorem link_shape (target : Node) (link : ShimLink) (found : ShimLink.of? target = some link) :
    ∃ assignment, link.Shape target assignment := by
  obtain ⟨assignment, shape, -⟩ := (link_iff target link).mp found
  exact ⟨assignment, shape⟩

theorem chain_eq (home : Node) (chain : ShimChain) (found : ShimChain.find? home = some chain) :
    ∃ diagnosed first, ShimLink.of? home = some diagnosed ∧ home.firstChild? = some first ∧
      chain.receiver = first.trimmed ∧ chain.diagnosed = diagnosed.statement ∧
      chain.links = (home.classScope.descendantsOfKind .memberAccess).filterMap fun access =>
        if access.firstChild?.map Node.trimmed = some first.trimmed then ShimLink.of? access else none := by
  simp only [ShimChain.find?, bind, Option.bind_eq_some_iff, pure, Option.some.injEq] at found
  obtain ⟨diagnosed, isLink, first, isFirst, rfl⟩ := found
  have sameReceiver : ∀ access : Node, access.firstChild?.any (·.trimmed == first.trimmed) ↔
      access.firstChild?.map Node.trimmed = some first.trimmed := by
    intro access
    cases access.firstChild? <;> simp
  refine ⟨diagnosed, first, isLink, isFirst, rfl, rfl, ?_⟩
  simp only [sameReceiver]

theorem chain_links (home : Node) (chain : ShimChain) (found : ShimChain.find? home = some chain) :
    (home.firstChild?.map Node.trimmed = some chain.receiver) ∧
      ∀ link, link ∈ chain.links ↔ ∃ access ∈ home.classScope.descendantsOfKind .memberAccess,
        access.firstChild?.map Node.trimmed = some chain.receiver ∧ ShimLink.of? access = some link := by
  obtain ⟨-, first, -, isFirst, receiver, -, links⟩ := chain_eq home chain found
  refine ⟨by rw [isFirst, receiver]; rfl, fun link => ?_⟩
  rw [links, receiver]
  refine List.mem_filterMap.trans (exists_congr fun access => and_congr_right fun _ => ?_)
  by_cases same : access.firstChild?.map Node.trimmed = some first.trimmed <;> simp [same]

theorem chain_shape (home : Node) (chain : ShimChain) (found : ShimChain.find? home = some chain) :
    (∃ diagnosed, ShimLink.of? home = some diagnosed ∧ chain.diagnosed = diagnosed.statement) ∧
      ∀ link ∈ chain.links, ∃ access ∈ home.classScope.descendantsOfKind .memberAccess,
        ShimLink.of? access = some link := by
  obtain ⟨diagnosed, -, isLink, -, -, statement, -⟩ := chain_eq home chain found
  refine ⟨⟨diagnosed, isLink, statement⟩, fun link member => ?_⟩
  obtain ⟨access, below, -, made⟩ := ((chain_links home chain found).2 link).mp member
  exact ⟨access, below, made⟩

theorem chain_in_order (home : Node) (chain : ShimChain) (found : ShimChain.find? home = some chain) :
    chain.links.Pairwise fun earlier later => earlier.target.path < later.target.path := by
  obtain ⟨-, first, -, -, -, -, links⟩ := chain_eq home chain found
  have order := (List.pairwise_cons.mp (Node.descendants_in_order home.classScope)).2
  have own : ∀ (access : Node) (link : ShimLink), (if access.firstChild?.map Node.trimmed = some first.trimmed then
      ShimLink.of? access else none) = some link → link.target = access := by
    intro access link made
    split at made
    · obtain ⟨assignment, shape⟩ := link_shape access link made
      exact shape.member
    · cases made
  rw [links]
  refine List.pairwise_filterMap.mpr ((order.filter _).imp ?_)
  intro access access' before link made link' made'
  rw [own access link made, own access' link' made']
  exact before

structure ShimLink.Within (home : Node) (link : ShimLink) : Prop where
  statement : link.statement.SameTree home
  target : link.target.SameTree home
  value : link.value.SameTree home

theorem link_within (home target : Node) (link : ShimLink) (same : target.SameTree home)
    (found : ShimLink.of? target = some link) : link.Within home := by
  obtain ⟨assignment, shape⟩ := link_shape target link found
  have assignmentTree := Node.same_tree_trans (Node.same_tree_of_parent target assignment shape.parent) same
  exact ⟨Node.same_tree_trans (Node.same_tree_of_parent assignment _ shape.statement) assignmentTree, shape.member ▸ same,
    Node.same_tree_trans (Node.same_tree_of_child_at assignment _ 1 shape.value) assignmentTree⟩

theorem chain_within (home : Node) (chain : ShimChain) (found : ShimChain.find? home = some chain) :
    chain.diagnosed.SameTree home ∧ ∀ link ∈ chain.links, link.Within home := by
  obtain ⟨⟨diagnosed, isLink, same⟩, links⟩ := chain_shape home chain found
  refine ⟨same ▸ (link_within home home diagnosed ⟨rfl, rfl⟩ isLink).statement, ?_⟩
  intro link member
  obtain ⟨access, below, made⟩ := links link member
  have accessTree := Node.same_tree_of_descendant home.classScope access
    (List.mem_cons_of_mem _ (List.mem_filter.mp below).1)
  exact link_within home access link (Node.same_tree_trans accessTree (same_tree_of_class_scope home)) made

end SmellCheck.Fix
