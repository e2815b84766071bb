import SmellCheck.Proofs.AfterExchange
import SmellCheck.Proofs.Convergence
import SmellCheck.Proofs.Copying

/-!
Inlining from the bottom up. Read as one recursion, inlining puts in the place of a lambda's body that only
returns the expression that it returns, inlined in its turn, and leaves everything else as it is. The
repair plans the outermost bodies and goes on inside their expressions; what it makes of a class is what
the one recursion makes of it.
-/

set_option autoImplicit false

namespace SmellCheck

def Element.mapTree (change : Tree → Tree) : Element → Element
  | .token raw text => .token raw text
  | .node raw children => (change ⟨raw, children⟩).toElement

namespace Tree

theorem subtree_smaller (tree part : Tree) (isPart : part ∈ tree.subtrees) : sizeOf part < sizeOf tree := by
  obtain ⟨element, member, isNode⟩ := List.mem_filterMap.mp isPart
  have smaller := List.sizeOf_lt_of_mem member
  cases element with
  | token raw text => cases isNode
  | node raw children =>
      cases isNode
      obtain ⟨raw', children'⟩ := tree
      simp only [Element.node.sizeOf_spec, Tree.mk.sizeOf_spec] at smaller ⊢
      omega

theorem inline_body_size (inLambda : Bool) (tree : Tree) : sizeOf (tree.inlineBody inLambda) ≤ sizeOf tree := by
  unfold inlineBody
  split
  · cases returned : tree.returned? with
    | none => exact Nat.le_refl _
    | some expression =>
        obtain ⟨-, statement, only, -, first⟩ := (returned_iff _ _).mp returned
        have inner := subtree_smaller statement expression (List.mem_of_head? first)
        have outer := subtree_smaller tree statement (by simp [only])
        exact Nat.le_of_lt (Nat.lt_trans inner outer)
  · exact Nat.le_refl _

-- Every child is inlined; a body that only returns gives way to its expression first.
def inlined (tree : Tree) : Tree :=
  ⟨tree.raw, tree.children.attach.map fun
    | ⟨.token raw text, _⟩ => .token raw text
    | ⟨.node raw children, _⟩ => (inlined ((⟨raw, children⟩ : Tree).inlineBody tree.kind.isLambda)).toElement⟩
termination_by sizeOf tree
decreasing_by
  rename_i member
  exact Nat.lt_of_le_of_lt (inline_body_size _ _) (subtree_smaller tree _ (List.mem_filterMap.mpr ⟨_, member, rfl⟩))

theorem inlined_eq (tree : Tree) : tree.inlined =
    ⟨tree.raw, tree.children.map (Element.mapTree fun child => (child.inlineBody tree.kind.isLambda).inlined)⟩ := by
  rw [inlined]
  congr 1
  conv_rhs => rw [← List.attach_map_subtype_val tree.children, List.map_map]
  refine List.map_congr_left ?_
  rintro ⟨child, member⟩ -
  cases child <;> rfl

theorem inlined_kind (tree : Tree) : tree.inlined.kind = tree.kind := by
  rw [inlined_eq]
  rfl

theorem map_tree_subtrees (change : Tree → Tree) (forest : List Element) :
    (forest.map (Element.mapTree change)).filterMap Element.asNode? = (forest.filterMap Element.asNode?).map change := by
  induction forest with
  | nil => rfl
  | cons element rest ih =>
      cases element with
      | token raw text => exact ih
      | node raw children => exact congrArg (List.cons _) ih

theorem map_tree_same (change : Tree → Tree) (forest : List Element)
    (same : ∀ tree ∈ forest.filterMap Element.asNode?, change tree = tree) : forest.map (Element.mapTree change) = forest := by
  refine (List.map_congr_left ?_).trans (List.map_id forest)
  intro element member
  cases element with
  | token raw text => rfl
  | node raw children => exact congrArg Tree.toElement (same ⟨raw, children⟩ (List.mem_filterMap.mpr ⟨_, member, rfl⟩))

theorem inlined_subtrees (tree : Tree) :
    tree.inlined.subtrees = tree.subtrees.map fun child => (child.inlineBody tree.kind.isLambda).inlined := by
  rw [inlined_eq]
  exact map_tree_subtrees _ _

theorem inlined_children (tree : Tree) (other : tree.kind.isLambda = false) :
    tree.inlined.subtrees = tree.subtrees.map inlined := by
  rw [inlined_subtrees, other]
  rfl

theorem inlined_settled (tree : Tree) (settled : tree.Settled) : tree.inlined = tree := by
  rw [inlined_eq]
  refine congrArg (Tree.mk tree.raw) (map_tree_same _ _ ?_)
  intro part isPart
  obtain ⟨partSettled, noBody⟩ := (settled_iff tree).mp settled part isPart
  have same := inlined_settled part partSettled
  rw [inlineBody]
  split
  · rename_i inLambda
    rw [noBody inLambda]
    exact same
  · exact same
termination_by sizeOf tree
decreasing_by exact subtree_smaller tree part isPart

end Tree

namespace Fix

theorem inline_tree_eq_inlined (home node : Node) (known : home.KindsKnown) (same : node.SameTree home) :
    inlineTree node.focus = node.focus.inlined := by
  induction node using Node.induction_down with
  | step node ih =>
      rw [inline_tree_eq]
      split
      · have children : Forest.inlineBodies node.focus.kind.isLambda node.focus.children =
            node.focus.children.map (Element.mapTree fun child => (child.inlineBody node.focus.kind.isLambda).inlined) := by
          rw [forest_inline_bodies_eq]
          refine List.map_congr_left ?_
          intro element member
          cases element with
          | token raw text => cases node.focus.kind.isLambda <;> rfl
          | node raw children =>
              have isPart : (⟨raw, children⟩ : Tree) ∈ node.focus.subtrees := List.mem_filterMap.mpr ⟨_, member, rfl⟩
              obtain ⟨child, isChild, focus⟩ := (Node.mem_subtrees_iff _ _).mp isPart
              have inner := ih child isChild (Node.same_tree_trans (Node.same_tree_of_child node child isChild) same)
              rw [focus] at inner
              show (Tree.toElement ⟨raw, children⟩).inlineBodies.inlineBody node.focus.kind.isLambda = _
              rw [← inline_tree_to_element, inner, inline_body_element,
                inline_body_changed Tree.inlined Tree.inlined_kind Tree.inlined_children]
              rfl
        have own : node.focus.kind.raw = node.focus.raw := Node.kind_known home node known same
        rw [children, own, Tree.inlined_eq]
      · rename_i settled
        exact (Tree.inlined_settled node.focus (Bool.eq_false_iff.mpr settled)).symm

end Fix

section
variable (plan : Plan) (exchanges : plan.Exchanges)
include exchanges

theorem written_one_each (stands : Tree → Tree) (snapshot : Nat) (raw : RawKind) (context : List Frame)
    (before : List Element) (before? : Option Element) (start rest : List Element)
    (one : ∀ child ∈ Node.childrenFrom snapshot raw context before rest, child.successors plan = [stands child.focus]) :
    Forest.written (plan.below (Frame.pathOf context)) before.length before? ⟨start, false⟩ rest =
      ⟨(rest.map (Element.mapTree stands)).reverse ++ start, false⟩ := by
  induction rest generalizing before before? start with
  | nil => rfl
  | cons element rest ih =>
      have turn : Written.next (plan.below (Frame.pathOf context)) before.length before? ⟨start, false⟩ element =
          ⟨element.mapTree stands :: start, false⟩ := by
        cases element with
        | token raw text => rfl
        | node raw' children =>
            have here := one _ List.mem_cons_self
            have next := Node.next_child plan ⟨snapshot, ⟨raw', children⟩, ⟨raw, before, rest⟩ :: context⟩ _ _ before?
              ⟨start, false⟩ rfl
            refine Eq.trans next ?_
            unfold Node.successors at here
            cases planned : plan.edit? (⟨snapshot, ⟨raw', children⟩, ⟨raw, before, rest⟩ :: context⟩ : Node).path with
            | none =>
                rw [planned] at here
                exact congrArg (fun tree : Tree => (⟨tree.toElement :: start, false⟩ : Written)) (List.cons.inj here).1
            | some edit =>
                obtain ⟨tree, rfl⟩ := exchanges _ edit planned
                rw [planned] at here
                exact congrArg (fun tree : Tree => (⟨tree.toElement :: start, false⟩ : Written)) (List.cons.inj here).1
      have later := ih (element :: before) (some element) (element.mapTree stands :: start) (by
        intro child isChild
        refine one child ?_
        cases element with
        | token _ _ => exact isChild
        | node _ _ => exact List.mem_cons_of_mem _ isChild)
      rw [Forest.written, turn]
      simpa using later

theorem rewritten_one_each (stands : Tree → Tree) (node : Node) (known : node.kind.raw = node.focus.raw)
    (one : ∀ child ∈ node.children, child.successors plan = [stands child.focus]) :
    (node.rewritten plan).focus = ⟨node.focus.raw, node.focus.children.map (Element.mapTree stands)⟩ := by
  have written := written_one_each plan exchanges stands node.snapshot node.focus.raw node.context [] none [] node.focus.children one
  have whole := rewrite_of_written (plan.below node.path) node.focus.raw node.focus.children _ known written
  exact to_element_injective _ _ ((tree_rewrite_to_element _ node.focus).trans whole)

end

namespace Fix

section
variable (scope : Node)

theorem bodies_exchanged : (bodySession scope).edits.Exchanges := by
  intro path edit planned
  rw [bodySession, Session.planned_edit (Session.reached_history scope _)] at planned
  obtain ⟨request, found, rfl⟩ := Option.map_eq_some_iff.mp planned
  obtain ⟨⟨body, expression⟩, -, rfl⟩ :=
    List.mem_map.mp (Session.mem_accepted _ _ _ (Session.on_eq_some path request found).1)
  exact ⟨inlineTree expression, rfl⟩

theorem inline_body_of_child (node child : Node) (isChild : child ∈ node.children) :
    child.focus.inlineBody node.kind.isLambda = (returnedBy? child).getD child.focus := by
  have parentKind : child.parentKind? = some node.kind := by
    rw [Node.parentKind?, Node.parent_of_child node child isChild]
    rfl
  rw [Tree.inlineBody, returnedBy?, parentKind, Option.any_some]
  split <;> rfl

theorem inlined_without_bodies (node : Node) (nothing : ∀ below ∈ node.descendants, returnedBy? below = none) :
    node.focus.inlined = node.focus := by
  induction node using Node.induction_down with
  | step node ih =>
      rw [Tree.inlined_eq]
      refine congrArg (Tree.mk node.focus.raw) (Tree.map_tree_same _ _ ?_)
      intro part isPart
      obtain ⟨child, isChild, rfl⟩ := (Node.mem_subtrees_iff node part).mp isPart
      have below : ∀ lower ∈ child.descendantsOrSelf, returnedBy? lower = none := fun lower within =>
        nothing lower ((Node.mem_descendants _ _).mpr ⟨child, isChild, within⟩)
      show (child.focus.inlineBody node.kind.isLambda).inlined = child.focus
      rw [inline_body_of_child node child isChild, below child List.mem_cons_self, Option.getD_none]
      exact ih child isChild fun lower deeper => below lower (List.mem_cons_of_mem _ deeper)

theorem rewritten_inlined (known : scope.KindsKnown) (node : Node) (below : node ∈ scope.descendantsOrSelf) (clear : Clear node) :
    (node.rewritten (bodySession scope).edits).focus = node.focus.inlined := by
  induction node using Node.induction_down with
  | step node ih =>
      have own := Node.kind_known scope node known (Node.same_tree_of_descendant scope node below)
      rw [Tree.inlined_eq]
      refine rewritten_one_each _ (bodies_exchanged scope) _ node own ?_
      intro child isChild
      have childBelow := List.mem_cons_of_mem scope (Node.below_of_child scope node child below isChild)
      have same := Node.same_tree_of_descendant scope child childBelow
      show _ = [(child.focus.inlineBody node.kind.isLambda).inlined]
      rw [inline_body_of_child node child isChild]
      cases returned : returnedBy? child with
      | some expression =>
          have edit := edit_of_body scope child expression (body_of_clear scope node child below clear isChild expression returned)
          obtain ⟨statement, only, -, place, first, rfl⟩ := returned_place child expression ((returned_by_iff _ _).mp returned).2
          have isStatement : statement ∈ child.children := by simp [only]
          have statementSame := Node.same_tree_trans (Node.same_tree_of_child child statement isStatement) same
          have placeSame := Node.same_tree_trans (Node.same_tree_of_first_child statement place first) statementSame
          rw [Node.successors, edit, Option.getD_some, ← inline_tree_eq_inlined scope place known placeSame]
          rfl
      | none =>
          rw [Node.successors_alone _ child (edit_elsewhere scope child same returned),
            ih child isChild childBelow (clear_child node child clear isChild returned), Option.getD_none]

theorem stands_inlined (known : scope.KindsKnown) (node : Node) (below : node ∈ scope.descendantsOrSelf) (clear : Clear node) :
    (bodySession scope).apply.toElement.at? node.path = some node.focus.inlined.toElement := by
  have reached : Session.Reached scope (bodySession scope) _ := Session.reached_history scope (bodyRequests scope)
  have same := Node.same_tree_of_descendant scope node below
  have survives : node.Survives (bodySession scope).edits := by
    intro path edit isPrefix _ planned
    obtain ⟨request, found, rfl⟩ := Option.map_eq_some_iff.mp ((Session.planned_edit reached path).symm.trans planned)
    obtain ⟨member, rfl⟩ := Session.on_eq_some path request found
    obtain ⟨⟨body, expression⟩, isBody, rfl⟩ := List.mem_map.mp (Session.mem_accepted _ _ _ member)
    obtain ⟨bodyBelow, returned, -⟩ := (mem_returning_bodies _ _ _).mp isBody
    have bodySame := Node.same_tree_trans (Node.same_tree_of_descendant scope body bodyBelow) (Node.same_tree_symm same)
    have above := clear body ((Node.mem_ancestors_or_self_iff body node bodySame).mpr isPrefix)
    cases above.symm.trans returned
  have root := Node.rewritten_root (bodySession scope).edits node survives
  have path : (node.rewritten (bodySession scope).edits).path = node.path :=
    alike_path _ _ (rewrite_all_alike _ (bodies_exchanged scope) node.context)
  have applied : (bodySession scope).apply = (node.rewritten (bodySession scope).edits).root := by
    rw [Session.apply, root, reached.root, same.2]
  rw [applied, ← path, ← rewritten_inlined scope known node below clear]
  exact rise_at _ _

end

end Fix

namespace Catalog

open SmellCheck.Fix

-- The repaired document is the old one with the class inlined from the bottom up. Every node around the
-- bodies stands where it stood, with what is below it inlined; so it is as it was where there is no body
-- below it.
theorem lambda_repair_inlines (catalog : Catalog) (inForce : (catalog.get? .useLambdaExpression).isSome) (home : Node)
    (known : home.KindsKnown) (outside : ∀ above ∈ home.classScope.ancestors, returnedBy? above = none) :
    let scope := home.classScope
    let result := Frame.rise scope.focus.inlined scope.context
    catalog.fix Rule.useLambdaExpression.id home = .ok result ∧
      ∀ node ∈ scope.descendantsOrSelf, (∀ above ∈ node.ancestorsOrSelf, returnedBy? above = none) →
        result.toElement.at? node.path = some node.focus.inlined.toElement ∧
          ((∀ below ∈ node.descendants, returnedBy? below = none) → node.focus.inlined = node.focus) := by
  intro scope result
  have isScope := Node.class_scope_kind home
  have same := same_tree_of_class_scope home
  have scopeKnown := Node.kinds_known_of_same_tree home scope known same
  have clear : Clear scope := by
    intro above member
    rcases List.mem_cons.mp member with rfl | higher
    · exact not_returned_of_scope scope isScope
    · exact outside above higher
  have applied : (bodySession scope).apply = result := by
    have stays := body_session_stays scope isScope
    have inlined := rewritten_inlined scope scopeKnown scope List.mem_cons_self clear
    rw [Session.apply, stays.root, rewrite_below _ scope stays.edits (Node.frames_known scope scopeKnown)]
    exact congrArg (Frame.rise · scope.context) inlined
  refine ⟨?_, ?_⟩
  · rw [fix_in_force catalog .useLambdaExpression useLambdaExpression rfl inForce home, use_lambda_expression_eq, ← same.2]
    exact congrArg Except.ok ((Session.apply_if_any_of_run _ _).trans applied)
  · intro node below nodeClear
    rw [← applied]
    exact ⟨stands_inlined scope scopeKnown node below nodeClear, inlined_without_bodies node⟩

theorem nested_lambdas_inlined :
    let returning (expression : Tree) := Build.block [Build.returnStmt (some expression)]
    let type (name : String) (body : Tree) := Build.classDecl [] name [Build.method [] [] (Build.predefinedType "object") "M"
      (Build.parameterList []) (Build.arrowClause (Build.simpleLambda "x" body))]
    let inner (body : Tree) := Build.simpleLambda "y" body
    let settled := inner (Build.identifierName "x")
    let home : Node := ⟨0, type "A" (returning (inner (returning (Build.identifierName "x")))),
      [⟨Kind.compilationUnit.raw, [], [Build.whitespace "\n", (type "B" (returning settled)).toElement]⟩]⟩
    let result := Build.compilationUnit [type "A" settled, type "B" (returning settled)]
    (builtin.get? .useLambdaExpression).isSome ∧ home.KindsKnown ∧
      (∀ above ∈ home.classScope.ancestors, returnedBy? above = none) ∧
      builtin.fix Rule.useLambdaExpression.id home = .ok result ∧
      result = Frame.rise home.classScope.focus.inlined home.classScope.context := by
  intro returning type inner settled home result
  have inForce : (builtin.get? .useLambdaExpression).isSome := by
    rw [builtin_get]
    rfl
  have known : home.KindsKnown := by decide
  have outside : ∀ above ∈ home.classScope.ancestors, returnedBy? above = none := by decide
  have fixed : builtin.fix Rule.useLambdaExpression.id home = .ok result :=
    builtin_fix .useLambdaExpression useLambdaExpression rfl home result (by decide)
  have inlined := (lambda_repair_inlines builtin inForce home known outside).1
  exact ⟨inForce, known, outside, fixed, Except.ok.inj (fixed.symm.trans inlined)⟩

end Catalog

end SmellCheck
