import Mathlib.Data.List.Basic
import SmellCheck.Proofs.Applying
import SmellCheck.Proofs.ChildNodes
import SmellCheck.Proofs.Confinement
import SmellCheck.Proofs.InlinedBodies
import SmellCheck.Repair

/-!
Lambda bodies are settled by one repair. The bodies that are inside no other one are all planned, each
with its expression inlined, and what is around them keeps its shape; so nothing in the class is left
to rewrite, however deep the lambdas are nested.
-/

set_option autoImplicit false

namespace SmellCheck.Fix

-- A node that has a body that only returns above it.
def Covered (node : Node) : Prop := ∃ ancestor ∈ node.ancestors, returnedBy? ancestor ≠ none

theorem parent_kind_of_frame (snapshot snapshot' : Nat) (focus : Tree) (context : List Frame) :
    returnedBy? ⟨snapshot, focus, context⟩ = returnedBy? ⟨snapshot', focus, context⟩ := by
  cases context <;> rfl

theorem covered_of_focus (node other : Node) (focus : node.focus = other.focus) (context : node.context = other.context)
    (covered : Covered node) : Covered other := by
  obtain ⟨ancestor, above, returned⟩ := covered
  obtain ⟨below, outer, split, nonempty, rfl⟩ := (Node.mem_ancestors _ _).mp above
  refine ⟨⟨other.snapshot, Frame.rise other.focus below, outer⟩, ?_, ?_⟩
  · exact (Node.mem_ancestors _ _).mpr ⟨below, outer, context ▸ split, nonempty, rfl⟩
  · rw [← focus, ← parent_kind_of_frame node.snapshot]
    exact returned

theorem not_returned_of_scope (scope : Node) (isScope : scope.kind = .classDecl ∨ scope.isRoot) : returnedBy? scope = none := by
  refine Option.eq_none_iff_forall_ne_some.mpr ?_
  intro expression returned
  rcases isScope with isClass | isRoot
  · rw [block_of_returned_by scope expression returned] at isClass
    cases isClass
  · have inLambda := ((returned_by_iff scope expression).mp returned).1
    have top : scope.parent = none := by
      rw [Node.parent, List.isEmpty_iff.mp isRoot]
    rw [Node.parentKind?, top] at inLambda
    cases inLambda

theorem no_bodies_of_covered (scope : Node) (isScope : scope.kind = .classDecl ∨ scope.isRoot) (covered : Covered scope) :
    returningBodies scope = [] := by
  refine List.eq_nil_iff_forall_not_mem.mpr ?_
  rintro ⟨body, expression⟩ member
  obtain ⟨below, returned, outermost⟩ := (mem_returning_bodies _ _ _).mp member
  obtain ⟨ancestor, above, found⟩ := covered
  rcases List.mem_cons.mp ((Node.mem_descendants_or_self_iff _ _).mp below) with rfl | higher
  · rw [not_returned_of_scope scope isScope] at returned
    cases returned
  · exact found (outermost ancestor (Node.ancestors_trans _ _ _ above higher))

theorem no_bodies_of_settled (scope : Node) (isScope : scope.kind = .classDecl ∨ scope.isRoot) (settled : scope.focus.Settled) :
    returningBodies scope = [] := by
  have below : ∀ node : Node, node.focus.Settled → ∀ body ∈ node.descendants, returnedBy? body = none := by
    intro node
    induction node using Node.induction_down with
    | step node ih =>
        intro settled body member
        obtain ⟨child, isChild, within⟩ := (Node.mem_descendants _ _).mp member
        have part : child.focus ∈ node.focus.subtrees := (Node.mem_subtrees_iff _ _).mpr ⟨child, isChild, rfl⟩
        obtain ⟨childSettled, noBody⟩ := (settled_iff _).mp settled child.focus part
        rcases List.mem_cons.mp within with rfl | deeper
        · rw [returnedBy?, Node.parentKind?, Node.parent_of_child node body isChild]
          split
          · rename_i inLambda
            exact noBody inLambda
          · rfl
        · exact ih child isChild childSettled body deeper
  refine List.eq_nil_iff_forall_not_mem.mpr ?_
  rintro ⟨body, expression⟩ member
  obtain ⟨within, returned, -⟩ := (mem_returning_bodies _ _ _).mp member
  rcases List.mem_cons.mp within with rfl | deeper
  · rw [not_returned_of_scope body isScope] at returned
    cases returned
  · rw [below scope settled body deeper] at returned
    cases returned

def bodyRequest (item : Node × Tree) : Request := .replace item.1 [inlineTree item.2]

def bodyRequests (scope : Node) : List Request := (returningBodies scope).map bodyRequest

def bodySession (scope : Node) : Session := (Session.start scope).run (bodyRequests scope)

theorem use_lambda_expression_eq (node : Node) : useLambdaExpression node = (bodySession node.classScope).applyIfAny := by
  rw [bodySession, bodyRequests, ← Session.plan_all_eq_run]
  rfl

theorem bodies_apart (scope : Node) (first second : Node × Tree) (isFirst : first ∈ returningBodies scope)
    (isSecond : second ∈ returningBodies scope) (different : first.1 ≠ second.1) :
    (bodyRequest first).Apart (bodyRequest second) := by
  obtain ⟨-, firstReturned, firstOutermost⟩ := (mem_returning_bodies _ _ _).mp isFirst
  obtain ⟨-, secondReturned, secondOutermost⟩ := (mem_returning_bodies _ _ _).mp isSecond
  refine ⟨different, fun _ above => ?_, fun _ above => ?_⟩
  · cases (secondOutermost first.1 above).symm.trans firstReturned
  · cases (firstOutermost second.1 above).symm.trans secondReturned

theorem bodies_accepted (scope : Node) (item : Node × Tree) (member : item ∈ returningBodies scope) :
    bodyRequest item ∈ (Session.start scope).accepted (bodyRequests scope) := by
  obtain ⟨body, expression⟩ := item
  obtain ⟨below, returned, -⟩ := (mem_returning_bodies _ _ _).mp member
  have inner : body.isRoot = false := by
    by_contra top
    rw [not_returned_of_scope body (.inr (by simpa using top))] at returned
    cases returned
  have apart : ∀ first ∈ bodyRequests scope, ∀ second ∈ bodyRequests scope, first.target ≠ second.target →
      first.Apart second := by
    intro first isFirst second isSecond different
    obtain ⟨item, isBody, rfl⟩ := List.mem_map.mp isFirst
    obtain ⟨item', isBody', rfl⟩ := List.mem_map.mp isSecond
    exact bodies_apart scope item item' isBody isBody' different
  obtain ⟨request, planned, target⟩ := Session.target_accepted scope (bodyRequests scope) apart
    (bodyRequest (body, expression)) (List.mem_map_of_mem member) (Node.same_tree_of_descendant scope body below) inner
  -- A body has one expression, so the request planned for it is this one.
  obtain ⟨⟨other, expression'⟩, isBody, rfl⟩ := List.mem_map.mp (Session.mem_accepted _ _ _ planned)
  obtain rfl : other = body := target
  obtain ⟨-, returned', -⟩ := (mem_returning_bodies _ _ _).mp isBody
  obtain rfl : expression' = expression := Option.some.inj (returned'.symm.trans returned)
  exact planned

theorem edit_of_body (scope body : Node) (expression : Tree) (member : (body, expression) ∈ returningBodies scope) :
    (bodySession scope).edits.edit? body.path = some (.replace [inlineTree expression]) :=
  Session.edit_of_planned (Session.reached_history scope _) _ (bodies_accepted scope _ member)

theorem edit_elsewhere (scope node : Node) (same : node.SameTree scope) (other : returnedBy? node = none) :
    (bodySession scope).edits.edit? node.path = none := by
  refine Option.eq_none_iff_forall_ne_some.mpr fun edit planned => ?_
  obtain ⟨request, present, target, -⟩ := (Session.edit_iff (Session.reached_history scope _) node same edit).mp planned
  obtain ⟨⟨body, expression⟩, isBody, rfl⟩ := List.mem_map.mp (Session.mem_accepted _ _ _ present)
  have returned := ((mem_returning_bodies _ _ _).mp isBody).2.1
  rw [show body = node from target, other] at returned
  cases returned

def Clear (node : Node) : Prop := ∀ ancestor ∈ node.ancestorsOrSelf, returnedBy? ancestor = none

theorem clear_child (node child : Node) (clear : Clear node) (isChild : child ∈ node.children)
    (other : returnedBy? child = none) : Clear child := by
  intro ancestor above
  rcases List.mem_cons.mp above with rfl | higher
  · exact other
  · rw [Node.ancestors_of_parent child node (Node.parent_of_child node child isChild)] at higher
    exact clear ancestor higher

theorem not_returned_of_parent (node child : Node) (isChild : child ∈ node.children) (other : node.kind.isLambda = false) :
    returnedBy? child = none := by
  rw [returnedBy?, Node.parentKind?, Node.parent_of_child node child isChild, if_neg (by simp [other])]

theorem body_of_clear (scope node child : Node) (below : node ∈ scope.descendantsOrSelf) (clear : Clear node)
    (isChild : child ∈ node.children) (expression : Tree) (returned : returnedBy? child = some expression) :
    (child, expression) ∈ returningBodies scope := by
  refine (mem_returning_bodies _ _ _).mpr ⟨List.mem_cons_of_mem scope (Node.below_of_child scope node child below isChild), returned, ?_⟩
  rw [Node.ancestors_of_parent child node (Node.parent_of_child node child isChild)]
  exact clear

section
variable (scope : Node)

theorem rewritten_children (node : Node) (same : node.SameTree scope) (other : node.kind.isLambda = false) :
    (node.rewritten (bodySession scope).edits).focus.subtrees =
      node.children.map fun child => (child.rewritten (bodySession scope).edits).focus := by
  rw [Node.rewritten_subtrees, List.map_eq_flatMap]
  refine List.flatMap_congr ?_
  intro child isChild
  exact Node.successors_alone _ child (edit_elsewhere scope child
    (Node.same_tree_trans (Node.same_tree_of_child node child isChild) same) (not_returned_of_parent node child isChild other))

theorem rewritten_not_returned (node : Node) (same : node.SameTree scope) (other : node.focus.returned? = none) :
    (node.rewritten (bodySession scope).edits).focus.returned? = none := by
  refine (returned_none_iff _).mpr ?_
  rintro ⟨isBlock, tree, only, isReturn, some⟩
  have kind : node.kind = .block := (Node.rewritten_kind _ node).symm.trans isBlock
  rw [rewritten_children scope node same (by rw [kind]; rfl)] at only
  obtain ⟨statement, isOnly, rfl⟩ := List.map_eq_singleton_iff.mp only
  have isChild : statement ∈ node.children := by simp [isOnly]
  have isStatement : statement.kind = .returnStmt := (Node.rewritten_kind _ statement).symm.trans isReturn
  rw [rewritten_children scope statement (Node.same_tree_trans (Node.same_tree_of_child node statement isChild) same)
    (by rw [isStatement]; rfl)] at some
  refine (returned_none_iff _).mp other ⟨kind, statement.focus, ?_, isStatement, ?_⟩
  · rw [← Node.children_focus, isOnly]
    rfl
  · rw [← Node.children_focus]
    simpa using some

theorem rewritten_settled (plain : scope.ReturnsNoBlock) (node : Node) (below : node ∈ scope.descendantsOrSelf)
    (clear : Clear node) : (node.rewritten (bodySession scope).edits).focus.Settled := by
  induction node using Node.induction_down with
  | step node ih =>
      refine (settled_iff _).mpr ?_
      rw [Node.rewritten_subtrees]
      intro part member
      obtain ⟨child, isChild, isPart⟩ := List.mem_flatMap.mp member
      have childBelow := List.mem_cons_of_mem scope (Node.below_of_child scope node child below isChild)
      have same := Node.same_tree_of_descendant scope child childBelow
      cases returned : returnedBy? child with
      | some expression =>
          have isBody := body_of_clear scope node child below clear isChild expression returned
          obtain rfl : part = inlineTree expression := by
            rw [Node.successors, edit_of_body scope child expression isBody] at isPart
            exact List.mem_singleton.mp isPart
          obtain ⟨statement, only, isReturn, place, first, rfl⟩ :=
            returned_place child expression ((returned_by_iff _ _).mp returned).2
          have isStatement : statement ∈ child.children := by simp [only]
          have statementBelow := List.mem_cons_of_mem scope (Node.below_of_child scope child statement childBelow isStatement)
          have placeBelow := List.mem_cons_of_mem scope
            (Node.below_of_child scope statement place statementBelow (List.mem_of_head? first))
          refine ⟨inline_focus_settled place (Node.returns_no_block_below scope place plain placeBelow), fun _ => ?_⟩
          refine returned_of_other _ ?_
          rw [inline_tree_kind]
          exact plain statement statementBelow isReturn place first
      | none =>
          rw [Node.successors_alone _ child (edit_elsewhere scope child same returned)] at isPart
          obtain rfl := List.mem_singleton.mp isPart
          refine ⟨ih child isChild childBelow (clear_child node child clear isChild returned), ?_⟩
          intro inLambda
          refine rewritten_not_returned scope child same ?_
          have parentKind : child.parentKind? = some node.kind := by
            rw [Node.parentKind?, Node.parent_of_child node child isChild]
            rfl
          have lambdaAbove : (some node.kind).any Kind.isLambda := by
            rw [← Node.rewritten_kind (bodySession scope).edits node]
            exact inLambda
          rw [returnedBy?, parentKind, if_pos lambdaAbove] at returned
          exact returned

end

theorem body_session_stays (scope : Node) (isScope : scope.kind = .classDecl ∨ scope.isRoot) :
    (bodySession scope).StaysIn scope := by
  refine Session.stays_in_run scope _ fun request asked => ?_
  obtain ⟨⟨body, expression⟩, isBody, rfl⟩ := List.mem_map.mp asked
  obtain ⟨below, returned, -⟩ := (mem_returning_bodies _ _ _).mp isBody
  rcases List.mem_cons.mp ((Node.mem_descendants_or_self_iff _ _).mp below) with same | above
  · rw [← same, not_returned_of_scope scope isScope] at returned
    cases returned
  · exact above

theorem place_after (scope : Node) (isScope : scope.kind = .classDecl ∨ scope.isRoot) (plain : scope.ReturnsNoBlock) :
    ∃ place : Node, place.root = (bodySession scope).apply ∧ place.path = scope.path ∧
      (place.kind = .classDecl ∨ place.isRoot) ∧ (place.focus.Settled ∨ Covered place) := by
  by_cases clear : Clear scope
  · obtain ⟨root, path⟩ := Session.stays_in_stands scope (bodySession scope) (body_session_stays scope isScope)
    refine ⟨scope.rewritten (bodySession scope).edits, root, path, ?_,
      .inl (rewritten_settled scope plain scope List.mem_cons_self clear)⟩
    rw [Node.rewritten_kind]
    refine isScope.imp_right fun isRoot => ?_
    rw [Node.isRoot, List.isEmpty_iff] at isRoot
    rw [Node.isRoot, Node.rewritten, Node.inPlace, isRoot]
    rfl
  · have covered : Covered scope := by
      obtain ⟨ancestor, other⟩ := Classical.not_forall.mp clear
      obtain ⟨above, returned⟩ := Classical.not_imp.mp other
      rcases List.mem_cons.mp above with rfl | higher
      · exact absurd (not_returned_of_scope ancestor isScope) returned
      · exact ⟨ancestor, higher, returned⟩
    refine ⟨scope, ?_, rfl, isScope, .inr covered⟩
    rw [bodySession, bodyRequests, no_bodies_of_covered scope isScope covered]
    exact (Session.apply_nothing scope).symm

end SmellCheck.Fix

namespace SmellCheck.Catalog

open SmellCheck.Fix

-- The repaired class has no bodies that only return, so a second run leaves it as it is.
theorem lambda_repair_converges (catalog : Catalog) (home : Node) (result : Tree)
    (plain : (Node.ofRoot home.snapshot home.root).ReturnsNoBlock)
    (fixed : catalog.fix Rule.useLambdaExpression.id home = .ok result) :
    (∃ place : Node, place.root = result ∧ place.path = home.classScope.path) ∧
      ∀ place : Node, place.root = result → place.path = home.classScope.path →
        returningBodies place = [] ∧ catalog.fix Rule.useLambdaExpression.id place = .ok result := by
  have isScope := Node.class_scope_kind home
  have same := same_tree_of_class_scope home
  have scopePlain := Node.returns_no_block_below _ home.classScope plain (Node.mem_whole_tree home _ same)
  obtain ⟨after, root, path, afterScope, quiet⟩ := place_after home.classScope isScope scopePlain
  have applied : result = (bodySession home.classScope).apply := by
    rw [(fix_again catalog .useLambdaExpression useLambdaExpression rfl home home result fixed).1, use_lambda_expression_eq,
      ← same.2]
    exact Session.apply_if_any_of_run _ _
  refine ⟨⟨after, root.trans applied.symm, path⟩, ?_⟩
  intro place placeRoot placePath
  -- The address fixes the place but for its snapshot.
  obtain ⟨context, focus⟩ := Frame.rise_injective place.context after.context place.focus after.focus
    (placePath.trans path.symm) (placeRoot.trans (applied.trans root.symm))
  have placeScope : place.kind = .classDecl ∨ place.isRoot := by
    rw [Node.kind, Node.isRoot, focus, context]
    exact afterScope
  have none : returningBodies place = [] := by
    rcases quiet with settled | covered
    · exact no_bodies_of_settled place placeScope (focus ▸ settled)
    · exact no_bodies_of_covered place placeScope (covered_of_focus after place focus.symm context.symm covered)
  refine ⟨none, ?_⟩
  rw [(fix_again catalog .useLambdaExpression useLambdaExpression rfl home place result fixed).2, use_lambda_expression_eq,
    Node.class_scope_self place placeScope, bodySession, bodyRequests, none]
  exact congrArg Except.ok placeRoot

theorem nested_lambdas_converge :
    let returning (expression : Tree) := Build.block [Build.returnStmt (some expression)]
    let inner := Build.simpleLambda "y" (returning (Build.identifierName "x"))
    let home := Node.ofRoot 0 (Build.block [Build.exprStmt (Build.simpleLambda "x" (returning inner))])
    let result := Build.block [Build.exprStmt (Build.simpleLambda "x" (Build.simpleLambda "y" (Build.identifierName "x")))]
    home.ReturnsNoBlock ∧ builtin.fix Rule.useLambdaExpression.id home = .ok result ∧
      home.classScope.path = [] ∧ builtin.fix Rule.useLambdaExpression.id (.ofRoot 1 result) = .ok result := by
  intro returning inner home result
  have plain : home.ReturnsNoBlock := by decide
  have fixed : builtin.fix Rule.useLambdaExpression.id home = .ok result :=
    builtin_fix .useLambdaExpression useLambdaExpression rfl home result (by decide)
  have root : home.classScope.path = [] := by decide
  exact ⟨plain, fixed, root, ((lambda_repair_converges builtin home result plain fixed).2 (.ofRoot 1 result) rfl root.symm).2⟩

end SmellCheck.Catalog
