import SmellCheck.Proofs.BottomUp
import SmellCheck.Proofs.Comments

/-!
Comments in lambda bodies. Where a body that only returns gives way to its expression, what stands beside
the expression goes, its comments with it, and so at every depth. Inlining keeps exactly the comments that
are in the expression of every body around them.
-/

set_option autoImplicit false

namespace SmellCheck

namespace Node

structure Returns (body expression : Node) : Prop where
  inLambda : body.parentKind?.any Kind.isLambda
  isBlock : body.kind = .block
  only : ∃ statement, body.children = [statement] ∧ statement.kind = .returnStmt ∧ statement.firstChild? = some expression

def returned? (body : Node) : Option Node :=
  if (Fix.returnedBy? body).isSome then body.firstChild?.bind firstChild? else none

-- The place is in the expression of every body below the node that it is in.
def KeptBelow (node holder : Node) : Prop :=
  ∀ body ∈ node.descendants, ∀ expression ∈ body.returned?, holder ∈ body.descendantsOrSelf → holder ∈ expression.descendantsOrSelf

instance (node holder : Node) : Decidable (node.KeptBelow holder) := inferInstanceAs (Decidable (∀ _ ∈ _, ∀ _ ∈ _, _ → _))

theorem around_same (first second place : Node) (inFirst : place ∈ first.descendantsOrSelf) (inSecond : place ∈ second.descendantsOrSelf) :
    second ∈ first.descendantsOrSelf ∨ second ∈ first.ancestors := by
  have firstSame := same_tree_symm (same_tree_of_descendant first place inFirst)
  have secondSame := same_tree_symm (same_tree_of_descendant second place inSecond)
  have same := same_tree_trans firstSame (same_tree_symm secondSame)
  rw [mem_descendants_or_self_iff, mem_ancestors_or_self_iff _ _ firstSame] at inFirst
  rw [mem_descendants_or_self_iff, mem_ancestors_or_self_iff _ _ secondSame] at inSecond
  rw [mem_descendants_or_self_iff, mem_ancestors_or_self_iff _ _ same, mem_ancestors_iff _ _ (same_tree_symm same)]
  rcases List.prefix_or_prefix_of_prefix inFirst inSecond with lower | higher
  · exact .inl lower
  · by_cases self : second = first
    · exact .inl (self ▸ List.prefix_refl _)
    · exact .inr ⟨higher, self⟩

theorem topmost (wanted : Node → Prop) (node : Node) (here : wanted node) :
    ∃ top ∈ node.ancestorsOrSelf, wanted top ∧ ∀ above ∈ top.ancestors, ¬ wanted above := by
  by_cases higher : ∃ above ∈ node.ancestors, wanted above
  · obtain ⟨above, isAbove, also⟩ := higher
    obtain ⟨step, rest, path⟩ := path_of_ancestor above node isAbove
    obtain ⟨top, within, isTop, none⟩ := topmost wanted above also
    refine ⟨top, ?_, isTop, none⟩
    rcases List.mem_cons.mp within with rfl | beyond
    · exact List.mem_cons_of_mem _ isAbove
    · exact List.mem_cons_of_mem _ (ancestors_trans _ _ _ beyond isAbove)
  · exact ⟨node, List.mem_cons_self, here, fun above isAbove also => higher ⟨above, isAbove, also⟩⟩
termination_by node.path.length
decreasing_by simp [path]

theorem returned_by_returns (body : Node) (tree : Tree) :
    Fix.returnedBy? body = some tree ↔ ∃ expression, body.Returns expression ∧ expression.focus = tree := by
  rw [Fix.returned_by_iff]
  constructor
  · rintro ⟨inLambda, returned⟩
    obtain ⟨statement, only, isReturn, expression, first, rfl⟩ := Fix.returned_place body tree returned
    exact ⟨expression, ⟨inLambda, ((returned_iff _ _).mp returned).1, statement, only, isReturn, first⟩, rfl⟩
  · rintro ⟨expression, ⟨inLambda, isBlock, statement, only, isReturn, first⟩, rfl⟩
    refine ⟨inLambda, (returned_iff _ _).mpr ⟨isBlock, statement.focus, ?_, isReturn, ?_⟩⟩
    · rw [← children_focus, only, List.map_singleton]
    · rw [← first_child_focus, first, Option.map_some]

theorem returns_iff (body expression : Node) : body.returned? = some expression ↔ body.Returns expression := by
  have first (place : Node) (returns : body.Returns place) : body.firstChild?.bind firstChild? = some place := by
    obtain ⟨statement, only, -, isFirst⟩ := returns.only
    rw [firstChild?, only, List.head?_cons, Option.bind_some, isFirst]
  unfold returned?
  constructor
  · intro found
    split at found
    · rename_i returned
      obtain ⟨tree, returned⟩ := Option.isSome_iff_exists.mp returned
      obtain ⟨place, returns, -⟩ := (returned_by_returns body tree).mp returned
      obtain rfl := Option.some.inj ((first place returns).symm.trans found)
      exact returns
    · cases found
  · intro returns
    rw [(returned_by_returns body expression.focus).mpr ⟨expression, returns, rfl⟩, first expression returns]
    rfl

theorem returned_focus (body : Node) : body.returned?.map focus = Fix.returnedBy? body := by
  ext tree
  rw [returned_by_returns, Option.map_eq_some_iff]
  simp only [returns_iff]

theorem not_returned (body : Node) (other : Fix.returnedBy? body = none) : body.returned? = none := by
  rw [returned?, other]
  rfl

theorem expression_of_body (body expression : Node) (returns : body.Returns expression) :
    expression ∈ body.descendants ∧ expression.returned? = none ∧
      ∀ above ∈ expression.ancestors, above ∈ body.descendants → above.returned? = none := by
  obtain ⟨statement, only, isReturn, first⟩ := returns.only
  have isStatement : statement ∈ body.children := by simp [only]
  have isChild : expression ∈ statement.children := List.mem_of_head? first
  refine ⟨below_of_child body statement expression (child_below body statement isStatement) isChild,
    not_returned _ (Fix.not_returned_of_parent statement expression isChild (by rw [isReturn]; rfl)), fun above higher lower => ?_⟩
  rw [ancestors_of_parent expression statement (parent_of_child statement expression isChild),
    ancestors_of_parent statement body (parent_of_child body statement isStatement)] at higher
  have strictly := (mem_descendants_iff body above).mp lower
  rcases List.mem_cons.mp higher with rfl | further
  · exact not_returned _ (Fix.not_returned_of_parent body above isStatement (by rw [returns.isBlock]; rfl))
  · exact absurd further (not_around body above strictly)

theorem kept_in_place (node place holder : Node) (below : place ∈ node.descendants)
    (clear : ∀ above ∈ place.ancestors, above ∈ node.descendants → above.returned? = none) (within : holder ∈ place.descendantsOrSelf) :
    node.KeptBelow holder ↔ (∀ expression ∈ place.returned?, holder ∈ expression.descendantsOrSelf) ∧ place.KeptBelow holder := by
  constructor
  · intro kept
    refine ⟨fun expression returned => kept place below expression returned within, fun body isBody => kept body ?_⟩
    rw [mem_descendants_iff] at below isBody ⊢
    exact ancestors_trans _ _ _ below isBody
  · rintro ⟨here, deeper⟩ body isBody expression returned inBody
    rcases around_same place body holder within inBody with lower | higher
    · rcases List.mem_cons.mp lower with rfl | lower
      · exact here expression returned
      · exact deeper body lower expression returned inBody
    · cases (clear body higher isBody).symm.trans returned

end Node

namespace Fix

theorem inline_token_texts (tree : Tree) (kind : Kind) : (inlineTree tree).tokenTexts kind = tree.tokenTexts kind := by
  rw [inline_tree_eq]
  split
  · rw [Tree.tokenTexts, Tree.tokenTexts, forest_inline_bodies_eq, List.filterMap_map]
    refine List.filterMap_congr fun element _ => ?_
    cases element with
    | token raw text => cases tree.kind.isLambda <;> rfl
    | node raw children =>
        have inlined := inline_tree_to_element ⟨raw, children⟩
        rw [← show (⟨raw, children⟩ : Tree).toElement = .node raw children from rfl, Function.comp_apply, ← inlined, inline_body_element]
        rfl
  · rfl

theorem inline_child (node child : Node) (isChild : child ∈ node.children) :
    (inlineTree child.focus).inlineBody node.kind.isLambda = inlineTree (child.returned?.getD child).focus := by
  rw [inline_body_changed inlineTree inline_tree_kind inline_subtrees, inline_body_of_child node child isChild,
    ← Node.returned_focus]
  cases child.returned? <;> rfl

section
variable (node : Node)

def CommentsInlined : Prop :=
  (inlineTree node.focus).comments.Perm ((node.descendantsOrSelf.filter (node.KeptBelow ·)).flatMap Node.ownComments)

theorem standing_comments (place : Node) (below : place ∈ node.descendants)
    (clear : ∀ above ∈ place.ancestors, above ∈ node.descendants → above.returned? = none)
    (inlined : CommentsInlined (place.returned?.getD place)) :
    (inlineTree (place.returned?.getD place).focus).comments.Perm
      ((place.descendantsOrSelf.filter (node.KeptBelow ·)).flatMap Node.ownComments) := by
  refine inlined.trans (List.Perm.flatMap_right _ ?_)
  cases returned : place.returned? with
  | none =>
      refine .of_eq (List.filter_congr fun holder within => ?_)
      rw [decide_eq_decide, Node.kept_in_place node place holder below clear within, returned]
      simp
  | some expression =>
      obtain ⟨inner, none, between⟩ := Node.expression_of_body place expression ((Node.returns_iff _ _).mp returned)
      refine (List.perm_ext_iff_of_nodup ((Node.places_nodup _).filter _) ((Node.places_nodup _).filter _)).mpr fun holder => ?_
      have inExpression (within : holder ∈ expression.descendantsOrSelf) : place.KeptBelow holder ↔ expression.KeptBelow holder := by
        rw [Node.kept_in_place place expression holder inner between within, none]
        simp
      simp only [Option.getD_some, List.mem_filter, decide_eq_true_iff]
      constructor
      · rintro ⟨within, kept⟩
        have inPlace := Node.below_trans place expression holder (List.mem_cons_of_mem _ inner) within
        refine ⟨inPlace, (Node.kept_in_place node place holder below clear inPlace).mpr ⟨?_, (inExpression within).mpr kept⟩⟩
        rw [returned]
        rintro other ⟨⟩
        exact within
      · rintro ⟨inPlace, kept⟩
        obtain ⟨here, deeper⟩ := (Node.kept_in_place node place holder below clear inPlace).mp kept
        exact ⟨here expression returned, (inExpression (here expression returned)).mp deeper⟩

theorem inlined_from_children (each : ∀ child ∈ node.children, CommentsInlined (child.returned?.getD child)) : CommentsInlined node := by
  have own : node.KeptBelow node := fun body isBody expression _ inBody => by
    rw [Node.mem_descendants_iff] at isBody
    rw [Node.mem_descendants_or_self_iff] at inBody
    exact absurd inBody (Node.not_around node body isBody)
  have stands (child : Node) (isChild : child ∈ node.children) := by
    refine standing_comments node child ((Node.mem_descendants _ _).mpr ⟨child, isChild, List.mem_cons_self⟩) ?_ (each child isChild)
    intro above higher lower
    rw [Node.mem_descendants_iff] at lower
    rw [Node.ancestors_of_parent child node (Node.parent_of_child node child isChild)] at higher
    exact absurd higher (Node.not_around node above lower)
  have inlined : (inlineTree node.focus).subtrees.flatMap Tree.comments =
      node.children.flatMap fun child => (inlineTree (child.returned?.getD child).focus).comments := by
    rw [inline_tree_subtrees, ← Node.children_focus, List.map_map, List.flatMap_map]
    exact List.flatMap_congr fun child isChild => congrArg Tree.comments (inline_child node child isChild)
  have kept : (node.descendantsOrSelf.filter (node.KeptBelow ·)).flatMap Node.ownComments = node.ownComments ++
      node.children.flatMap fun child => (child.descendantsOrSelf.filter (node.KeptBelow ·)).flatMap Node.ownComments := by
    rw [Node.descendantsOrSelf, List.filter_cons_of_pos (by simpa using own), List.flatMap_cons, Node.descendants_eq,
      List.filter_flatMap, List.flatMap_assoc]
  rw [CommentsInlined, kept]
  refine (tree_comments _).trans ?_
  rw [inline_token_texts, inlined]
  exact List.Perm.append_left _ (List.Perm.flatMap_left _ stands)

end

-- Inlining keeps the comments of exactly the places that are in the expression of every body around them.
theorem inline_comments (node : Node) : CommentsInlined node := by
  suffices all : ∀ below ∈ node.descendantsOrSelf, CommentsInlined below from all node List.mem_cons_self
  induction node using Node.induction_down with
  | step node ih =>
      intro below member
      rcases List.mem_cons.mp member with rfl | deeper
      · refine inlined_from_children below fun child isChild => ih child isChild _ ?_
        cases returned : child.returned? with
        | none => exact List.mem_cons_self
        | some expression =>
            exact List.mem_cons_of_mem _ (Node.expression_of_body child expression ((Node.returns_iff _ _).mp returned)).1
      · obtain ⟨child, isChild, within⟩ := (Node.mem_descendants _ _).mp deeper
        exact ih child isChild below within

section
variable (scope : Node)

theorem in_planned_body (reached : ¬ Covered scope) (body expression : Node) (isBody : body ∈ scope.descendants) (returns : body.Returns expression) :
    ∃ item ∈ returningBodies scope, body ∈ item.1.descendantsOrSelf := by
  obtain ⟨top, above, returned, none⟩ := Node.topmost (fun node => returnedBy? node ≠ none) body (by
    rw [(Node.returned_by_returns body _).mpr ⟨expression, returns, rfl⟩]
    exact nofun)
  have within := (Node.mem_descendants_or_self_iff top body).mpr above
  have inScope : top ∈ scope.descendantsOrSelf :=
    (Node.around_same scope top body (List.mem_cons_of_mem _ isBody) within).resolve_right fun higher => reached ⟨top, higher, returned⟩
  obtain ⟨tree, isTree⟩ := Option.ne_none_iff_exists'.mp returned
  exact ⟨(top, tree), (mem_returning_bodies _ _ _).mpr ⟨inScope, isTree, fun outer higher => not_not.mp (none outer higher)⟩, within⟩

variable (isScope : scope.kind = .classDecl ∨ scope.isRoot)
include isScope

theorem planned_comments (item : Node × Tree) (member : item ∈ returningBodies scope) :
    (bodyRequest item).goneComments.Perm (item.1.descendantsOrSelf.flatMap Node.ownComments) ∧
      (bodyRequest item).newComments.Perm
        ((item.1.descendantsOrSelf.filter (scope.KeptBelow ·)).flatMap Node.ownComments) := by
  obtain ⟨body, tree⟩ := item
  obtain ⟨inScope, returned, outermost⟩ := (mem_returning_bodies _ _ _).mp member
  refine ⟨Node.comments_of_places body, ?_⟩
  have below : body ∈ scope.descendants := by
    rcases List.mem_cons.mp inScope with rfl | below
    · rw [not_returned_of_scope body isScope] at returned
      cases returned
    · exact below
  obtain ⟨expression, returns, rfl⟩ := (Node.returned_by_returns body tree).mp returned
  have found := (Node.returns_iff body expression).mpr returns
  have standing := standing_comments scope body below (fun above higher _ => Node.not_returned above (outermost above higher))
    (inline_comments _)
  rw [found, Option.getD_some] at standing
  have given : Forest.tokens (bodyRequest (body, expression.focus)).given = (inlineTree expression.focus).tokens :=
    List.append_nil _
  rw [Request.newComments, given]
  exact standing

theorem bodies_keep_comments_iff (reached : ¬ Covered scope) : scope.root.KeepsComments (bodySession scope).apply ↔
    ∀ body ∈ scope.descendants, ∀ expression, body.Returns expression → body.CommentsWithin [expression] := by
  let done := (Session.start scope).accepted (bodyRequests scope)
  let places := done.flatMap fun request => request.target.descendantsOrSelf
  have planned (request : Request) (member : request ∈ done) : ∃ item ∈ returningBodies scope, bodyRequest item = request :=
    List.mem_map.mp (Session.mem_accepted _ _ _ member)
  have gone : (done.flatMap Request.goneComments).Perm (places.flatMap Node.ownComments) := by
    rw [List.flatMap_assoc]
    refine List.Perm.flatMap_left _ fun request member => ?_
    obtain ⟨item, isBody, rfl⟩ := planned request member
    exact (planned_comments scope isScope item isBody).1
  have given : (done.flatMap Request.newComments).Perm
      ((places.filter (scope.KeptBelow ·)).flatMap Node.ownComments) := by
    rw [List.filter_flatMap, List.flatMap_assoc]
    refine List.Perm.flatMap_left _ fun request member => ?_
    obtain ⟨item, isBody, rfl⟩ := planned request member
    exact (planned_comments scope isScope item isBody).2
  have kept := Session.keeps_comments_iff scope (bodyRequests scope)
  rw [gone.subperm_right, given.subperm_left, all_kept_iff] at kept
  refine kept.trans ⟨fun all body isBody expression returns holder inBody some => ?_, fun each holder _ some => ?_⟩
  · obtain ⟨item, isItem, within⟩ := in_planned_body scope reached body expression isBody returns
    have isPlace : holder ∈ places :=
      List.mem_flatMap.mpr ⟨_, bodies_accepted scope item isItem, Node.below_trans item.1 body holder within inBody⟩
    have keeps := of_decide_eq_true (all holder isPlace some)
    exact ⟨expression, List.mem_singleton_self _, keeps body isBody expression ((Node.returns_iff _ _).mpr returns) inBody⟩
  · refine decide_eq_true fun body isBody expression returned inBody => ?_
    obtain ⟨part, isPart, within⟩ := each body isBody expression ((Node.returns_iff _ _).mp returned) holder inBody some
    exact List.mem_singleton.mp isPart ▸ within

end

theorem use_lambda_expression_keeps_iff (home : Node) : home.root.KeepsComments ((useLambdaExpression home).getD home.root) ↔
    Covered home.classScope ∨
      ∀ body ∈ home.classScope.descendants, ∀ expression, body.Returns expression → body.CommentsWithin [expression] := by
  have isScope := Node.class_scope_kind home
  have applied := Session.apply_if_any_of_run home.classScope (bodyRequests home.classScope)
  rw [use_lambda_expression_eq, ← (same_tree_of_class_scope home).2, bodySession, applied]
  by_cases covered : Covered home.classScope
  · rw [bodyRequests, no_bodies_of_covered home.classScope isScope covered]
    exact iff_of_true (.refl _) (.inl covered)
  · rw [or_iff_right covered]
    exact bodies_keep_comments_iff home.classScope isScope covered

end Fix

end SmellCheck
