import SmellCheck.Proofs.DroppedValues
import SmellCheck.Proofs.InlinedComments
import SmellCheck.Proofs.TokenPlaces

/-!
Which comments repairs keep. A repair makes what it puts in from parts of what it takes out, and the
comments beside those parts are lost: those in a field outside of its attributes, its modifiers and its
type, those in the body of a lambda beside the expression, and those in a literal that gives way to a name.
-/

set_option autoImplicit false

namespace SmellCheck

namespace Fix

def listsOf (field : Node) : List Node := field.childrenOfKind .attributeList ++ (field.childOfKind? .modifierList).toList

def carriedParts (field : Node) : List Node := listsOf field ++ ((field.childOfKind? .variableDecl).bind Node.firstChild?).toList

def namedLiterals (scope : Node) : List Node :=
  (((Session.start scope).accepted (requests scope)).filter Request.isDestructive).map Request.target

-- The parts that new constants are made from: for each of them the lists of the last constant, after which they are
-- declared, and the first of the literals that it names.
def constantParts (scope : Node) : List Node :=
  let plan := planConstants scope
  match plan.last? with
  | some last =>
      if last.isRoot then []
      else plan.fresh.flatMap fun group => group.2.head?.toList.flatMap fun literal => listsOf last ++ [literal]
  | none => []

theorem lists_focus (field : Node) : (listsOf field).map Node.focus = attributeLists field ++ (modifierList? field).toList := by
  rw [listsOf, List.map_append, ← Option.toList_map]
  rfl

theorem lists_comments (field : Node) : (listsOf field).flatMap (·.focus.comments) =
    (attributeLists field).flatMap Tree.comments ++ (modifierList? field).toList.flatMap Tree.comments := by
  rw [← List.flatMap_append, ← lists_focus, List.flatMap_map]

theorem property_comments (field : Node) (property : Tree) (made : propertyFor? field = some property) :
    property.comments = (carriedParts field).flatMap (·.focus.comments) := by
  obtain ⟨name, declaration, type, isDeclaration, isType, rfl⟩ := property_for_some field property made
  rw [Tree.comments, property_tokens]
  simp only [comments_of_append, comments_of_flat_map]
  rw [carriedParts, isDeclaration, Option.bind_some, isType, List.flatMap_append, lists_comments]
  have own : commentsOf ((.ident, name) :: Build.autoAccessors.tokens) = [] := rfl
  rw [own, List.append_nil]
  exact congrArg _ (List.append_nil _).symm

theorem mem_lists (field list : Node) (member : list ∈ listsOf field) :
    list ∈ field.children ∧ (list.kind = .attributeList ∨ list.kind = .modifierList) := by
  rcases List.mem_append.mp member with isAttributes | isModifiers
  · obtain ⟨isChild, kind⟩ := List.mem_filter.mp isAttributes
    exact ⟨isChild, .inl (eq_of_beq kind)⟩
  · obtain ⟨isChild, kind⟩ := Node.child_of_kind field list _ (Option.mem_toList.mp isModifiers)
    exact ⟨isChild, .inr kind⟩

theorem lists_nodup (field : Node) : (listsOf field).Nodup := by
  refine List.nodup_append.mpr ⟨(Node.children_nodup field).filter _, ?_, ?_⟩
  · cases field.childOfKind? .modifierList <;> simp
  · rintro attributes isAttributes modifiers isModifiers rfl
    have kind := eq_of_beq (List.mem_filter.mp isAttributes).2
    rw [(Node.child_of_kind field attributes _ (Option.mem_toList.mp isModifiers)).2] at kind
    cases kind

theorem mem_type (field type : Node) (member : type ∈ ((field.childOfKind? .variableDecl).bind Node.firstChild?).toList) :
    ∃ declaration ∈ field.children, declaration.kind = .variableDecl ∧ type ∈ declaration.children := by
  obtain ⟨declaration, found, isFirst⟩ := Option.bind_eq_some_iff.mp (Option.mem_toList.mp member)
  obtain ⟨isChild, kind⟩ := Node.child_of_kind field declaration _ found
  exact ⟨declaration, isChild, kind, List.mem_of_head? isFirst⟩

theorem carried_inside (field : Node) : ∀ part ∈ carriedParts field, part ∈ field.descendantsOrSelf := by
  intro part member
  rcases List.mem_append.mp member with isList | isType
  · exact Node.child_below field part (mem_lists field part isList).1
  · obtain ⟨declaration, isChild, -, isPart⟩ := mem_type field part isType
    exact List.mem_cons_of_mem _ (Node.below_of_child field declaration part (Node.child_below field declaration isChild) isPart)

theorem carried_apart (field : Node) :
    (carriedParts field).Pairwise fun first second => List.Disjoint first.descendantsOrSelf second.descendantsOrSelf := by
  have apart (first second : Node) (isFirst : first ∈ field.children) (isSecond : second ∈ field.children) (different : first ≠ second) :
      List.Disjoint first.descendantsOrSelf second.descendantsOrSelf := fun place inFirst inSecond =>
    different (Node.child_of_place field second first place isSecond isFirst inSecond inFirst)
  refine List.pairwise_append.mpr ⟨?_, ?_, ?_⟩
  · exact (lists_nodup field).imp_of_mem fun isFirst isSecond different =>
      apart _ _ (mem_lists field _ isFirst).1 (mem_lists field _ isSecond).1 different
  · cases (field.childOfKind? .variableDecl).bind Node.firstChild? <;> simp
  · intro list isList type isType place inList inType
    obtain ⟨isChild, kind⟩ := mem_lists field list isList
    obtain ⟨declaration, isDeclaration, other, isPart⟩ := mem_type field type isType
    have different : list ≠ declaration := by
      rintro rfl
      rw [other] at kind
      rcases kind with kind | kind <;> cases kind
    exact apart list declaration isChild isDeclaration different inList
      (Node.below_trans declaration type place (Node.child_below declaration type isPart) inType)

theorem encapsulate_field_keeps_iff (field : Node) : field.root.KeepsComments ((encapsulateField field).getD field.root) ↔
    ((encapsulateField field).isSome → field.CommentsWithin (carriedParts field)) := by
  cases rewritten : encapsulateField field with
  | none => exact iff_of_true (.refl _) nofun
  | some result =>
      obtain ⟨property, exposed, made, inner, -⟩ := encapsulate_field_some field result rewritten
      have notRoot : field ≠ .ofRoot field.snapshot field.root := fun same =>
        Bool.eq_false_iff.mp inner ((Node.is_root_iff field field ⟨rfl, rfl⟩).mpr same)
      have performed := Session.perform_admissible (Session.reached_start field) (.replace field [property])
        ⟨⟨rfl, rfl⟩, notRoot, nofun⟩
      have accepted : (Session.start field).accepted [.replace field [property]] = [.replace field [property]] := by
        rw [Session.accepted, performed]
        rfl
      have asked : newMembers? .encapsulateField field = some (.replace field [property]) := by
        rw [newMembers?, if_pos exposed, made]
        rfl
      have applied := encapsulate_field_eq field
      rw [asked, rewritten] at applied
      have given : (Request.replace field [property]).newComments = property.comments := congrArg commentsOf (List.append_nil _)
      have gone : (Request.replace field [property]).goneComments = field.focus.comments := rfl
      have kept := Session.keeps_comments_iff field [.replace field [property]]
      rw [accepted, List.flatMap_singleton, List.flatMap_singleton, gone, given, property_comments field property made,
        Node.comments_within_iff field _ (carried_inside field) (carried_apart field)] at kept
      rw [applied]
      simpa using kept

theorem constant_comments (template : Node) (name : String) (literal : Tree) : (constantLike template name literal).comments =
    (listsOf template).flatMap (·.focus.comments) ++ literal.comments := by
  have declaration : commentsOf (declarationOf name literal).tokens = literal.comments := by
    have tokens : (declarationOf name literal).tokens =
        (.keyword, "string") :: (.ident, name) :: (.punct, "=") :: (literal.tokens ++ [] ++ [] ++ []) := rfl
    rw [tokens, List.append_nil, List.append_nil, List.append_nil]
    rfl
  have tokens : (constantLike template name literal).tokens = (attributeLists template).flatMap Tree.tokens ++
      (modifierList? template).toList.flatMap Tree.tokens ++ ((declarationOf name literal).tokens ++ [(.punct, ";")]) := by
    rw [constantLike, Build.field, Build.tree, Tree.tokens, forest_tokens_append, forest_tokens_append, spaced_tokens, spaced_tokens]
    rfl
  rw [Tree.comments, tokens]
  simp only [comments_of_append, comments_of_flat_map]
  rw [lists_comments, declaration]
  exact congrArg _ (List.append_nil _)

theorem gone_comments (done : List Request) :
    done.flatMap Request.goneComments = ((done.filter Request.isDestructive).map Request.target).flatMap (·.focus.comments) := by
  induction done with
  | nil => rfl
  | cons request rest ih =>
      by_cases destructive : request.isDestructive
      · have gone : request.goneComments = request.target.focus.comments := congrArg commentsOf (if_pos destructive)
        rw [List.flatMap_cons, List.filter_cons_of_pos destructive, List.map_cons, List.flatMap_cons, gone, ih]
      · have gone : request.goneComments = [] := congrArg commentsOf (if_neg destructive)
        rw [List.flatMap_cons, List.filter_cons_of_neg destructive, gone, ih, List.nil_append]

theorem new_field_comments (scope last : Node) : ((planConstants scope).newFields last).flatMap Tree.comments =
    ((planConstants scope).fresh.flatMap fun group => group.2.head?.toList.flatMap fun literal => listsOf last ++ [literal]).flatMap
      (·.focus.comments) := by
  unfold ConstantPlan.newFields
  induction (planConstants scope).fresh with
  | nil => rfl
  | cons group rest ih =>
      obtain ⟨name, literals⟩ := group
      cases literals with
      | nil => exact ih
      | cons literal others =>
          have here := constant_comments last name literal.focus
          simp only [List.filterMap_cons, List.flatMap_cons, List.head?_cons, Option.map_some, Option.toList_some, List.flatMap_append,
            List.flatMap_nil, List.append_nil] at ih ⊢
          rw [ih, here]

theorem named_comments (scope : Node) : ((Session.start scope).accepted (requests scope)).flatMap Request.newComments =
    (constantParts scope).flatMap (·.focus.comments) := by
  have names : ((withConstants scope).accepted ((planConstants scope).uses.map naming)).flatMap Request.newComments = [] := by
    refine List.flatMap_eq_nil_iff.mpr fun request member => ?_
    obtain ⟨use, -, rfl⟩ := List.mem_map.mp (Session.mem_accepted _ _ _ member)
    rfl
  rw [requests, Session.accepted_append, List.flatMap_append, ← withConstants, names, List.append_nil]
  cases isLast : (planConstants scope).last? with
  | none => simp [newConstants, constantParts, isLast, Session.accepted]
  | some last =>
      by_cases nothing : (planConstants scope).fresh.isEmpty
      · simp [newConstants, constantParts, isLast, Session.accepted, List.isEmpty_iff.mp nothing]
      · have asked : newConstants scope = [.insertAfter last ((planConstants scope).newFields last)] := by
          simp only [newConstants, isLast]
          rw [if_neg nothing]
        have same := same_tree_of_constant_field scope last (last_constant scope last isLast)
        simp only [asked, constantParts, isLast]
        by_cases top : last.isRoot
        · obtain ⟨error, refused, -⟩ := Session.perform_refused (Session.reached_start scope)
            (.insertAfter last ((planConstants scope).newFields last)) fun admissible =>
              admissible.2.1 ((Node.is_root_iff last scope same).mp top)
          rw [Session.accepted, refused, if_pos top]
          rfl
        · have performed := Session.perform_admissible (Session.reached_start scope)
            (.insertAfter last ((planConstants scope).newFields last))
            ⟨same, fun root => top ((Node.is_root_iff last scope same).mpr root), fun _ asked => by cases asked⟩
          have trees : (Request.insertAfter last ((planConstants scope).newFields last)).newComments =
              ((planConstants scope).newFields last).flatMap Tree.comments := by
            rw [Request.newComments, Request.given, forest_tokens_eq, List.flatMap_map, comments_of_flat_map]
            rfl
          rw [Session.accepted, performed, if_neg top, ← new_field_comments, ← trees]
          exact List.append_nil _

theorem replace_magic_values_keeps_iff (home : Node) : home.root.KeepsComments ((replaceMagicValues home).getD home.root) ↔
    ((namedLiterals home.classScope).flatMap (·.focus.comments)).Subperm
      ((constantParts home.classScope).flatMap (·.focus.comments)) := by
  let scope := home.classScope
  have kept := Session.keeps_comments_iff scope (requests scope)
  rw [named_comments, gone_comments] at kept
  rw [names_applied, ← (same_tree_of_class_scope home).2]
  exact kept

end Fix

namespace Catalog

open SmellCheck.Fix

-- A field is encapsulated with all its comments exactly when they are in the parts that the property is made from;
-- lambda bodies are rewritten with all comments exactly when every body, those inside others too, has its comments in its
-- expression; and literals get names with all comments exactly when the new constants have those of the literals that go.
theorem repair_keeps_comments_iff (catalog : Catalog) (home : Node) :
    ((catalog.get? .encapsulateField).isSome → ∃ result, catalog.fix Rule.encapsulateField.id home = .ok result ∧
      (home.root.KeepsComments result ↔ ((encapsulateField home).isSome → home.CommentsWithin (carriedParts home)))) ∧
    ((catalog.get? .useLambdaExpression).isSome → ∃ result, catalog.fix Rule.useLambdaExpression.id home = .ok result ∧
      (home.root.KeepsComments result ↔ Covered home.classScope ∨
        ∀ body ∈ home.classScope.descendants, ∀ expression, body.Returns expression → body.CommentsWithin [expression])) ∧
    ((catalog.get? .replaceMagicValues).isSome → ∃ result, catalog.fix Rule.replaceMagicValues.id home = .ok result ∧
      (home.root.KeepsComments result ↔ ((namedLiterals home.classScope).flatMap (·.focus.comments)).Subperm
        ((constantParts home.classScope).flatMap (·.focus.comments)))) := by
  refine ⟨fun inForce => ?_, fun inForce => ?_, fun inForce => ?_⟩
  · exact ⟨_, fix_in_force catalog .encapsulateField encapsulateField rfl inForce home, encapsulate_field_keeps_iff home⟩
  · exact ⟨_, fix_in_force catalog .useLambdaExpression useLambdaExpression rfl inForce home, use_lambda_expression_keeps_iff home⟩
  · exact ⟨_, fix_in_force catalog .replaceMagicValues replaceMagicValues rfl inForce home, replace_magic_values_keeps_iff home⟩

section
variable (within beside : List Element)

def remark : Element := Build.token .comment "/* c */"

def methodWith (statement : Tree) : Tree :=
  Build.method [] [] (Build.predefinedType "int") "M" (Build.parameterList []) (Build.block [statement])

def remarkedField : Node :=
  let type := Build.tree .predefinedType (Build.keyword "int" :: within)
  let declaration := Build.tree .variableDecl
    (type.toElement :: beside ++ [Build.space, (Build.variableDeclarator "count" none).toElement])
  let whole := Node.ofRoot 0 (Build.classDecl [] "C" [Build.field [] (some (Build.modifierList ["public"])) declaration])
  whole.firstChild?.getD whole

def remarkedLambda : Node :=
  let expression := Build.tree .identifierName (Build.ident "x" :: within)
  let body := Build.tree .block
    (Build.punct "\x7b" :: beside ++ [(Build.returnStmt (some expression)).toElement, Build.punct "\x7d"])
  .ofRoot 0 (Build.classDecl [] "C" [methodWith (Build.exprStmt (Build.simpleLambda "x" body))])

def returning (value : Tree) : Tree :=
  Build.tree .returnStmt (Build.keyword "return" :: Build.space :: value.toElement :: beside ++ [Build.punct ";"])

def literalWith : Tree := Build.tree .literal (Build.token .stringLit "\"a\"" :: within)

def constantA (statement : Tree) : Tree :=
  Build.classDecl [] "C"
    [Build.simpleField ["const"] (Build.predefinedType "string") "A" (some (literalWith within)), methodWith statement]

def remarkedLiteral : Node := .ofRoot 0 (constantA within (returning beside (literalWith within)))

end

theorem remarks_kept :
    let field := remarkedField [remark] []
    let lambda := remarkedLambda [remark] []
    let literal := remarkedLiteral [] [remark]
    (∃ result, builtin.fix Rule.encapsulateField.id field = .ok result ∧ (encapsulateField field).isSome ∧
        field.root.KeepsComments result) ∧
      (∃ result, builtin.fix Rule.useLambdaExpression.id lambda = .ok result ∧ (useLambdaExpression lambda).isSome ∧
        lambda.root.KeepsComments result) ∧
      ∃ result, builtin.fix Rule.replaceMagicValues.id literal = .ok result ∧ (replaceMagicValues literal).isSome ∧
        literal.root.KeepsComments result := by
  intro field lambda literal
  have inForce (rule : Rule) : (builtin.get? rule).isSome := by
    rw [builtin_get]
    rfl
  obtain ⟨encapsulated, fixed, kept⟩ := (repair_keeps_comments_iff builtin field).1 (inForce _)
  obtain ⟨inlined, fixed', kept'⟩ := (repair_keeps_comments_iff builtin lambda).2.1 (inForce _)
  obtain ⟨named, fixed'', kept''⟩ := (repair_keeps_comments_iff builtin literal).2.2 (inForce _)
  have inParts : field.CommentsWithin (carriedParts field) := by decide +kernel
  have inExpressions : ∀ body ∈ lambda.classScope.descendants, ∀ expression ∈ body.returned?, body.CommentsWithin [expression] := by
    decide +kernel
  refine ⟨⟨encapsulated, fixed, by decide +kernel, kept.mpr fun _ => inParts⟩,
    ⟨inlined, fixed', by decide +kernel, kept'.mpr (.inr fun body isBody expression returns => ?_)⟩,
    ⟨named, fixed'', by decide +kernel, kept''.mpr (by decide +kernel)⟩⟩
  exact inExpressions body isBody expression ((Node.returns_iff body expression).mpr returns)

theorem remarks_lost :
    let field := remarkedField [] [remark]
    let lambda := remarkedLambda [] [remark]
    let literal := remarkedLiteral [remark] []
    let inlined := Build.classDecl [] "C" [methodWith (Build.exprStmt (Build.simpleLambda "x" (Build.identifierName "x")))]
    let named := constantA [remark] (returning [] (Build.identifierName "A"))
    (builtin.fix Rule.encapsulateField.id field = .ok counted ∧ ¬ field.root.KeepsComments counted) ∧
      (builtin.fix Rule.useLambdaExpression.id lambda = .ok inlined ∧ ¬ lambda.root.KeepsComments inlined) ∧
      (builtin.fix Rule.replaceMagicValues.id literal = .ok named ∧ ¬ literal.root.KeepsComments named) := by
  intro field lambda literal inlined named
  refine ⟨⟨?_, by decide +kernel⟩, ⟨?_, by decide +kernel⟩, ⟨?_, by decide +kernel⟩⟩
  · exact builtin_fix .encapsulateField encapsulateField rfl field counted (by decide +kernel)
  · exact builtin_fix .useLambdaExpression useLambdaExpression rfl lambda inlined (by decide +kernel)
  · exact builtin_fix .replaceMagicValues replaceMagicValues rfl literal named (by decide +kernel)

end Catalog

end SmellCheck
