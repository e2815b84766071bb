import SmellCheck.Proofs.Confinement
import SmellCheck.Proofs.Constants
import SmellCheck.Proofs.ReturningBodies
import SmellCheck.Proofs.ShimLinks
import SmellCheck.Repair

/-!
Repairs are confined to the class that the repaired node is in. Every fixer plans below that class
only, with one exception: the statement that a simplified chain is folded into is looked for above the
node, and so above the class when the node is a class itself.
-/

set_option autoImplicit false

namespace SmellCheck.Fix

section
variable (home : Node) (known : home.classScope.KindsKnown)
include known

theorem encapsulate_field_stays (result : Tree) (fixed : encapsulateField home = some result) :
    home.classScope.Exchanged result := by
  unfold encapsulateField at fixed
  split at fixed
  · cases fixed
  · rename_i exposed
    simp only [bind, Option.bind_eq_some_iff, pure, Option.some.injEq] at fixed
    obtain ⟨property, -, session, planned, rfl⟩ := fixed
    have isField : home.kind = .fieldDecl := by
      simp [Node.isExposedField] at exposed
      exact exposed.1.1.1
    exact Session.stays_in_apply _ known session (Session.stays_in_plan_of_scope _ (Node.class_scope_kind home) _ _ home _
      (Session.stays_in_start _ home (same_tree_of_class_scope home)) (Node.class_scope_above home) (by simp [isField])
      (to_option_ok planned))

omit known in
theorem declare_stays : ((planConstants home.classScope).declare (.start home.classScope)).StaysIn home.classScope := by
  have start := Session.stays_in_start home.classScope home.classScope ⟨rfl, rfl⟩
  unfold ConstantPlan.declare
  split
  · rename_i last found
    split
    · exact start
    · cases planned : (Session.start home.classScope).insertAfter last
          ((planConstants home.classScope).newFields last) with
      | error _ => exact start
      | ok next =>
          obtain ⟨below, isConstant⟩ := List.mem_filter.mp (last_constant _ last found)
          have isField : last.kind = .fieldDecl := eq_of_beq (Bool.and_eq_true_iff.mp isConstant).1
          exact Session.stays_in_plan_of_scope _ (Node.class_scope_kind home) _ _ last _ start
            ((Node.mem_descendants_or_self_iff _ _).mp below) (by simp [isField]) planned
  · exact start

theorem replace_magic_values_stays (result : Tree) (fixed : replaceMagicValues home = some result) :
    home.classScope.Exchanged result := by
  simp only [replaceMagicValues] at fixed
  split at fixed
  · cases fixed
  · cases fixed
    refine Session.stays_in_apply _ known _ (Session.plan_all_keeps _ _ _ _ (declare_stays home) ?_)
    rintro session ⟨name, literal⟩ next member stays planned
    have isLiteral := used_literal _ name literal member
    exact Session.stays_in_plan_of_scope _ (Node.class_scope_kind home) _ _ literal _ stays
      ((Node.mem_descendants_or_self_iff _ _).mp (List.mem_filter.mp isLiteral).1)
      (by simp [(method_literal _ literal isLiteral).2]) planned

theorem use_lambda_expression_stays (result : Tree) (fixed : useLambdaExpression home = some result) :
    home.classScope.Exchanged result := by
  refine Session.stays_in_apply_if_any _ known _ result (Session.plan_all_keeps _ _ _ _
    (Session.stays_in_start _ _ ⟨rfl, rfl⟩) ?_) fixed
  rintro session ⟨body, expression⟩ next member stays planned
  obtain ⟨below, returned, -⟩ := (mem_returning_bodies _ body expression).mp member
  exact Session.stays_in_plan_of_scope _ (Node.class_scope_kind home) _ _ body _ stays
    ((Node.mem_descendants_or_self_iff _ _).mp below) (by simp [block_of_returned_by body expression returned]) planned

theorem remove_guards_stays (result : Tree) (fixed : removeGuards home = some result) :
    home.classScope.Exchanged result := by
  unfold removeGuards at fixed
  split at fixed
  · cases fixed
  · refine Session.stays_in_apply_if_any _ known _ result (Session.plan_all_keeps _ _ _ _
      (Session.stays_in_start _ _ ⟨rfl, rfl⟩) ?_) fixed
    intro session guard next member stays planned
    obtain ⟨below, isGuard⟩ := List.mem_filter.mp member
    have isUsing := ((Node.isRedundantGuard_iff guard).mp isGuard).1
    exact Session.stays_in_plan_of_scope _ (Node.class_scope_kind home) _ _ guard _ stays
      ((Node.mem_descendants_or_self_iff _ _).mp below) (by simp [isUsing]) planned

omit known in
theorem statement_below_scope (target : Node) (link : ShimLink) (below : home.classScope ∈ target.ancestors)
    (found : ShimLink.of? target = some link) : home.classScope ∈ link.statement.ancestorsOrSelf := by
  obtain ⟨assignment, shape⟩ := link_shape target link found
  rw [Node.ancestors_of_parent target assignment shape.parent,
    Node.ancestors_of_parent assignment link.statement shape.statement] at below
  rcases List.mem_cons.mp below with same | higher
  · rcases Node.class_scope_kind home with isClass | isRoot
    · rw [same, shape.isAssignment] at isClass
      cases isClass
    · rw [same, Node.inner_of_parent assignment _ shape.statement] at isRoot
      cases isRoot
  · exact higher

theorem remove_fakes_stays (result : Tree) (fixed : removeFakes home = some result) : home.classScope.Exchanged result := by
  simp only [removeFakes, bind, Option.bind_eq_some_iff, pure, Option.some.injEq] at fixed
  obtain ⟨chain, found, rfl⟩ := fixed
  have diagnosed := (chain_within home chain found).1
  refine Session.stays_in_apply _ known _ (Session.plan_all_keeps _ _ _ _ (Session.stays_in_start _ _
    (Node.same_tree_trans (same_tree_of_class_scope home) (Node.same_tree_symm diagnosed))) ?_)
  intro session link next member stays planned
  obtain ⟨access, below, made⟩ := (chain_shape home chain found).2 link member
  obtain ⟨assignment, shape⟩ := link_shape access link made
  exact Session.stays_in_plan_of_scope _ (Node.class_scope_kind home) _ _ link.statement _ stays
    (statement_below_scope home access link (Node.ancestor_of_descendant _ _ (List.mem_filter.mp below).1) made)
    (by simp [shape.isStatement]) planned

theorem simplify_fakes_stays (other : home.kind ≠ .classDecl) (result : Tree) (fixed : simplifyFakes home = some result) :
    home.classScope.Exchanged result := by
  simp only [simplifyFakes, bind, Option.bind_eq_some_iff, pure, Option.some.injEq] at fixed
  obtain ⟨chain, found, entries, -, session, planned, rfl⟩ := fixed
  obtain ⟨⟨link, isLink, statement⟩, -⟩ := chain_shape home chain found
  obtain ⟨assignment, shape⟩ := link_shape home link isLink
  have below := Node.strictly_below_scope _ home (Node.class_scope_kind home) (Node.class_scope_above home) other
    (Node.inner_of_parent home assignment shape.parent)
  exact Session.stays_in_apply _ known _ (Session.stays_in_plan_of_scope _ (Node.class_scope_kind home) _ _ chain.diagnosed _
    (Session.stays_in_start _ _ (Node.same_tree_trans (same_tree_of_class_scope home)
      (Node.same_tree_symm (chain_within home chain found).1)))
    (statement ▸ statement_below_scope home home link below isLink) (by simp [statement, shape.isStatement])
    (to_option_ok planned))

end

theorem member_chain_kind (first : Tree) (names : List String) (kind : first.kind = .identifierName) :
    (Build.memberChain first names).kind = .identifierName ∨ (Build.memberChain first names).kind = .memberAccess := by
  cases names using List.reverseRecOn with
  | nil => exact .inl kind
  | append_singleton front last =>
      rw [Build.memberChain, List.foldl_append]
      exact .inr (Kind.ofRaw_raw _)

theorem dotted_kind (text : String) :
    (Build.dotted text).kind = .identifierName ∨ (Build.dotted text).kind = .memberAccess := by
  unfold Build.dotted
  split
  · exact .inl (Kind.ofRaw_raw _)
  · exact member_chain_kind _ _ (Kind.ofRaw_raw _)

theorem plug_mem (frame : Frame) (tree whole : Tree) (same : frame.plug tree = whole) : tree ∈ whole.subtrees :=
  same ▸ List.mem_filterMap.mpr ⟨tree.toElement, by simp [Frame.plug], rfl⟩

theorem class_not_in_shim (type : String) (entries : List Tree) (inner outer : Frame) (subtree : Tree)
    (isClass : subtree.kind = .classDecl) : outer.plug (inner.plug subtree) ≠ constructorShim type entries := by
  intro same
  obtain isAssignment := List.mem_singleton.mp (plug_mem _ _ _ same)
  have side := plug_mem _ _ _ isAssignment
  rcases List.mem_cons.mp side with left | right
  · rw [left] at isClass
    rcases dotted_kind (type ++ ".Constructor") with name | access
    · exact absurd (isClass.symm.trans name) (by decide)
    · exact absurd (isClass.symm.trans access) (by decide)
  · rw [List.mem_singleton.mp right] at isClass
    exact absurd (isClass.symm.trans (Kind.ofRaw_raw .simpleLambda)) (by decide)

theorem simplify_fakes_leaves (home : Node) (known : home.KindsKnown) (isClass : home.kind = .classDecl) (result : Tree)
    (fixed : simplifyFakes home = some result) : ¬ home.Exchanged result := by
  simp only [simplifyFakes, bind, Option.bind_eq_some_iff, pure, Option.some.injEq] at fixed
  obtain ⟨chain, found, entries, -, session, planned, rfl⟩ := fixed
  obtain ⟨⟨link, isLink, statement⟩, -⟩ := chain_shape home chain found
  obtain ⟨assignment, shape⟩ := link_shape home link isLink
  have replaced := to_option_ok planned
  have statementTree := (link_within home home link ⟨rfl, rfl⟩ isLink).statement
  obtain ⟨inner, innerContext, assignmentFocus⟩ := Node.frame_of_parent home assignment shape.parent
  obtain ⟨outer, outerContext, statementFocus⟩ := Node.frame_of_parent assignment link.statement shape.statement
  have applied : session.apply = Frame.rise (constructorShim (Text.trim (Text.firstSegment '.' chain.receiver)) entries)
      link.statement.context := by
    rw [Session.plan_ok _ _ _ _ replaced, statement]
    exact rewrite_single link.statement _ (statement ▸ Session.plan_inner _ _ _ _ replaced)
      (Node.frames_known link.statement (Node.kinds_known_of_same_tree home link.statement known statementTree))
  rintro ⟨subtree, raw, exchanged⟩
  rw [innerContext, outerContext, applied] at exchanged
  have shim := (Frame.rise_injective _ _ _ _ rfl exchanged).2
  exact class_not_in_shim _ _ inner outer subtree (by rw [← isClass, Tree.kind, raw]; rfl) shim.symm

theorem of_rule_stays_iff (rule : Rule) (fixer : Fixer) (fixable : ofRule? rule = some fixer) (home : Node)
    (known : home.KindsKnown) (result : Tree) (fixed : fixer home = some result) :
    home.classScope.Exchanged result ↔ ¬ (rule = .simplifyFakes ∧ home.kind = .classDecl) := by
  have scopeKnown := Node.kinds_known_of_same_tree home home.classScope known (same_tree_of_class_scope home)
  cases rule <;> cases fixable
  case encapsulateField => simpa using encapsulate_field_stays home scopeKnown result fixed
  case replaceMagicValues => simpa using replace_magic_values_stays home scopeKnown result fixed
  case useLambdaExpression => simpa using use_lambda_expression_stays home scopeKnown result fixed
  case unnecessaryShimsContext => simpa using remove_guards_stays home scopeKnown result fixed
  case removeFakes => simpa using remove_fakes_stays home scopeKnown result fixed
  case simplifyFakes =>
    by_cases isClass : home.kind = .classDecl
    · simpa [isClass, Node.class_scope_self home (.inl isClass)] using simplify_fakes_leaves home known isClass result fixed
    · simpa [isClass] using simplify_fakes_stays home scopeKnown isClass result fixed

end SmellCheck.Fix

namespace SmellCheck.Catalog

-- A repair stays in the class of its node, unless a chain is simplified at a class that a lambda is
-- assigned to.
theorem fix_stays_in_class_iff (catalog : Catalog) (id : String) (node : Node) (result : Tree) (known : node.KindsKnown)
    (fixed : catalog.fix id node = .ok result) :
    node.classScope.Exchanged result ↔
      ¬ (id = Rule.simplifyFakes.id ∧ node.kind = .classDecl ∧ (Fix.simplifyFakes node).isSome) := by
  obtain ⟨rule, fixer, rfl, fixable, rfl⟩ := fix_ok catalog id node result fixed
  have sameRule : rule.id = Rule.simplifyFakes.id ↔ rule = .simplifyFakes :=
    ⟨Rule.id_injective _ _, fun same => same ▸ rfl⟩
  rw [sameRule]
  cases changed : fixer node with
  | none =>
      have unchanged : node.classScope.Exchanged node.root :=
        (same_tree_of_class_scope node).2 ▸ Node.exchanged_self node.classScope
      refine ⟨?_, fun _ => unchanged⟩
      rintro - ⟨rfl, -, rewrites⟩
      cases fixable
      rw [changed] at rewrites
      cases rewrites
  | some tree =>
      rw [Option.getD_some, Fix.of_rule_stays_iff rule fixer fixable node known tree changed]
      refine not_congr (and_congr_right ?_)
      rintro rfl
      cases fixable
      simp [changed]

theorem fix_lambda_stays_in_class :
    let returning := Build.block [Build.returnStmt (some (Build.identifierName "x"))]
    let type (name : String) (body : Tree) := Build.classDecl [] name [Build.method [] [] (Build.predefinedType "object") "M"
      (Build.parameterList []) (Build.arrowClause (Build.simpleLambda "x" body))]
    let node : Node := ⟨0, type "A" returning,
      [⟨Kind.compilationUnit.raw, [], [Build.whitespace "\n", (type "B" returning).toElement]⟩]⟩
    let result := Build.compilationUnit [type "A" (Build.identifierName "x"), type "B" returning]
    node.KindsKnown ∧ builtin.fix Rule.useLambdaExpression.id node = .ok result ∧
      node.kind = .classDecl ∧ node.classScope.Exchanged result := by
  intro returning type node result
  have known : node.KindsKnown := by decide
  have fixed : builtin.fix Rule.useLambdaExpression.id node = .ok result :=
    builtin_fix .useLambdaExpression Fix.useLambdaExpression rfl node result (by decide)
  have other : Rule.useLambdaExpression.id ≠ Rule.simplifyFakes.id := by decide
  exact ⟨known, fixed, rfl, (fix_stays_in_class_iff builtin _ node result known fixed).mpr fun exception => other exception.1⟩

theorem fix_simplified_leaves_class :
    let type := Build.tree .classDecl [(Build.identifierName "X").toElement]
    let lambda := Build.simpleLambda "x" (Build.identifierName "x")
    let statement := Build.exprStmt (Build.assignment type lambda)
    let node : Node := ⟨0, type, [⟨Kind.assignment.raw, [], (Build.assignment type lambda).children.tail⟩,
      ⟨Kind.exprStmt.raw, [], statement.children.tail⟩,
      ⟨Kind.block.raw, [Build.space, Build.punct "\x7b"], [Build.space, Build.punct "\x7d"]⟩]⟩
    node.root = Build.block [statement] ∧ node.KindsKnown ∧
      ∃ result, builtin.fix Rule.simplifyFakes.id node = .ok result ∧ ¬ node.classScope.Exchanged result := by
  intro type lambda statement node
  have known : node.KindsKnown := by decide
  have rewrites : (Fix.simplifyFakes node).isSome := by decide
  obtain ⟨result, rewritten⟩ := Option.isSome_iff_exists.mp rewrites
  have scope : node.classScope = node := Node.class_scope_self node (.inl rfl)
  refine ⟨rfl, known, result, builtin_fix .simplifyFakes Fix.simplifyFakes rfl node result rewritten, ?_⟩
  rw [scope]
  exact Fix.simplify_fakes_leaves node known rfl result rewritten

end SmellCheck.Catalog
