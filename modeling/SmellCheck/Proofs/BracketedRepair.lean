import SmellCheck.Proofs.BracketedParts
import SmellCheck.Proofs.Constants
import SmellCheck.Proofs.ReturningBodies
import SmellCheck.Proofs.ShimLinks
import SmellCheck.Repair

/-!
Repairs keep trees well bracketed: every fixer gives well bracketed trees to its session, and splices
the inside of a block without its braces, so a run of repairs of any length keeps the pairs of
brackets together.
-/

set_option autoImplicit false

namespace SmellCheck

theorem sound_of_same_tree (node home : Node) (same : node.SameTree home) (sound : home.root.WellBracketed) :
    node.focus.WellBracketed :=
  focus_well_bracketed node (same.2.symm ▸ sound)

theorem subtree_well_bracketed (tree part : Tree) (sound : tree.WellBracketed) (member : part ∈ tree.subtrees) :
    part.WellBracketed := by
  obtain ⟨element, isChild, isNode⟩ := List.mem_filterMap.mp member
  have inside := ((node_well_bracketed_iff tree.raw tree.children).mp sound).2.2
  cases element with
  | token _ _ => cases isNode
  | node raw children =>
      cases isNode
      exact (forest_well_bracketed_iff tree.children).mp inside _ isChild

theorem returned_well_bracketed (block expression : Tree) (sound : block.WellBracketed)
    (returned : block.returned? = some expression) : expression.WellBracketed := by
  obtain ⟨-, statement, only, -, first⟩ := (returned_iff block expression).mp returned
  have statementSound := subtree_well_bracketed block statement sound (by simp [only])
  exact subtree_well_bracketed statement expression statementSound (List.mem_of_head? first)

theorem node_map_well_bracketed (raw raw' : RawKind) (children : List Element) (exchange : Element → Element)
    (kind : Kind.ofRaw raw' = Kind.ofRaw raw) (keeps : ∀ element, (exchange element).bracket? = element.bracket?)
    (before : (Element.node raw children).WellBracketed) (inside : Forest.WellBracketed (children.map exchange)) :
    (Element.node raw' (children.map exchange)).WellBracketed := by
  obtain ⟨balanced, block, -⟩ := (node_well_bracketed_iff raw children).mp before
  refine (node_well_bracketed_iff raw' _).mpr ⟨?_, fun isBlock => ?_, inside⟩
  · rw [Forest.ownWord, List.filterMap_map, show Element.bracket? ∘ exchange = Element.bracket? from funext keeps]
    exact balanced
  · obtain ⟨first, inner, last, rfl, opens, closes, quiet⟩ := (braced_iff children).mp (block (kind ▸ isBlock))
    refine (braced_iff _).mpr ⟨exchange first, inner.map exchange, exchange last, by simp, ?_, ?_, ?_⟩
    · rw [keeps, opens]
    · rw [keeps, closes]
    · intro element member
      obtain ⟨original, present, rfl⟩ := List.mem_map.mp member
      rw [keeps]
      exact quiet original present

theorem inline_body_bracket (inLambda : Bool) (element : Element) :
    (element.inlineBody inLambda).bracket? = element.bracket? := by
  cases inLambda with
  | false => rfl
  | true =>
      cases returned : element.returned? with
      | none => simp [Element.inlineBody, returned]
      | some expression =>
          cases element with
          | token _ _ => cases returned
          | node _ _ => simp [Element.inlineBody, returned, Element.bracket?, Tree.toElement]

theorem inline_bodies_bracket (element : Element) : element.inlineBodies.bracket? = element.bracket? := by
  cases element with
  | token _ _ => rfl
  | node raw children =>
      simp only [Element.inlineBodies]
      split <;> rfl

theorem inline_body_well_bracketed (inLambda : Bool) (element : Element) (sound : element.WellBracketed) :
    (element.inlineBody inLambda).WellBracketed := by
  cases inLambda with
  | false => exact sound
  | true =>
      cases returned : element.returned? with
      | none => simpa [Element.inlineBody, returned] using sound
      | some expression =>
          cases element with
          | token _ _ => cases returned
          | node raw children =>
              have part : expression.toElement.WellBracketed :=
                returned_well_bracketed ⟨raw, children⟩ expression sound returned
              simpa [Element.inlineBody, returned] using part

mutual
theorem element_inline_bodies_well_bracketed : (element : Element) → element.WellBracketed →
    element.inlineBodies.WellBracketed
  | .token _ _, _ => trivial
  | .node raw children, sound => by
      simp only [Element.inlineBodies]
      split
      · have inside := forest_inline_bodies_well_bracketed (Kind.ofRaw raw).isLambda children
          ((node_well_bracketed_iff raw children).mp sound).2.2
        rw [forest_inline_bodies_eq] at inside ⊢
        refine node_map_well_bracketed raw _ children _ (Kind.ofRaw_raw _) ?_ sound inside
        intro element
        rw [inline_body_bracket, inline_bodies_bracket]
      · exact sound

theorem forest_inline_bodies_well_bracketed (inLambda : Bool) : (forest : List Element) →
    Forest.WellBracketed forest → Forest.WellBracketed (Forest.inlineBodies inLambda forest)
  | [], _ => trivial
  | element :: rest, sound =>
      ⟨inline_body_well_bracketed inLambda _ (element_inline_bodies_well_bracketed element sound.1),
        forest_inline_bodies_well_bracketed inLambda rest sound.2⟩
end

theorem inline_tree_well_bracketed (tree : Tree) (sound : tree.WellBracketed) : (Fix.inlineTree tree).WellBracketed := by
  have inlined := element_inline_bodies_well_bracketed tree.toElement sound
  unfold Fix.inlineTree
  cases shape : tree.toElement.inlineBodies with
  | token _ _ => exact sound
  | node raw children =>
      rw [shape] at inlined
      exact inlined

theorem mem_trim_where {α : Type} (drop : α → Bool) (items : List α) (item : α)
    (member : item ∈ Text.trimWhere drop items) : item ∈ items := (Text.trim_where_sublist drop items).subset member

theorem block_contents_quiet (block : Tree) (isBlock : block.kind = .block) (sound : block.WellBracketed) :
    Written.Quiet (Fix.blockContents block) := by
  obtain ⟨-, braced, inside⟩ := (node_well_bracketed_iff block.raw block.children).mp sound
  rw [Written.quiet_iff]
  intro element member
  have within := mem_trim_where _ _ element member
  have isChild : element ∈ block.children := List.mem_of_mem_drop (List.dropLast_sublist _ |>.subset within)
  exact ⟨(forest_well_bracketed_iff _).mp inside element isChild, (braced isBlock).2.2 element within⟩

theorem unwrapped_body_quiet (body : Tree) (sound : body.WellBracketed) : Written.Quiet (Fix.unwrappedBody body) := by
  unfold Fix.unwrappedBody
  split
  · rename_i isBlock
    exact block_contents_quiet body isBlock sound
  · exact (Written.quiet_iff _).mpr (by simpa using Written.quiet_node body sound)

namespace Fix

section
variable (home : Node) (sound : home.root.WellBracketed)
include sound

theorem class_scope_well_bracketed : home.classScope.root.WellBracketed :=
  (same_tree_of_class_scope home).2.symm ▸ sound

theorem attribute_lists_well_bracketed : ∀ part ∈ attributeLists home, part.WellBracketed := by
  intro part member
  obtain ⟨list, isChild, rfl⟩ := List.mem_map.mp member
  exact sound_of_same_tree list home (Node.same_tree_of_children_of_kind home list _ isChild) sound

theorem modifier_list_well_bracketed : ∀ part ∈ modifierList? home, part.WellBracketed := by
  intro part found
  obtain ⟨list, isChild, rfl⟩ := Option.map_eq_some_iff.mp found
  exact sound_of_same_tree list home (Node.same_tree_of_child_of_kind home list _ isChild) sound

theorem property_for_well_bracketed (property : Tree) (found : propertyFor? home = some property) :
    property.WellBracketed := by
  obtain ⟨propertyName, declaration, type, isChild, isFirst, rfl⟩ := property_for_some home property found
  have sameTree := Node.same_tree_trans (Node.same_tree_of_first_child declaration type isFirst)
    (Node.same_tree_of_child_of_kind home declaration _ isChild)
  exact Build.property_well_bracketed _ _ (attribute_lists_well_bracketed home sound)
    (modifier_list_well_bracketed home sound) type.focus Build.autoAccessors propertyName
    (sound_of_same_tree type home sameTree sound) Build.auto_accessors_well_bracketed

theorem constant_like_well_bracketed (name : String) (literal : Tree) (literalSound : literal.WellBracketed) :
    (constantLike home name literal).WellBracketed := by
  have declarator := Build.variable_declarator_well_bracketed name literal literalSound
  exact Build.field_well_bracketed _ _ (attribute_lists_well_bracketed home sound)
    (modifier_list_well_bracketed home sound) _ (Build.variable_declaration_well_bracketed _ _
      (Build.predefined_type_well_bracketed "string") (by simpa using declarator))

theorem declare_bracketed : ((planConstants home).declare (.start home)).Bracketed := by
  have start := Session.bracketed_start home sound
  unfold ConstantPlan.declare
  split
  · rename_i last found
    split
    · exact start
    · cases planned : (Session.start home).insertAfter last ((planConstants home).newFields last) with
      | error _ => exact start
      | ok next =>
          refine Session.bracketed_plan _ next last _ start ?_ planned
          intro field member
          obtain ⟨⟨name, literals⟩, fresh, made⟩ := List.mem_filterMap.mp member
          obtain ⟨literal, first, rfl⟩ := Option.map_eq_some_iff.mp made
          have lastTree := same_tree_of_constant_field home last (last_constant home last found)
          have literalTree := (method_literal home literal
            (fresh_literals home name literals fresh literal (List.mem_of_head? first))).1
          exact constant_like_well_bracketed last (lastTree.2.symm ▸ sound) name literal.focus
            (sound_of_same_tree literal home literalTree sound)
  · exact start

theorem replace_magic_values_well_bracketed (result : Tree) (fixed : replaceMagicValues home = some result) :
    result.WellBracketed := by
  simp only [replaceMagicValues] at fixed
  split at fixed
  · cases fixed
  · cases fixed
    refine Session.bracketed_apply _ (Session.plan_all_keeps _ _ _ _
      (declare_bracketed home.classScope (class_scope_well_bracketed home sound)) ?_)
    intro session use next _ bracketed planned
    exact Session.bracketed_replace session next use.2 _ bracketed
      (by simpa using Build.identifier_name_well_bracketed use.1) planned

theorem encapsulate_field_well_bracketed (result : Tree) (fixed : encapsulateField home = some result) :
    result.WellBracketed := by
  unfold encapsulateField at fixed
  split at fixed
  · cases fixed
  · simp only [bind, Option.bind_eq_some_iff, pure, Option.some.injEq] at fixed
    obtain ⟨property, found, session, planned, rfl⟩ := fixed
    have part := property_for_well_bracketed home sound property found
    exact Session.bracketed_apply session
      (Session.bracketed_replace _ session home [property] (Session.bracketed_start home sound) (by simpa using part)
        (to_option_ok planned))

theorem use_lambda_expression_well_bracketed (result : Tree) (fixed : useLambdaExpression home = some result) :
    result.WellBracketed := by
  have scopeSound := class_scope_well_bracketed home sound
  refine Session.bracketed_apply_if_any _ result (Session.plan_all_keeps _ _ _ _
    (Session.bracketed_start home.classScope scopeSound) ?_) fixed
  rintro session ⟨body, expression⟩ next member bracketed planned
  obtain ⟨below, returned, -⟩ := (mem_returning_bodies _ body expression).mp member
  have bodySound := sound_of_same_tree body _ (Node.same_tree_of_descendant _ body below) scopeSound
  have part := returned_well_bracketed body.focus expression bodySound ((returned_by_iff body expression).mp returned).2
  exact Session.bracketed_replace session next body _ bracketed
    (by simpa using inline_tree_well_bracketed expression part) planned

theorem remove_guards_well_bracketed (result : Tree) (fixed : removeGuards home = some result) : result.WellBracketed := by
  unfold removeGuards at fixed
  split at fixed
  · cases fixed
  · have scopeSound := class_scope_well_bracketed home sound
    refine Session.bracketed_apply_if_any _ result (Session.plan_all_keeps _ _ _ _
      (Session.bracketed_start home.classScope scopeSound) ?_) fixed
    intro session guard next member bracketed planned
    have guardTree := Node.same_tree_of_descendant _ guard (List.mem_filter.mp member).1
    refine Session.bracketed_splice session next guard _ bracketed ?_ planned
    cases last : guard.lastChild? with
    | none => exact Build.quiet_nil
    | some body =>
        have bodyTree := Node.same_tree_trans (Node.same_tree_of_last_child guard body last) guardTree
        exact unwrapped_body_quiet body.focus (sound_of_same_tree body _ bodyTree scopeSound)

end

section
variable (home : Node) (sound : home.root.WellBracketed)
include sound

theorem without_receiver_well_bracketed (lambda : Node) (same : lambda.SameTree home) (result : Tree)
    (made : withoutReceiver? lambda = some result) : result.WellBracketed := by
  -- The parameters differ with the kind of lambda, the rest does not.
  have rest (body : Node) (isLast : lambda.lastChild? = some body) (parameters : List Tree)
      (parts : ∀ part ∈ parameters, part.WellBracketed) :
      (Build.parenLambda (Build.parameterList parameters) body.focus).WellBracketed := by
    have bodyTree := Node.same_tree_trans (Node.same_tree_of_last_child lambda body isLast) same
    exact Build.paren_lambda_well_bracketed _ _ (Build.parameter_list_well_bracketed parameters parts)
      (sound_of_same_tree body home bodyTree sound)
  simp only [withoutReceiver?, bind, Option.bind_eq_some_iff, pure] at made
  obtain ⟨body, isLast, made⟩ := made
  split at made
  · obtain ⟨_, given, same'⟩ := Option.bind_eq_some_iff.mp made
    cases same'
    obtain ⟨list, isChild, rfl⟩ := Option.map_eq_some_iff.mp given
    refine rest body isLast _ fun part member => ?_
    obtain ⟨parameter, dropped, rfl⟩ := List.mem_map.mp member
    have listTree := Node.same_tree_trans (Node.same_tree_of_child_of_kind lambda list _ isChild) same
    have parameterTree := Node.same_tree_of_children_of_kind list parameter _ (List.mem_of_mem_drop dropped)
    exact sound_of_same_tree parameter home (Node.same_tree_trans parameterTree listTree) sound
  · cases made
    exact rest body isLast [] (by simp)

theorem entries_well_bracketed (seen : List String) (links : List ShimLink) (within : ∀ link ∈ links, link.Within home)
    (entries : List Tree) (made : entriesFrom? seen links = some entries) : ∀ entry ∈ entries, entry.WellBracketed := by
  induction links generalizing seen entries with
  | nil =>
      cases made
      simp
  | cons link rest ih =>
      have later : ∀ link ∈ rest, link.Within home := fun link member => within link (List.mem_cons_of_mem _ member)
      rw [entriesFrom?] at made
      split at made
      · exact ih seen later entries made
      · simp only [bind, Option.bind_eq_some_iff, pure, Option.some.injEq] at made
        obtain ⟨entry, isEntry, others, fromRest, rfl⟩ := made
        simp only [ShimLink.entry?, bind, Option.bind_eq_some_iff, pure, Option.some.injEq] at isEntry
        obtain ⟨member, -, lambda, given, rfl⟩ := isEntry
        have lambdaSound := without_receiver_well_bracketed home sound link.value
          (within link List.mem_cons_self).value lambda given
        intro entry present
        rcases List.mem_cons.mp present with rfl | inRest
        · exact Build.assignment_well_bracketed _ _ (Build.identifier_name_well_bracketed _) lambdaSound
        · exact ih _ later others fromRest entry inRest

end

theorem constructor_shim_well_bracketed (type : String) (entries : List Tree)
    (sound : ∀ entry ∈ entries, entry.WellBracketed) : (constructorShim type entries).WellBracketed := by
  have creation := Build.object_creation_well_bracketed (Build.identifierName type)
    (Build.initializer .objectInitializer entries) [Build.identifierName "_"] (Build.identifier_name_well_bracketed _)
    (Build.initializer_well_bracketed _ entries sound) (by simpa using Build.identifier_name_well_bracketed "_")
  have call := Build.expr_stmt_well_bracketed _
    (Build.invocation_well_bracketed _ [] (Build.dotted_well_bracketed "instance.BehaveAsDefaultValue") (by simp))
  have body := Build.block_well_bracketed [Build.varLocal "instance" _, Build.exprStmt _]
    (by simpa using ⟨Build.var_local_well_bracketed "instance" _ creation, call⟩)
  exact Build.expr_stmt_well_bracketed _ (Build.assignment_well_bracketed _ _ (Build.dotted_well_bracketed _)
    (Build.simple_lambda_well_bracketed "_" _ body))

section
variable (home : Node) (sound : home.root.WellBracketed)
include sound

theorem simplify_fakes_well_bracketed (result : Tree) (fixed : simplifyFakes home = some result) :
    result.WellBracketed := by
  simp only [simplifyFakes, bind, Option.bind_eq_some_iff, pure, Option.some.injEq] at fixed
  obtain ⟨chain, found, entries, made, session, planned, rfl⟩ := fixed
  obtain ⟨diagnosedTree, within⟩ := chain_within home chain found
  have shim := constructor_shim_well_bracketed (Text.trim (Text.firstSegment '.' chain.receiver)) entries
    (entries_well_bracketed home sound [] chain.links within entries made)
  exact Session.bracketed_apply session (Session.bracketed_replace _ session chain.diagnosed _
    (Session.bracketed_start chain.diagnosed (diagnosedTree.2.symm ▸ sound)) (by simpa using shim)
    (to_option_ok planned))

theorem remove_fakes_well_bracketed (result : Tree) (fixed : removeFakes home = some result) : result.WellBracketed := by
  simp only [removeFakes, bind, Option.bind_eq_some_iff, pure, Option.some.injEq] at fixed
  obtain ⟨chain, found, rfl⟩ := fixed
  have start := Session.bracketed_start chain.diagnosed ((chain_within home chain found).1.2.symm ▸ sound)
  refine Session.bracketed_apply _ (Session.plan_all_keeps _ _ _ _ start ?_)
  intro session link next _ bracketed planned
  exact Session.bracketed_plan session next link.statement .remove bracketed trivial planned

theorem of_rule_well_bracketed (rule : Rule) (fixer : Fixer) (fixable : ofRule? rule = some fixer) (result : Tree)
    (fixed : fixer home = some result) : result.WellBracketed := by
  cases rule <;> cases fixable
  case encapsulateField => exact encapsulate_field_well_bracketed home sound result fixed
  case replaceMagicValues => exact replace_magic_values_well_bracketed home sound result fixed
  case useLambdaExpression => exact use_lambda_expression_well_bracketed home sound result fixed
  case unnecessaryShimsContext => exact remove_guards_well_bracketed home sound result fixed
  case simplifyFakes => exact simplify_fakes_well_bracketed home sound result fixed
  case removeFakes => exact remove_fakes_well_bracketed home sound result fixed

end

end Fix

namespace Catalog

theorem fix_well_bracketed (catalog : Catalog) (id : String) (node : Node) (result : Tree)
    (sound : node.root.WellBracketed) (fixed : catalog.fix id node = .ok result) : result.WellBracketed := by
  obtain ⟨rule, fixer, rfl, fixable, rfl⟩ := fix_ok catalog id node result fixed
  cases changed : fixer node with
  | none => exact sound
  | some tree => exact Fix.of_rule_well_bracketed node sound rule fixer fixable tree changed

-- The documents that come from a tree by any number of repairs, each with any catalog and any rule in
-- it, at any node of the document of the one before.
inductive Repaired (tree : Tree) : Tree → Prop where
  | start : Repaired tree tree
  | fix (catalog : Catalog) (id : String) (node : Node) (result : Tree) (before : Repaired tree node.root)
      (fixed : catalog.fix id node = .ok result) : Repaired tree result

theorem repaired_well_bracketed (tree result : Tree) (sound : tree.WellBracketed) (repaired : Repaired tree result) :
    result.WellBracketed := by
  induction repaired with
  | start => exact sound
  | fix catalog id node result _ fixed ih => exact fix_well_bracketed catalog id node result ih fixed

theorem repaired_lambda_well_bracketed :
    let expression := Build.identifierName "x"
    let tree := Build.simpleLambda "x" (Build.block [Build.returnStmt (some expression)])
    tree.WellBracketed ∧ Repaired tree (Build.simpleLambda "x" expression) ∧
      (Build.simpleLambda "x" expression).WellBracketed := by
  intro expression tree
  have sound : tree.WellBracketed := by decide
  have known : Rule.ofId? "use_lambda_expression" = some .useLambdaExpression := by decide
  have found : builtin.fixer "use_lambda_expression" = .ok Fix.useLambdaExpression := by
    rw [fixer, describe, known]
    rfl
  have rewritten : Fix.useLambdaExpression (.ofRoot 0 tree) = some (Build.simpleLambda "x" expression) := by decide
  have fixed : builtin.fix "use_lambda_expression" (.ofRoot 0 tree) = .ok (Build.simpleLambda "x" expression) := by
    simp [fix, found, rewritten, Except.map]
  have repaired : Repaired tree (Build.simpleLambda "x" expression) :=
    .fix builtin "use_lambda_expression" (.ofRoot 0 tree) _ .start fixed
  exact ⟨sound, repaired, repaired_well_bracketed tree _ sound repaired⟩

end Catalog

end SmellCheck
