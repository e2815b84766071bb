import Mathlib.Data.List.Forall2
import SmellCheck.Proofs.Applying
import SmellCheck.Proofs.Resolution

/-!
Two documents, of which the second has names in the place of some literals of the first. Their places
correspond, apart from those inside the literals that are gone, and so do the declarations that a
name comes to.
-/

set_option autoImplicit false

namespace SmellCheck

theorem find_related {α β : Type} (R : α → β → Prop) (p : α → Bool) (q : β → Bool) (items : List α) (items' : List β)
    (related : List.Forall₂ R items items') (agree : ∀ a b, R a b → p a = q b) :
    Option.Rel R (items.find? p) (items'.find? q) := by
  induction related with
  | nil => exact .none
  | @cons a b rest rest' here _ ih =>
      rw [List.find?_cons, List.find?_cons, agree a b here]
      cases q b with
      | true => exact .some here
      | false => exact ih

theorem option_related {α β : Type} (R : α → β → Prop) (item? : Option α) (item'? : Option β)
    (related : Option.Rel R item? item'?) :
    (item? = none ∧ item'? = none) ∨ ∃ item item', item? = some item ∧ item'? = some item' ∧ R item item' := by
  cases related with
  | none => exact .inl ⟨rfl, rfl⟩
  | some here => exact .inr ⟨_, _, rfl, rfl, here⟩

theorem get_related {α β : Type} (R : α → β → Prop) (items : List α) (items' : List β)
    (related : List.Forall₂ R items items') (index : Nat) : Option.Rel R items[index]? items'[index]? := by
  induction related generalizing index with
  | nil => exact .none
  | cons here _ ih =>
      cases index with
      | zero => exact .some here
      | succ index => simpa using ih index

theorem take_while_related {α β : Type} (R : α → β → Prop) (p : α → Bool) (q : β → Bool) (items : List α)
    (items' : List β) (related : List.Forall₂ R items items') (agree : ∀ a b, R a b → p a = q b) :
    List.Forall₂ R (items.takeWhile p) (items'.takeWhile q) := by
  induction related with
  | nil => exact .nil
  | @cons a b rest rest' here _ ih =>
      rw [List.takeWhile_cons, List.takeWhile_cons, agree a b here]
      cases q b with
      | true => exact .cons here ih
      | false => exact .nil

inductive Element.Named : Element → Element → Prop where
  | token (raw : RawKind) (text : String) : Named (.token raw text) (.token raw text)
  | literal (raw : RawKind) (children : List Element) (given : Element) (name : String)
      (isLiteral : Kind.ofRaw raw = .literal) (isName : given = Build.identifierName name) :
      Named (.node raw children) given
  | node (raw raw' : RawKind) (children children' : List Element) (kind : Kind.ofRaw raw' = Kind.ofRaw raw)
      (inside : List.Forall₂ Named children children') : Named (.node raw children) (.node raw' children')

mutual
theorem named_refl : (element : Element) → element.Named element
  | .token raw text => .token raw text
  | .node raw children => .node raw raw children children rfl (forest_named_refl children)

theorem forest_named_refl : (forest : List Element) → List.Forall₂ Element.Named forest forest
  | [] => .nil
  | element :: rest => .cons (named_refl element) (forest_named_refl rest)
end

structure Frame.Named (frame frame' : Frame) : Prop where
  kind : Kind.ofRaw frame'.raw = Kind.ofRaw frame.raw
  before : List.Forall₂ Element.Named frame.before frame'.before
  after : List.Forall₂ Element.Named frame.after frame'.after

-- A place of one document and the place of the document with the names that corresponds to it.
structure Node.Named (named : Tree) (node node' : Node) : Prop where
  snapshot : node'.snapshot = node.snapshot
  root : node'.root = named
  focus : node.focus.toElement.Named node'.focus.toElement
  context : List.Forall₂ Frame.Named node.context node'.context

def Node.staysIn (tree : Tree) (node : Node) : Bool := (tree.toElement.at? node.path).any Element.isNode

theorem frame_paths (context context' : List Frame) (same : List.Forall₂ Frame.Named context context') :
    Frame.pathOf context' = Frame.pathOf context := by
  have lengths : context'.map (·.before.length) = context.map (·.before.length) := by
    induction same with
    | nil => rfl
    | cons here _ ih => rw [List.map_cons, List.map_cons, ih, here.before.length_eq]
  rw [Frame.pathOf, lengths]
  rfl

theorem named_plug (frame frame' : Frame) (tree tree' : Tree) (around : frame.Named frame')
    (inside : tree.toElement.Named tree'.toElement) : (frame.plug tree).toElement.Named (frame'.plug tree').toElement :=
  .node _ _ _ _ around.kind (List.rel_append (List.rel_reverse around.before) (.cons inside around.after))

namespace Node

section
variable {named : Tree} {node node' : Node}

theorem named_path (same : node.Named named node') : node'.path = node.path := frame_paths _ _ same.context

theorem named_stays (same : node.Named named node') : node.staysIn named := by
  have place := rise_at node'.focus node'.context
  rw [← root_eq, same.root, ← path_eq, named_path same] at place
  rw [staysIn, place]
  rfl

theorem named_kind (same : node.Named named node') (ask : Kind → Bool)
    (blind : ask .identifierName = ask .literal) : ask node'.kind = ask node.kind := by
  have focus := same.focus
  obtain ⟨snapshot, ⟨raw, children⟩, context⟩ := node
  obtain ⟨snapshot', ⟨raw', children'⟩, context'⟩ := node'
  cases focus with
  | literal _ _ _ name isLiteral isName =>
      obtain ⟨rfl, -⟩ := Element.node.inj isName
      rw [show Node.kind ⟨snapshot, ⟨raw, children⟩, context⟩ = .literal from isLiteral]
      exact blind
  | node _ _ _ _ kind _ => exact congrArg ask kind

theorem named_solid (same : node.Named named node') (solid : node.kind ≠ .literal) :
    node'.kind = node.kind ∧ List.Forall₂ Element.Named node.elements node'.elements := by
  have focus := same.focus
  obtain ⟨snapshot, ⟨raw, children⟩, context⟩ := node
  obtain ⟨snapshot', ⟨raw', children'⟩, context'⟩ := node'
  cases focus with
  | literal _ _ _ name isLiteral isName => exact absurd isLiteral solid
  | node _ _ _ _ kind inside => exact ⟨kind, inside⟩

theorem named_parent (same : node.Named named node') : Option.Rel (Named named) node.parent node'.parent := by
  obtain ⟨snapshot, root, focus, context⟩ := same
  obtain ⟨_, tree, frames⟩ := node
  obtain ⟨_, tree', frames'⟩ := node'
  cases context with
  | nil => exact .none
  | cons here outer => exact .some ⟨snapshot, root, named_plug _ _ _ _ here focus, outer⟩

theorem named_ancestors (same : node.Named named node') :
    List.Forall₂ (Named named) node.ancestors node'.ancestors := by
  obtain ⟨snapshot, tree, frames⟩ := node
  obtain ⟨snapshot', tree', frames'⟩ := node'
  obtain ⟨rfl, root, focus, context⟩ := same
  dsimp only [ancestors] at *
  induction context generalizing tree tree' with
  | nil => exact .nil
  | cons here outer ih =>
      have plugged := named_plug _ _ tree tree' here focus
      exact .cons ⟨rfl, root, plugged, outer⟩ (ih _ _ root plugged)

theorem named_ancestors_or_self (same : node.Named named node') :
    List.Forall₂ (Named named) node.ancestorsOrSelf node'.ancestorsOrSelf :=
  .cons same (named_ancestors same)

theorem named_same {other other' : Node} (same : node.Named named node') (same' : other.Named named other') :
    node.same other = node'.same other' := by
  rw [Node.same, Node.same, same.snapshot, same'.snapshot, named_path same, named_path same']

end

theorem named_children_from (named : Tree) (snapshot : Nat) (raw raw' : RawKind) (context context' : List Frame)
    (kind : Kind.ofRaw raw' = Kind.ofRaw raw) (around : List.Forall₂ Frame.Named context context')
    (before before' rest rest' : List Element) (earlier : List.Forall₂ Element.Named before before')
    (later : List.Forall₂ Element.Named rest rest')
    (root : Frame.rise ⟨raw', before'.reverse ++ rest'⟩ context' = named) :
    List.Forall₂ (Named named) (childrenFrom snapshot raw context before rest)
      (childrenFrom snapshot raw' context' before' rest') := by
  induction later generalizing before before' with
  | nil => exact .nil
  | @cons element element' rest rest' here after ih =>
      have next := ih (element :: before) (element' :: before') (.cons here earlier) (by simpa using root)
      cases here with
      | token raw text => exact next
      | literal inner children _ name isLiteral isName =>
          subst isName
          have focus := Element.Named.literal inner children _ name isLiteral rfl
          exact .cons ⟨rfl, root, focus, .cons ⟨kind, earlier, after⟩ around⟩ next
      | node _ _ _ _ sameKind inside =>
          have focus := Element.Named.node _ _ _ _ sameKind inside
          exact .cons ⟨rfl, root, focus, .cons ⟨kind, earlier, after⟩ around⟩ next

theorem named_children (named : Tree) (node node' : Node) (same : node.Named named node') (solid : node.kind ≠ .literal) :
    List.Forall₂ (Named named) node.children node'.children := by
  obtain ⟨kind, inside⟩ := named_solid same solid
  obtain ⟨snapshot, root, -, context⟩ := same
  rw [children, children, snapshot]
  exact named_children_from named node.snapshot _ _ _ _ kind context [] [] _ _ .nil inside root

theorem gone_below (named : Tree) (node node' below : Node) (same : node.Named named node') (name : String)
    (isName : node'.focus = Build.identifierName name) (member : below ∈ node.descendants) :
    below.staysIn named = false := by
  obtain ⟨step, rest, path⟩ := path_of_ancestor node below (ancestor_of_descendant node below member)
  have place := rise_at node'.focus node'.context
  rw [← root_eq, same.root, ← path_eq, named_path same] at place
  rw [staysIn, path, at_append, place, isName]
  cases step with
  | zero => cases rest <;> rfl
  | succ _ => rfl

mutual
theorem named_preorder (named : Tree) (snapshot : Nat) (context context' : List Frame)
    (around : List.Forall₂ Frame.Named context context') : (element element' : Element) → element.Named element' →
    (∀ tree : Tree, element' = tree.toElement → Frame.rise tree context' = named) →
    List.Forall₂ (Named named) ((preorderFrom snapshot context element).filter (staysIn named))
      (preorderFrom snapshot context' element')
  | .token raw text, _, same, _ => by
      cases same
      exact .nil
  | .node raw children, element', same, root => by
      cases same with
      | literal _ _ _ name isLiteral isName =>
          subst isName
          have here : Named named ⟨snapshot, ⟨raw, children⟩, context⟩ ⟨snapshot, Build.identifierName name, context'⟩ :=
            ⟨rfl, root _ rfl, .literal _ _ _ name isLiteral rfl, around⟩
          -- The literal itself has a counterpart, and nothing below it does.
          have inside : (forestPreorder snapshot raw context [] children).filter (staysIn named) = [] :=
            List.filter_eq_nil_iff.mpr fun below member => by simp [gone_below named _ _ below here name rfl member]
          rw [preorderFrom, List.filter_cons_of_pos (named_stays here), inside]
          exact .cons here .nil
      | node _ raw' _ children' kind inside =>
          have here : Named named ⟨snapshot, ⟨raw, children⟩, context⟩ ⟨snapshot, ⟨raw', children'⟩, context'⟩ :=
            ⟨rfl, root _ rfl, .node _ _ _ _ kind inside, around⟩
          rw [preorderFrom, preorderFrom, List.filter_cons_of_pos (named_stays here)]
          exact .cons here (named_forest_preorder named snapshot raw raw' context context' kind around [] [] .nil
            children children' inside (root _ rfl))

theorem named_forest_preorder (named : Tree) (snapshot : Nat) (raw raw' : RawKind) (context context' : List Frame)
    (kind : Kind.ofRaw raw' = Kind.ofRaw raw) (around : List.Forall₂ Frame.Named context context')
    (before before' : List Element) (earlier : List.Forall₂ Element.Named before before') : (rest rest' : List Element) →
    List.Forall₂ Element.Named rest rest' → Frame.rise ⟨raw', before'.reverse ++ rest'⟩ context' = named →
    List.Forall₂ (Named named) ((forestPreorder snapshot raw context before rest).filter (staysIn named))
      (forestPreorder snapshot raw' context' before' rest')
  | [], _, later, _ => by
      cases later
      exact .nil
  | element :: rest, _, later, root => by
      cases later with
      | @cons _ element' _ rest' here after =>
          rw [forestPreorder, forestPreorder, List.filter_append]
          refine List.rel_append ?_ ?_
          · refine named_preorder named snapshot _ _ (.cons ⟨kind, earlier, after⟩ around) element element' here ?_
            rintro tree rfl
            exact root
          · exact named_forest_preorder named snapshot raw raw' context context' kind around (element :: before)
              (element' :: before') (.cons here earlier) rest rest' after (by simpa using root)
end

theorem named_descendants (named : Tree) (node node' : Node) (same : node.Named named node') (solid : node.kind ≠ .literal) :
    List.Forall₂ (Named named) (node.descendants.filter (staysIn named)) node'.descendants := by
  obtain ⟨kind, inside⟩ := named_solid same solid
  obtain ⟨snapshot, root, -, context⟩ := same
  rw [descendants, descendants, snapshot]
  exact named_forest_preorder named node.snapshot _ _ _ _ kind context [] [] .nil _ _ inside root

theorem named_token_texts (named : Tree) (node node' : Node) (same : node.Named named node') (solid : node.kind ≠ .literal)
    (kind : Kind) : node'.tokenTexts kind = node.tokenTexts kind := by
  obtain ⟨-, inside⟩ := named_solid same solid
  rw [tokenTexts, tokenTexts]
  generalize node.elements = elements at inside
  generalize node'.elements = elements' at inside
  induction inside with
  | nil => rfl
  | @cons element element' rest rest' here _ ih =>
      have text : element'.tokenText? kind = element.tokenText? kind := by
        cases here with
        | token _ _ => rfl
        | literal _ _ _ name _ isName =>
            subst isName
            rfl
        | node _ _ _ _ _ _ => rfl
      rw [List.filterMap_cons, List.filterMap_cons, text, ih]

theorem named_body_owner (named : Tree) (node node' : Node) (same : node.Named named node') :
    Option.Rel (Named named) node.bodyOwner? node'.bodyOwner? := by
  have above := take_while_related _ (fun ancestor => !ancestor.kind.isTypeWithMembers)
    (fun ancestor => !ancestor.kind.isTypeWithMembers) _ _ (named_ancestors same)
    fun a b here => (named_kind here (fun kind => !kind.isTypeWithMembers) rfl).symm
  exact find_related _ _ _ _ _ above fun a b here => (named_kind here Kind.isBodyOwner rfl).symm

theorem named_enclosing_type (named : Tree) (node node' : Node) (same : node.Named named node') :
    Option.Rel (Named named) node.enclosingType? node'.enclosingType? :=
  find_related _ _ _ _ _ (named_ancestors_or_self same) fun _ _ here => (named_kind here Kind.isTypeWithMembers rfl).symm

theorem named_filter (named : Tree) (p q : Node → Bool) (agree : ∀ a b, a.Named named b → p a = q b)
    (nodes nodes' : List Node) (same : List.Forall₂ (Named named) (nodes.filter (staysIn named)) nodes') :
    List.Forall₂ (Named named) ((nodes.filter p).filter (staysIn named)) (nodes'.filter q) := by
  have swap : (nodes.filter p).filter (staysIn named) = (nodes.filter (staysIn named)).filter p := by
    rw [List.filter_filter, List.filter_filter]
    exact congrArg (List.filter · nodes) (funext fun node => Bool.and_comm _ _)
  rw [swap]
  exact List.rel_filter (fun a b here => iff_of_eq (congrArg (· = true) (agree a b here))) same

theorem named_all_stay (named : Tree) (nodes nodes' : List Node) (same : List.Forall₂ (Named named) nodes nodes') :
    nodes.filter (staysIn named) = nodes := by
  induction same with
  | nil => rfl
  | cons here _ ih => rw [List.filter_cons_of_pos (named_stays here), ih]

theorem named_children_of_kind (named : Tree) (node node' : Node) (same : node.Named named node') (solid : node.kind ≠ .literal)
    (kind : Kind) (other : kind ≠ .literal ∧ kind ≠ .identifierName) :
    List.Forall₂ (Named named) (node.childrenOfKind kind) (node'.childrenOfKind kind) := by
  have blind : (Kind.identifierName == kind) = (Kind.literal == kind) := by
    rw [beq_eq_false_iff_ne.mpr other.1.symm, beq_eq_false_iff_ne.mpr other.2.symm]
  refine List.rel_filter (fun a b here => ?_) (named_children named node node' same solid)
  exact iff_of_eq (congrArg (· = true) (named_kind here (· == kind) blind).symm)

theorem named_child_of_kind (named : Tree) (node node' : Node) (same : node.Named named node') (solid : node.kind ≠ .literal)
    (kind : Kind) (other : kind ≠ .literal ∧ kind ≠ .identifierName) :
    Option.Rel (Named named) (node.childOfKind? kind) (node'.childOfKind? kind) := by
  have blind : (Kind.identifierName == kind) = (Kind.literal == kind) := by
    rw [beq_eq_false_iff_ne.mpr other.1.symm, beq_eq_false_iff_ne.mpr other.2.symm]
  exact find_related _ _ _ _ _ (named_children named node node' same solid) fun a b here =>
    (named_kind here (· == kind) blind).symm

end Node

namespace Scope

open Node

theorem declares_eq (name : String) (node : Node) :
    declares name node = ((declaration? node).isSome && node.name? == some name) := by
  unfold declares declared?
  cases declaration? node with
  | none => rfl
  | some found => cases node.name? <;> rfl

theorem named_declares (named : Tree) (node node' : Node) (same : node.Named named node') (name : String) :
    declares name node = declares name node' := by
  rw [declares_eq, declares_eq]
  by_cases isLiteral : node.kind = .literal
  · have kinds : (node'.kind == .literal || node'.kind == .identifierName) = true := by
      rw [named_kind same (fun kind => kind == .literal || kind == .identifierName) rfl, isLiteral]
      rfl
    have nothing : declaration? node' = none := by
      rcases Bool.or_eq_true_iff.mp kinds with kind | kind <;> simp [declaration?, eq_of_beq kind]
    have nothing' : declaration? node = none := by simp [declaration?, isLiteral]
    rw [nothing, nothing']
    rfl
  · obtain ⟨kind, -⟩ := named_solid same isLiteral
    have parents : node'.parent.isSome = node.parent.isSome := by
      rcases option_related _ _ _ (named_parent same) with ⟨none, none'⟩ | ⟨_, _, found, found', -⟩
      · rw [none, none']
      · rw [found, found']
        rfl
    have sorts : (declaration? node').isSome = (declaration? node).isSome := by
      unfold declaration?
      rw [kind]
      split <;> simp [parents]
    rw [sorts, Node.name?, Node.name?, named_token_texts named node node' same isLiteral]

theorem named_parameter_nodes (named : Tree) (owner owner' : Node) (same : owner.Named named owner')
    (solid : owner.kind ≠ .literal) :
    List.Forall₂ (Named named) (parameterNodes owner) (parameterNodes owner') := by
  have lists := named_child_of_kind named owner owner' same solid .parameterList (by decide)
  unfold parameterNodes
  rw [(named_solid same solid).1]
  split
  · exact named_children_of_kind named owner owner' same solid .parameter (by decide)
  · rcases option_related _ _ _ lists with ⟨none, none'⟩ | ⟨list, list', found, found', here⟩
    · rw [none, none']
      exact .nil
    · have isList : list.kind = .parameterList := by simpa using List.find?_some found
      rw [found, found']
      exact named_children_of_kind named list list' here (by simp [isList]) .parameter (by decide)

theorem named_local_nodes (named : Tree) (owner owner' : Node) (same : owner.Named named owner')
    (solid : owner.kind ≠ .literal) :
    List.Forall₂ (Named named) ((localNodes owner).filter (staysIn named)) (localNodes owner') := by
  have below : List.Forall₂ (Named named) (owner.descendantsOrSelf.filter (staysIn named)) owner'.descendantsOrSelf := by
    rw [descendantsOrSelf, List.filter_cons_of_pos (named_stays same)]
    exact .cons same (named_descendants named owner owner' same solid)
  refine named_filter named _ _ (fun a b here => ?_) _ _ below
  have kinds : isLocalDeclaration b.kind = isLocalDeclaration a.kind := named_kind here isLocalDeclaration rfl
  rw [kinds]
  rcases option_related _ _ _ (named_body_owner named a b here) with ⟨none, none'⟩ | ⟨inner, inner', found, found', owns⟩
  · rw [none, none']
    rfl
  · rw [found, found', Option.any_some, Option.any_some, named_same owns same]

theorem named_member_declarations (named : Tree) (member member' : Node) (same : member.Named named member') :
    List.Forall₂ (Named named) ((memberDeclarations member).filter (staysIn named)) (memberDeclarations member') := by
  by_cases isLiteral : member.kind = .literal
  · have kinds := named_kind same (fun kind => kind == .fieldDecl || kind == .propertyDecl || kind == .methodDecl) rfl
    have nothing : memberDeclarations member' = [] := by
      unfold memberDeclarations
      split <;> simp_all
    have nothing' : memberDeclarations member = [] := by simp [memberDeclarations, isLiteral]
    rw [nothing, nothing']
    exact .nil
  · unfold memberDeclarations
    rw [(named_solid same isLiteral).1]
    split
    · exact named_filter named _ _ (fun a b here => (named_kind here (· == .variableDeclarator) rfl).symm) _ _
        (named_descendants named member member' same isLiteral)
    · rw [List.filter_cons_of_pos (named_stays same)]
      exact .cons same .nil
    · rw [List.filter_cons_of_pos (named_stays same)]
      exact .cons same .nil
    · exact .nil

theorem named_declarations (named : Tree) (scope scope' : Node) (same : scope.Named named scope') :
    List.Forall₂ (Named named) ((declarations scope).filter (staysIn named)) (declarations scope') := by
  unfold declarations
  rw [named_kind same Kind.isBodyOwner rfl, named_kind same Kind.isTypeWithMembers rfl]
  split
  · rename_i isOwner
    have solid : scope.kind ≠ .literal := fun isLiteral => by
      rw [isLiteral] at isOwner
      cases isOwner
    have parameters := named_parameter_nodes named scope scope' same solid
    rw [List.filter_append, named_all_stay named _ _ parameters]
    exact List.rel_append parameters (named_local_nodes named scope scope' same solid)
  · split
    · rename_i isType
      have solid : scope.kind ≠ .literal := fun isLiteral => by
        rw [isLiteral] at isType
        cases isType
      rw [List.filter_flatMap]
      exact List.rel_flatMap (named_children named scope scope' same solid) fun member member' here =>
        named_member_declarations named member member' here
    · exact .nil

theorem named_visible (named : Tree) (scopes scopes' : List Node) (same : List.Forall₂ (Named named) scopes scopes')
    (name : String) :
    Option.Rel (Named named) (visible? (staysIn named) scopes name) (visible? (fun _ => true) scopes' name) := by
  have asked : List.Forall₂ (Named named) ((scopes.flatMap declarations).filter (staysIn named))
      (scopes'.flatMap declarations) := by
    rw [List.filter_flatMap]
    exact List.rel_flatMap same fun scope scope' here => named_declarations named scope scope' here
  have kept : visible? (staysIn named) scopes name =
      ((scopes.flatMap declarations).filter (staysIn named)).find? (declares name) := by
    rw [visible?, List.find?_filter]
    exact congrArg (List.find? · _) (funext fun node => by simp)
  rw [kept]
  exact find_related _ _ _ _ _ asked fun a b here => by
    rw [Bool.true_and]
    exact named_declares named a b here name

theorem named_member_name (named : Tree) (node node' : Node) (same : node.Named named node') :
    node'.isMemberName = node.isMemberName := by
  unfold isMemberName
  rcases option_related _ _ _ (named_parent same) with ⟨none, none'⟩ | ⟨access, access', found, found', here⟩
  · rw [none, none']
  · rw [found, found']
    have kind := named_kind here (· == .memberAccess) rfl
    cases isAccess : access.kind == .memberAccess with
    | false => simp [kind, isAccess]
    | true =>
        have solid : access.kind ≠ .literal := by simp [eq_of_beq isAccess]
        have names := get_related _ _ _ (named_children named access access' here solid) 1
        have agree : (access'.child? 1).any (·.same node') = (access.child? 1).any (·.same node) := by
          rcases option_related _ _ _ names with ⟨none, none'⟩ | ⟨name, name', isName, isName', there⟩
          · rw [child?, child?, none, none']
            rfl
          · rw [child?, child?, isName, isName', Option.any_some, Option.any_some, named_same there same]
        simp [kind, isAccess, agree]

theorem named_searched (named : Tree) (node node' : Node) (same : node.Named named node') (ofThis : Bool) :
    List.Forall₂ (Named named) (searched ofThis node) (searched ofThis node') := by
  unfold searched
  rw [named_member_name named node node' same]
  split
  · split
    · rcases option_related _ _ _ (named_parent same) with ⟨none, none'⟩ | ⟨access, access', found, found', here⟩
      · rw [none, none']
        exact .nil
      · rw [found, found', Option.bind_some, Option.bind_some]
        rcases option_related _ _ _ (named_enclosing_type named access access' here) with
          ⟨none, none'⟩ | ⟨type, type', isType, isType', around⟩
        · rw [none, none']
          exact .nil
        · rw [isType, isType']
          exact .cons around .nil
    · exact .nil
  · exact named_ancestors_or_self same

end Scope

end SmellCheck
