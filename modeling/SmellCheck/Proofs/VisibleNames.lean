import SmellCheck.Build
import SmellCheck.Proofs.DeclarationRanges
import SmellCheck.Proofs.NamesAfter

/-!
Which declarations a name is found in. A look-up stops at the innermost scope that declares the name, so
nothing nearer is passed over. What it finds there can be seen from the name, but for two ways in which
a scope takes more than its own: a type takes the locals inside its fields, and a lambda or method takes
the fields that stand in its body.
-/

set_option autoImplicit false

namespace SmellCheck

namespace Node

theorem beyond_in_order (node scope : Node) (front back : List Node) (split : node.ancestorsOrSelf = front ++ scope :: back) :
    ∀ above ∈ back, above ∈ scope.ancestors := by
  intro above member
  obtain ⟨front', back', rfl⟩ := List.append_of_mem member
  exact Scope.below_in_order node above (front ++ scope :: front') back' (by rw [split]; simp) scope (by simp)

theorem in_front (node scope inner : Node) (front back : List Node) (split : node.ancestorsOrSelf = front ++ scope :: back)
    (above : inner ∈ node.ancestorsOrSelf) (inside : scope ∈ inner.ancestors) : inner ∈ front := by
  rw [split, List.mem_append, List.mem_cons] at above
  rcases above with nearer | rfl | beyond
  · exact nearer
  · exact absurd inside (not_above_self inner)
  · have higher := beyond_in_order node scope front back split inner beyond
    exact absurd (ancestors_trans _ _ _ inside higher) (not_above_self scope)

theorem outside_of_owner (node owner type : Node) (belongs : node.BelongsTo owner) (isType : type.kind.isTypeWithMembers)
    (above : type ∈ node.ancestors) : type ∈ owner.ancestors := by
  obtain ⟨inner, outer, split, others⟩ := belongs.nearest
  have beyond : type ∈ outer := by
    rw [split, List.mem_append, List.mem_cons] at above
    rcases above with nearer | rfl | beyond
    · rw [(others type nearer).2] at isType
      cases isType
    · rw [not_type_of_owner _ belongs.owns] at isType
      cases isType
    · exact beyond
  have split' : node.ancestorsOrSelf = (node :: inner) ++ owner :: outer := congrArg (List.cons node) split
  exact beyond_in_order node owner (node :: inner) outer split' type beyond

end Node

namespace Scope

theorem declaration_iff (identifier node : Node) (plain : identifier.isMemberName = false) :
    declaration identifier = some node ↔ ∃ front scope back, identifier.ancestorsOrSelf = front ++ scope :: back ∧
      (declarations scope).find? (declares identifier.text) = some node ∧
        ∀ inner ∈ front, ∀ other ∈ declarations inner, declares identifier.text other = false := by
  rw [declaration, visible_all, searched, plain, if_neg Bool.false_ne_true, List.find?_flatMap, List.findSome?_eq_some_iff]
  refine exists_congr fun front => exists_congr fun scope => exists_congr fun back => and_congr_right fun _ =>
    and_congr_right fun _ => forall_congr' fun inner => forall_congr' fun _ => ?_
  rw [List.find?_eq_none]
  exact forall_congr' fun other => forall_congr' fun _ => Bool.not_eq_true _ |>.to_iff

theorem name_of_declares (name : String) (node : Node) (symbol : Symbol) (declared : declared? node = some symbol) :
    declares name node ↔ symbol.name = name := by
  rw [declares, declared, Option.any_some, beq_iff_eq]

theorem declared_of_referenced (identifier : Node) (symbol : Symbol) (isIdentifier : identifier.kind = .identifierName)
    (known : (semantics identifier).referenced? identifier = some symbol) (other : symbol.kind ≠ .type) :
    ∃ node, declaration identifier = some node ∧ declared? node = some symbol := by
  replace known := (referenced_eq _ identifier isIdentifier).symm.trans known
  cases found : declaration identifier with
  | none =>
      rw [found, Option.bind_none, Option.none_or] at known
      split at known
      · cases known
      · obtain ⟨_, _, rfl⟩ := Option.map_eq_some_iff.mp known
        exact absurd rfl other
  | some node =>
      obtain ⟨-, -, declares⟩ := declaration_found identifier node found
      obtain ⟨own, here⟩ := Option.isSome_iff_exists.mp (declares_some _ node declares)
      rw [found, Option.bind_some, here, Option.some_or] at known
      exact ⟨node, rfl, here.trans known⟩

theorem kind_of_declared (node : Node) (symbol : Symbol) (declared : declared? node = some symbol) :
    ∃ type?, declaration? node = some (symbol.kind, type?) := by
  simp only [declared?, bind, Option.bind_eq_some_iff, pure, Option.some.injEq] at declared
  obtain ⟨⟨kind, type?⟩, sort, _, _, rfl⟩ := declared
  exact ⟨type?, sort⟩

theorem local_declaration_iff (kind : Kind) : isLocalDeclaration kind ↔
    kind = .variableDeclarator ∨ kind = .forEachStmt ∨ kind = .declarationExpr ∨ kind = .catchClause := by
  cases kind <;> simp [isLocalDeclaration]

theorem declared_declarator (node : Node) (symbol : Symbol) (declared : declared? node = some symbol)
    (isDeclarator : node.kind = .variableDeclarator) :
    symbol.kind = if node.grandparentKind? = some .fieldDecl then .field else .local := by
  obtain ⟨_, sort⟩ := kind_of_declared node symbol declared
  rw [declaration?, isDeclarator] at sort
  obtain ⟨declaration, isParent, same⟩ := Option.map_eq_some_iff.mp sort
  have above : node.grandparentKind? = declaration.parentKind? := by
    rw [Node.grandparentKind?, isParent]
    rfl
  rw [above]
  exact (Prod.mk.inj same).1.symm

theorem parameter_belongs (owner parameter : Node) (owns : owner.kind.isBodyOwner) (member : parameter ∈ parameterNodes owner) :
    parameter.BelongsTo owner := by
  unfold parameterNodes at member
  split at member
  · exact Node.belongs_child parameter owner (Node.parent_of_child _ _ (List.mem_filter.mp member).1) owns
  · cases found : owner.childOfKind? .parameterList with
    | none =>
        rw [found] at member
        cases member
    | some list =>
        rw [found] at member
        obtain ⟨isChild, isList⟩ := Node.child_of_kind owner list _ found
        have inList := Node.parent_of_child _ _ (List.mem_filter.mp member).1
        exact Node.belongs_below parameter list owner inList (by rw [isList]; exact ⟨rfl, rfl⟩)
          (Node.belongs_child list owner (Node.parent_of_child _ _ isChild) owns)

theorem mem_local_nodes (owner node : Node) :
    node ∈ localNodes owner ↔ isLocalDeclaration node.kind ∧ node.BelongsTo owner := by
  rw [localNodes, List.mem_filter, Bool.and_eq_true, Option.any_eq_true, ← Node.body_owner_iff]
  constructor
  · rintro ⟨below, isDeclaration, owner', belongs, same⟩
    have inTree := Node.same_tree_of_descendant owner node below
    have above := (Node.body_owner_iff _ _).mp belongs
    obtain ⟨inner, outer, split, -⟩ := above.nearest
    have higher : owner' ∈ node.ancestors := by simp [split]
    have together := Node.same_tree_trans (Node.same_tree_of_ancestor owner' node higher) inTree
    obtain rfl := (Node.same_iff owner' owner together).mp same
    exact ⟨isDeclaration, belongs⟩
  · rintro ⟨isDeclaration, belongs⟩
    obtain ⟨inner, outer, split, -⟩ := ((Node.body_owner_iff _ _).mp belongs).nearest
    have higher : owner ∈ node.ancestors := by simp [split]
    refine ⟨List.mem_cons_of_mem _ ((Node.mem_descendants_iff owner node).mpr higher), isDeclaration, owner, belongs, ?_⟩
    exact (Node.same_iff owner owner ⟨rfl, rfl⟩).mpr rfl

theorem declarations_of_owner (owner : Node) (owns : owner.kind.isBodyOwner) :
    declarations owner = parameterNodes owner ++ localNodes owner := by
  rw [declarations, if_pos owns]

theorem declared_in_owner (owner node : Node) (owns : owner.kind.isBodyOwner) (member : node ∈ declarations owner) :
    node.BelongsTo owner ∧ (node.kind = .parameter ∨ isLocalDeclaration node.kind) := by
  rw [declarations_of_owner owner owns] at member
  rcases List.mem_append.mp member with isParameter | isLocal
  · exact ⟨parameter_belongs owner node owns isParameter, .inl (parameter_below owner node isParameter).2⟩
  · obtain ⟨isDeclaration, belongs⟩ := (mem_local_nodes owner node).mp isLocal
    exact ⟨belongs, .inr isDeclaration⟩

theorem declared_in_type (type node : Node) (isType : type.kind.isTypeWithMembers) (member : node ∈ declarations type) :
    (∃ child ∈ type.children, node ∈ child.descendantsOrSelf) ∧
      (node.kind = .variableDeclarator ∨ node.kind = .propertyDecl ∨ node.kind = .methodDecl) := by
  rw [declarations_of_type type isType] at member
  obtain ⟨child, isChild, declares⟩ := List.mem_flatMap.mp member
  refine ⟨⟨child, isChild, (declared_below child node declares).1⟩, ?_⟩
  unfold memberDeclarations at declares
  split at declares
  · exact .inl (eq_of_beq (List.mem_filter.mp declares).2)
  · rename_i isProperty
    exact .inr (.inl (List.mem_singleton.mp declares ▸ isProperty))
  · rename_i isMethod
    exact .inr (.inr (List.mem_singleton.mp declares ▸ isMethod))
  · cases declares

-- Whether a declarator is found in a scope that it is none of: a local in a type, or the declarator of a field in a lambda
-- or method.
def Strays (scope declaring : Node) : Prop :=
  declaring.kind = .variableDeclarator ∧ (scope.kind.isTypeWithMembers ↔ declaring.grandparentKind? ≠ some .fieldDecl)

theorem strays_in_owner (owner node : Node) (symbol : Symbol) (owns : owner.kind.isBodyOwner) (member : node ∈ declarations owner)
    (declared : declared? node = some symbol) :
    (Strays owner node ∧ symbol.kind = .field ∧ isLocalDeclaration node.kind) ∨ (¬ Strays owner node ∧ symbol.isParameterOrLocal) := by
  have notType := Node.not_type_of_owner _ owns
  obtain ⟨_, sort⟩ := kind_of_declared node symbol declared
  obtain ⟨-, kinds⟩ := declared_in_owner owner node owns member
  by_cases isDeclarator : node.kind = .variableDeclarator
  · have kind := declared_declarator node symbol declared isDeclarator
    by_cases ofField : node.grandparentKind? = some .fieldDecl
    · rw [if_pos ofField] at kind
      exact .inl ⟨⟨isDeclarator, by simp [notType, ofField]⟩, kind, by rw [isDeclarator]; rfl⟩
    · rw [if_neg ofField] at kind
      exact .inr ⟨fun strays => by simpa [notType, ofField] using strays.2, by rw [Symbol.isParameterOrLocal, kind]; rfl⟩
  · refine .inr ⟨fun strays => isDeclarator strays.1, ?_⟩
    have sorts : symbol.kind = .parameter ∨ symbol.kind = .local := by
      rcases kinds with isParameter | isLocal
      · rw [declaration?, isParameter] at sort
        exact .inl (Prod.mk.inj (Option.some.inj sort)).1.symm
      · refine .inr ?_
        rcases (local_declaration_iff _).mp isLocal with kind | kind | kind | kind
        · exact absurd kind isDeclarator
        all_goals
          rw [declaration?, kind] at sort
          exact (Prod.mk.inj (Option.some.inj sort)).1.symm
    rcases sorts with kind | kind <;> rw [Symbol.isParameterOrLocal, kind] <;> rfl

theorem strays_in_type (type node : Node) (symbol : Symbol) (isType : type.kind.isTypeWithMembers) (member : node ∈ declarations type)
    (declared : declared? node = some symbol) :
    (Strays type node ∧ symbol.kind = .local) ∨
      (¬ Strays type node ∧ (symbol.kind = .field ∨ symbol.kind = .property ∨ symbol.kind = .method)) := by
  obtain ⟨_, sort⟩ := kind_of_declared node symbol declared
  obtain ⟨-, isDeclarator | isProperty | isMethod⟩ := declared_in_type type node isType member
  · have kind := declared_declarator node symbol declared isDeclarator
    by_cases ofField : node.grandparentKind? = some .fieldDecl
    · rw [if_pos ofField] at kind
      exact .inr ⟨fun strays => strays.2.mp isType ofField, .inl kind⟩
    · rw [if_neg ofField] at kind
      exact .inl ⟨⟨isDeclarator, by simp [isType, ofField]⟩, kind⟩
  · rw [declaration?, isProperty] at sort
    refine .inr ⟨fun strays => ?_, .inr (.inl (Prod.mk.inj (Option.some.inj sort)).1.symm)⟩
    cases isProperty.symm.trans strays.1
  · rw [declaration?, isMethod] at sort
    refine .inr ⟨fun strays => ?_, .inr (.inr (Prod.mk.inj (Option.some.inj sort)).1.symm)⟩
    cases isMethod.symm.trans strays.1

def NoneBetween (identifier scope : Node) : Prop :=
  ∀ owner ∈ identifier.ancestors, scope ∈ owner.ancestors → owner.kind.isBodyOwner →
    ∀ symbol ∈ parametersOf owner ++ localsOf owner, symbol.name ≠ identifier.text

-- A parameter or local is seen in what it belongs to, a member in its type, and neither from behind a nearer one.
structure Visible (identifier declaring : Node) (symbol : Symbol) : Prop where
  asLocal : symbol.isParameterOrLocal →
    ∃ owner ∈ identifier.ancestors, declaring.BelongsTo owner ∧ NoneBetween identifier owner
  asMember : symbol.kind = .field ∨ symbol.kind = .property ∨ symbol.kind = .method →
    ∃ type ∈ identifier.ancestors, type.kind.isTypeWithMembers ∧
      (∃ member ∈ type.children, declaring ∈ member.descendantsOrSelf) ∧ NoneBetween identifier type

theorem mem_scope_symbols (owner : Node) (owns : owner.kind.isBodyOwner) (symbol : Symbol) :
    symbol ∈ parametersOf owner ++ localsOf owner ↔ ∃ node ∈ declarations owner, declared? node = some symbol := by
  have shape : parametersOf owner ++ localsOf owner = (declarations owner).filterMap declared? := by
    rw [declarations_of_owner owner owns, List.filterMap_append]
    rfl
  rw [shape, List.mem_filterMap]

section
variable (identifier scope declaring : Node) (symbol : Symbol) (isAbove : scope ∈ identifier.ancestors)
  (nearest : ∀ inner ∈ identifier.ancestors, scope ∈ inner.ancestors → ∀ other ∈ declarations inner,
    declares identifier.text other = false)
  (member : declaring ∈ declarations scope) (declared : declared? declaring = some symbol) (named : symbol.name = identifier.text)
include isAbove nearest member declared named

omit isAbove member declared named in
theorem none_between : NoneBetween identifier scope := by
  intro owner above inside owns symbol' isSymbol same
  obtain ⟨node, isDeclared, declared'⟩ := (mem_scope_symbols owner owns symbol').mp isSymbol
  have nothing := nearest owner above inside node isDeclared
  rw [(name_of_declares _ node symbol' declared').mpr same] at nothing
  cases nothing

theorem visible_in_owner_iff (owns : scope.kind.isBodyOwner) : Visible identifier declaring symbol ↔ ¬ Strays scope declaring := by
  have belongs := (declared_in_owner scope declaring owns member).1
  rcases strays_in_owner scope declaring symbol owns member declared with ⟨strays, isField, isLocal⟩ | ⟨own, isLocal⟩
  · refine iff_of_false (fun visible => ?_) (fun own => own strays)
    -- A type around the field is around the lambda or method, which has the name itself.
    obtain ⟨type, above, isType, ⟨child, isChild, within⟩, none⟩ := visible.asMember (.inl isField)
    have around : type ∈ declaring.ancestors :=
      (Node.mem_descendants_iff _ _).mp ((Node.mem_descendants _ _).mpr ⟨child, isChild, within⟩)
    have beyond := Node.outside_of_owner declaring scope type belongs isType around
    exact none scope isAbove beyond owns symbol ((mem_scope_symbols scope owns symbol).mpr ⟨declaring, member, declared⟩) named
  · refine iff_of_true ⟨fun _ => ⟨scope, isAbove, belongs, none_between identifier scope nearest⟩, fun isMember => ?_⟩ own
    rcases isMember with kind | kind | kind <;> rw [Symbol.isParameterOrLocal, kind] at isLocal <;> cases isLocal

theorem visible_in_type_iff (isType : scope.kind.isTypeWithMembers) :
    Visible identifier declaring symbol ↔ ¬ Strays scope declaring := by
  have inside := (declared_in_type scope declaring isType member).1
  rcases strays_in_type scope declaring symbol isType member declared with ⟨strays, isLocal⟩ | ⟨own, isMember⟩
  · refine iff_of_false (fun visible => ?_) (fun own => own strays)
    -- What the local belongs to is inside the type, so it would have been asked first.
    obtain ⟨owner, above, belongs, -⟩ := visible.asLocal (by rw [Symbol.isParameterOrLocal, isLocal]; rfl)
    obtain ⟨child, isChild, within⟩ := inside
    have around : scope ∈ declaring.ancestors :=
      (Node.mem_descendants_iff _ _).mp ((Node.mem_descendants _ _).mpr ⟨child, isChild, within⟩)
    have inner := Node.outside_of_owner declaring owner scope belongs isType around
    have isDeclared : declaring ∈ declarations owner := by
      rw [declarations_of_owner owner belongs.owns]
      exact List.mem_append_right _ ((mem_local_nodes owner declaring).mpr ⟨by rw [strays.1]; rfl, belongs⟩)
    have nothing := nearest owner above inner declaring isDeclared
    rw [(name_of_declares _ declaring symbol declared).mpr named] at nothing
    cases nothing
  · refine iff_of_true ⟨fun isLocal => ?_, fun _ => ⟨scope, isAbove, isType, inside, none_between identifier scope nearest⟩⟩ own
    rcases isMember with kind | kind | kind <;> rw [Symbol.isParameterOrLocal, kind] at isLocal <;> cases isLocal

end

-- What a name refers to, types aside, is declared in the innermost scope around that declares the name, by a node of its own
-- when the name has text; it can be seen from the name exactly when it is no stray of that scope.
theorem found_name_visible_iff (identifier : Node) (symbol : Symbol) (isIdentifier : identifier.kind = .identifierName)
    (plain : identifier.isMemberName = false) (known : (semantics identifier).referenced? identifier = some symbol)
    (noType : symbol.kind ≠ .type) :
    ∃ scope declaring : Node, scope ∈ identifier.ancestors ∧ declaring ∈ declarations scope ∧
      (∀ inner ∈ identifier.ancestors, scope ∈ inner.ancestors → ∀ other ∈ declarations inner,
        declares identifier.text other = false) ∧
      declaring.SameTree identifier ∧ declared? declaring = some symbol ∧ symbol.name = identifier.text ∧
      (identifier.text ≠ "" → ∀ other : Node, other.SameTree identifier → declared? other = some symbol → other = declaring) ∧
      (Visible identifier declaring symbol ↔ ¬ Strays scope declaring) := by
  obtain ⟨declaring, found, declared⟩ := declared_of_referenced identifier symbol isIdentifier known noType
  obtain ⟨-, inTree, declares⟩ := declaration_found identifier declaring found
  have named := (name_of_declares _ declaring symbol declared).mp declares
  obtain ⟨front, scope, back, split, first, none⟩ := (declaration_iff identifier declaring plain).mp found
  have member := List.mem_of_find?_eq_some first
  have around : scope ∈ identifier.ancestorsOrSelf := by simp [split]
  have isAbove : scope ∈ identifier.ancestors := by
    refine (List.mem_cons.mp around).resolve_left ?_
    rintro rfl
    rw [declarations, isIdentifier] at member
    cases member
  have nearest : ∀ inner ∈ identifier.ancestors, scope ∈ inner.ancestors → ∀ other ∈ declarations inner,
      Scope.declares identifier.text other = false := fun inner above inside =>
    none inner (Node.in_front identifier scope inner front back split (List.mem_cons_of_mem _ above) inside)
  refine ⟨scope, declaring, isAbove, member, nearest, inTree, declared, named, fun some other sameTree declares' => ?_, ?_⟩
  · exact declared_once other declaring symbol (Node.same_tree_trans sameTree (Node.same_tree_symm inTree)) (named ▸ some)
      declares' declared
  · by_cases owns : scope.kind.isBodyOwner
    · exact visible_in_owner_iff identifier scope declaring symbol isAbove nearest member declared named owns
    · by_cases isType : scope.kind.isTypeWithMembers
      · exact visible_in_type_iff identifier scope declaring symbol isAbove nearest member declared named isType
      · rw [declarations, if_neg owns, if_neg isType] at member
        cases member

section
open Build

def parameterOverField : Tree :=
  classDecl [] "C" [simpleField [] (predefinedType "int") "y" none,
    method [] [] (predefinedType "int") "M" (parameterList [Build.parameter (predefinedType "int") "y"])
      (block [returnStmt (some (identifierName "y"))])]

def localInField : Tree :=
  classDecl [] "C" [simpleField [] (identifierName "Func") "f"
      (some (parenLambda (parameterList []) (block [varLocal "y" (numberLiteral "1")]))),
    method [] [] (predefinedType "int") "M" (parameterList []) (block [returnStmt (some (identifierName "y"))])]

end

theorem parameter_found_before_field :
    let home := Node.ofRoot 0 parameterOverField
    let identifier := (home.descendantsOfKind .identifierName).headD home
    let symbol : Symbol := ⟨"y", .parameter, .byValue, some "int", some ⟨23, 28⟩⟩
    identifier.kind = .identifierName ∧ identifier.isMemberName = false ∧
      (semantics identifier).referenced? identifier = some symbol ∧ symbol.kind ≠ .type ∧
      ∃ declaring : Node, declaring.SameTree identifier ∧ declared? declaring = some symbol ∧ Visible identifier declaring symbol := by
  intro home identifier symbol
  have isIdentifier : identifier.kind = .identifierName := by decide
  have plain : identifier.isMemberName = false := by decide
  have known : (semantics identifier).referenced? identifier = some symbol := by decide
  obtain ⟨scope, declaring, -, -, -, inTree, declared, -, -, visible⟩ :=
    found_name_visible_iff identifier symbol isIdentifier plain known (by decide)
  refine ⟨isIdentifier, plain, known, by decide, declaring, inTree, declared, visible.mpr fun strays => ?_⟩
  have kind := declared_declarator declaring symbol declared strays.1
  split at kind <;> cases kind

theorem local_found_outside_lambda :
    let home := Node.ofRoot 0 localInField
    let identifier := (home.descendantsOfKind .identifierName).getLastD home
    let symbol : Symbol := ⟨"y", .local, .byValue, some "var", some ⟨31, 36⟩⟩
    identifier.kind = .identifierName ∧ identifier.isMemberName = false ∧
      (semantics identifier).referenced? identifier = some symbol ∧
      ¬ ∃ declaring : Node, declaring.SameTree identifier ∧ declared? declaring = some symbol ∧
        symbol.name = identifier.text ∧ Visible identifier declaring symbol := by
  intro home identifier symbol
  let declarator := (home.descendantsOfKind .variableDeclarator).getLastD home
  have declares : declared? declarator = some symbol := by decide +kernel
  have apart : ∀ owner ∈ declarator.bodyOwner?, owner ∉ identifier.ancestors := by decide +kernel
  refine ⟨by decide, by decide, by decide +kernel, ?_⟩
  rintro ⟨declaring, inTree, declared, -, visible⟩
  have together : declarator.SameTree identifier := by decide +kernel
  have only := declared_once declaring declarator symbol (Node.same_tree_trans inTree (Node.same_tree_symm together)) (by decide)
    declared declares
  obtain ⟨owner, above, belongs, -⟩ := visible.asLocal rfl
  exact apart owner (only ▸ (Node.body_owner_iff declaring owner).mpr belongs) above

end Scope

end SmellCheck
