import SmellCheck.Proofs.EncapsulatedUses
import SmellCheck.Proofs.VisibleNames

/-!
Parameters that are not used. A name in the body of a method reads a parameter unless it is a member, the
target of an assignment, or captured: inside a scope in the body that has the name for something of its
own. The rule reports a parameter exactly when no name in the body reads it.
-/

set_option autoImplicit false

namespace SmellCheck

namespace Node

def NamesMember (node : Node) : Prop :=
  ∃ access, node.parent = some access ∧ access.kind = .memberAccess ∧ access.child? 1 = some node

def IsAssigned (node : Node) : Prop :=
  ∃ assignment, node.parent = some assignment ∧ assignment.kind = .assignment ∧ assignment.firstChild? = some node ∧
    "=" ∈ assignment.tokenTexts .punct

theorem any_same_iff (node parent : Node) (found? : Option Node) (isParent : node.parent = some parent)
    (isChild : ∀ child ∈ found?, child ∈ parent.children) : found?.any (·.same node) ↔ found? = some node := by
  rw [Option.any_eq_true]
  constructor
  · rintro ⟨child, found, same⟩
    have inTree := same_tree_trans (same_tree_of_child parent child (isChild child found)) (same_tree_of_parent node parent isParent)
    rw [found, (same_iff child node inTree).mp same]
  · intro found
    exact ⟨node, found, (same_iff node node ⟨rfl, rfl⟩).mpr rfl⟩

theorem member_name_iff (node : Node) : node.isMemberName ↔ node.NamesMember := by
  unfold isMemberName NamesMember
  cases isParent : node.parent with
  | none => simp
  | some access =>
      have child : ∀ child ∈ access.child? 1, child ∈ access.children := fun _ found => List.mem_of_getElem? found
      rw [Bool.and_eq_true, beq_iff_eq, any_same_iff node access _ isParent child]
      simp

theorem assignment_target_iff (node : Node) : node.isAssignmentTarget ↔ node.IsAssigned := by
  unfold isAssignmentTarget IsAssigned
  cases isParent : node.parent with
  | none => simp
  | some assignment =>
      have child : ∀ child ∈ assignment.firstChild?, child ∈ assignment.children := fun _ found => List.mem_of_head? found
      rw [Bool.and_eq_true, Bool.and_eq_true, beq_iff_eq, any_same_iff node assignment _ isParent child, List.contains_iff_mem]
      simp [and_assoc]

end Node

namespace Scope

-- Whether a lambda, method or constructor inside the body and around the identifier has a parameter or local with the name,
-- or the name is that of a member in a type there.
def Captured (body identifier : Node) (name : String) : Prop :=
  ∃ scope ∈ identifier.ancestors, scope ∈ body.descendants ∧
    (scope.kind.isBodyOwner ∧ (∃ symbol ∈ parametersOf scope ++ localsOf scope, symbol.name = name) ∨
      scope.kind.isTypeWithMembers ∧ (memberOf? scope name).isSome)

instance (body identifier : Node) (name : String) : Decidable (Captured body identifier name) :=
  inferInstanceAs (Decidable (∃ scope ∈ identifier.ancestors, scope ∈ body.descendants ∧
    (scope.kind.isBodyOwner ∧ (∃ symbol ∈ parametersOf scope ++ localsOf scope, symbol.name = name) ∨
      scope.kind.isTypeWithMembers ∧ (memberOf? scope name).isSome)))

theorem has_name_iff (scope : Node) (name : String) :
    (scope.kind.isBodyOwner ∧ (∃ symbol ∈ parametersOf scope ++ localsOf scope, symbol.name = name) ∨
      scope.kind.isTypeWithMembers ∧ (memberOf? scope name).isSome) ↔ ∃ node ∈ declarations scope, declares name node := by
  by_cases owns : scope.kind.isBodyOwner
  · have notType := Node.not_type_of_owner _ owns
    simp only [owns, notType, true_and, Bool.false_eq_true, false_and, or_false, mem_scope_symbols scope owns]
    constructor
    · rintro ⟨symbol, ⟨node, member, declared⟩, named⟩
      exact ⟨node, member, (name_of_declares name node symbol declared).mpr named⟩
    · rintro ⟨node, member, declares⟩
      obtain ⟨symbol, declared⟩ := Option.isSome_iff_exists.mp (declares_some name node declares)
      exact ⟨symbol, ⟨node, member, declared⟩, (name_of_declares name node symbol declared).mp declares⟩
  · by_cases isType : scope.kind.isTypeWithMembers
    · simp only [owns, isType, Bool.false_eq_true, false_and, true_and, false_or, declarations_of_type scope isType, memberOf?,
        member_of_eq]
      constructor
      · intro found
        obtain ⟨_, found⟩ := Option.isSome_iff_exists.mp found
        obtain ⟨node, first, -⟩ := Option.bind_eq_some_iff.mp found
        exact ⟨node, List.mem_of_find?_eq_some first, List.find?_some first⟩
      · rintro ⟨node, member, declares⟩
        obtain ⟨first, found⟩ := Option.isSome_iff_exists.mp (List.find?_isSome.mpr ⟨node, member, declares⟩)
        rw [found, Option.bind_some]
        exact declares_some name first (List.find?_some found)
    · simp [declarations, owns, isType]

theorem scope_of_parameter (owner scope parameter : Node) (isParameter : parameter.kind = .parameter)
    (belongs : parameter.BelongsTo owner) (member : parameter ∈ declarations scope) : scope = owner := by
  by_cases owns : scope.kind.isBodyOwner
  · have belongs' := (declared_in_owner scope parameter owns member).1
    exact Option.some.inj (((Node.body_owner_iff _ _).mpr belongs').symm.trans ((Node.body_owner_iff _ _).mpr belongs))
  · by_cases isType : scope.kind.isTypeWithMembers
    · obtain ⟨-, kind | kind | kind⟩ := declared_in_type scope parameter isType member <;> cases isParameter.symm.trans kind
    · rw [declarations, if_neg owns, if_neg isType] at member
      cases member

theorem found_in_owner_iff (owner identifier parameter : Node) (isIdentifier : identifier.kind = .identifierName)
    (plain : identifier.isMemberName = false) (isParameter : parameter.kind = .parameter) (belongs : parameter.BelongsTo owner)
    (below : identifier ∈ owner.descendants) :
    declaration identifier = some parameter ↔
      (declarations owner).find? (declares identifier.text) = some parameter ∧ ¬ Captured owner identifier identifier.text := by
  have ownerAbove : owner ∈ identifier.ancestorsOrSelf := List.mem_cons_of_mem _ (Node.ancestor_of_descendant _ _ below)
  rw [declaration_iff identifier parameter plain]
  constructor
  · rintro ⟨front, scope, back, split, first, none⟩
    obtain rfl := scope_of_parameter owner scope parameter isParameter belongs (List.mem_of_find?_eq_some first)
    refine ⟨first, fun ⟨inner, above, inOwner, has⟩ => ?_⟩
    obtain ⟨node, member, declares⟩ := (has_name_iff inner identifier.text).mp has
    have nearer := Node.in_front identifier scope inner front back split (List.mem_cons_of_mem _ above)
      ((Node.mem_descendants_iff _ _).mp inOwner)
    rw [none inner nearer node member] at declares
    cases declares
  · rintro ⟨first, free⟩
    obtain ⟨front, back, split⟩ := List.append_of_mem ownerAbove
    refine ⟨front, owner, back, split, first, fun inner nearer other member => ?_⟩
    by_contra declares
    have has := (has_name_iff inner identifier.text).mpr ⟨other, member, by simpa using declares⟩
    have inOwner := (Node.mem_descendants_iff owner inner).mpr (below_in_order identifier owner front back split inner nearer)
    have around : inner ∈ identifier.ancestorsOrSelf := split ▸ List.mem_append_left _ nearer
    rcases List.mem_cons.mp around with rfl | above
    · rw [declarations, isIdentifier] at member
      cases member
    · exact free ⟨inner, above, inOwner, has⟩

structure OfMethod (method list body parameter : Node) (name : String) : Prop where
  isMethod : method.kind = .methodDecl
  isList : method.childOfKind? .parameterList = some list
  isBody : method.childOfKind? .block = some body
  isFirst : ∃ front back, list.childrenOfKind .parameter = front ++ parameter :: back ∧ ∀ other ∈ front, other.name? ≠ some name
  named : parameter.name? = some name

section
variable {method list body parameter : Node} {name : String} (of : OfMethod method list body parameter name)
include of

theorem of_method_list : list.kind = .parameterList ∧ list.parent = some method ∧ parameter.kind = .parameter ∧
    parameter.parent = some list := by
  obtain ⟨front, back, split, -⟩ := of.isFirst
  have member : parameter ∈ list.childrenOfKind .parameter := by simp [split]
  obtain ⟨isChild, isParameter⟩ := List.mem_filter.mp member
  obtain ⟨inMethod, isList⟩ := Node.child_of_kind method list _ of.isList
  exact ⟨isList, Node.parent_of_child _ _ inMethod, eq_of_beq isParameter, Node.parent_of_child _ _ isChild⟩

theorem of_method_body : body.kind = .block ∧ body.parent = some method := by
  obtain ⟨inMethod, isBody⟩ := Node.child_of_kind method body _ of.isBody
  exact ⟨isBody, Node.parent_of_child _ _ inMethod⟩

theorem parameter_declared_first : (declarations method).find? (declares name) = some parameter := by
  obtain ⟨front, back, split, others⟩ := of.isFirst
  obtain ⟨-, -, isParameter, -⟩ := of_method_list of
  have nodes : parameterNodes method = front ++ parameter :: back := by
    rw [← split, parameterNodes, of.isMethod, of.isList]
    rfl
  have own : declares name parameter := by
    rw [declares_eq, of.named, declaration?, isParameter]
    simp
  have none : front.find? (declares name) = Option.none := by
    refine List.find?_eq_none.mpr fun other member declares => ?_
    rw [declares_eq, Bool.and_eq_true, beq_iff_eq] at declares
    exact others other member declares.2
  rw [declarations_of_owner method (by rw [of.isMethod]; rfl), nodes, List.append_assoc, List.find?_append, none, Option.none_or,
    List.cons_append, List.find?_cons_of_pos own]

variable (identifier : Node) (below : identifier ∈ body.descendants) (isIdentifier : identifier.kind = .identifierName)
  (same : identifier.text = name)
include below isIdentifier same

theorem use_found_iff (plain : identifier.isMemberName = false) :
    declaration identifier = some parameter ↔ ¬ Captured body identifier name := by
  obtain ⟨isList, listInMethod, isParameter, inList⟩ := of_method_list of
  obtain ⟨isBody, inMethod⟩ := of_method_body of
  have bodyBelow : body ∈ method.descendants := Node.below_of_child method method body List.mem_cons_self
    ((Node.mem_children_iff _ _).mpr inMethod)
  have inside : ∀ inner ∈ body.descendants, inner ∈ method.descendants := fun inner inBody =>
    (Node.mem_descendants_iff _ _).mpr (Node.ancestors_trans _ _ _ (Node.ancestor_of_descendant _ _ bodyBelow)
      (Node.ancestor_of_descendant _ _ inBody))
  have belongs := (Node.body_owner_iff _ _).mp
    (body_owner_of_parameter parameter list method inList isList listInMethod (by rw [of.isMethod]; rfl))
  rw [found_in_owner_iff method identifier parameter isIdentifier plain isParameter belongs (inside identifier below), same,
    and_iff_right (parameter_declared_first of)]
  refine not_congr ⟨?_, fun ⟨inner, above, inBody, has⟩ => ⟨inner, above, inside inner inBody, has⟩⟩
  rintro ⟨inner, above, inMethod', has⟩
  refine ⟨inner, above, ?_, has⟩
  -- A place between the name and the method is inside the body or the body itself, which declares nothing.
  obtain ⟨child, isChild, within⟩ := (Node.mem_descendants _ _).mp inMethod'
  have throughChild := Node.below_trans child inner identifier within
    (List.mem_cons_of_mem _ ((Node.mem_descendants_iff inner identifier).mpr above))
  obtain rfl := Node.child_of_place method child body identifier isChild ((Node.mem_children_iff _ _).mpr inMethod)
    throughChild (List.mem_cons_of_mem _ below)
  rcases List.mem_cons.mp within with rfl | inBody
  · obtain ⟨node, member, -⟩ := (has_name_iff inner name).mp has
    rw [declarations, isBody] at member
    cases member
  · exact inBody

omit below same in
theorem read_parameter_iff (symbol : Symbol) (declared : declared? parameter = some symbol) (notThis : name ≠ "this")
    (inTree : identifier.SameTree parameter) :
    read? (.ofRoot parameter.snapshot parameter.root) body identifier = some symbol ↔
      identifier.isMemberName = false ∧ identifier.isAssignmentTarget = false ∧ RefersTo identifier parameter := by
  have symbolName : symbol.name = name := Option.some.inj ((name_of_declared parameter symbol declared).symm.trans of.named)
  have symbolKind : symbol.kind = .parameter := by
    obtain ⟨_, sort⟩ := kind_of_declared parameter symbol declared
    rw [declaration?, (of_method_list of).2.2.1] at sort
    exact (Prod.mk.inj (Option.some.inj sort)).1.symm
  have reference : RefersTo identifier parameter ↔
      referenced? (.ofRoot parameter.snapshot parameter.root) identifier = some symbol := by
    unfold RefersTo semantics
    rw [inTree.1, inTree.2, declared]
    constructor
    · rintro ⟨_, known, same⟩
      exact same ▸ known
    · exact fun known => ⟨symbol, known, rfl⟩
  have byName : RefersTo identifier parameter → identifier.text ≠ "this" := by
    intro refers isThis
    obtain ⟨_, other, -, -, declared', text⟩ := refers_to_found identifier parameter isIdentifier refers
    obtain rfl : symbol = other := Option.some.inj (declared.symm.trans declared')
    exact notThis (symbolName.symm.trans (text.trans isThis))
  unfold read?
  cases identifier.isMemberName <;> cases identifier.isAssignmentTarget <;> simp only [Bool.or_false, Bool.or_true,
    Bool.false_eq_true, Bool.true_eq_false, reduceCtorEq, if_true, if_false, true_and, false_and, and_false]
  by_cases isThis : identifier.text = "this"
  · rw [if_pos isThis]
    refine iff_of_false (fun same => ?_) (fun refers => byName refers isThis)
    have range := declared_range parameter symbol declared
    rw [← Option.some.inj same] at range
    cases range
  · rw [if_neg isThis, reference, Option.filter_eq_some_iff]
    exact and_iff_left (by rw [Symbol.isParameterOrLocal, symbolKind]; rfl)

end

section
variable {method list body parameter : Node} {name : String} (of : OfMethod method list body parameter name)
include of

theorem not_read_iff (symbol : Symbol) (declared : declared? parameter = some symbol) (notThis : name ≠ "this") (some : name ≠ "") :
    symbol ∉ readsIn (.ofRoot parameter.snapshot parameter.root) body ↔
      ∀ identifier ∈ body.descendants, identifier.kind = .identifierName → identifier.text = name →
        identifier.NamesMember ∨ identifier.IsAssigned ∨ Captured body identifier name := by
  obtain ⟨-, inMethod, -, inList⟩ := of_method_list of
  obtain ⟨isBody, bodyInMethod⟩ := of_method_body of
  have inTree (identifier : Node) (below : identifier ∈ body.descendants) : identifier.SameTree parameter :=
    Node.same_tree_trans (Node.same_tree_of_descendant body identifier (List.mem_cons_of_mem _ below))
      (Node.same_tree_trans (Node.same_tree_symm (Node.same_tree_of_parent body method bodyInMethod))
        (Node.same_tree_trans (Node.same_tree_of_parent list method inMethod) (Node.same_tree_of_parent parameter list inList)))
  have reads : symbol ∈ readsIn (.ofRoot parameter.snapshot parameter.root) body ↔
      ∃ identifier ∈ body.descendants, identifier.kind = .identifierName ∧
        read? (.ofRoot parameter.snapshot parameter.root) body identifier = Option.some symbol := by
    simp only [readsIn, List.mem_eraseDups, List.mem_filterMap, List.mem_filter, beq_iff_eq, and_assoc]
    refine exists_congr fun identifier => and_congr_left fun ⟨isIdentifier, _⟩ => ?_
    refine ⟨fun member => (List.mem_cons.mp member).resolve_left ?_, List.mem_cons_of_mem _⟩
    rintro rfl
    rw [isBody] at isIdentifier
    cases isIdentifier
  rw [reads, not_exists]
  refine forall_congr' fun identifier => ?_
  rw [not_and, not_and]
  refine forall_congr' fun below => forall_congr' fun isIdentifier => ?_
  rw [read_parameter_iff of identifier isIdentifier symbol declared notThis (inTree identifier below), ← Node.member_name_iff,
    ← Node.assignment_target_iff]
  constructor
  · intro unread same
    by_contra! other
    have plain : identifier.isMemberName = false := by simpa using other.1
    refine unread ⟨plain, by simpa using other.2.1, ?_⟩
    rw [refers_to_iff identifier parameter isIdentifier (inTree identifier below) (same ▸ some)]
    exact (use_found_iff of identifier below isIdentifier same plain).mpr other.2.2
  · rintro each ⟨plain, notTarget, refers⟩
    obtain ⟨_, other, -, -, declared', text⟩ := refers_to_found identifier parameter isIdentifier refers
    obtain rfl : symbol = other := Option.some.inj (declared.symm.trans declared')
    have same : identifier.text = name :=
      text.symm.trans (Option.some.inj ((name_of_declared parameter symbol declared).symm.trans of.named))
    rcases each same with member | target | captured
    · rw [plain] at member
      cases member
    · rw [notTarget] at target
      cases target
    · rw [refers_to_iff identifier parameter isIdentifier (inTree identifier below) (same ▸ some)] at refers
      exact (use_found_iff of identifier below isIdentifier same plain).mp refers captured

end

end Scope

namespace Detect

theorem passing_by_value (parameter : Node) (byValue : ∀ word ∈ parameter.modifiers, word ≠ "ref" ∧ word ≠ "out" ∧ word ≠ "in") :
    Scope.passingOf parameter = .byValue := by
  have none : parameter.modifiers.find? (fun word => word == "ref" || word == "out" || word == "in") = none := by
    refine List.find?_eq_none.mpr fun word member => ?_
    simpa [and_assoc] using byValue word member
  rw [Scope.passingOf, none]

theorem passing_of_declared (parameter : Node) (symbol : Symbol) (isParameter : parameter.kind = .parameter)
    (declared : Scope.declared? parameter = some symbol) : symbol.kind = .parameter ∧ symbol.passing = Scope.passingOf parameter := by
  simp only [Scope.declared?, Scope.declaration?, isParameter, bind, Option.bind_some, Option.bind_eq_some_iff, pure,
    Option.some.injEq] at declared
  obtain ⟨_, _, rfl⟩ := declared
  exact ⟨rfl, rfl⟩

theorem parameter_unused_iff (method list body parameter : Node) (name : String) (of : Scope.OfMethod method list body parameter name)
    (symbol : Symbol) (declared : Scope.declared? parameter = some symbol) (byValue : Scope.passingOf parameter = .byValue)
    (notThis : name ≠ "this") (some : name ≠ "") :
    (parameterUnused (Option.some (Scope.semantics parameter)) parameter).isSome ↔
      symbol ∉ Scope.readsIn (.ofRoot parameter.snapshot parameter.root) body := by
  obtain ⟨isList, inMethod, isParameter, inList⟩ := Scope.of_method_list of
  obtain ⟨-, bodyInMethod⟩ := Scope.of_method_body of
  obtain ⟨isKind, isPassing⟩ := passing_of_declared parameter symbol isParameter declared
  have symbolName : symbol.name = name :=
    Option.some.inj ((Scope.name_of_declared parameter symbol declared).symm.trans of.named)
  have found : byValueParameter? (Scope.semantics parameter) parameter = Option.some symbol := by
    have known : (Scope.semantics parameter).declared? parameter = Option.some symbol := declared
    rw [byValueParameter?, parameterSymbol?, known, Option.filter_some, if_pos (by rw [isKind]; rfl), Option.filter_some,
      if_pos (by rw [isPassing, byValue]; rfl)]
  have owner : (Scope.semantics parameter).owner? symbol = Option.some method :=
    (Scope.owner_of_declared parameter symbol declared (by rw [Symbol.isParameterOrLocal, isKind]; rfl) (symbolName ▸ some)).trans
      (Scope.body_owner_of_parameter parameter list method inList isList inMethod (by rw [of.isMethod]; rfl))
  obtain ⟨flow, known, written, read⟩ : ∃ flow, (Scope.semantics parameter).dataFlow? body = Option.some flow ∧
      symbol ∈ flow.writtenOutside ∧ flow.readInside = Scope.readsIn (.ofRoot parameter.snapshot parameter.root) body := by
    show ∃ flow, Scope.dataFlow? _ body = Option.some flow ∧ _
    simp only [Scope.dataFlow?, bodyInMethod, of.isMethod, bind, Option.bind_some, pure]
    refine ⟨_, rfl, List.mem_append_left _ ?_, rfl⟩
    obtain ⟨front, back, split, -⟩ := of.isFirst
    rw [Scope.parametersOf, of.isMethod, of.isList]
    exact List.mem_filterMap.mpr ⟨parameter, by simp [split], declared⟩
  simp only [parameterUnused, bind, Option.bind_some, found, owner, Option.filter_some, of.isMethod, beq_self_eq_true, if_true,
    of.isBody, known, read, symbolName]
  by_cases inside : symbol ∈ Scope.readsIn (.ofRoot parameter.snapshot parameter.root) body <;>
    simp [inside, notThis, written]

end Detect

namespace Catalog

open SmellCheck.Detect

-- The rule reports a parameter of a method that is passed by value and is the first of its name exactly when every use of the
-- name in the body is a member name, the target of an assignment, or captured by a scope in the body.
theorem unused_parameter_iff (method list body parameter : Node) (name : String)
    (of : Scope.OfMethod method list body parameter name) (some : name ≠ "") (notThis : name ≠ "this")
    (byValue : ∀ word ∈ parameter.modifiers, word ≠ "ref" ∧ word ≠ "out" ∧ word ≠ "in") :
    let semantics := Scope.semantics parameter
    let unused := ∀ identifier ∈ body.descendants, identifier.kind = .identifierName → identifier.text = name →
      identifier.NamesMember ∨ identifier.IsAssigned ∨ Scope.Captured body identifier name
    ((ofRule .parameterUnused (Option.some semantics) parameter).isSome ↔ unused) ∧
      ∀ catalog answer?, (Engine.ofCatalog catalog).detectRule Rule.parameterUnused.id (Option.some semantics) parameter = .ok answer? →
        (answer?.isSome ↔ unused) := by
  intro semantics unused
  obtain ⟨-, -, isParameter, -⟩ := Scope.of_method_list of
  obtain ⟨symbol, declared, -, -⟩ := Scope.declared_parameter parameter isParameter name of.named
  have reported : (ofRule .parameterUnused (Option.some semantics) parameter).isSome ↔ unused :=
    (parameter_unused_iff method list body parameter name of symbol declared (passing_by_value parameter byValue) notThis some).trans
      (Scope.not_read_iff of symbol declared notThis some)
  refine ⟨reported, fun catalog answer? answered => ?_⟩
  rw [answer_for_parameter catalog .parameterUnused rfl (Option.some semantics) parameter isParameter answer? answered]
  exact reported

def assigningMethod : Tree :=
  Build.method [] [] (Build.predefinedType "void") "M" (Build.parameterList [Build.parameter (Build.predefinedType "int") "x"])
    (Build.block [Build.exprStmt (Build.assignment (Build.identifierName "x") (Build.numberLiteral "1")),
      Build.exprStmt (Build.memberAccess (Build.identifierName "o") "x"),
      Build.exprStmt (Build.simpleLambda "x" (Build.identifierName "x"))])

theorem assigned_parameter_unused :
    let method := Node.ofRoot 0 assigningMethod
    let list := (method.childOfKind? .parameterList).getD method
    let body := (method.childOfKind? .block).getD method
    let parameter := list.children.headD list
    Scope.OfMethod method list body parameter "x" ∧
      (∀ word ∈ parameter.modifiers, word ≠ "ref" ∧ word ≠ "out" ∧ word ≠ "in") ∧
      (ofRule .parameterUnused (some (Scope.semantics parameter)) parameter).isSome ∧
      ((body.descendantsOfKind .identifierName).map Node.text).count "x" = 3 ∧
      ∀ identifier ∈ body.descendants, identifier.kind = .identifierName → identifier.text = "x" →
        identifier.NamesMember ∨ identifier.IsAssigned ∨ Scope.Captured body identifier "x" := by
  intro method list body parameter
  have of : Scope.OfMethod method list body parameter "x" :=
    ⟨by decide, by decide, by decide, ⟨[], [], by decide, List.forall_mem_nil _⟩, by decide⟩
  have byValue : ∀ word ∈ parameter.modifiers, word ≠ "ref" ∧ word ≠ "out" ∧ word ≠ "in" := by decide
  have reported : (ofRule .parameterUnused (some (Scope.semantics parameter)) parameter).isSome := by decide +kernel
  obtain ⟨exact, -⟩ := unused_parameter_iff method list body parameter "x" of (by decide) (by decide) byValue
  exact ⟨of, byValue, reported, by decide, exact.mp reported⟩

end Catalog

end SmellCheck
