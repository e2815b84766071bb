import SmellCheck.Proofs.UnusedParameters

/-!
Real dereferences. The rule about unchecked parameters asks what a parameter is by its symbol, but looks for
dereferences by their text. A member access whose receiver reads like the parameter is one of the parameter
where no scope in the method captures the name, and the rule does not look for that.
-/

set_option autoImplicit false

namespace SmellCheck

def Node.Dereferences (method : Node) (receives : Node → Prop) : Prop :=
  ∃ access ∈ method.descendantsOfKind .memberAccess, ∃ receiver, access.firstChild? = some receiver ∧
    receiver.kind = .identifierName ∧ receives receiver

theorem Node.receiver_not_member (access receiver : Node) (isReceiver : access.firstChild? = some receiver) :
    receiver.isMemberName = false := by
  rw [Bool.eq_false_iff, ne_eq, member_name_iff]
  rintro ⟨access', isParent, -, isName⟩
  obtain rfl := Option.some.inj (isParent.symm.trans (parent_of_child access receiver (List.mem_of_head? isReceiver)))
  have first : access'.children[0]? = some receiver := List.head?_eq_getElem?.symm.trans isReceiver
  have bound := (List.getElem?_eq_some_iff.mp first).choose
  cases (List.getElem?_inj bound (children_nodup access')).mp (first.trans isName.symm)

namespace Scope

def FirstNamed (method parameter : Node) (name : String) : Prop :=
  ∃ list, method.childOfKind? .parameterList = some list ∧
    (list.childrenOfKind .parameter).find? (·.name? == some name) = some parameter

theorem first_named_iff (method parameter : Node) (name : String) (methodLike : method.kind.isMethodLike)
    (isParameter : parameter.kind = .parameter) :
    (declarations method).find? (declares name) = some parameter ↔ FirstNamed method parameter name := by
  have owns : method.kind.isBodyOwner := by rw [Kind.isBodyOwner, methodLike, Bool.or_true]
  have notLocal : (localNodes method).find? (declares name) ≠ some parameter := by
    intro found
    have isLocal := ((mem_local_nodes method parameter).mp (List.mem_of_find?_eq_some found)).1
    rw [isParameter] at isLocal
    cases isLocal
  have nodes : parameterNodes method = (method.childOfKind? .parameterList).elim [] (·.childrenOfKind .parameter) := by
    unfold parameterNodes
    split
    · rename_i isLambda
      rw [isLambda] at methodLike
      cases methodLike
    · rfl
  have byName : ∀ list : Node, (list.childrenOfKind .parameter).find? (declares name) =
      (list.childrenOfKind .parameter).find? (·.name? == some name) := by
    intro list
    refine List.find?_congr fun other member => ?_
    rw [declares_eq, declaration?, eq_of_beq (List.mem_filter.mp member).2, Option.isSome_some, Bool.true_and]
  rw [declarations_of_owner method owns, List.find?_append, Option.or_eq_some_iff, nodes]
  cases found : method.childOfKind? .parameterList with
  | none => simp [FirstNamed, found, notLocal]
  | some list => simp [FirstNamed, found, notLocal, byName]

section
variable (method list parameter : Node) (name : String) (isParameter : parameter.kind = .parameter)
  (inList : parameter.parent = some list) (isList : list.kind = .parameterList) (inMethod : list.parent = some method)
  (methodLike : method.kind.isMethodLike) (named : parameter.name? = some name)
include isParameter inList isList inMethod methodLike named

theorem receiver_found_iff (access receiver : Node) (below : access ∈ method.descendantsOfKind .memberAccess)
    (isReceiver : access.firstChild? = some receiver) (isName : receiver.kind = .identifierName) :
    declaration receiver = some parameter ↔
      FirstNamed method parameter name ∧ receiver.text = name ∧ ¬ Captured method receiver name := by
  have belongs := (Node.body_owner_iff _ _).mp (body_owner_of_parameter parameter list method inList isList inMethod methodLike)
  have inside : receiver ∈ method.descendants :=
    Node.below_of_child method access receiver (List.mem_cons_of_mem _ (List.mem_filter.mp below).1) (List.mem_of_head? isReceiver)
  rw [found_in_owner_iff method receiver parameter isName (Node.receiver_not_member access receiver isReceiver) isParameter belongs
    inside, first_named_iff method parameter _ methodLike isParameter]
  constructor
  · rintro ⟨first, free⟩
    have same : receiver.text = name := by
      obtain ⟨_, -, found⟩ := first
      have named' : parameter.name? = some receiver.text := by simpa using List.find?_some found
      exact Option.some.inj (named'.symm.trans named)
    exact ⟨same ▸ first, same, same ▸ free⟩
  · rintro ⟨first, rfl, free⟩
    exact ⟨first, free⟩

theorem dereferences_free (first : FirstNamed method parameter name)
    (free : method.Dereferences fun receiver => receiver.text = name ∧ ¬ Captured method receiver name) :
    method.Dereferences (RefersTo · parameter) := by
  obtain ⟨access, below, receiver, isReceiver, isName, same, free⟩ := free
  exact ⟨access, below, receiver, isReceiver, isName, refers_of_found receiver parameter isName
    ((receiver_found_iff method list parameter name isParameter inList isList inMethod methodLike named access receiver below
      isReceiver isName).mpr ⟨first, same, free⟩)⟩

theorem dereferences_refer (some : name ≠ "") (real : method.Dereferences (RefersTo · parameter)) :
    FirstNamed method parameter name ∧ method.Dereferences fun receiver => receiver.text = name ∧ ¬ Captured method receiver name := by
  obtain ⟨access, below, receiver, isReceiver, isName, refers⟩ := real
  have accessTree := Node.same_tree_of_descendant method access (List.mem_cons_of_mem _ (List.mem_filter.mp below).1)
  have inTree : receiver.SameTree parameter :=
    Node.same_tree_trans (Node.same_tree_of_child access receiver (List.mem_of_head? isReceiver)) (Node.same_tree_trans accessTree
      (Node.same_tree_trans (Node.same_tree_of_parent list method inMethod) (Node.same_tree_of_parent parameter list inList)))
  obtain ⟨_, symbol, -, -, declared, text⟩ := refers_to_found receiver parameter isName refers
  have same : receiver.text = name := text.symm.trans (Option.some.inj ((name_of_declared parameter symbol declared).symm.trans named))
  have found := (refers_to_iff receiver parameter isName inTree (same ▸ some)).mp refers
  obtain ⟨first, -, free⟩ := (receiver_found_iff method list parameter name isParameter inList isList inMethod methodLike named
    access receiver below isReceiver isName).mp found
  exact ⟨first, access, below, receiver, isReceiver, isName, same, free⟩

end

end Scope

namespace Detect

theorem dereferenced_iff (method : Node) (name : String) :
    isDereferenced method name ↔ method.Dereferences (·.trimmed = name) := by
  simp only [isDereferenced, Node.Dereferences, List.any_eq_true, Option.any_eq_true, Bool.and_eq_true, beq_iff_eq]

theorem missing_null_iff (parameter list method : Node) (inList : parameter.parent = some list) (inMethod : list.parent = some method)
    (methodLike : method.kind.isMethodLike) :
    (missingNullValidation (some (Scope.semantics parameter)) parameter).isSome ↔ ∃ symbol,
      (Scope.semantics parameter).declared? parameter = some symbol ∧ symbol.kind = .parameter ∧
        isStruct (Scope.semantics parameter) symbol = false ∧ method.hasModifier "private" = false ∧
        method.Dereferences (·.trimmed = symbol.name) ∧ ¬ method.ThrowsFor (Scope.semantics parameter) symbol.name := by
  simp only [missingNullValidation, parameterSymbol?, inList, inMethod, bind, Option.bind_some, Option.isSome_bind, Option.any_eq_true,
    Option.filter_eq_some_iff, Finding.on_if_some, methodLike, Bool.true_and, Bool.and_eq_true, Bool.not_eq_true', beq_iff_eq,
    dereferenced_iff, ← guarded_iff parameter method methodLike, Bool.not_eq_true, and_assoc]

end Detect

namespace Catalog

open SmellCheck.Detect

-- The rule asks for a receiver that reads like the parameter. The method really dereferences the parameter exactly when this is
-- the first of its name there and the name is the whole text of some receiver that no scope in the method captures.
theorem dereference_real_iff (method list parameter : Node) (name : String) (isParameter : parameter.kind = .parameter)
    (inList : parameter.parent = some list) (isList : list.kind = .parameterList) (inMethod : list.parent = some method)
    (methodLike : method.kind.isMethodLike) (named : parameter.name? = some name) :
    let semantics := Scope.semantics parameter
    let free := Scope.FirstNamed method parameter name ∧
      method.Dereferences fun receiver => receiver.text = name ∧ ¬ Scope.Captured method receiver name
    let real := method.Dereferences (Scope.RefersTo · parameter)
    (∀ catalog answer?,
      (Engine.ofCatalog catalog).detectRule Rule.missingParameterNullValidation.id (some semantics) parameter = .ok answer? →
        (answer?.isSome ↔ ∃ symbol, semantics.declared? parameter = some symbol ∧ isStruct semantics symbol = false ∧
          method.hasModifier "private" = false ∧ method.Dereferences (·.trimmed = name) ∧ ¬ method.ThrowsFor semantics name)) ∧
      (free → real) ∧ (name ≠ "" → real → free) := by
  intro semantics free real
  refine ⟨fun catalog answer? answered => ?_, fun ⟨first, free⟩ => ?_, fun some real => ?_⟩
  · rw [answer_for_parameter catalog .missingParameterNullValidation rfl (some semantics) parameter isParameter answer? answered]
    refine (missing_null_iff parameter list method inList inMethod methodLike).trans (exists_congr fun symbol => ?_)
    refine and_congr_right fun declared => ?_
    obtain ⟨symbol', declared', rfl, isKind⟩ := Scope.declared_parameter parameter isParameter name named
    obtain rfl : symbol = symbol' := Option.some.inj (declared.symm.trans declared')
    exact and_iff_right isKind
  · exact Scope.dereferences_free method list parameter name isParameter inList isList inMethod methodLike named first free
  · exact Scope.dereferences_refer method list parameter name isParameter inList isList inMethod methodLike named some real

end Catalog

namespace Checked

open Build

def saved (statement : Tree) : Node :=
  parameter .methodDecl (withModifiers ["public"] ++ [(predefinedType "void").toElement, space, ident "Save"]) (block [statement])
    [] []

def readingId : Tree := exprStmt (simpleLambda "order" (memberAccess (identifierName "order") "Id"))

end Checked

namespace Catalog

open SmellCheck.Detect Checked

theorem reported_where_found (parameter : Node) (isParameter : parameter.kind = .parameter)
    (found : (missingNullValidation (some (Scope.semantics parameter)) parameter).isSome) :
    ∃ diagnostic, (Engine.ofCatalog builtin).detectRule Rule.missingParameterNullValidation.id (some (Scope.semantics parameter))
      parameter = .ok (some diagnostic) := by
  obtain ⟨answer?, answered⟩ := builtin_answers .missingParameterNullValidation (some (Scope.semantics parameter)) parameter
  have answer := answer_for_parameter builtin .missingParameterNullValidation rfl _ parameter isParameter answer? answered
  obtain ⟨diagnostic, found⟩ := Option.isSome_iff_exists.mp (answer.trans found)
  exact ⟨diagnostic, found ▸ answered⟩

theorem validated_parameter_dereferenced :
    let parameter := saved (validate "order")
    let list := parameter.ancestors.headD parameter
    let method := list.ancestors.headD parameter
    parameter.kind = .parameter ∧ parameter.parent = some list ∧ list.kind = .parameterList ∧ list.parent = some method ∧
      method.kind = .methodDecl ∧ parameter.name? = some "order" ∧
      (∃ diagnostic, (Engine.ofCatalog builtin).detectRule Rule.missingParameterNullValidation.id
        (some (Scope.semantics parameter)) parameter = .ok (some diagnostic)) ∧
      method.Dereferences (Scope.RefersTo · parameter) := by
  intro parameter list method
  have isMethod : method.kind = .methodDecl := by decide
  have first : Scope.FirstNamed method parameter "order" := ⟨list, by decide, by decide⟩
  have free : method.Dereferences fun receiver => receiver.text = "order" ∧ ¬ Scope.Captured method receiver "order" := by
    let access := (method.descendantsOfKind .memberAccess).headD method
    exact ⟨access, by decide, access.firstChild?.getD access, rfl, by decide, by decide, by decide⟩
  obtain ⟨-, real, -⟩ := dereference_real_iff method list parameter "order" (by decide) rfl (by decide) rfl
    (by rw [isMethod]; rfl) (by decide)
  exact ⟨by decide, rfl, by decide, rfl, isMethod, by decide,
    reported_where_found parameter (by decide) (by decide +kernel), real ⟨first, free⟩⟩

theorem captured_parameter_reported :
    let parameter := saved readingId
    let list := parameter.ancestors.headD parameter
    let method := list.ancestors.headD parameter
    parameter.kind = .parameter ∧ parameter.parent = some list ∧ list.kind = .parameterList ∧ list.parent = some method ∧
      method.kind = .methodDecl ∧ parameter.name? = some "order" ∧
      (∃ diagnostic, (Engine.ofCatalog builtin).detectRule Rule.missingParameterNullValidation.id
        (some (Scope.semantics parameter)) parameter = .ok (some diagnostic)) ∧
      ¬ method.Dereferences (Scope.RefersTo · parameter) := by
  intro parameter list method
  have isMethod : method.kind = .methodDecl := by decide
  refine ⟨by decide, rfl, by decide, rfl, isMethod, by decide, reported_where_found parameter (by decide) (by decide +kernel), ?_⟩
  have captured : ∀ access ∈ method.descendantsOfKind .memberAccess, ∀ receiver ∈ access.firstChild?,
      Scope.Captured method receiver "order" := by decide
  intro real
  obtain ⟨-, access, below, receiver, isReceiver, -, -, free⟩ := Scope.dereferences_refer method list parameter "order" (by decide)
    rfl (by decide) rfl (by rw [isMethod]; rfl) (by decide) (by decide) real
  exact free (captured access below receiver isReceiver)

end Catalog

end SmellCheck
