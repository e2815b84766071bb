import SmellCheck.Build
import SmellCheck.Detection
import SmellCheck.Proofs.DeclarationRanges
import SmellCheck.Proofs.Reporting

/-!
Parameters that are checked for null. A method or constructor that throws for a parameter keeps the
rule about unchecked dereferences quiet. The rule about kept parameters looks for no throw: it reports
what a constructor keeps in a field that its type dereferences, checked or not.
-/

set_option autoImplicit false

namespace SmellCheck

def Node.ThrowsFor (semantics : Semantics) (name : String) (method : Node) : Prop :=
  ∃ thrown ∈ method.descendants, (thrown.kind = .throwStmt ∨ thrown.kind = .throwExpr) ∧
    ∃ creation type list argument, thrown.firstChild? = some creation ∧ creation.kind = .objectCreation ∧
      creation.firstChild? = some type ∧ type.kind.isType ∧
      (∃ symbol, semantics.referenced? type = some symbol ∧ symbol.kind = .type ∧
        symbol.type? = some "System.ArgumentNullException") ∧
      creation.childOfKind? .argumentList = some list ∧ argument ∈ list.childrenOfKind .argument ∧
      argument.trimmed = "nameof(" ++ name ++ ")"

-- Whether an assignment sets a field to the symbol alone, and the nearest type around has a member
-- access on that field.
def Node.KeepsDereferenced (semantics : Semantics) (symbol : Symbol) (constructor : Node) : Prop :=
  ∃ assignment ∈ constructor.descendantsOfKind .assignment, ∃ left right field type,
    assignment.firstChild? = some left ∧ assignment.child? 1 = some right ∧ semantics.referenced? right = some symbol ∧
      semantics.referenced? left = some field ∧ field.kind = .field ∧
      constructor.ancestors.find? (fun above => above.kind == .classDecl || above.kind == .structDecl) = some type ∧
      ∃ access ∈ type.descendantsOfKind .memberAccess, ∃ receiver, access.firstChild? = some receiver ∧
        semantics.referenced? receiver = some field

namespace Scope

theorem unwrapped_self (node : Node) (bare : node.kind ≠ .parenExpr) : node.unwrapped? = some node := by
  rw [Node.unwrapped?, Tree.toElement, Node.unwrapFrom, if_neg (show Kind.ofRaw node.focus.raw ≠ .parenExpr from bare)]

theorem known_type (root node : Node) (symbol : Symbol) (isType : node.kind.isType)
    (known : referenced? root node = some symbol) : node.kind = .identifierName := by
  have bare : node.kind ≠ .parenExpr := by
    intro wrapped
    rw [wrapped] at isType
    cases isType
  simp only [referenced?, unwrapped_self node bare, bind, Option.bind_some] at known
  split at known
  · assumption
  · rename_i access
    rw [access] at isType
    cases isType
  · cases known

theorem declared_parameter (node : Node) (isParameter : node.kind = .parameter) (name : String)
    (named : node.name? = some name) : ∃ symbol, declared? node = some symbol ∧ symbol.name = name ∧ symbol.kind = .parameter := by
  simp only [declared?, declaration?, isParameter, named, bind, Option.bind_some, pure]
  exact ⟨_, rfl, rfl, rfl⟩

theorem body_owner_of_parameter (parameter list method : Node) (inList : parameter.parent = some list)
    (isList : list.kind = .parameterList) (inMethod : list.parent = some method) (methodLike : method.kind.isMethodLike) :
    parameter.bodyOwner? = some method := by
  have owns : method.kind.isBodyOwner := by rw [Kind.isBodyOwner, methodLike, Bool.or_true]
  have inner := Node.belongs_child list method inMethod owns
  exact (Node.body_owner_iff _ _).mpr (Node.belongs_below parameter list method inList (by rw [isList]; exact ⟨rfl, rfl⟩) inner)

end Scope

namespace Detect

theorem is_throw_iff (kind : Kind) : isThrow kind ↔ kind = .throwStmt ∨ kind = .throwExpr := by
  cases kind <;> simp [isThrow]

theorem names_argument_null_iff (home creation : Node) :
    namesArgumentNull (Scope.semantics home) creation ↔ ∃ type, creation.firstChild? = some type ∧ type.kind.isType ∧
      ∃ symbol, (Scope.semantics home).referenced? type = some symbol ∧ symbol.kind = .type ∧
        symbol.type? = some "System.ArgumentNullException" := by
  simp only [namesArgumentNull, Option.any_eq_true, Bool.and_eq_true, beq_iff_eq]
  refine exists_congr fun type => and_congr_right fun _ => and_congr_left fun ⟨symbol, known, _⟩ => ?_
  exact ⟨fun plain => by rw [plain]; rfl, fun isType => Scope.known_type _ type symbol isType known⟩

theorem has_argument_iff (creation : Node) (text : String) :
    hasArgument creation text ↔ ∃ list, creation.childOfKind? .argumentList = some list ∧
      ∃ argument ∈ list.childrenOfKind .argument, argument.trimmed = text := by
  simp only [hasArgument, Option.any_eq_true, List.any_eq_true, beq_iff_eq]

theorem guarded_iff (home method : Node) (methodLike : method.kind.isMethodLike) (name : String) :
    isGuarded (Scope.semantics home) method name ↔ method.ThrowsFor (Scope.semantics home) name := by
  have other : ¬ isThrow method.kind := by
    rw [is_throw_iff]
    rintro (same | same) <;> rw [same] at methodLike <;> cases methodLike
  simp only [isGuarded, List.any_eq_true, Bool.and_eq_true, Option.any_eq_true, beq_iff_eq, is_throw_iff,
    names_argument_null_iff, has_argument_iff]
  constructor
  · rintro ⟨thrown, member, isThrown, creation, isOperand, ⟨isCreation, type, isFirst, isType, known⟩, list, isList, argument,
      isArgument, text⟩
    rcases List.mem_cons.mp member with rfl | below
    · exact absurd ((is_throw_iff _).mpr isThrown) other
    · exact ⟨thrown, below, isThrown, creation, type, list, argument, isOperand, isCreation, isFirst, isType, known, isList,
        isArgument, text⟩
  · rintro ⟨thrown, below, isThrown, creation, type, list, argument, isOperand, isCreation, isFirst, isType, known, isList,
      isArgument, text⟩
    exact ⟨thrown, List.mem_cons_of_mem _ below, isThrown, creation, isOperand, ⟨isCreation, type, isFirst, isType, known⟩, list,
      isList, argument, isArgument, text⟩

theorem quiet_where_guarded (semantics : Semantics) (parameter list method : Node) (symbol : Symbol)
    (inList : parameter.parent = some list) (inMethod : list.parent = some method)
    (declared : semantics.declared? parameter = some symbol) (isParameter : symbol.kind = .parameter)
    (guarded : isGuarded semantics method symbol.name) : missingNullValidation (some semantics) parameter = none := by
  have found : parameterSymbol? semantics parameter = some symbol := by
    rw [parameterSymbol?, declared, Option.filter_some, if_pos (by rw [isParameter]; rfl)]
  simp only [missingNullValidation, inList, inMethod, found, guarded, bind, Option.bind_some, Finding.onIf, Bool.not_true,
    Bool.and_false, Bool.false_eq_true, if_false]

theorem mem_fields_set_to (semantics : Semantics) (constructor : Node) (parameter field : Symbol) :
    field ∈ fieldsSetTo semantics constructor parameter ↔ ∃ assignment ∈ constructor.descendantsOfKind .assignment,
      ∃ left right, assignment.firstChild? = some left ∧ assignment.child? 1 = some right ∧
        semantics.referenced? right = some parameter ∧ semantics.referenced? left = some field ∧ field.kind = .field := by
  refine List.mem_filterMap.trans (exists_congr fun assignment => and_congr_right fun _ => ?_)
  simp only [bind, Option.bind_eq_some_iff]
  constructor
  · rintro ⟨left, isLeft, right, isRight, set⟩
    split at set
    · rename_i same
      obtain ⟨known, isField⟩ := Option.filter_eq_some_iff.mp set
      exact ⟨left, right, isLeft, isRight, same, known, eq_of_beq isField⟩
    · cases set
  · rintro ⟨left, right, isLeft, isRight, same, known, isField⟩
    refine ⟨left, isLeft, right, isRight, ?_⟩
    rw [if_pos same]
    exact Option.filter_eq_some_iff.mpr ⟨known, beq_iff_eq.mpr isField⟩

theorem missing_constructor_iff (semantics : Semantics) (node : Node) :
    (missingConstructorNullValidation (some semantics) node).isSome ↔ ∃ symbol constructor,
      semantics.declared? node = some symbol ∧ symbol.kind = .parameter ∧ semantics.owner? symbol = some constructor ∧
        constructor.kind = .constructorDecl ∧ isStruct semantics symbol = false ∧
        constructor.hasModifier "private" = false ∧ constructor.KeepsDereferenced semantics symbol := by
  simp only [missingConstructorNullValidation, parameterSymbol?, Option.isSome_iff_exists, bind, Option.bind_some,
    Option.bind_eq_some_iff, Option.filter_eq_some_iff, Finding.onIf]
  constructor
  · rintro ⟨finding, symbol, ⟨declared, isParameter⟩, constructor, owner, type, isType, found⟩
    split at found
    · rename_i all
      simp only [Bool.and_eq_true, Bool.not_eq_true', List.any_eq_true, Option.any_eq_true, beq_iff_eq,
        Option.bind_eq_some_iff, List.contains_iff_mem] at all
      obtain ⟨⟨⟨isConstructor, reference⟩, visible⟩, access, below, field, ⟨receiver, isReceiver, known⟩, isField⟩ := all
      obtain ⟨assignment, inside, left, right, isLeft, isRight, set, target, kind⟩ := (mem_fields_set_to _ _ _ _).mp isField
      exact ⟨symbol, constructor, declared, eq_of_beq isParameter, owner, isConstructor, reference, visible, assignment, inside,
        left, right, field, type, isLeft, isRight, set, target, kind, isType, access, below, receiver, isReceiver, known⟩
    · cases found
  · rintro ⟨symbol, constructor, declared, isParameter, owner, isConstructor, reference, visible, assignment, inside, left, right,
      field, type, isLeft, isRight, set, target, kind, isType, access, below, receiver, isReceiver, known⟩
    have isField := (mem_fields_set_to semantics constructor symbol field).mpr
      ⟨assignment, inside, left, right, isLeft, isRight, set, target, kind⟩
    refine ⟨_, symbol, ⟨declared, beq_iff_eq.mpr isParameter⟩, constructor, owner, type, isType, if_pos ?_⟩
    simp only [Bool.and_eq_true, Bool.not_eq_true', List.any_eq_true, Option.any_eq_true, beq_iff_eq,
      Option.bind_eq_some_iff, List.contains_iff_mem]
    exact ⟨⟨⟨isConstructor, reference⟩, visible⟩, access, below, field, ⟨receiver, isReceiver, known⟩, isField⟩

end Detect

namespace Catalog

open SmellCheck.Detect

theorem answer_for_parameter (catalog : Catalog) (rule : Rule) (triggered : rule.descriptor.triggers = [.parameter])
    (semantics? : Option Semantics) (parameter : Node) (isParameter : parameter.kind = .parameter)
    (answer? : Option Diagnostic)
    (answered : (Engine.ofCatalog catalog).detectRule rule.id semantics? parameter = .ok answer?) :
    answer?.isSome = (ofRule rule semantics? parameter).isSome := by
  obtain ⟨descriptor, member, same, rfl⟩ := Engine.detect_rule_ok catalog semantics? parameter rule.id answer? answered
  have isRule := (Rule.id_injective _ _ same).symm
  obtain ⟨severity, -, described⟩ := Option.map_eq_some_iff.mp ((mem_all_iff catalog descriptor).mp member)
  have triggers : descriptor.triggers = [.parameter] := by
    rw [← described, ← triggered, ← isRule]
  rw [Descriptor.answer?, if_pos (by rw [triggers, isParameter]; rfl), Descriptor.report?, Option.isSome_map, isRule]

-- A parameter that is thrown for is not reported as dereferenced unchecked. Whether it is reported as kept unchecked does not
-- depend on a throw: it is when its constructor keeps it in a field that the type dereferences.
theorem thrown_for_parameter (catalog : Catalog) (parameter list method : Node) (name : String)
    (isParameter : parameter.kind = .parameter) (inList : parameter.parent = some list) (isList : list.kind = .parameterList)
    (inMethod : list.parent = some method) (methodLike : method.kind.isMethodLike) (named : parameter.name? = some name) :
    let semantics := Scope.semantics parameter
    let detect (rule : Rule) := (Engine.ofCatalog catalog).detectRule rule.id (some semantics) parameter
    (method.ThrowsFor semantics name → ∀ answer?, detect .missingParameterNullValidation = .ok answer? → answer? = none) ∧
      ∃ symbol, semantics.declared? parameter = some symbol ∧ symbol.name = name ∧
        (name ≠ "" → semantics.owner? symbol = some method) ∧
        ∀ answer?, detect .missingConstructorParameterNullValidation = .ok answer? →
          (answer?.isSome ↔ ∃ constructor, semantics.owner? symbol = some constructor ∧
            constructor.kind = .constructorDecl ∧ isStruct semantics symbol = false ∧
            constructor.hasModifier "private" = false ∧ constructor.KeepsDereferenced semantics symbol) := by
  intro semantics detect
  obtain ⟨symbol, declared, rfl, isKind⟩ := Scope.declared_parameter parameter isParameter name named
  have known : semantics.declared? parameter = some symbol := declared
  refine ⟨?_, symbol, known, rfl, ?_, ?_⟩
  · intro throws answer? answered
    have quiet := quiet_where_guarded semantics parameter list method symbol inList inMethod known isKind
      ((guarded_iff parameter method methodLike symbol.name).mpr throws)
    have answer := answer_for_parameter catalog .missingParameterNullValidation rfl (some semantics) parameter isParameter
      answer? answered
    rw [show ofRule .missingParameterNullValidation (some semantics) parameter = none from quiet] at answer
    exact Option.isNone_iff_eq_none.mp (Option.isSome_eq_false_iff.mp answer)
  · intro some
    have isLocal : symbol.isParameterOrLocal := by rw [Symbol.isParameterOrLocal, isKind]; rfl
    -- A name gives the parameter text of its own, so the range of the declaration leads back to it.
    exact (Scope.owner_of_declared parameter symbol declared isLocal some).trans
      (Scope.body_owner_of_parameter parameter list method inList isList inMethod methodLike)
  · intro answer? answered
    rw [answer_for_parameter catalog .missingConstructorParameterNullValidation rfl (some semantics) parameter isParameter
      answer? answered]
    refine (missing_constructor_iff semantics parameter).trans ?_
    constructor
    · rintro ⟨symbol', constructor, declared', -, rest⟩
      obtain rfl : symbol = symbol' := Option.some.inj (known.symm.trans declared')
      exact ⟨constructor, rest⟩
    · rintro ⟨constructor, rest⟩
      exact ⟨symbol, constructor, known, isKind, rest⟩

end Catalog

namespace Checked

open Build

def throwing (name : String) : Tree :=
  ifStmt (binary (identifierName name) "==" (keywordLiteral "null"))
    (throwStmt (some (objectCreation (identifierName "ArgumentNullException")
      (some [invocation (identifierName "nameof") [identifierName name]]) none))) none

def validate (receiver : String) : Tree := exprStmt (invocation (memberAccess (identifierName receiver) "Validate") [])

def parameter (kind : Kind) (head : List Element) (body : Tree) (front back : List Tree) : Node :=
  ⟨0, Build.parameter (identifierName "Order") "order",
    [⟨Kind.parameterList.raw, [punct "("], [punct ")"]⟩, ⟨kind.raw, head.reverse, [space, body.toElement]⟩,
      ⟨Kind.classDecl.raw, ([keyword "class", space, ident "C", space, punct "\x7b"] ++ afterSpace front ++ [space]).reverse,
        afterSpace back ++ [space, punct "\x7d"]⟩]⟩

def inMethod : Node :=
  parameter .methodDecl (withModifiers ["public"] ++ [(predefinedType "void").toElement, space, ident "Save"])
    (block [throwing "order", validate "order"]) [] []

def inConstructor : Node :=
  parameter .constructorDecl (withModifiers ["public"] ++ [ident "C"])
    (block [throwing "order",
      exprStmt (assignment (memberAccess (identifierName "this") "_order") (identifierName "order"))])
    [simpleField ["private"] (identifierName "Order") "_order" none]
    [method [] ["public"] (predefinedType "void") "Save" (parameterList []) (block [validate "_order"])]

end Checked

namespace Catalog

open SmellCheck.Detect Checked

theorem builtin_answers (rule : Rule) (semantics? : Option Semantics) (node : Node) :
    ∃ answer?, (Engine.ofCatalog builtin).detectRule rule.id semantics? node = .ok answer? := by
  have member : rule.descriptor ∈ builtin.all := (mem_all_iff builtin _).mpr (by rw [rule.descriptor_rule, builtin_get])
  have answered := Engine.detect_rule_of_mem builtin semantics? node rule.descriptor member
  rw [rule.descriptor_rule] at answered
  exact ⟨_, answered⟩

theorem method_parameter_thrown_for :
    let list := inMethod.ancestors.headD inMethod
    let method := list.ancestors.headD inMethod
    inMethod.kind = .parameter ∧ inMethod.parent = some list ∧ list.kind = .parameterList ∧ list.parent = some method ∧
      method.kind = .methodDecl ∧ inMethod.name? = some "order" ∧ method.ThrowsFor (Scope.semantics inMethod) "order" ∧
      isDereferenced method "order" ∧
      ∀ rule : Rule, rule = .missingParameterNullValidation ∨ rule = .missingConstructorParameterNullValidation →
        (Engine.ofCatalog builtin).detectRule rule.id (some (Scope.semantics inMethod)) inMethod = .ok none := by
  intro list method
  have isMethod : method.kind = .methodDecl := by decide
  have methodLike : method.kind.isMethodLike := by rw [isMethod]; rfl
  have guarded : isGuarded (Scope.semantics inMethod) method "order" := by decide +kernel
  have throws := (guarded_iff inMethod method methodLike "order").mp guarded
  obtain ⟨quiet, symbol, -, -, owner, kept⟩ := thrown_for_parameter builtin inMethod list method "order" (by decide) rfl
    (by decide) rfl methodLike (by decide)
  refine ⟨by decide, rfl, by decide, rfl, isMethod, by decide, throws, by decide +kernel, ?_⟩
  intro rule isRule
  obtain ⟨answer?, answered⟩ := builtin_answers rule (some (Scope.semantics inMethod)) inMethod
  rw [answered]
  rcases isRule with rfl | rfl
  · rw [quiet throws answer? answered]
  · -- What the parameter belongs to is no constructor.
    have nothing : answer?.isSome = false := by
      rw [Bool.eq_false_iff, ne_eq, kept answer? answered]
      rintro ⟨constructor, isOwner, isConstructor, -⟩
      rw [owner (by decide)] at isOwner
      rw [← Option.some.inj isOwner, isMethod] at isConstructor
      cases isConstructor
    rw [Option.isNone_iff_eq_none.mp (Option.isSome_eq_false_iff.mp nothing)]

theorem constructor_parameter_thrown_for :
    let list := inConstructor.ancestors.headD inConstructor
    let method := list.ancestors.headD inConstructor
    inConstructor.kind = .parameter ∧ inConstructor.parent = some list ∧ list.kind = .parameterList ∧
      list.parent = some method ∧ method.kind = .constructorDecl ∧ inConstructor.name? = some "order" ∧
      method.ThrowsFor (Scope.semantics inConstructor) "order" ∧
      ∃ diagnostic, (Engine.ofCatalog builtin).detectRule Rule.missingConstructorParameterNullValidation.id
        (some (Scope.semantics inConstructor)) inConstructor = .ok (some diagnostic) := by
  intro list method
  have isMethod : method.kind = .constructorDecl := by decide
  have methodLike : method.kind.isMethodLike := by rw [isMethod]; rfl
  have guarded : isGuarded (Scope.semantics inConstructor) method "order" := by decide +kernel
  refine ⟨by decide, rfl, by decide, rfl, isMethod, by decide, (guarded_iff _ method methodLike _).mp guarded, ?_⟩
  obtain ⟨answer?, answered⟩ := builtin_answers .missingConstructorParameterNullValidation
    (some (Scope.semantics inConstructor)) inConstructor
  have reported : (missingConstructorNullValidation (some (Scope.semantics inConstructor)) inConstructor).isSome := by
    decide +kernel
  have answer := answer_for_parameter builtin .missingConstructorParameterNullValidation rfl _ inConstructor (by decide)
    answer? answered
  obtain ⟨diagnostic, found⟩ := Option.isSome_iff_exists.mp (answer.trans reported)
  exact ⟨diagnostic, found ▸ answered⟩

end Catalog

end SmellCheck
