import SmellCheck.Proofs.Constants
import SmellCheck.Proofs.Naming

/-!
What a name refers to that takes the place of a literal. It refers to a constant with the value of
the literal exactly when a look-up from the literal, with the new constants declared and all literals
still in place, comes to that constant, so when nothing nearer declares the name.
-/

set_option autoImplicit false

namespace SmellCheck

def Node.constantText? (declarator : Node) : Option String := do
  let field ← (← declarator.parent).parent
  let value ← (← declarator.childOfKind? .equalsValue).firstChild?
  if declarator.kind = .variableDeclarator ∧ field.isConstantField then return value.trimmed else none

def Scope.RefersToConstant (identifier : Node) (text : String) : Prop :=
  ∃ symbol declarator, referenced? (.ofRoot identifier.snapshot identifier.root) identifier = some symbol ∧
    symbol.kind = .field ∧ declaration identifier = some declarator ∧ declared? declarator = some symbol ∧
    declarator.constantText? = some text

theorem field_of_constant (declarator : Node) (symbol : Symbol) (text : String)
    (constant : declarator.constantText? = some text) (declared : Scope.declared? declarator = some symbol) :
    symbol.kind = .field := by
  simp only [Node.constantText?, bind, Option.bind_eq_some_iff, pure] at constant
  obtain ⟨declaration, isParent, field, isField, equals, _, value, _, decided⟩ := constant
  split at decided
  · rename_i shape
    have parentKind : declaration.parentKind? = some .fieldDecl := by
      rw [Node.parentKind?, isField]
      exact congrArg some (eq_of_beq (Bool.and_eq_true_iff.mp shape.2).1)
    have sort : Scope.declaration? declarator = some (.field, declaration.firstChild?.map Node.text) := by
      simp [Scope.declaration?, shape.1, isParent, parentKind]
    simp only [Scope.declared?, sort, bind, Option.bind_some, Option.bind_eq_some_iff, pure, Option.some.injEq] at declared
    obtain ⟨_, _, rfl⟩ := declared
    rfl
  · cases decided

theorem refers_to_constant_iff (identifier : Node) (isIdentifier : identifier.kind = .identifierName) (text : String) :
    Scope.RefersToConstant identifier text ↔
      ∃ declarator, Scope.declaration identifier = some declarator ∧ declarator.constantText? = some text := by
  constructor
  · rintro ⟨_, declarator, _, _, found, _, constant⟩
    exact ⟨declarator, found, constant⟩
  · rintro ⟨declarator, found, constant⟩
    have declares := Scope.declares_some identifier.text declarator (by simpa using List.find?_some found)
    obtain ⟨symbol, declared⟩ := Option.isSome_iff_exists.mp declares
    refine ⟨symbol, declarator, ?_, field_of_constant declarator symbol text constant declared, found, declared, constant⟩
    rw [Scope.referenced_eq _ identifier isIdentifier, found, Option.bind_some, declared]
    rfl

namespace Fix

def newConstants (scope : Node) : List Request :=
  let plan := planConstants scope
  match plan.last? with
  | some last => if plan.fresh.isEmpty then [] else [.insertAfter last (plan.newFields last)]
  | none => []

def naming (use : String × Node) : Request := .replace use.2 [Build.identifierName use.1]

def requests (scope : Node) : List Request := newConstants scope ++ (planConstants scope).uses.map naming

def withConstants (scope : Node) : Session := (Session.start scope).run (newConstants scope)

def withNames (scope : Node) : Session := (Session.start scope).run (requests scope)

def placeOf (scope literal : Node) : Node := literal.rewritten (withConstants scope).edits

def nameOf (scope literal : Node) (name : String) : Node :=
  literal.inPlace (withNames scope).edits (Build.identifierName name)

-- A look-up of the name from the literal comes to a node that is, in the result, a constant with the
-- value of the literal. What is inside the literals that are exchanged does not count.
def ReachesConstant (scope literal : Node) (name : String) : Prop :=
  let result := (withNames scope).apply
  let scopes := Scope.searched (Scope.isMemberOfThis (nameOf scope literal name)) (placeOf scope literal)
  ∃ before after : Node, Scope.visible? (·.staysIn result) scopes name = some before ∧
    after.snapshot = before.snapshot ∧ after.root = result ∧ after.path = before.path ∧
    after.constantText? = some literal.trimmed

theorem replace_magic_values_eq (home : Node) : replaceMagicValues home =
    if (planConstants home.classScope).uses.isEmpty then none else some (withNames home.classScope).apply := by
  have declared : (planConstants home.classScope).declare (.start home.classScope) = withConstants home.classScope := by
    simp only [ConstantPlan.declare, withConstants, newConstants]
    cases (planConstants home.classScope).last? with
    | none => rfl
    | some last => by_cases none : (planConstants home.classScope).fresh.isEmpty <;> simp only [none] <;> rfl
  have run : withNames home.classScope = (withConstants home.classScope).planAll
      (fun session use => session.perform (naming use)) (planConstants home.classScope).uses := by
    rw [Session.plan_all_eq_run, withNames, requests, Session.run_append]
    rfl
  rw [run, ← declared]
  rfl

section
variable (scope : Node)

theorem planned_eq : ∃ later, (Session.start scope).accepted (requests scope) =
    (Session.start scope).accepted (newConstants scope) ++ later ∧
    ∀ request ∈ later, ∃ use ∈ (planConstants scope).uses, request = naming use := by
  refine ⟨_, Session.accepted_append _ _ _, ?_⟩
  intro request member
  obtain ⟨use, present, same⟩ := List.mem_map.mp (Session.mem_accepted _ _ request member)
  exact ⟨use, present, same.symm⟩

theorem new_constants_insert (request : Request) (member : request ∈ newConstants scope) :
    request.isDestructive = false := by
  simp only [newConstants] at member
  split at member
  · split at member
    · cases member
    · rw [List.mem_singleton.mp member]
      rfl
  · cases member

theorem plan_names : (withConstants scope).edits.Names (withNames scope).edits scope.root.toElement := by
  obtain ⟨later, split, names⟩ := planned_eq scope
  have first := Session.reached_history scope (newConstants scope)
  have whole := Session.reached_history scope (requests scope)
  have edits : ∀ path, (withConstants scope).edits.edit? path = _ := Session.planned_edit first
  have edits' : ∀ path, (withNames scope).edits.edit? path = _ := Session.planned_edit whole
  refine ⟨?_, ?_⟩
  · intro path edit planned
    rw [edits] at planned
    obtain ⟨request, found, rfl⟩ := Option.map_eq_some_iff.mp planned
    rw [Request.edit_is_destructive]
    exact new_constants_insert scope request (Session.mem_accepted _ _ request (Session.on_eq_some path request found).1)
  · intro path
    rw [edits, edits', split, Request.on?, List.find?_append]
    cases found : ((Session.start scope).accepted (newConstants scope)).find? (·.target.path == path) with
    | some request =>
        -- Both sessions have planned what was asked before the names.
        left
        rw [Request.on?, found]
        rfl
    | none =>
        rw [Request.on?, found, Option.none_or]
        cases named : later.find? (·.target.path == path) with
        | none => exact .inl rfl
        | some request =>
            right
            obtain ⟨use, present, rfl⟩ := names request (List.mem_of_find?_eq_some named)
            have literal := method_literal scope use.2 (used_literal scope use.1 use.2 present)
            have path : use.2.path = path := eq_of_beq (List.find?_some (p := fun r : Request => r.target.path == path) named)
            refine ⟨rfl, use.1, use.2.focus.raw, use.2.focus.children, rfl, ?_, literal.2⟩
            rw [← path]
            exact at_path use.2 scope literal.1

theorem planned_literal (literal : Node) (name : String)
    (planned : naming (name, literal) ∈ (Session.start scope).accepted (requests scope)) : literal.kind = .literal := by
  rcases List.mem_append.mp (Session.mem_accepted _ _ _ planned) with declares | names
  · cases new_constants_insert scope _ declares
  · obtain ⟨use, present, same⟩ := List.mem_map.mp names
    obtain ⟨rfl, -⟩ := Request.replace.inj same
    exact (method_literal scope use.2 (used_literal scope use.1 use.2 present)).2

theorem literal_place (literal : Node) (name : String)
    (planned : naming (name, literal) ∈ (Session.start scope).accepted (requests scope)) :
    (placeOf scope literal).root = (withConstants scope).apply := by
  have same : literal.SameTree scope := ((Session.reached_history scope (requests scope)).within _ planned).1
  have survives : literal.Survives (withConstants scope).edits := fun path edit _ _ given =>
    (plan_names scope).gentle path edit given
  have root : (withConstants scope).root = literal.root :=
    (Session.reached_history scope (newConstants scope)).root.trans same.2.symm
  rw [placeOf, Node.rewritten_root _ literal survives, Session.apply, root]

theorem name_place (literal : Node) (name : String)
    (planned : naming (name, literal) ∈ (Session.start scope).accepted (requests scope)) :
    (placeOf scope literal).Named (withNames scope).apply (nameOf scope literal name) := by
  have reached := Session.reached_history scope (requests scope)
  have same : literal.SameTree scope := (reached.within _ planned).1
  have names : (withConstants scope).edits.Names (withNames scope).edits literal.root.toElement := same.2 ▸ plan_names scope
  refine ⟨rfl, ?_, ?_, rewrite_all_named _ _ literal.focus literal.context names⟩
  · have applied : (withNames scope).apply = literal.root.rewrite (withNames scope).edits := by
      rw [Session.apply, withNames, reached.root, same.2]
    have edit : (withNames scope).edits.edit? literal.path = some (.replace [Build.identifierName name]) :=
      Session.edit_of_planned reached _ planned
    have inner : literal.path ≠ [] := path_of_inner literal scope same (reached.within _ planned).2
    cases isParent : literal.parent with
    | none =>
        obtain ⟨snapshot, focus, context⟩ := literal
        cases context with
        | nil => exact absurd rfl inner
        | cons _ _ => cases isParent
    | some parent =>
        have survives := Session.parent_survives reached _ planned parent isParent
        exact (Node.in_place_root _ literal parent _ isParent survives (congrArg (Edit.standing? _) edit)).trans applied.symm
  · obtain ⟨raw, kind, shape⟩ := element_rewrite_shape ((withConstants scope).edits.below literal.path)
      literal.focus.raw literal.focus.children
    have before : (literal.focus.rewrite ((withConstants scope).edits.below literal.path)).toElement = .node raw _ :=
      (tree_rewrite_to_element _ _).trans shape
    rw [placeOf, Node.rewritten, Node.inPlace, before]
    exact .literal raw _ _ name (kind.trans (planned_literal scope literal name planned)) rfl

end

-- A name in the place of a literal refers to the constant exactly when a look-up from the literal
-- reaches it.
theorem name_refers_to_constant_iff (home literal : Node) (name : String) (result : Tree)
    (fixed : replaceMagicValues home = some result)
    (planned : naming (name, literal) ∈ (Session.start home.classScope).accepted (requests home.classScope)) :
    (placeOf home.classScope literal).root = (withConstants home.classScope).apply ∧
    (nameOf home.classScope literal name).root = result ∧
    (Scope.RefersToConstant (nameOf home.classScope literal name) literal.trimmed ↔
      ReachesConstant home.classScope literal name) := by
  have applied : (withNames home.classScope).apply = result := by
    rw [replace_magic_values_eq] at fixed
    split at fixed
    · cases fixed
    · exact Option.some.inj fixed
  have place := name_place home.classScope literal name planned
  refine ⟨literal_place home.classScope literal name planned, place.root.trans applied, ?_⟩
  have text : (nameOf home.classScope literal name).text = name := by
    simp [Node.text, Tree.text, nameOf, Node.inPlace, Build.identifierName, Build.tree, Build.ident, Build.token,
      Forest.text, Element.text]
  have searched := Scope.named_searched _ _ _ place (Scope.isMemberOfThis (nameOf home.classScope literal name))
  have visible := option_related _ _ _ (Scope.named_visible _ _ _ searched name)
  rw [refers_to_constant_iff _ rfl, Scope.declaration, text]
  constructor
  · rintro ⟨after, found, constant⟩
    rcases visible with ⟨-, nothing⟩ | ⟨before, after', found', found'', here⟩
    · rw [nothing] at found
      cases found
    · obtain rfl : after' = after := Option.some.inj (found''.symm.trans found)
      exact ⟨before, after', found', here.snapshot, here.root, Node.named_path here, constant⟩
  · rintro ⟨before, after, found, snapshot, root, path, constant⟩
    rcases visible with ⟨nothing, -⟩ | ⟨before', after', found', found'', here⟩
    · rw [nothing] at found
      cases found
    · obtain rfl : before' = before := Option.some.inj (found'.symm.trans found)
      have same : after = after' := Node.eq_of_path after after' ⟨snapshot.trans here.snapshot.symm, root.trans here.root.symm⟩
        (path.trans (Node.named_path here).symm)
      exact ⟨after', found'', same ▸ constant⟩

def returning (parameter : String) (value : Tree) : Tree :=
  let word := Build.predefinedType "string"
  Build.classDecl [] "C" [Build.simpleField ["const"] word "A" (some (Build.stringLiteral "x")),
    Build.method [] [] word "M" (Build.parameterList [Build.parameter word parameter])
      (Build.block [Build.returnStmt (some value)])]

theorem other_name_refers_to_constant :
    let home := Node.ofRoot 0 (returning "b" (Build.stringLiteral "x"))
    let literal := (methodLiterals home).headD home
    replaceMagicValues home = some (returning "b" (Build.identifierName "A")) ∧
      naming ("A", literal) ∈ (Session.start home.classScope).accepted (requests home.classScope) ∧
      Scope.RefersToConstant (nameOf home.classScope literal "A") literal.trimmed := by
  intro home literal
  have fixed : replaceMagicValues home = some (returning "b" (Build.identifierName "A")) := by decide
  have planned : naming ("A", literal) ∈ (Session.start home.classScope).accepted (requests home.classScope) := by decide
  have reaches : ReachesConstant home.classScope literal "A" := by
    refine ⟨(Scope.visible? (fun _ => true) [placeOf home.classScope home] "A").getD home,
      (Scope.declaration (nameOf home.classScope literal "A")).getD home, ?_, ?_, ?_, ?_, ?_⟩ <;> decide
  exact ⟨fixed, planned, (name_refers_to_constant_iff home literal "A" _ fixed planned).2.2.mpr reaches⟩

theorem parameter_captures_name :
    let home := Node.ofRoot 0 (returning "A" (Build.stringLiteral "x"))
    let literal := (methodLiterals home).headD home
    replaceMagicValues home = some (returning "A" (Build.identifierName "A")) ∧
      naming ("A", literal) ∈ (Session.start home.classScope).accepted (requests home.classScope) ∧
      ¬ Scope.RefersToConstant (nameOf home.classScope literal "A") literal.trimmed := by
  intro home literal
  refine ⟨by decide, by decide, ?_⟩
  have nothing : (Scope.declaration (nameOf home.classScope literal "A")).bind Node.constantText? = none := by decide
  rw [refers_to_constant_iff _ rfl]
  rintro ⟨declarator, found, constant⟩
  rw [found, Option.bind_some, constant] at nothing
  cases nothing

end Fix

end SmellCheck
