import SmellCheck.Proofs.MemberNames
import SmellCheck.Proofs.NamedOnce

/-!
New names in classes. A property for a field and constants for literals bring new members to a class,
with names made from other ones. The members of all classes keep different names exactly when no new
name is that of another member of the class that it comes to.
-/

set_option autoImplicit false

namespace SmellCheck

theorem property_subtrees (attributes : List Tree) (modifiers : Option Tree) (type : Tree) (name : String) (body : Tree) :
    (Build.property attributes modifiers type name body).subtrees = attributes ++ modifiers.toList ++ [type, body] := by
  have last : (Build.bodyEnd body).filterMap Element.asNode? = [] := by
    unfold Build.bodyEnd
    split <;> rfl
  simp only [Build.property, Build.tree, Tree.subtrees, List.filterMap_append, subtrees_spaced, last, List.append_nil]
  rfl

theorem spaced_texts (kind : Kind) (other : kind ≠ .whitespace) (trees : List Tree) :
    (Build.spaced trees).filterMap (Element.tokenText? kind) = [] := by
  have space : Build.space.tokenText? kind = none := Written.texts_of_whitespace kind other _ rfl
  refine List.filterMap_eq_nil_iff.mpr fun element member => ?_
  obtain ⟨tree, -, here⟩ := List.mem_flatMap.mp member
  rcases List.mem_cons.mp here with rfl | last
  · rfl
  · rw [List.mem_singleton.mp last, space]

theorem property_declares (attributes : List Tree) (modifiers : Option Tree) (type : Tree) (name : String) (body : Tree) :
    (Build.property attributes modifiers type name body).declaredNames = [name] := by
  have kind : (Build.property attributes modifiers type name body).kind = .propertyDecl := tree_kind _ _
  have words := spaced_texts .ident (by decide)
  rw [Tree.declaredNames, kind, Tree.name?, Tree.tokenTexts]
  simp only [Build.property, Build.tree, List.filterMap_append, words]
  rfl

namespace Fix

theorem constant_like_declares (template : Node) (name : String) (literal : Tree) :
    (constantLike template name literal).declaredNames = [name] := by
  have kind : (constantLike template name literal).kind = .fieldDecl := tree_kind _ _
  rw [Tree.declaredNames, kind, Tree.declarators, constant_like_declaration]
  rfl

theorem copied_part (field : Node) (list part : Tree) (inList : Tree.Part part list)
    (copied : list ∈ attributeLists field ++ (modifierList? field).toList) : ∃ old ∈ field.descendantsOrSelf, old.focus = part := by
  have isChild : ∃ child ∈ field.children, child.focus = list := by
    rcases List.mem_append.mp copied with isAttributes | isModifiers
    · obtain ⟨child, isChild, same⟩ := List.mem_map.mp isAttributes
      exact ⟨child, (List.mem_filter.mp isChild).1, same⟩
    · obtain ⟨child, found, same⟩ := Option.map_eq_some_iff.mp (Option.mem_toList.mp isModifiers)
      exact ⟨child, List.mem_of_find?_eq_some found, same⟩
  obtain ⟨child, isChild, rfl⟩ := isChild
  obtain ⟨old, below, found⟩ := below_of_part child part inList
  exact ⟨old, List.mem_cons_of_mem _ ((Node.mem_descendants _ _).mpr ⟨child, isChild, below⟩), found⟩

theorem class_of_declaration (name : String) (literal type : Tree) (isPart : Tree.Part type (declarationOf name literal))
    (isClass : type.kind = .classDecl) : Tree.Part type literal := by
  have other (kind : Kind) (children : List Element) (different : kind ≠ .classDecl)
      (isPart : Tree.Part type (Build.tree kind children)) : ∃ child ∈ (Build.tree kind children).subtrees, Tree.Part type child := by
    rcases (part_iff _ _).mp isPart with rfl | inside
    · exact absurd ((tree_kind kind children).symm.trans isClass) different
    · exact inside
  obtain ⟨part, isChild, inPart⟩ := other _ _ (by decide) isPart
  rcases List.mem_cons.mp isChild with rfl | last
  · obtain ⟨word, isWord, -⟩ := other _ _ (by decide) inPart
    cases isWord
  · rw [List.mem_singleton.mp last] at inPart
    obtain ⟨equals, isEquals, inEquals⟩ := other _ _ (by decide) inPart
    rw [List.mem_singleton.mp isEquals] at inEquals
    obtain ⟨value, isValue, inValue⟩ := other _ _ (by decide) inEquals
    rwa [List.mem_singleton.mp isValue] at inValue

theorem class_of_constant (last : Node) (name : String) (literal type : Tree)
    (isPart : Tree.Part type (constantLike last name literal)) (isClass : type.kind = .classDecl) :
    (∃ old ∈ last.descendantsOrSelf, old.focus = type) ∨ Tree.Part type literal := by
  rcases (part_iff _ _).mp isPart with rfl | ⟨part, isChild, inPart⟩
  · exact absurd (isClass.symm.trans (tree_kind .fieldDecl _)) (by decide)
  · rw [constant_like_subtrees] at isChild
    rcases List.mem_append.mp isChild with copied | declares
    · exact .inl (copied_part last part type inPart copied)
    · rw [List.mem_singleton.mp declares] at inPart
      exact .inr (class_of_declaration name literal type inPart isClass)

theorem class_of_property (field : Node) (property type : Tree) (made : propertyFor? field = some property)
    (isPart : Tree.Part type property) (isClass : type.kind = .classDecl) : ∃ old ∈ field.descendantsOrSelf, old.focus = type := by
  obtain ⟨name, declaration, own, isDeclaration, isOwn, rfl⟩ := property_for_some field property made
  rcases (part_iff _ _).mp isPart with rfl | ⟨part, isChild, inPart⟩
  · exact absurd (isClass.symm.trans (tree_kind .propertyDecl _)) (by decide)
  · rw [property_subtrees] at isChild
    rcases List.mem_append.mp isChild with copied | rest
    · exact copied_part field part type inPart copied
    · rcases List.mem_cons.mp rest with rfl | accessors
      · obtain ⟨old, below, found⟩ := below_of_part own type inPart
        have inDeclaration : old ∈ declaration.descendants :=
          (Node.mem_descendants _ _).mpr ⟨own, List.mem_of_head? isOwn, below⟩
        have inField := (Node.mem_descendants _ _).mpr
          ⟨declaration, List.mem_of_find?_eq_some isDeclaration, List.mem_cons_of_mem _ inDeclaration⟩
        exact ⟨old, List.mem_cons_of_mem _ inField, found⟩
      · rw [List.mem_singleton.mp accessors] at inPart
        obtain ⟨old, below, rfl⟩ := below_of_part (.ofRoot 0 Build.autoAccessors) type inPart
        have none : ∀ part ∈ (Node.ofRoot 0 Build.autoAccessors).descendantsOrSelf, part.kind ≠ .classDecl := by decide
        exact absurd isClass (none old below)

-- The request with which a repair brings new members, a property in the place of a field or constants after the last one.
def newMembers? (rule : Rule) (home : Node) : Option Request :=
  match rule with
  | .encapsulateField => if home.isExposedField then (propertyFor? home).map fun property => .replace home [property] else none
  | .replaceMagicValues => (newConstants home.classScope).head?
  | _ => none

theorem property_new_members (home : Node) (exposed : home.isExposedField) (property : Tree) (made : propertyFor? home = some property) :
    (Request.replace home [property]).NewMembers home := by
  have isProperty : property.kind = .propertyDecl ∧ ∃ name, property.declaredNames = [name] := by
    obtain ⟨name, _, _, -, -, rfl⟩ := property_for_some home property made
    exact ⟨tree_kind _ _, name, property_declares _ _ _ _ _⟩
  refine ⟨⟨rfl, rfl⟩, ?_, ?_, ?_, ?_, nofun⟩
  · simp only [Node.isExposedField, Bool.and_eq_true, beq_iff_eq] at exposed
    exact exposed.1.1.1
  · intro new isNew
    rw [List.mem_singleton.mp isNew]
    exact .inr isProperty.1
  · intro new isNew type inNew isClass
    rw [List.mem_singleton.mp isNew] at inNew
    obtain ⟨old, below, found⟩ := class_of_property home property type made inNew isClass
    exact ⟨old, Node.same_tree_of_descendant home old below, found⟩
  · obtain ⟨-, name, names⟩ := isProperty
    have new : (Request.replace home [property]).newNames = [name] := by
      rw [← names]
      exact List.flatMap_singleton ..
    rw [new]
    exact List.nodup_singleton name

theorem new_fields_names (plan : ConstantPlan) (last : Node) :
    ((plan.newFields last).flatMap Tree.declaredNames).Sublist (plan.fresh.map Prod.fst) := by
  unfold ConstantPlan.newFields
  induction plan.fresh with
  | nil => exact .slnil
  | cons group rest ih =>
      obtain ⟨name, literals⟩ := group
      cases literals with
      | nil => exact .cons name ih
      | cons literal others =>
          simpa [constant_like_declares] using ih.cons_cons name

theorem constants_new_members (scope home : Node) (same : scope.SameTree home) (request : Request)
    (member : request ∈ newConstants scope) : request.NewMembers home := by
  rcases mem_requests scope request (List.mem_append_left _ member) with ⟨last, found, -, rfl⟩ | ⟨use, -, rfl⟩
  · have isLast := last_constant scope last found
    have inTree := Node.same_tree_trans (same_tree_of_constant_field scope last isLast) same
    refine ⟨inTree, (constant_field_below scope last isLast).2.1, ?_, ?_, ?_, nofun⟩
    · intro new isNew
      obtain ⟨name, _, literal, -, -, rfl⟩ := new_field scope last new isNew
      exact .inl (tree_kind _ _)
    · intro new isNew type inNew isClass
      obtain ⟨name, literals, literal, fresh, inGroup, rfl⟩ := new_field scope last new isNew
      rcases class_of_constant last name literal.focus type inNew isClass with ⟨old, below, found⟩ | inLiteral
      · exact ⟨old, Node.same_tree_trans (Node.same_tree_of_descendant last old below) inTree, found⟩
      · obtain ⟨old, below, found⟩ := below_of_part literal type inLiteral
        have literalTree := (method_literal scope literal (fresh_literals scope name literals fresh literal inGroup)).1
        exact ⟨old, Node.same_tree_trans (Node.same_tree_of_descendant literal old below)
          (Node.same_tree_trans literalTree same), found⟩
    · exact (fresh_distinct scope).1.sublist (new_fields_names (planConstants scope) last)
  · cases new_constants_insert scope _ member

theorem constants_free (scope : Node) (request : Request) (member : request ∈ newConstants scope) :
    ((namedValues scope.constantFields).map Prod.fst).Disjoint request.newNames := by
  rcases mem_requests scope request (List.mem_append_left _ member) with ⟨last, -, -, rfl⟩ | ⟨use, -, rfl⟩
  · intro name taken new
    exact (fresh_distinct scope).2 name ((new_fields_names (planConstants scope) last).subset new) taken
  · cases new_constants_insert scope _ member

end Fix

theorem brings_of_history (home : Node) (request? : Option Request) (later : List Request)
    (names : ∀ request ∈ later, ∃ use, use.2.kind = .literal ∧ request = Fix.naming use)
    (members : ∀ request, request? = some request → request.NewMembers home) : ∃ plan : Plan,
      ((Session.start home).run (request?.toList ++ later)).apply = home.root.rewrite plan ∧ plan.Brings home request? := by
  have reached := Session.reached_history home (request?.toList ++ later)
  have each (request : Request) (planned : request ∈ (Session.start home).accepted (request?.toList ++ later)) :
      (∃ use, use.2.kind = .literal ∧ request = Fix.naming use) ∨ request? = some request := by
    rcases List.mem_append.mp (Session.mem_accepted _ _ request planned) with first | naming
    · exact .inr (Option.mem_toList.mp first)
    · exact .inl (names request naming)
  refine ⟨_, by rw [Session.apply, reached.root], ?_, ?_, members, ?_⟩
  · intro node same edit isEdit
    obtain ⟨request, member, rfl, rfl⟩ := (Session.edit_iff reached node same edit).mp isEdit
    rcases each request member with ⟨use, isLiteral, rfl⟩ | wanted
    · exact .inl ⟨isLiteral, use.1, rfl⟩
    · exact .inr ⟨request, wanted, rfl, rfl⟩
  · intro path elements isEdit
    rw [Session.planned_edit reached] at isEdit
    obtain ⟨request, found, edit⟩ := Option.map_eq_some_iff.mp isEdit
    rcases each request (Session.on_eq_some path request found).1 with ⟨use, -, rfl⟩ | wanted
    · cases edit
    · exact (members request wanted).solid elements edit
  · intro request wanted type isParent
    -- Nothing is planned before the first request, so that only the root would refuse it.
    have inner := Node.inner_of_parent _ type isParent
    have notRoot : request.target ≠ .ofRoot home.snapshot home.root := fun atRoot =>
      Bool.eq_false_iff.mp inner ((Node.is_root_iff _ _ (members request wanted).within).mpr atRoot)
    obtain ⟨next, performed⟩ := (Session.perform_ok_iff (Session.reached_start home) request).mpr
      ⟨(members request wanted).within, notRoot, fun _ planned => absurd planned List.not_mem_nil⟩
    have member : request ∈ (Session.start home).accepted (request?.toList ++ later) := by
      rw [wanted, Option.toList_some, List.singleton_append, Session.accepted, performed]
      exact List.mem_cons_self
    exact ⟨Session.edit_of_planned reached request member, Session.parent_survives reached request member type isParent⟩

namespace Fix

theorem encapsulate_field_eq (home : Node) :
    (encapsulateField home).getD home.root = ((Session.start home).run (newMembers? .encapsulateField home).toList).apply := by
  have nothing : home.root = ((Session.start home).run []).apply := (Session.apply_nothing home).symm
  by_cases exposed : home.isExposedField
  · cases made : propertyFor? home with
    | none => simpa [encapsulateField, newMembers?, exposed, made] using nothing
    | some property =>
        have asked : (Session.start home).perform (.replace home [property]) = (Session.start home).replace home [property] := rfl
        cases performed : (Session.start home).replace home [property] with
        | error _ =>
            simpa [encapsulateField, newMembers?, exposed, made, performed, Session.run, Session.step, asked, Session.orSkip,
              Except.toOption] using nothing
        | ok next =>
            simp [encapsulateField, newMembers?, exposed, made, performed, Session.run, Session.step, asked, Session.orSkip,
              Except.toOption]
  · simpa [encapsulateField, newMembers?, exposed] using nothing

theorem new_constants_eq (scope : Node) : newConstants scope = (newConstants scope).head?.toList := by
  simp only [newConstants]
  split
  · split <;> rfl
  · rfl

theorem replace_magic_values_run (home : Node) : (replaceMagicValues home).getD home.root =
    ((Session.start home).run ((newMembers? .replaceMagicValues home).toList ++
      (planConstants home.classScope).uses.map naming)).apply := by
  have scope := Session.start_same _ _ (same_tree_of_class_scope home)
  have asked : (newMembers? .replaceMagicValues home).toList ++ (planConstants home.classScope).uses.map naming =
      requests home.classScope := congrArg (· ++ _) (new_constants_eq home.classScope).symm
  rw [asked, ← scope, names_applied]
  rfl

end Fix

theorem repair_brings (rule : Rule) (adds : rule = .encapsulateField ∨ rule = .replaceMagicValues) (fixer : Fixer)
    (fixable : Fix.ofRule? rule = some fixer) (home : Node) : ∃ plan : Plan,
      (fixer home).getD home.root = home.root.rewrite plan ∧ plan.Brings home (Fix.newMembers? rule home) := by
  rcases adds with rfl | rfl <;> cases fixable
  · rw [Fix.encapsulate_field_eq, ← List.append_nil (Option.toList _)]
    refine brings_of_history home _ [] (List.forall_mem_nil _) fun request wanted => ?_
    simp only [Fix.newMembers?] at wanted
    split at wanted
    · rename_i exposed
      obtain ⟨property, made, rfl⟩ := Option.map_eq_some_iff.mp wanted
      exact Fix.property_new_members home exposed property made
    · cases wanted
  · rw [Fix.replace_magic_values_run]
    refine brings_of_history home _ _ ?_ fun request wanted => ?_
    · intro request naming
      obtain ⟨use, member, rfl⟩ := List.mem_map.mp naming
      exact ⟨use, (Fix.method_literal _ _ (Fix.used_literal _ use.1 use.2 member)).2, rfl⟩
    · exact Fix.constants_new_members _ home (same_tree_of_class_scope home) request (List.mem_of_head? wanted)

namespace Declared

def greeting (method : String) (constants : List Tree) (value : Tree) : Tree :=
  Build.classDecl [] "C" (constant "A" (Build.stringLiteral "x") :: constants ++
    [Build.method [] [] (Build.predefinedType "string") method (Build.parameterList []) (Build.block [Build.returnStmt (some value)])])

def counter (first : Tree) : Tree :=
  Build.classDecl [] "C" [first, Build.simpleField [] (Build.predefinedType "int") "Count" none]

end Declared

namespace Catalog

open SmellCheck.Declared

-- Every class of the result declares what a class from before declares, or what its other members and the new ones do;
-- and the class that the new ones go to is one of the result. These names differ exactly when no new name is that of another
-- member. A new constant never has the name of a constant with a value, nor that of another new one.
theorem new_members_apart_iff (catalog : Catalog) (rule : Rule) (adds : rule = .encapsulateField ∨ rule = .replaceMagicValues)
    (home : Node) (result : Tree) (fixed : catalog.fix rule.id home = .ok result) :
    (∀ after ∈ (Node.ofRoot 0 result).descendantsOrSelf, after.kind = .classDecl → ∃ before : Node, before.SameTree home ∧
      before.kind = .classDecl ∧ (after.focus.memberNames = before.focus.memberNames ∨
        ∃ request, Fix.newMembers? rule home = some request ∧ request.target.parent = some before ∧
          after.focus.memberNames.Perm (request.otherNames before ++ request.newNames) ∧ (before.focus.memberNames.Nodup →
            (after.focus.memberNames.Nodup ↔ (request.otherNames before).Disjoint request.newNames)))) ∧
    (∀ request type, Fix.newMembers? rule home = some request → request.target.parent = some type → type.kind = .classDecl →
      ∃ after ∈ (Node.ofRoot 0 result).descendantsOrSelf, after.kind = .classDecl ∧
        after.focus.memberNames.Perm (request.otherNames type ++ request.newNames)) ∧
    (home.root.MembersApart → (result.MembersApart ↔ ∀ request type, Fix.newMembers? rule home = some request →
      request.target.parent = some type → type.kind = .classDecl → (request.otherNames type).Disjoint request.newNames)) ∧
    (rule = .replaceMagicValues → ∀ request, Fix.newMembers? rule home = some request →
      ((Fix.namedValues home.classScope.constantFields).map Prod.fst).Disjoint request.newNames ∧ request.newNames.Nodup) := by
  obtain ⟨rule', fixer, same, fixable, rfl⟩ := fix_ok catalog rule.id home result fixed
  obtain rfl := Rule.id_injective _ _ same
  obtain ⟨plan, applied, brings⟩ := repair_brings rule adds fixer fixable home
  rw [applied]
  refine ⟨?_, class_of_new_members plan home _ brings, members_apart_after_plan plan home _ brings, ?_⟩
  · intro after below isClass
    obtain ⟨before, inTree, kind, names⟩ := class_after_plan plan home _ brings after.focus (part_of_below _ after below) isClass
    refine ⟨before, inTree, kind, names.imp_right ?_⟩
    rintro ⟨request, wanted, isParent, perm⟩
    exact ⟨request, wanted, isParent, perm, nodup_after_iff plan home _ brings request wanted before _ perm⟩
  · rintro rfl request wanted
    exact ⟨Fix.constants_free home.classScope request (List.mem_of_head? wanted), (brings.members request wanted).distinct⟩

theorem new_constant_apart :
    let home := Node.ofRoot 0 (greeting "Greet" [] (Build.stringLiteral "hello"))
    let result := greeting "Greet" [constant "Hello" (Build.stringLiteral "hello")] (Build.identifierName "Hello")
    builtin.fix Rule.replaceMagicValues.id home = .ok result ∧ home.root.MembersApart ∧ result.MembersApart ∧
      ∀ request type, Fix.newMembers? .replaceMagicValues home = some request → request.target.parent = some type →
        type.kind = .classDecl → (request.otherNames type).Disjoint request.newNames := by
  intro home result
  have fixed : builtin.fix Rule.replaceMagicValues.id home = .ok result := repaired _ _ (by decide)
  have before : home.root.MembersApart := by decide
  have after : result.MembersApart := by decide
  exact ⟨fixed, before, after, ((new_members_apart_iff builtin .replaceMagicValues (.inr rfl) home result fixed).2.2.1 before).mp after⟩

theorem new_names_clash :
    let method := Node.ofRoot 0 (greeting "Hello" [] (Build.stringLiteral "hello"))
    let named := greeting "Hello" [constant "Hello" (Build.stringLiteral "hello")] (Build.identifierName "Hello")
    let count := counter (Build.simpleField ["public"] (Build.predefinedType "int") "count" none)
    let field := (Node.ofRoot 0 count).firstChild?.getD (.ofRoot 0 count)
    let encapsulated := counter (Build.autoProperty ["public"] (Build.predefinedType "int") "Count")
    (builtin.fix Rule.replaceMagicValues.id method = .ok named ∧ method.root.MembersApart ∧ ¬ named.MembersApart) ∧
      (builtin.fix Rule.encapsulateField.id field = .ok encapsulated ∧ field.root.MembersApart ∧ ¬ encapsulated.MembersApart) := by
  intro method named count field encapsulated
  have property : Fix.encapsulateField field = some encapsulated := by decide
  exact ⟨⟨repaired _ _ (by decide), by decide, by decide⟩,
    ⟨builtin_fix .encapsulateField Fix.encapsulateField rfl field encapsulated property, by decide, by decide⟩⟩

end Catalog

end SmellCheck
