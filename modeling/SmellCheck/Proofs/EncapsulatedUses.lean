import SmellCheck.Proofs.MemberClashes
import SmellCheck.Proofs.NamesAfter
import SmellCheck.Proofs.NullGuards

/-!
Uses of a field that becomes a property. The repair touches the field alone, so a name outside that
refers to the field refers to the property exactly when the property has the name of the field.
-/

set_option autoImplicit false

namespace SmellCheck

namespace Scope

def RefersTo (identifier declaring : Node) : Prop :=
  ∃ symbol, (semantics identifier).referenced? identifier = some symbol ∧ declared? declaring = some symbol

theorem refers_to_found (identifier declaring : Node) (isIdentifier : identifier.kind = .identifierName)
    (refers : RefersTo identifier declaring) : ∃ node symbol, declaration identifier = some node ∧
      declared? node = some symbol ∧ declared? declaring = some symbol ∧ symbol.name = identifier.text := by
  obtain ⟨symbol, referenced, declared⟩ := refers
  replace referenced := (referenced_eq _ identifier isIdentifier).symm.trans referenced
  cases found : declaration identifier with
  | none =>
      rw [found, Option.bind_none, Option.none_or] at referenced
      split at referenced
      · cases referenced
      · obtain ⟨_, _, rfl⟩ := Option.map_eq_some_iff.mp referenced
        exact absurd (declared_range declaring _ declared) nofun
  | some node =>
      obtain ⟨-, -, declares⟩ := declaration_found identifier node found
      obtain ⟨symbol', here⟩ := Option.isSome_iff_exists.mp (declares_some _ node declares)
      rw [found, Option.bind_some, here, Option.some_or] at referenced
      obtain rfl := Option.some.inj referenced
      have name : (declared? node).any (·.name == identifier.text) = true := declares
      rw [here, Option.any_some, beq_iff_eq] at name
      exact ⟨node, symbol', rfl, here, declared, name⟩

theorem refers_of_found (identifier declaring : Node) (isIdentifier : identifier.kind = .identifierName)
    (found : declaration identifier = some declaring) : RefersTo identifier declaring := by
  obtain ⟨-, -, declares⟩ := declaration_found identifier declaring found
  obtain ⟨symbol, declared⟩ := Option.isSome_iff_exists.mp (declares_some _ declaring declares)
  refine ⟨symbol, (referenced_eq _ identifier isIdentifier).trans ?_, declared⟩
  rw [found, Option.bind_some, declared, Option.some_or]

theorem refers_to_iff (identifier declaring : Node) (isIdentifier : identifier.kind = .identifierName)
    (inTree : identifier.SameTree declaring) (some : identifier.text ≠ "") :
    RefersTo identifier declaring ↔ declaration identifier = .some declaring := by
  refine ⟨fun refers => ?_, refers_of_found identifier declaring isIdentifier⟩
  obtain ⟨node, symbol, found, here, declared, name⟩ := refers_to_found identifier declaring isIdentifier refers
  have sameTree := Node.same_tree_trans (declaration_found identifier node found).2.1 inTree
  rw [found, declared_once node declaring symbol sameTree (name ▸ some) here declared]

end Scope

namespace Fix

theorem exposed_kind (field : Node) (exposed : field.isExposedField) : field.kind = .fieldDecl := by
  simp only [Node.isExposedField, Bool.and_eq_true, beq_iff_eq] at exposed
  exact exposed.1.1.1

theorem visible_word (field : Node) (exposed : field.isExposedField) : ∃ list raw word,
    field.childOfKind? .modifierList = some list ∧ Element.token raw word ∈ list.elements ∧
      "public".utf8ByteSize ≤ word.utf8ByteSize := by
  have visible : field.isExternallyVisible := by
    simp only [Node.isExposedField, Bool.and_eq_true] at exposed
    exact exposed.1.1.2
  have present : ∃ word ∈ field.modifiers, "public".utf8ByteSize ≤ word.utf8ByteSize := by
    rcases Bool.or_eq_true_iff.mp visible with isPublic | isProtected
    · exact ⟨_, List.contains_iff_mem.mp isPublic, by decide⟩
    · exact ⟨_, List.contains_iff_mem.mp isProtected, by decide⟩
  obtain ⟨word, isModifier, long⟩ := present
  unfold Node.modifiers at isModifier
  split at isModifier
  · rename_i list isList
    obtain ⟨raw, inList⟩ := Scope.text_token list .keyword word isModifier
    exact ⟨list, raw, word, isList, inList, long⟩
  · cases isModifier

theorem exposed_length (field declarator : Node) (exposed : field.isExposedField)
    (declares : declarator ∈ field.descendantsOfKind .variableDeclarator) (name : String)
    (named : declarator.name? = some name) : name.utf8ByteSize + "public".utf8ByteSize ≤ field.focus.length := by
  obtain ⟨below, isDeclarator⟩ := List.mem_filter.mp declares
  obtain ⟨raw, own⟩ := Scope.name_token declarator name named
  have inDeclarator : name.utf8ByteSize ≤ declarator.focus.length := length_of_mem _ _ own
  obtain ⟨list, raw', word, isList, isWord, long⟩ := visible_word field exposed
  obtain ⟨isChild, listKind⟩ := Node.child_of_kind field list _ isList
  have different : declarator.focus ≠ list.focus := by
    intro same
    have kind : declarator.kind = list.kind := congrArg Tree.kind same
    rw [kind, listKind] at isDeclarator
    cases isDeclarator
  have both := Node.length_beside_token field list declarator raw' word isChild isWord below different
  omega

theorem encapsulate_field_some (field : Node) (result : Tree) (fixed : encapsulateField field = some result) :
    ∃ property, field.isExposedField ∧ propertyFor? field = some property ∧ field.isRoot = false ∧
      field.root.rewrite (field.exchange property) = result := by
  unfold encapsulateField at fixed
  split at fixed
  · cases fixed
  · rename_i exposed
    simp only [bind, Option.bind_eq_some_iff, pure, Option.some.injEq] at fixed
    obtain ⟨property, made, session, performed, rfl⟩ := fixed
    have planned := to_option_ok performed
    refine ⟨property, by simpa using exposed, made, Session.plan_inner _ _ _ _ planned, ?_⟩
    rw [Session.plan_ok _ _ _ _ planned]
    rfl

theorem encapsulate_field_made (field : Node) (exposed : field.isExposedField) (inner : field.isRoot = false) (property : Tree)
    (made : propertyFor? field = some property) :
    encapsulateField field = some (field.root.rewrite (field.exchange property)) := by
  have notRoot : field ≠ .ofRoot field.snapshot field.root := fun same => by
    rw [(Node.is_root_iff field field ⟨rfl, rfl⟩).mpr same] at inner
    cases inner
  have performed := Session.perform_admissible (Session.reached_start field) (.replace field [property])
    ⟨⟨rfl, rfl⟩, notRoot, nofun⟩
  rw [encapsulateField, exposed, made]
  show (((Session.start field).perform (.replace field [property])).toOption.bind fun session => some session.apply) = _
  rw [performed]
  rfl

theorem property_name_some (old name : String) (made : Identifier.propertyName? old = some name) : name ≠ "" := by
  unfold Identifier.propertyName? at made
  cases left : Identifier.withoutUnderscores old.toList with
  | nil =>
      rw [left] at made
      cases made
  | cons first rest =>
      rw [left] at made
      obtain rfl := Option.some.inj made
      have some : Identifier.capitalizeChars (first :: rest) ≠ [] := by
        rw [Identifier.capitalizeChars]
        split
        · exact List.cons_ne_nil _ _
        · exact List.append_ne_nil_of_left_ne_nil (Text.toUpper_ne_nil first) rest
      intro empty
      exact some (by simpa using congrArg String.toList empty)

theorem property_of_field (field : Node) (property : Tree) (made : propertyFor? field = some property) :
    property.kind = .propertyDecl ∧ ∃ name, property.name? = some name ∧ name ≠ "" ∧
      (field.declarators.head?.bind Node.name?).bind Identifier.propertyName? = some name := by
  simp only [propertyFor?, bind, Option.bind_eq_some_iff, pure, Option.some.injEq] at made
  obtain ⟨declarator, isFirst, old, named, name, new, declaration, -, type, -, rfl⟩ := made
  have names := property_declares (attributeLists field) (modifierList? field) type.focus name Build.autoAccessors
  have isProperty : (Build.property (attributeLists field) (modifierList? field) type.focus name
      Build.autoAccessors).kind = .propertyDecl := tree_kind _ _
  rw [Tree.declaredNames, isProperty] at names
  refine ⟨isProperty, name, Option.toList_eq_singleton_iff.mp names, property_name_some old name new, ?_⟩
  rw [isFirst, Option.bind_some, named, Option.bind_some, new]

section
variable (field : Node) (property : Tree)

theorem property_declared (name : String) (isProperty : property.kind = .propertyDecl) (named : property.name? = some name) :
    Scope.memberDeclarations (field.after property field) = [field.after property field] ∧
      Scope.declares name (field.after property field) := by
  have kind : (field.after property field).kind = .propertyDecl := by
    rw [Node.after_target]
    exact isProperty
  have same : (field.after property field).name? = some name := by
    rw [Node.after_target]
    exact named
  refine ⟨by rw [Scope.memberDeclarations, kind], ?_⟩
  rw [Scope.declares_eq, same, Scope.declaration?, kind]
  simp

theorem use_aside (declarator identifier : Node) (exposed : field.isExposedField)
    (declares : declarator ∈ field.descendantsOfKind .variableDeclarator) (isIdentifier : identifier.kind = .identifierName)
    (inTree : identifier.SameTree field) (outside : field ∉ identifier.ancestors)
    (refers : Scope.RefersTo identifier declarator) : field.AsideOf identifier ∧ "this".utf8ByteSize < field.focus.length := by
  obtain ⟨_, symbol, -, -, declared, name⟩ := Scope.refers_to_found identifier declarator isIdentifier refers
  have size := exposed_length field declarator exposed declares identifier.text
    (name ▸ Scope.name_of_declared declarator symbol declared)
  have length : identifier.focus.length = identifier.text.utf8ByteSize := (Tree.utf8ByteSize_text _).symm
  have words : "this".utf8ByteSize < "public".utf8ByteSize := by decide
  exact ⟨Node.aside_of_shorter field identifier ⟨inTree, outside⟩ (by omega), by omega⟩

theorem property_found_iff (declarator identifier : Node) (isField : field.kind = .fieldDecl)
    (declares : declarator ∈ field.descendantsOfKind .variableDeclarator) (isProperty : property.kind = .propertyDecl)
    (named : property.name? = some identifier.text) (aside : field.AsideOf identifier)
    (long : "this".utf8ByteSize < field.focus.length) (found : Scope.declaration identifier = some declarator) :
    Scope.declaration (field.after property identifier) = some (field.after property field) ↔
      ∃ type ∈ Scope.searched (Scope.isMemberOfThis identifier) identifier,
        field.parent = some type ∧ type.kind.isTypeWithMembers := by
  have propertyKind : (field.after property field).kind = .propertyDecl := by rwa [Node.after_target]
  have above (scope : Node) (asked : scope ∈ Scope.searched (Scope.isMemberOfThis identifier) identifier) :=
    Node.outside_of_above field identifier scope aside (Scope.searched_above _ identifier scope asked)
  rw [Scope.after_declaration field property identifier declarator aside long found]
  constructor
  · intro reached
    refine Scope.asked_property field property propertyKind _ (fun scope asked => ?_) (List.mem_of_find?_eq_some reached)
    obtain ⟨outside, notBelow⟩ := above scope asked
    exact ⟨outside, fun same => notBelow (same ▸ List.mem_cons_self)⟩
  · rintro ⟨type, asked, isParent, isType⟩
    obtain ⟨front, back, split⟩ := List.append_of_mem asked
    obtain ⟨new, declared⟩ := property_declared field property identifier.text isProperty named
    have own : declarator ∈ Scope.memberDeclarations field := by rwa [Scope.memberDeclarations, isField]
    have apart (scope : Node) (inFront : scope ∈ front) : field.AsideOf scope := by
      have inner := Scope.searched_in_order _ _ _ _ _ split scope inFront
      exact Node.aside_of_below_parent field type scope isParent inner (above scope (split ▸ List.mem_append_left _ inFront)).2
    exact Scope.visible_through field property type isParent isType _ front back split apart _ declarator found own _ [] new
      declared

end

-- A name outside that refers to the field refers to the property that takes its place exactly when the property has the
-- name of the field and the look-up comes to the type that it is a member of.
theorem name_refers_to_property_iff (field declarator identifier : Node) (result : Tree)
    (fixed : encapsulateField field = some result) (declares : declarator ∈ field.descendantsOfKind .variableDeclarator)
    (isIdentifier : identifier.kind = .identifierName) (inTree : identifier.SameTree field)
    (outside : field ∉ identifier.ancestors) (refers : Scope.RefersTo identifier declarator) :
    ∃ property place : Node, property.root = result ∧ property.path = field.path ∧ property.kind = .propertyDecl ∧
      property.name? = (field.declarators.head?.bind Node.name?).bind Identifier.propertyName? ∧
      place.SameTree property ∧ place.path = identifier.path ∧ place.focus = identifier.focus ∧
      (Scope.RefersTo place property ↔ property.name? = some identifier.text ∧
        ∃ type ∈ Scope.searched (Scope.isMemberOfThis identifier) identifier,
          field.parent = some type ∧ type.kind.isTypeWithMembers) := by
  obtain ⟨property, exposed, made, inner, applied⟩ := encapsulate_field_some field result fixed
  obtain ⟨isProperty, name, named, nonempty, fromField⟩ := property_of_field field property made
  obtain ⟨aside, long⟩ := use_aside field declarator identifier exposed declares isIdentifier inTree outside refers
  obtain ⟨useOutside, -⟩ := Node.outside_of_aside field identifier aside
  have focus := Node.after_focus field property identifier aside
  have sameTree := Node.after_in_tree field property inner identifier field useOutside (Node.outside_self field)
  have propertyName : (field.after property field).name? = some name := by rwa [Node.after_target]
  refine ⟨field.after property field, field.after property identifier,
    (Node.after_root field property inner field (Node.outside_self field)).trans applied, Node.after_path _ _ _,
    by rwa [Node.after_target], propertyName.trans fromField.symm, sameTree, Node.after_path _ _ _, focus, ?_⟩
  have place : (field.after property identifier).kind = .identifierName := (congrArg Tree.kind focus).trans isIdentifier
  have text : (field.after property identifier).text = identifier.text := congrArg Tree.text focus
  rw [propertyName]
  by_cases same : name = identifier.text
  · subst same
    have isField := exposed_kind field exposed
    have inField := Node.same_tree_of_descendant field declarator (List.mem_cons_of_mem _ (List.mem_filter.mp declares).1)
    have declaratorTree := Node.same_tree_trans inTree (Node.same_tree_symm inField)
    have found := (Scope.refers_to_iff identifier declarator isIdentifier declaratorTree nonempty).mp refers
    rw [Scope.refers_to_iff _ _ place sameTree (text ▸ nonempty),
      property_found_iff field property declarator identifier isField declares isProperty named aside long found]
    exact (and_iff_right rfl).symm
  · refine iff_of_false (fun reached => same ?_) fun both => same (Option.some.inj both.1)
    obtain ⟨_, symbol, -, -, declared, is⟩ := Scope.refers_to_found _ _ place reached
    have reads := Scope.name_of_declared _ symbol declared
    rw [propertyName, is, text] at reads
    exact Option.some.inj reads

def reading (member : Tree) (name : String) : Tree :=
  let number := Build.predefinedType "int"
  Build.classDecl [] "C" [member, Build.method [] [] number "M" (Build.parameterList [])
    (Build.block [Build.returnStmt (some (Build.identifierName name))])]

def visibleField (name : String) : Tree := Build.simpleField ["public"] (Build.predefinedType "int") name none

def visibleProperty (name : String) : Tree := Build.autoProperty ["public"] (Build.predefinedType "int") name

theorem name_kept_refers_to_property :
    let home := Node.ofRoot 0 (reading (visibleField "Count") "Count")
    let field := home.firstChild?.getD home
    let declarator := (field.descendantsOfKind .variableDeclarator).headD home
    let identifier := (home.descendantsOfKind .identifierName).headD home
    let result := reading (visibleProperty "Count") "Count"
    encapsulateField field = some result ∧ Scope.RefersTo identifier declarator ∧
      ∃ property place : Node, property.root = result ∧ property.path = field.path ∧ property.kind = .propertyDecl ∧
        place.SameTree property ∧ place.path = identifier.path ∧ Scope.RefersTo place property := by
  intro home field declarator identifier result
  have fixed : encapsulateField field = some result := by decide
  have inTree : identifier.SameTree field := by decide
  have refers : Scope.RefersTo identifier declarator :=
    (Scope.refers_to_iff identifier declarator (by decide) (by decide) (by decide)).mpr (by decide)
  obtain ⟨property, place, root, path, isProperty, name, sameTree, placePath, -, reaches⟩ :=
    name_refers_to_property_iff field declarator identifier result fixed (by decide) (by decide) inTree (by decide) refers
  refine ⟨fixed, refers, property, place, root, path, isProperty, sameTree, placePath, reaches.mpr ⟨?_, home, ?_⟩⟩
  · exact name.trans (by decide)
  · decide

theorem small_name_refers_to_nothing :
    let home := Node.ofRoot 0 (reading (visibleField "count") "count")
    let field := home.firstChild?.getD home
    let declarator := (field.descendantsOfKind .variableDeclarator).headD home
    let identifier := (home.descendantsOfKind .identifierName).headD home
    let result := Node.ofRoot 0 (reading (visibleProperty "Count") "count")
    let property := result.firstChild?.getD result
    let place := (result.descendantsOfKind .identifierName).headD result
    encapsulateField field = some result.root ∧ field ∉ identifier.ancestors ∧ Scope.RefersTo identifier declarator ∧
      property.kind = .propertyDecl ∧ property.path = field.path ∧ place.path = identifier.path ∧
      ¬ Scope.RefersTo place property := by
  intro home field declarator identifier result property place
  have refers : Scope.RefersTo identifier declarator :=
    (Scope.refers_to_iff identifier declarator (by decide) (by decide) (by decide)).mpr (by decide)
  refine ⟨by decide, by decide, refers, by decide, by decide, by decide, ?_⟩
  rw [Scope.refers_to_iff place property (by decide) (by decide) (by decide)]
  decide

end Fix

end SmellCheck
