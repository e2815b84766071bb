import SmellCheck.Proofs.ExposedFields
import SmellCheck.Proofs.GuardLoop

/-!
Reporting exposed fields and encapsulating them in turns. A field gives way to a property with its
attributes, modifiers and type, and every other place is reported as before; the reports get fewer with
each property, so taking turns comes to an end.
-/

set_option autoImplicit false

namespace SmellCheck

namespace Fix

-- The field has a name that is not of underscores alone.
def Nameable (field : Node) : Prop :=
  ∃ declarator ∈ field.declarators, ∃ name, declarator.name? = some name ∧ ∃ ch ∈ name.toList, ch ≠ '_'

theorem property_name_of_char (old : String) (ch : Char) (member : ch ∈ old.toList) (other : ch ≠ '_') :
    ∃ name, Identifier.propertyName? old = some name := by
  refine Option.ne_none_iff_exists'.mp fun nothing => ?_
  exact other ((Identifier.property_name_none_iff old).mp nothing ch member)

theorem property_for_nameable (field : Node) (exposed : field.isExposedField) (nameable : Nameable field) :
    ∃ declaration type name, field.childOfKind? .variableDecl = some declaration ∧ declaration.firstChild? = some type ∧
      propertyFor? field = some (Build.property (attributeLists field) (modifierList? field) type.focus name Build.autoAccessors) := by
  obtain ⟨declarator, isDeclarator, old, named, ch, member, other⟩ := nameable
  obtain ⟨name, new⟩ := property_name_of_char old ch member other
  have single : field.declarators.length = 1 := by
    simp only [Node.isExposedField, Bool.and_eq_true, beq_iff_eq] at exposed
    exact exposed.2
  obtain ⟨only, isOnly⟩ := List.length_eq_one_iff.mp single
  rw [isOnly] at isDeclarator
  obtain rfl := List.mem_singleton.mp isDeclarator
  have isFirst : field.declarators.head? = some declarator := by rw [isOnly]; rfl
  unfold Node.declarators at isOnly
  cases isDeclaration : field.childOfKind? .variableDecl with
  | none =>
      rw [isDeclaration] at isOnly
      cases isOnly
  | some declaration =>
      rw [isDeclaration, Option.elim_some] at isOnly
      have isChild : declarator ∈ declaration.children := (List.mem_filter.mp (isOnly ▸ List.mem_cons_self)).1
      cases isType : declaration.firstChild? with
      | none =>
          rw [List.head?_eq_none_iff.mp isType] at isChild
          cases isChild
      | some type =>
          refine ⟨declaration, type, name, rfl, isType, ?_⟩
          simp [propertyFor?, isFirst, named, new, isDeclaration, isType]

end Fix

namespace Catalog

open SmellCheck.Fix

theorem exposed_answer (catalog : Catalog) (semantics? : Option Semantics) (place : Node) :
    ((catalog.get? .encapsulateField).bind (·.answer? semantics? place)).isSome =
      ((catalog.get? .encapsulateField).isSome && place.isExposedField) := by
  have detects : (Detect.ofRule .encapsulateField semantics? place).isSome = place.isExposedField := Finding.on_if_some _ _
  rw [answer_of_rule, detects, Bool.and_assoc]
  by_cases exposed : place.isExposedField
  · rw [exposed_kind place exposed]
    rfl
  · simp [exposed]

theorem field_reports_iff (catalog : Catalog) (place : Node) :
    catalog.Reports .encapsulateField place ↔ (catalog.get? .encapsulateField).isSome ∧ place.isExposedField := by
  have detects : ∀ semantics?, (Detect.ofRule .encapsulateField semantics? place).isSome = place.isExposedField :=
    fun _ => Finding.on_if_some _ _
  rw [reports_iff]
  simp only [detects, exists_const]
  constructor
  · exact fun ⟨inForce, _, exposed⟩ => ⟨inForce, exposed⟩
  · exact fun ⟨inForce, exposed⟩ => ⟨inForce, by rw [exposed_kind place exposed]; rfl, exposed⟩

def exposedReports (catalog : Catalog) (semantics? : Option Semantics) (snapshot : Nat) (tree : Tree) : Nat :=
  (((Engine.ofCatalog catalog).analyze semantics? (.ofRoot snapshot tree)).filter (·.rule == .encapsulateField)).length

theorem exposed_reports_eq (catalog : Catalog) (semantics? : Option Semantics) (snapshot : Nat) (tree : Tree)
    (inForce : (catalog.get? .encapsulateField).isSome) : catalog.exposedReports semantics? snapshot tree = tree.exposures := by
  rw [exposedReports, Engine.analyze_of_rule, List.length_filterMap_eq_countP]
  simp only [exposed_answer, inForce, Bool.true_and]
  exact exposures_count _

-- Whatever is no part of the first place stands in the tree of the second one, and is reported there as before.
def ReportedAlike (catalog : Catalog) (rule : Rule) (first second : Node) : Prop :=
  ∀ node : Node, node.SameTree first → first ∉ node.ancestorsOrSelf → ∃ place : Node, place.SameTree second ∧
    second ∉ place.ancestorsOrSelf ∧ place.path = node.path ∧ (catalog.Reports rule place ↔ catalog.Reports rule node)

-- Some reported field of the first tree that can be named is no root, and its repair gives the second one.
def Encapsulation (catalog : Catalog) (before after : Tree) : Prop :=
  ∃ field : Node, field.root = before ∧ catalog.Reports .encapsulateField field ∧ field.isRoot = false ∧ Nameable field ∧
    catalog.fix Rule.encapsulateField.id field = .ok after

theorem fewer_exposures (field : Node) (property : Tree) (exposed : field.isExposedField) (inner : field.isRoot = false)
    (made : propertyFor? field = some property) : (field.after property field).root.exposures < field.root.exposures := by
  have isField := exposed_kind field exposed
  have isProperty := (property_of_field field property made).1
  have above := (Node.mem_descendants_or_self_iff _ field).mp (Node.mem_whole_tree field field ⟨rfl, rfl⟩)
  have changed := exposures_above field property isField isProperty _ above
  rw [(Node.after_top field property inner).2] at changed
  have less := property_exposes_less field exposed property made
  dsimp only [Node.ofRoot] at changed
  omega

structure Encapsulated (catalog : Catalog) (field property : Node) : Prop where
  fixed : catalog.fix Rule.encapsulateField.id field = .ok property.root
  path : property.path = field.path
  kind : property.kind = .propertyDecl
  made : ∃ declaration type name, field.childOfKind? .variableDecl = some declaration ∧ declaration.firstChild? = some type ∧
    property.focus = Build.property (attributeLists field) (modifierList? field) type.focus name Build.autoAccessors ∧
    property.focus.subtrees = attributeLists field ++ (modifierList? field).toList ++ [type.focus, Build.autoAccessors]
  kept : catalog.ReportedAlike .encapsulateField field property
  nothingNew : catalog.ReportedAlike .encapsulateField property field
  fewer : ∀ (semantics? semantics'? : Option Semantics) (snapshot snapshot' : Nat),
    catalog.exposedReports semantics'? snapshot' property.root < catalog.exposedReports semantics? snapshot field.root

theorem field_encapsulated (catalog : Catalog) (field : Node) (reported : catalog.Reports .encapsulateField field)
    (inner : field.isRoot = false) (nameable : Nameable field) : ∃ property, catalog.Encapsulated field property := by
  obtain ⟨inForce, exposed⟩ := (field_reports_iff catalog field).mp reported
  obtain ⟨declaration, type, name, isDeclaration, isType, made⟩ := property_for_nameable field exposed nameable
  generalize propertyTree : Build.property (attributeLists field) (modifierList? field) type.focus name Build.autoAccessors = property at made
  have isField := exposed_kind field exposed
  have isProperty := (property_of_field field property made).1
  have own := Node.after_root field property inner field (Node.outside_self field)
  have focus : (field.after property field).focus = property := congrArg Node.focus (Node.after_target field property)
  have reports (node : Node) (outside : field.Outside node) (other : node ≠ field) :
      catalog.Reports .encapsulateField (field.after property node) ↔ catalog.Reports .encapsulateField node := by
    rw [field_reports_iff, field_reports_iff, after_exposed field property isField isProperty node outside other]
  refine ⟨field.after property field, ?_, Node.after_path _ _ _, (congrArg Tree.kind focus).trans isProperty,
    ⟨declaration, type, name, isDeclaration, isType, focus.trans propertyTree.symm, ?_⟩, ?_, ?_, ?_⟩
  · rw [fix_of_reports catalog .encapsulateField encapsulateField rfl field reported,
      encapsulate_field_made field exposed inner property made, own]
    rfl
  · rw [focus, ← propertyTree, property_subtrees]
  · intro node inTree notBelow
    have outside : field.Outside node := ⟨inTree, fun above => notBelow (List.mem_cons_of_mem _ above)⟩
    have other : node ≠ field := fun same => notBelow (same ▸ List.mem_cons_self)
    obtain ⟨sameTree, apart⟩ := Node.after_not_below field property inner node outside other
    exact ⟨field.after property node, sameTree, apart, Node.after_path _ _ _, reports node outside other⟩
  · intro place inTree apart
    have below := Node.mem_whole_tree (field.after property field) place inTree
    obtain ⟨top, same⟩ := Node.after_top field property inner
    rw [← same] at below
    obtain ⟨old, outside, other, rfl⟩ := Node.after_covers field property _ place top below apart
    refine ⟨old, outside.inTree, fun above => ?_, (Node.after_path _ _ _).symm, (reports old outside other).symm⟩
    exact (List.mem_cons.mp above).elim (fun same => other same.symm) outside.notBelow
  · intro semantics? semantics'? snapshot snapshot'
    rw [exposed_reports_eq catalog _ _ _ inForce, exposed_reports_eq catalog _ _ _ inForce]
    exact fewer_exposures field property exposed inner made

-- Every reported field that can be named gives way to a property, with fewer reports; so taking turns comes to an end.
theorem encapsulation_progresses (catalog : Catalog) :
    (∀ field : Node, catalog.Reports .encapsulateField field → field.isRoot = false → Nameable field →
      ∃ property, catalog.Encapsulated field property) ∧
    WellFounded fun after before => catalog.Encapsulation before after := by
  refine ⟨field_encapsulated catalog, Subrelation.wf ?_ (measure (catalog.exposedReports none 0)).wf⟩
  rintro after before ⟨field, rfl, reported, inner, nameable, fixed⟩
  obtain ⟨property, encapsulated⟩ := field_encapsulated catalog field reported inner nameable
  obtain rfl := Except.ok.inj (encapsulated.fixed.symm.trans fixed)
  exact encapsulated.fewer none none 0 0

theorem two_fields_encapsulated :
    let whole := Node.ofRoot 0 (Build.classDecl [] "C" [visibleField "_a", visibleField "_b"])
    let field := whole.firstChild?.getD whole
    let result := Build.classDecl [] "C" [visibleProperty "A", visibleField "_b"]
    builtin.Reports .encapsulateField field ∧ field.isRoot = false ∧ Nameable field ∧
      (∃ property, builtin.Encapsulated field property ∧ property.root = result) ∧
      builtin.exposedReports none 0 whole.root = 2 ∧ builtin.exposedReports none 1 result = 1 ∧
      Acc (fun after before => builtin.Encapsulation before after) whole.root := by
  intro whole field result
  have inForce : (builtin.get? .encapsulateField).isSome := by rw [builtin_get]; rfl
  have reported : builtin.Reports .encapsulateField field := (field_reports_iff builtin field).mpr ⟨inForce, by decide⟩
  have nameable : Nameable field := ⟨field.declarators.headD field, by decide, "_a", by decide, 'a', by decide, by decide⟩
  have rewritten : encapsulateField field = some result := by decide +kernel
  obtain ⟨property, encapsulated⟩ := (encapsulation_progresses builtin).1 field reported (by decide) nameable
  have same := encapsulated.fixed.symm.trans (builtin_fix .encapsulateField encapsulateField rfl field result rewritten)
  refine ⟨reported, by decide, nameable, ⟨property, encapsulated, Except.ok.inj same⟩, ?_, ?_, ?_⟩
  · rw [exposed_reports_eq builtin none 0 _ inForce]
    decide +kernel
  · rw [exposed_reports_eq builtin none 1 _ inForce]
    decide +kernel
  · exact (encapsulation_progresses builtin).2.apply _

end Catalog

end SmellCheck
