import SmellCheck.Proofs.Capitals
import SmellCheck.Proofs.EncapsulatedUses

/-!
The names of properties. Taking the underscores out of the name of a field can bring a digit to the front, so a
valid name gives a valid one exactly when its first character other than an underscore is a letter.
-/

set_option autoImplicit false

namespace SmellCheck

namespace Identifier

theorem valid_letters (name : String) (valid : isValid name) : ∀ ch ∈ withoutUnderscores name.toList, ch.isAlphanum := by
  intro ch member
  obtain ⟨inName, other⟩ := List.mem_filter.mp member
  have noUnderscore : (ch == '_') = false := by simpa using other
  unfold isValid at valid
  cases chars : name.toList with
  | nil =>
      rw [chars] at inName
      cases inName
  | cons first rest =>
      rw [chars, isValidChars, Bool.and_eq_true, isNameStart] at valid
      obtain ⟨start, parts⟩ := valid
      rw [chars] at inName
      rcases List.mem_cons.mp inName with rfl | later
      · rw [noUnderscore, Bool.or_false] at start
        rw [Char.isAlphanum, start, Bool.true_or]
      · have part := List.all_eq_true.mp parts ch later
        rwa [isNamePart, noUnderscore, Bool.or_false] at part

theorem property_name_valid (old name : String) (valid : isValid old) (made : propertyName? old = some name) :
    isValid name = !ledByDigit old.toList := by
  have letters := valid_letters old valid
  unfold propertyName? at made
  rw [led_by_digit_eq]
  cases left : withoutUnderscores old.toList with
  | nil =>
      rw [left] at made
      cases made
  | cons first rest =>
      rw [left] at made letters
      obtain rfl := Option.some.inj made
      rw [isValid, String.toList_ofList, capitalized_valid first rest letters,
        alphanum_alpha first (letters first List.mem_cons_self)]
      rfl

end Identifier

namespace Catalog

open SmellCheck.Fix

-- A field with a valid name has a property name unless it is of underscores alone; and that name, which the property in
-- the place of an encapsulated field has, is valid unless the field's name comes to a digit before any letter.
theorem property_name_valid_iff (old : String) (valid : Identifier.isValid old) :
    (Identifier.propertyName? old = none ↔ ∀ ch ∈ old.toList, ch = '_') ∧
    (∀ name, Identifier.propertyName? old = some name →
      (Identifier.isValid name ↔ ¬ Identifier.ledByDigit old.toList)) ∧
    ∀ (catalog : Catalog) (field : Node) (result : Tree), catalog.fix Rule.encapsulateField.id field = .ok result →
      (encapsulateField field).isSome → field.declarators.head?.bind Node.name? = some old →
      ∃ (property : Node) (name : String), property.root = result ∧ property.path = field.path ∧
        property.kind = .propertyDecl ∧ property.name? = some name ∧ Identifier.propertyName? old = some name ∧
        (Identifier.isValid name ↔ ¬ Identifier.ledByDigit old.toList) := by
  have valid_iff (name : String) (made : Identifier.propertyName? old = some name) :
      Identifier.isValid name ↔ ¬ Identifier.ledByDigit old.toList := by
    rw [Identifier.property_name_valid old name valid made, Bool.not_eq_true', Bool.not_eq_true]
  refine ⟨Identifier.property_name_none_iff old, valid_iff, ?_⟩
  intro catalog field result fixed rewrites named
  have rewritten := fix_rewrites catalog .encapsulateField encapsulateField rfl field result fixed rewrites
  obtain ⟨property, -, made, inner, applied⟩ := encapsulate_field_some field result rewritten
  obtain ⟨isProperty, name, propertyName, -, fromField⟩ := property_of_field field property made
  rw [named, Option.bind_some] at fromField
  obtain ⟨root, path⟩ := exchange_stands field property inner
  exact ⟨_, name, root.trans applied, path, isProperty, propertyName, fromField, valid_iff name fromField⟩

def visibleMember (name : String) : Node :=
  let whole := Node.ofRoot 0 (Build.classDecl [] "C" [visibleField name])
  whole.firstChild?.getD whole

def withProperty (name : String) : Tree := Build.classDecl [] "C" [visibleProperty name]

theorem digit_after_letter_kept :
    let field := visibleMember "_x_1"
    builtin.fix Rule.encapsulateField.id field = .ok (withProperty "X1") ∧ Identifier.isValid "_x_1" ∧
      Identifier.propertyName? "_x_1" = some "X1" ∧
      ∃ (property : Node) (name : String), property.root = withProperty "X1" ∧ property.path = field.path ∧
        property.name? = some name ∧ Identifier.isValid name := by
  intro field
  have rewritten : encapsulateField field = some (withProperty "X1") := by decide +kernel
  have fixed := builtin_fix .encapsulateField encapsulateField rfl field _ rewritten
  obtain ⟨-, -, stands⟩ := property_name_valid_iff "_x_1" (by decide)
  obtain ⟨property, name, root, path, -, named, -, valid⟩ :=
    stands builtin field _ fixed (by rw [rewritten]; rfl) (by decide +kernel)
  exact ⟨fixed, by decide, by decide, property, name, root, path, named, valid.mpr (by decide)⟩

theorem digit_becomes_name :
    let field := visibleMember "_1"
    let place := (Node.ofRoot 0 (withProperty "1")).firstChild?.getD field
    Identifier.isValid "_1" ∧ Identifier.propertyName? "_1" = some "1" ∧ ¬ Identifier.isValid "1" ∧
      field.declarators.head?.bind Node.name? = some "_1" ∧
      builtin.fix Rule.encapsulateField.id field = .ok (withProperty "1") ∧ place.path = field.path ∧
      place.kind = .propertyDecl ∧ place.name? = some "1" := by
  intro field place
  have rewritten : encapsulateField field = some (withProperty "1") := by decide +kernel
  exact ⟨by decide, by decide, by decide, by decide +kernel, builtin_fix .encapsulateField encapsulateField rfl field _ rewritten,
    by decide, by decide, by decide⟩

end Catalog

end SmellCheck
