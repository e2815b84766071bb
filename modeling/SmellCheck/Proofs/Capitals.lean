import Mathlib
import SmellCheck.Identifier

/-!
Capital letters of names. A change of case in ASCII text makes letters of letters and touches nothing else, so a
text of letters and digits keeps its shape when its first letter becomes a capital, and it is a valid name then
unless it begins with a digit.
-/

set_option autoImplicit false

namespace SmellCheck.Identifier

open Text

-- The first character other than an underscore is a digit.
def ledByDigit (chars : List Char) : Bool := (chars.find? (· != '_')).any Char.isDigit

theorem letter_iff (ch : Char) : ch.isAlpha ↔ (65 ≤ ch.toNat ∧ ch.toNat ≤ 90) ∨ (97 ≤ ch.toNat ∧ ch.toNat ≤ 122) := by
  simp only [Char.isAlpha, Char.isUpper, Char.isLower, Bool.or_eq_true, Bool.and_eq_true, decide_eq_true_eq,
    UInt32.le_iff_toNat_le, ge_iff_le]
  exact Iff.rfl

theorem digit_iff (ch : Char) : ch.isDigit ↔ 48 ≤ ch.toNat ∧ ch.toNat ≤ 57 := by
  simp only [Char.isDigit, Bool.and_eq_true, decide_eq_true_eq, UInt32.le_iff_toNat_le, ge_iff_le]
  exact Iff.rfl

theorem letter_alphanum (ch : Char) (letter : ch.isAlpha) : ch.isAlphanum := by
  rw [Char.isAlphanum, letter, Bool.true_or]

theorem alphanum_ascii (ch : Char) (plain : ch.isAlphanum) : ch.toNat < 128 := by
  rw [Char.isAlphanum, Bool.or_eq_true, letter_iff, digit_iff] at plain
  omega

theorem alphanum_no_underscore (ch : Char) (plain : ch.isAlphanum) : ch ≠ '_' := by
  rintro rfl
  cases plain

theorem alphanum_alpha (ch : Char) (plain : ch.isAlphanum) : ch.isAlpha = !ch.isDigit := by
  rw [Char.isAlphanum, Bool.or_eq_true] at plain
  have apart : ¬ (ch.isAlpha ∧ ch.isDigit) := by
    rw [letter_iff, digit_iff]
    omega
  grind

structure Recases (change : Char → Char) : Prop where
  letters : ∀ ch : Char, (change ch).isAlpha = ch.isAlpha
  others : ∀ ch : Char, ¬ ch.isAlpha → change ch = ch

theorem upper_recases : Recases Char.toUpper where
  letters := Char.isAlpha_toUpper_eq_isAlpha
  others ch other := Char.toUpper_eq_of_not_isLower fun lower => other (by rw [Char.isAlpha, lower, Bool.or_true])

theorem lower_recases : Recases Char.toLower where
  letters := Char.isAlpha_toLower_eq_isAlpha
  others ch other := Char.toLower_eq_of_not_isUpper fun upper => other (by rw [Char.isAlpha, upper, Bool.true_or])

theorem recased_iff (change : Char → Char) (recases : Recases change) (Holds : Char → Prop)
    (letters : ∀ ch : Char, ch.isAlpha → Holds ch) (ch : Char) : Holds (change ch) ↔ Holds ch := by
  by_cases letter : ch.isAlpha
  · have recased : (change ch).isAlpha := (recases.letters ch).trans letter
    exact iff_of_true (letters _ recased) (letters _ letter)
  · rw [recases.others ch letter]

theorem recased_ascii (change : Char → Char) (recases : Recases change) (ch : Char) (ascii : ch.toNat < 128) :
    (change ch).toNat < 128 :=
  (recased_iff change recases (·.toNat < 128) (fun ch letter => alphanum_ascii ch (letter_alphanum ch letter)) ch).mpr ascii

theorem alphanum_capital (ch : Char) (plain : ch.isAlphanum) : ch.toUpper.isAlphanum :=
  (recased_iff Char.toUpper upper_recases (·.isAlphanum) letter_alphanum ch).mpr plain

theorem blank_capital (ch : Char) (ascii : ch.toNat < 128) (blank : isBlank ch) : ch.toUpper = ch := by
  refine upper_recases.others ch fun letter => ?_
  rw [letter_iff] at letter
  simp only [isBlank, Bool.or_eq_true, Bool.and_eq_true, decide_eq_true_eq, beq_iff_eq] at blank
  omega

theorem capitalize_ascii (chars : List Char) (ascii : ∀ ch ∈ chars, ch.toNat < 128) :
    capitalizeChars chars = chars.modifyHead Char.toUpper := by
  cases chars with
  | nil => rfl
  | cons first rest =>
      have own := ascii first List.mem_cons_self
      rw [capitalizeChars, List.modifyHead_cons]
      split
      · rename_i blank
        rw [blank_capital first own (List.all_eq_true.mp blank first List.mem_cons_self)]
      · rw [toUpper_of_ascii first own]
        rfl

section
variable (first : Char) (rest : List Char)

theorem capitalize_alphanum (plain : ∀ ch ∈ first :: rest, ch.isAlphanum) :
    capitalizeChars (first :: rest) = first.toUpper :: rest :=
  capitalize_ascii (first :: rest) fun ch member => alphanum_ascii ch (plain ch member)

theorem capitalized_valid (plain : ∀ ch ∈ first :: rest, ch.isAlphanum) :
    isValidChars (capitalizeChars (first :: rest)) = first.isAlpha := by
  obtain ⟨own, others⟩ := List.forall_mem_cons.mp plain
  have start : isNameStart first.toUpper = first.isAlpha := by
    have other : (first.toUpper == '_') = false := beq_false_of_ne (alphanum_no_underscore _ (alphanum_capital first own))
    rw [isNameStart, other, Bool.or_false, Char.isAlpha_toUpper_eq_isAlpha]
  have parts : rest.all isNamePart := by
    refine List.all_eq_true.mpr fun ch member => ?_
    rw [isNamePart, others ch member, Bool.true_or]
  rw [capitalize_alphanum first rest plain, isValidChars, start, parts, Bool.and_true]

end

theorem led_by_digit_eq (chars : List Char) : ledByDigit chars = (withoutUnderscores chars).head?.any Char.isDigit := by
  rw [ledByDigit, withoutUnderscores, List.head?_filter]

end SmellCheck.Identifier
