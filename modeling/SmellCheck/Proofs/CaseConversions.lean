import SmellCheck.Proofs.Capitals

/-!
Conversions between naming conventions. In ASCII text they join the parts between the word breaks, each with a
capital in front, and camel case lowers the very first one again. The result is one word, in which a further
conversion changes nothing but the first character, so the conversion made last decides.
-/

set_option autoImplicit false

namespace SmellCheck.Identifier

open Text

def IsWord (chars : List Char) : Prop := ∀ ch ∈ chars, ch.toNat < 128 ∧ isWordBreak ch = false

theorem letter_in_word (ch : Char) (letter : ch.isAlpha) : ch.toNat < 128 ∧ isWordBreak ch = false := by
  refine ⟨alphanum_ascii ch (letter_alphanum ch letter), Bool.eq_false_iff.mpr fun breaks => ?_⟩
  simp only [isWordBreak, Bool.or_eq_true, beq_iff_eq] at breaks
  rcases breaks with (rfl | rfl) | rfl <;> cases letter

theorem word_recased (change : Char → Char) (recases : Recases change) (chars : List Char) (word : IsWord chars) :
    IsWord (chars.modifyHead change) := by
  cases chars with
  | nil => exact word
  | cons first rest =>
      obtain ⟨own, others⟩ := List.forall_mem_cons.mp word
      have fits := recased_iff change recases (fun ch => ch.toNat < 128 ∧ isWordBreak ch = false) letter_in_word first
      exact List.forall_mem_cons.mpr ⟨fits.mpr own, others⟩

theorem modify_head_self_iff (change : Char → Char) (chars : List Char) :
    chars.modifyHead change = chars ↔ ∀ first ∈ chars.head?, change first = first := by
  cases chars with
  | nil => simp
  | cons first rest => simp

theorem upper_self_iff (ch : Char) : ch.toUpper = ch ↔ ¬ ch.isLower := by
  constructor
  · intro same
    rw [← same, Char.isLower_toUpper_eq_false]
    exact Bool.false_ne_true
  · exact Char.toUpper_eq_of_not_isLower

theorem lower_self_iff (ch : Char) : ch.toLower = ch ↔ ¬ ch.isUpper := by
  constructor
  · intro same
    rw [← same, Char.isUpper_toLower_eq_false]
    exact Bool.false_ne_true
  · exact Char.toLower_eq_of_not_isUpper

theorem decapitalize_ascii (chars : List Char) (ascii : ∀ ch ∈ chars, ch.toNat < 128) :
    decapitalizeChars chars = chars.modifyHead Char.toLower := by
  cases chars with
  | nil => rfl
  | cons first rest =>
      rw [decapitalizeChars, toLower_of_ascii first (ascii first List.mem_cons_self)]
      rfl

theorem pascal_case_of_word (chars : List Char) (word : IsWord chars) : pascalCaseChars chars = chars.modifyHead Char.toUpper := by
  have ascii : ∀ ch ∈ chars, ch.toNat < 128 := fun ch member => (word ch member).1
  rw [pascalCaseChars, splitWhere_plain isWordBreak chars fun ch member => (word ch member).2, ← capitalize_ascii chars ascii]
  cases chars with
  | nil => rfl
  | cons first rest => exact List.flatMap_singleton _ _

section
variable (chars : List Char) (ascii : ∀ ch ∈ chars, ch.toNat < 128)

include ascii

theorem piece_is_word (piece : List Char) (isPiece : piece ∈ splitWhere isWordBreak chars) : IsWord piece := by
  intro ch member
  have kept : ch ∈ chars.filter (!isWordBreak ·) := by
    rw [← splitWhere_flatten]
    exact List.mem_flatten_of_mem isPiece member
  obtain ⟨inText, solid⟩ := List.mem_filter.mp kept
  exact ⟨ascii ch inText, Bool.not_eq_true' _ ▸ solid⟩

theorem piece_ascii (piece : List Char) (isPiece : piece ∈ splitWhere isWordBreak chars) : ∀ ch ∈ piece, ch.toNat < 128 :=
  fun ch member => (piece_is_word chars ascii piece isPiece ch member).1

theorem pascal_case_is_word : IsWord (pascalCaseChars chars) := by
  intro ch member
  obtain ⟨piece, kept, inPiece⟩ := List.mem_flatMap.mp member
  have isPiece := (List.mem_filter.mp kept).1
  rw [capitalize_ascii piece (piece_ascii chars ascii piece isPiece)] at inPiece
  exact word_recased Char.toUpper upper_recases piece (piece_is_word chars ascii piece isPiece) ch inPiece

theorem pascal_case_capital : (pascalCaseChars chars).modifyHead Char.toUpper = pascalCaseChars chars := by
  have nonempty : ∀ piece ∈ (splitWhere isWordBreak chars).filter (!·.isEmpty), piece ≠ [] ∧ ∀ ch ∈ piece, ch.toNat < 128 := by
    intro piece kept
    obtain ⟨isPiece, some⟩ := List.mem_filter.mp kept
    exact ⟨by simpa using some, piece_ascii chars ascii piece isPiece⟩
  rw [pascalCaseChars]
  cases pieces : (splitWhere isWordBreak chars).filter (!·.isEmpty) with
  | nil => rfl
  | cons piece others =>
      obtain ⟨some, plain⟩ := nonempty piece (pieces ▸ List.mem_cons_self)
      obtain ⟨first, rest, rfl⟩ := List.exists_cons_of_ne_nil some
      rw [List.flatMap_cons, capitalize_ascii (first :: rest) plain]
      exact congrArg (· :: _) (Char.toUpper_toUpper_eq_toUpper first)

theorem pascal_case_letters : (pascalCaseChars chars).map Char.toLower = (chars.filter (!isWordBreak ·)).map Char.toLower := by
  have caseAside : ∀ piece ∈ (splitWhere isWordBreak chars).filter (!·.isEmpty),
      (capitalizeChars piece).map Char.toLower = piece.map Char.toLower := by
    intro piece kept
    rw [capitalize_ascii piece (piece_ascii chars ascii piece (List.mem_filter.mp kept).1)]
    cases piece with
    | nil => rfl
    | cons first rest => exact congrArg (· :: _) (Char.toLower_toUpper_eq_toLower first)
  rw [pascalCaseChars, List.map_flatMap, List.flatMap_congr caseAside, ← List.map_flatMap, List.flatMap_id',
    List.flatten_filter_not_isEmpty, splitWhere_flatten]

theorem pascal_case_again : pascalCaseChars (pascalCaseChars chars) = pascalCaseChars chars := by
  rw [pascal_case_of_word _ (pascal_case_is_word chars ascii), pascal_case_capital chars ascii]

theorem decapitalize_pascal_case : decapitalizeChars (pascalCaseChars chars) = (pascalCaseChars chars).modifyHead Char.toLower :=
  decapitalize_ascii _ fun ch member => (pascal_case_is_word chars ascii ch member).1

theorem camel_case_is_word : IsWord (decapitalizeChars (pascalCaseChars chars)) := by
  rw [decapitalize_pascal_case chars ascii]
  exact word_recased Char.toLower lower_recases _ (pascal_case_is_word chars ascii)

theorem pascal_case_returns : pascalCaseChars (decapitalizeChars (pascalCaseChars chars)) = pascalCaseChars chars := by
  have recapital : (Char.toUpper ∘ Char.toLower) = Char.toUpper := funext Char.toUpper_toLower_eq_toUpper
  rw [pascal_case_of_word _ (camel_case_is_word chars ascii), decapitalize_pascal_case chars ascii, List.modifyHead_modifyHead,
    recapital, pascal_case_capital chars ascii]

theorem camel_case_of_word (word : IsWord chars) : decapitalizeChars (pascalCaseChars chars) = chars.modifyHead Char.toLower := by
  have relower : (Char.toLower ∘ Char.toUpper) = Char.toLower := funext Char.toLower_toUpper_eq_toLower
  rw [decapitalize_pascal_case chars ascii, pascal_case_of_word chars word, List.modifyHead_modifyHead, relower]

theorem converted_self_iff (change : Char → Char) (converted : List Char) (isWord : IsWord converted)
    (ofWord : IsWord chars → converted = chars.modifyHead change) :
    converted = chars ↔ (∀ ch ∈ chars, ¬ isWordBreak ch) ∧ ∀ first ∈ chars.head?, change first = first := by
  rw [← modify_head_self_iff]
  constructor
  · rintro rfl
    exact ⟨fun ch member => Bool.eq_false_iff.mp (isWord ch member).2, (ofWord isWord).symm⟩
  · intro ⟨joined, same⟩
    rw [ofWord fun ch member => ⟨ascii ch member, Bool.eq_false_iff.mpr (joined ch member)⟩, same]

theorem pascal_case_self_iff : pascalCaseChars chars = chars ↔
    (∀ ch ∈ chars, ¬ isWordBreak ch) ∧ ∀ first ∈ chars.head?, ¬ first.isLower := by
  simp only [← upper_self_iff]
  exact converted_self_iff chars ascii Char.toUpper _ (pascal_case_is_word chars ascii) (pascal_case_of_word chars)

theorem camel_case_self_iff : decapitalizeChars (pascalCaseChars chars) = chars ↔
    (∀ ch ∈ chars, ¬ isWordBreak ch) ∧ ∀ first ∈ chars.head?, ¬ first.isUpper := by
  simp only [← lower_self_iff]
  exact converted_self_iff chars ascii Char.toLower _ (camel_case_is_word chars ascii) (camel_case_of_word chars ascii)

end

-- Whichever conversion was made before, the last one decides. A conversion returns a text as it is when that has no word break
-- and no letter of the other case in front; and case aside nothing but word breaks is lost.
theorem case_conversions_stable (text : String) (ascii : ∀ ch ∈ text.toList, ch.toNat < 128) :
    pascalCase (pascalCase text) = pascalCase text ∧ camelCase (camelCase text) = camelCase text ∧
      pascalCase (camelCase text) = pascalCase text ∧ camelCase (pascalCase text) = camelCase text ∧
      (pascalCase text = text ↔ (∀ ch ∈ text.toList, ¬ isWordBreak ch) ∧ ∀ first ∈ text.toList.head?, ¬ first.isLower) ∧
      (camelCase text = text ↔ (∀ ch ∈ text.toList, ¬ isWordBreak ch) ∧ ∀ first ∈ text.toList.head?, ¬ first.isUpper) ∧
      (pascalCase text).toList.map Char.toLower = (text.toList.filter (!isWordBreak ·)).map Char.toLower := by
  have pascal : (pascalCase text).toList = pascalCaseChars text.toList := String.toList_ofList
  have camel : (camelCase text).toList = decapitalizeChars (pascalCaseChars text.toList) := by
    rw [camelCase, decapitalize, String.toList_ofList, pascal]
  have again : pascalCase (pascalCase text) = pascalCase text := by
    rw [pascalCase, pascal, pascal_case_again text.toList ascii]
    rfl
  have returns : pascalCase (camelCase text) = pascalCase text := by
    rw [pascalCase, camel, pascal_case_returns text.toList ascii]
    rfl
  refine ⟨again, congrArg decapitalize returns, returns, congrArg decapitalize again, ?_, ?_, ?_⟩
  · rw [← String.toList_inj, pascal]
    exact pascal_case_self_iff text.toList ascii
  · rw [← String.toList_inj, camel]
    exact camel_case_self_iff text.toList ascii
  · rw [pascal]
    exact pascal_case_letters text.toList ascii

theorem blank_part_kept : (∀ ch ∈ "-user_\t_-\tid NAME_".toList, ch.toNat < 128) ∧
    pascalCase "-user_\t_-\tid NAME_" = "User\t\tidNAME" ∧ camelCase "-user_\t_-\tid NAME_" = "user\t\tidNAME" ∧
    pascalCase "user\t\tidNAME" = "User\t\tidNAME" ∧ camelCase "User\t\tidNAME" = "user\t\tidNAME" := by
  have checked : ("-user_\t_-\tid NAME_".toList.all (·.toNat < 128)) = true := by decide
  have ascii : ∀ ch ∈ "-user_\t_-\tid NAME_".toList, ch.toNat < 128 := fun ch member =>
    of_decide_eq_true (List.all_eq_true.mp checked ch member)
  have pascal : pascalCase "-user_\t_-\tid NAME_" = "User\t\tidNAME" := by decide +kernel
  have camel : camelCase "-user_\t_-\tid NAME_" = "user\t\tidNAME" := by decide +kernel
  obtain ⟨-, -, returns, converts, -⟩ := case_conversions_stable "-user_\t_-\tid NAME_" ascii
  rw [pascal, camel] at returns
  rw [pascal, camel] at converts
  exact ⟨ascii, pascal, camel, returns, converts⟩

-- Beyond ASCII a letter may become two characters, which do not come together again.
example : decapitalizeChars ['İ'] = ['i', '\u0307'] ∧ capitalizeChars ['i', '\u0307'] = ['I', '\u0307'] := by decide

end SmellCheck.Identifier
