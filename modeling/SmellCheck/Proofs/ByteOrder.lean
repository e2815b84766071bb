import Mathlib.Data.String.Basic

/-!
Texts compare as their bytes. The order of texts is that of their characters, compared one by one; the
encoding keeps it, because a greater character has a greater leading byte, or the same one and greater
bytes after it.
-/

set_option autoImplicit false

namespace SmellCheck.Text

def bytes (text : String) : List UInt8 := text.toByteArray.data.toList

theorem bytes_eq (text : String) : bytes text = text.toList.flatMap String.utf8EncodeChar := by
  have encoded : text.toByteArray = text.toList.utf8Encode := by
    rw [← String.toByteArray_ofList, String.ofList_toList]
  rw [bytes, encoded, List.utf8Encode]
  simp

def leading (code : Nat) : Nat × Nat :=
  if code ≤ 0x7f then (code, 0)
  else if code ≤ 0x7ff then (code / 64 + 192, 1)
  else if code ≤ 0xffff then (code / 4096 + 224, 2)
  else (code / 262144 + 240, 3)

def following : Nat → Nat → List UInt8
  | 0, _ => []
  | count + 1, code => UInt8.ofNat (code / 64 ^ count % 64 + 128) :: following count code

theorem code_bound (char : Char) : char.val.toNat < 0x110000 := by
  rcases char.valid with low | high
  · have bound : char.val.toNat < 0xd800 := low
    omega
  · exact high.2

theorem encoded_eq (char : Char) : String.utf8EncodeChar char =
    UInt8.ofNat (leading char.val.toNat).1 :: following (leading char.val.toNat).2 char.val.toNat := by
  have bound := code_bound char
  unfold String.utf8EncodeChar leading
  generalize char.val.toNat = code at bound
  dsimp only
  split_ifs
  · rfl
  · simp [following, show code / 64 % 32 = code / 64 by omega]
  · simp [following, show code / 4096 % 16 = code / 4096 by omega]
  · simp [following, show code / 262144 % 8 = code / 262144 by omega]

theorem leading_cases (low high : Nat) (less : low < high) (bound : high < 0x110000) :
    (leading high).1 < 256 ∧ ((leading low).1 < (leading high).1 ∨
      (leading low).1 = (leading high).1 ∧ ∃ count, (leading low).2 = count ∧ (leading high).2 = count ∧
        low / 64 ^ count = high / 64 ^ count) := by
  unfold leading
  split_ifs <;> simp <;> omega

theorem cons_byte_lt (low high : Nat) (less : low < high) (bound : high < 256) (rest rest' : List UInt8) :
    UInt8.ofNat low :: rest < UInt8.ofNat high :: rest' := by
  have small : (UInt8.ofNat low).toNat = low := by simp; omega
  have large : (UInt8.ofNat high).toNat = high := by simp; omega
  exact .rel (UInt8.lt_iff_toNat_lt.mpr (by omega))

theorem following_lt (count low high : Nat) (less : low < high) (same : low / 64 ^ count = high / 64 ^ count)
    (rest rest' : List UInt8) : following count low ++ rest < following count high ++ rest' := by
  induction count with
  | zero =>
      rw [Nat.pow_zero, Nat.div_one, Nat.div_one] at same
      omega
  | succ count ih =>
      rw [following, following]
      by_cases digit : low / 64 ^ count = high / 64 ^ count
      · rw [digit]
        exact .cons (ih digit)
      · have ordered : low / 64 ^ count ≤ high / 64 ^ count := Nat.div_le_div_right (Nat.le_of_lt less)
        rw [Nat.pow_succ, ← Nat.div_div_eq_div_mul, ← Nat.div_div_eq_div_mul] at same
        exact cons_byte_lt _ _ (by omega) (by omega) _ _

theorem encoded_lt (low high : Char) (less : low < high) (rest rest' : List UInt8) :
    String.utf8EncodeChar low ++ rest < String.utf8EncodeChar high ++ rest' := by
  have codes : low.val.toNat < high.val.toNat := less
  rw [encoded_eq, encoded_eq]
  obtain ⟨bound, further | ⟨same, count, countLow, countHigh, digits⟩⟩ := leading_cases _ _ codes (code_bound high)
  · exact cons_byte_lt _ _ further bound _ _
  · rw [same, countLow, countHigh]
    exact .cons (following_lt count _ _ codes digits rest rest')

theorem flat_lt (first second : List Char) (less : first < second) :
    first.flatMap String.utf8EncodeChar < second.flatMap String.utf8EncodeChar := by
  induction less with
  | nil =>
      rw [List.flatMap_cons, encoded_eq]
      exact .nil
  | cons _ ih =>
      rw [List.flatMap_cons, List.flatMap_cons]
      exact List.append_left_lt ih
  | rel less =>
      rw [List.flatMap_cons, List.flatMap_cons]
      exact encoded_lt _ _ less _ _

theorem bytes_lt_iff (first second : String) : bytes first < bytes second ↔ first < second := by
  have keeps : ∀ first second : String, first < second → bytes first < bytes second := by
    intro first second less
    rw [bytes_eq, bytes_eq]
    exact flat_lt _ _ (String.lt_iff_toList_lt.mp less)
  constructor
  · intro less
    rcases lt_trichotomy first second with before | same | after
    · exact before
    · rw [same] at less
      exact absurd less (List.lt_irrefl _)
    · exact absurd less (List.lt_asymm (keeps second first after))
  · exact keeps first second

end SmellCheck.Text
