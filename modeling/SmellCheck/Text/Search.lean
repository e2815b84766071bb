/-!
Searching, splitting and replacing inside text, on lists of characters.
-/

set_option autoImplicit false

namespace SmellCheck.Text

def occursIn (needle : List Char) : List Char → Bool
  | [] => needle.isEmpty
  | ch :: rest => needle.isPrefixOf (ch :: rest) || occursIn needle rest

theorem occursIn_iff (needle chars : List Char) : occursIn needle chars ↔ needle <:+: chars := by
  induction chars with
  | nil => rw [occursIn, List.isEmpty_iff, List.infix_nil]
  | cons ch rest ih => rw [occursIn, Bool.or_eq_true, ih, List.isPrefixOf_iff_prefix, List.infix_cons_iff]

-- Replaces the occurrences of a non-empty pattern from left to right, none overlapping another; the
-- first argument counts characters still to be passed over.
def replaceFrom (pattern replacement : List Char) : Nat → List Char → List Char
  | _, [] => []
  | skip + 1, _ :: rest => replaceFrom pattern replacement skip rest
  | 0, ch :: rest =>
      if pattern.isPrefixOf (ch :: rest) then
        replacement ++ replaceFrom pattern replacement (pattern.length - 1) rest
      else ch :: replaceFrom pattern replacement 0 rest

def replaceAll (pattern replacement chars : List Char) : List Char :=
  replaceFrom pattern replacement 0 chars

-- The pieces between the separators; there is one more piece than there are separators.
def splitWhere (separator : Char → Bool) : List Char → List (List Char)
  | [] => [[]]
  | ch :: rest =>
      if separator ch then [] :: splitWhere separator rest
      else match splitWhere separator rest with
        | [] => [[ch]]
        | piece :: pieces => (ch :: piece) :: pieces

theorem splitWhere_ne_nil (separator : Char → Bool) (chars : List Char) :
    splitWhere separator chars ≠ [] := by
  cases chars with
  | nil => simp [splitWhere]
  | cons ch rest =>
      unfold splitWhere
      split
      · simp
      · split <;> simp

theorem splitWhere_flatten (separator : Char → Bool) (chars : List Char) :
    (splitWhere separator chars).flatten = chars.filter (!separator ·) := by
  induction chars with
  | nil => rfl
  | cons ch rest ih =>
      rw [splitWhere]
      split
      · rename_i separates
        simp [separates, ih]
      · rename_i solid
        cases pieces : splitWhere separator rest with
        | nil => exact absurd pieces (splitWhere_ne_nil separator rest)
        | cons piece others =>
            rw [pieces] at ih
            simpa [solid] using ih

theorem splitWhere_plain (separator : Char → Bool) (chars : List Char) (plain : ∀ ch ∈ chars, separator ch = false) :
    splitWhere separator chars = [chars] := by
  induction chars with
  | nil => rfl
  | cons ch rest ih =>
      obtain ⟨own, others⟩ := List.forall_mem_cons.mp plain
      simp [splitWhere, own, ih others]

theorem splitWhere_first (separator : Char → Bool) (front back : List Char) (ch : Char) (separates : separator ch)
    (plain : ∀ ch ∈ front, separator ch = false) :
    splitWhere separator (front ++ ch :: back) = front :: splitWhere separator back := by
  induction front with
  | nil => simp [splitWhere, separates]
  | cons first rest ih =>
      obtain ⟨own, others⟩ := List.forall_mem_cons.mp plain
      simp [splitWhere, own, ih others]

def split (separator : Char) (text : String) : List String :=
  (splitWhere (· == separator) text.toList).map .ofList

def firstSegment (separator : Char) (text : String) : String :=
  .ofList (text.toList.takeWhile (· != separator))

def lastSegment (separator : Char) (text : String) : String :=
  .ofList (text.toList.reverse.takeWhile (· != separator)).reverse

def contains (text needle : String) : Bool := occursIn needle.toList text.toList

theorem contains_iff (text needle : String) : contains text needle ↔ needle.toList <:+: text.toList :=
  occursIn_iff _ _

def startsWith (text front : String) : Bool := front.toList.isPrefixOf text.toList

def endsWith (text back : String) : Bool := back.toList.isSuffixOf text.toList

end SmellCheck.Text
