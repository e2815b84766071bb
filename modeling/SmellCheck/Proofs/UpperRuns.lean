import SmellCheck.Proofs.Capitals

/-!
Runs of upper-case letters. In ASCII text every letter right after an upper-case one is lowered and nothing else
is touched, so of every run the first letter stays upper case, and a text in which no two upper-case letters
are next to each other stays as it is.
-/

set_option autoImplicit false

namespace SmellCheck.Identifier

open Text

def UpperAt (chars : List Char) (index : Nat) : Prop := ∃ ch, chars[index]? = some ch ∧ ch.isUpper

theorem upper_at_zero (ch : Char) (rest : List Char) : UpperAt (ch :: rest) 0 ↔ ch.isUpper := by
  simp [UpperAt]

theorem upper_at_succ (ch : Char) (rest : List Char) (index : Nat) : UpperAt (ch :: rest) (index + 1) ↔ UpperAt rest index :=
  Iff.rfl

theorem collapse_cons (inRun : Bool) (ch : Char) (rest : List Char) (ascii : ch.toNat < 128) :
    collapseRunsFrom inRun (ch :: rest) = (if inRun then ch.toLower else ch) :: collapseRunsFrom ch.isUpper rest := by
  rw [collapseRunsFrom, isUpper_of_ascii ch ascii]
  cases upper : ch.isUpper with
  | true =>
      rw [if_pos rfl]
      cases inRun with
      | true => rw [if_pos rfl, if_pos rfl, toLower_of_ascii ch ascii, List.singleton_append]
      | false => rfl
  | false =>
      have same : ch.toLower = ch := Char.toLower_eq_of_not_isUpper (by rw [upper]; exact Bool.false_ne_true)
      rw [if_neg Bool.false_ne_true, same, ite_self]

section
variable (inRun : Bool) (chars : List Char) (ascii : ∀ ch ∈ chars, ch.toNat < 128)

include ascii

theorem collapse_ascii : ∀ ch ∈ collapseRunsFrom inRun chars, ch.toNat < 128 := by
  induction chars generalizing inRun with
  | nil => exact nofun
  | cons first rest ih =>
      obtain ⟨here, below⟩ := List.forall_mem_cons.mp ascii
      rw [collapse_cons inRun first rest here]
      intro ch member
      rcases List.mem_cons.mp member with rfl | later
      · split
        · exact recased_ascii Char.toLower lower_recases first here
        · exact here
      · exact ih first.isUpper below ch later

theorem collapse_lower : (collapseRunsFrom inRun chars).map Char.toLower = chars.map Char.toLower := by
  induction chars generalizing inRun with
  | nil => rfl
  | cons first rest ih =>
      obtain ⟨here, below⟩ := List.forall_mem_cons.mp ascii
      have own : (if inRun then first.toLower else first).toLower = first.toLower := by
        split
        · exact Char.toLower_toLower_eq_toLower first
        · rfl
      rw [collapse_cons inRun first rest here, List.map_cons, List.map_cons, own, ih first.isUpper below]

theorem collapse_upper_iff (index : Nat) : UpperAt (collapseRunsFrom inRun chars) index ↔
    UpperAt chars index ∧ (index = 0 → inRun = false) ∧ ∀ before, index = before + 1 → ¬ UpperAt chars before := by
  induction chars generalizing inRun index with
  | nil => simp [collapseRunsFrom, UpperAt]
  | cons first rest ih =>
      obtain ⟨here, below⟩ := List.forall_mem_cons.mp ascii
      rw [collapse_cons inRun first rest here]
      cases index with
      | zero =>
          rw [upper_at_zero, upper_at_zero]
          cases inRun with
          | true => simp
          | false => simp
      | succ previous =>
          rw [upper_at_succ, upper_at_succ, ih first.isUpper below previous]
          cases previous with
          | zero => simp [upper_at_zero]
          | succ earlier => simp [upper_at_succ]

end

theorem collapse_idle (inRun : Bool) (chars : List Char) (ascii : ∀ ch ∈ chars, ch.toNat < 128)
    (start : inRun → ¬ UpperAt chars 0) (apart : ∀ index, ¬ (UpperAt chars index ∧ UpperAt chars (index + 1))) :
    collapseRunsFrom inRun chars = chars := by
  induction chars generalizing inRun with
  | nil => rfl
  | cons first rest ih =>
      obtain ⟨here, below⟩ := List.forall_mem_cons.mp ascii
      have own : (if inRun then first.toLower else first) = first := by
        split
        · rename_i afterUpper
          exact Char.toLower_eq_of_not_isUpper (mt (upper_at_zero first rest).mpr (start afterUpper))
        · rfl
      have next : first.isUpper → ¬ UpperAt rest 0 := fun upper second =>
        apart 0 ⟨(upper_at_zero first rest).mpr upper, second⟩
      rw [collapse_cons inRun first rest here, own, ih first.isUpper below next fun index => apart (index + 1)]

theorem ascii_size (chars : List Char) (ascii : ∀ ch ∈ chars, ch.toNat < 128) :
    (String.ofList chars).utf8ByteSize = chars.length := by
  rw [String.utf8ByteSize_ofList]
  induction chars with
  | nil => rfl
  | cons first rest ih =>
      obtain ⟨here, below⟩ := List.forall_mem_cons.mp ascii
      have one : first.utf8Size = 1 := by
        rw [Char.utf8Size_eq_one_iff, UInt32.le_iff_toNat_le, Char.toNat_val]
        exact Nat.le_of_lt_succ here
      rw [String.utf8Len_cons, List.length_cons, one, ih below]

-- Collapsing keeps the length and, case aside, the characters of ASCII text. Exactly the letters right behind an upper-case
-- one are lowered, so that no two upper-case ones are left next to each other and a second time changes nothing.
theorem collapse_runs_exact (text : String) (ascii : ∀ ch ∈ text.toList, ch.toNat < 128) :
    (collapseRuns text).length = text.length ∧ (collapseRuns text).utf8ByteSize = text.utf8ByteSize ∧
      (collapseRuns text).toList.map Char.toLower = text.toList.map Char.toLower ∧
      (∀ index, ¬ (UpperAt (collapseRuns text).toList index ∧ UpperAt (collapseRuns text).toList (index + 1))) ∧
      (∀ index, UpperAt (collapseRuns text).toList index ↔
        UpperAt text.toList index ∧ ∀ before, index = before + 1 → ¬ UpperAt text.toList before) ∧
      collapseRuns (collapseRuns text) = collapseRuns text := by
  have chars : (collapseRuns text).toList = collapseRunsFrom false text.toList := String.toList_ofList
  have lower := collapse_lower false text.toList ascii
  have ascii' := collapse_ascii false text.toList ascii
  have lengths : (collapseRunsFrom false text.toList).length = text.toList.length := by
    simpa using congrArg List.length lower
  have upper (index : Nat) : UpperAt (collapseRunsFrom false text.toList) index ↔
      UpperAt text.toList index ∧ ∀ before, index = before + 1 → ¬ UpperAt text.toList before := by
    rw [collapse_upper_iff false text.toList ascii index]
    simp
  have apart (index : Nat) : ¬ (UpperAt (collapseRunsFrom false text.toList) index ∧
      UpperAt (collapseRunsFrom false text.toList) (index + 1)) := by
    rintro ⟨here, next⟩
    exact ((upper (index + 1)).mp next).2 index rfl ((upper index).mp here).1
  have bytes : (collapseRuns text).utf8ByteSize = text.utf8ByteSize := by
    have own := ascii_size text.toList ascii
    rw [String.ofList_toList] at own
    rw [own, collapseRuns, ascii_size _ ascii', lengths]
  have again : collapseRuns (collapseRuns text) = collapseRuns text := by
    rw [collapseRuns, chars, collapse_idle false _ ascii' nofun apart]
    rfl
  rw [chars]
  refine ⟨?_, bytes, lower, apart, upper, again⟩
  rw [← String.length_toList, chars, lengths, String.length_toList]

theorem runs_of_all_lengths_collapse : (∀ ch ∈ "URLaBCd_EF".toList, ch.toNat < 128) ∧
    collapseRuns "URLaBCd_EF" = "UrlaBcd_Ef" ∧ collapseRuns "UrlaBcd_Ef" = "UrlaBcd_Ef" ∧
    UpperAt "URLaBCd_EF".toList 5 ∧ ¬ UpperAt "UrlaBcd_Ef".toList 5 := by
  have checked : ("URLaBCd_EF".toList.all (·.toNat < 128)) = true := by decide
  have ascii : ∀ ch ∈ "URLaBCd_EF".toList, ch.toNat < 128 := fun ch member =>
    of_decide_eq_true (List.all_eq_true.mp checked ch member)
  have collapsed : collapseRuns "URLaBCd_EF" = "UrlaBcd_Ef" := by decide +kernel
  obtain ⟨-, -, -, -, upper, again⟩ := collapse_runs_exact "URLaBCd_EF" ascii
  rw [collapsed] at upper again
  exact ⟨ascii, collapsed, again, ⟨'C', by decide, by decide⟩, fun kept => ((upper 5).mp kept).2 4 rfl ⟨'B', by decide, by decide⟩⟩

end SmellCheck.Identifier
