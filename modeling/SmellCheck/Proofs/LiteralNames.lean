import SmellCheck.Proofs.Trimming
import SmellCheck.Proofs.UpperRuns

/-!
Names for literals that read like names. Between its quotes such a literal has letters, digits, underscores and
dollar signs, and comes to no digit before a letter or dollar sign; every step on the way to the name of a
constant keeps that shape, and the last replacement leaves no dollar sign.
-/

set_option autoImplicit false

namespace SmellCheck

namespace Text

section
variable (pattern replacement : List Char)

theorem mem_replace_from (skip : Nat) (chars : List Char) (ch : Char) (member : ch ∈ replaceFrom pattern replacement skip chars) :
    ch ∈ replacement ∨ ch ∈ chars := by
  induction chars generalizing skip with
  | nil => cases skip <;> cases member
  | cons first rest ih =>
      cases skip with
      | succ more => exact (ih more member).imp_right (List.mem_cons_of_mem first)
      | zero =>
          rw [replaceFrom] at member
          split at member
          · rcases List.mem_append.mp member with new | later
            · exact .inl new
            · exact (ih _ later).imp_right (List.mem_cons_of_mem first)
          · rcases List.mem_cons.mp member with rfl | later
            · exact .inr List.mem_cons_self
            · exact (ih 0 later).imp_right (List.mem_cons_of_mem first)

theorem replace_front (first : Char) (rest : List Char) : ∃ back, replaceAll pattern replacement (first :: rest) = first :: back ∨
    replaceAll pattern replacement (first :: rest) = replacement ++ back := by
  rw [replaceAll, replaceFrom]
  split
  · exact ⟨_, .inr rfl⟩
  · exact ⟨_, .inl rfl⟩

end

theorem replaced_gone (ch : Char) (replacement chars : List Char) (absent : ch ∉ replacement) :
    ch ∉ replaceAll [ch] replacement chars := by
  unfold replaceAll
  induction chars with
  | nil => exact nofun
  | cons first rest ih =>
      rw [replaceFrom]
      split
      · exact fun member => (List.mem_append.mp member).elim absent ih
      · rename_i other
        intro member
        rcases List.mem_cons.mp member with rfl | later
        · exact other (by simp)
        · exact ih later

end Text

namespace Identifier

open Text

def isCandidatePart (ch : Char) : Bool := ch.isAlphanum || ch == '$'

def isCandidateStart (ch : Char) : Bool := ch.isAlpha || ch == '$'

structure Candidate (chars : List Char) : Prop where
  parts : chars.all isCandidatePart
  start : chars.head?.any isCandidateStart

theorem candidate_cons (chars : List Char) (candidate : Candidate chars) :
    ∃ first rest, chars = first :: rest ∧ isCandidateStart first := by
  cases chars with
  | nil => cases candidate.start
  | cons first rest => exact ⟨first, rest, rfl, candidate.start⟩

theorem candidate_append (chars more : List Char) (candidate : Candidate chars) (parts : more.all isCandidatePart) :
    Candidate (chars ++ more) := by
  obtain ⟨first, rest, rfl, starts⟩ := candidate_cons chars candidate
  exact ⟨by rw [List.all_append, candidate.parts, parts]; rfl, starts⟩

theorem candidate_replaced (pattern replacement chars : List Char) (new : Candidate replacement) (old : Candidate chars) :
    Candidate (replaceAll pattern replacement chars) := by
  refine ⟨List.all_eq_true.mpr fun ch member => ?_, ?_⟩
  · rcases mem_replace_from pattern replacement 0 chars ch member with inNew | inOld
    · exact List.all_eq_true.mp new.parts ch inNew
    · exact List.all_eq_true.mp old.parts ch inOld
  · obtain ⟨first, rest, rfl, starts⟩ := candidate_cons chars old
    obtain ⟨first', rest', rfl, starts'⟩ := candidate_cons replacement new
    obtain ⟨back, kept | begun⟩ := replace_front pattern (first' :: rest') first rest
    · rw [kept]
      exact starts
    · rw [begun]
      exact starts'

theorem candidate_folded (rules : List (String × String)) (spelled : ∀ rule ∈ rules, Candidate rule.2.toList) (chars : List Char)
    (candidate : Candidate chars) :
    Candidate (rules.foldl (fun chars rule => replaceAll rule.1.toList rule.2.toList chars) chars) := by
  induction rules generalizing chars with
  | nil => exact candidate
  | cons rule rest ih =>
      exact ih (fun other later => spelled other (List.mem_cons_of_mem _ later)) _
        (candidate_replaced rule.1.toList rule.2.toList chars (spelled rule List.mem_cons_self) candidate)

theorem candidate_respelled (chars : List Char) (candidate : Candidate chars) : Candidate (respell chars) := by
  refine candidate_folded spellings ?_ chars candidate
  simp only [spellings, List.forall_mem_cons]
  exact ⟨⟨by decide, by decide⟩, ⟨by decide, by decide⟩, ⟨by decide, by decide⟩, nofun⟩

theorem no_dollar_respelled (chars : List Char) : '$' ∉ respell chars :=
  replaced_gone '$' "Dollar".toList _ (by decide)

theorem lower_candidate (ch : Char) : isCandidatePart ch.toLower = isCandidatePart ch ∧
    isCandidateStart ch.toLower = isCandidateStart ch ∧ (ch.toLower != '_') = (ch != '_') := by
  have alike := recased_iff Char.toLower lower_recases
  refine ⟨Bool.eq_iff_iff.mpr (alike (isCandidatePart ·) (fun other letter => ?_) ch),
    Bool.eq_iff_iff.mpr (alike (isCandidateStart ·) (fun other letter => ?_) ch),
    Bool.eq_iff_iff.mpr (alike (· != '_') (fun other letter => ?_) ch)⟩
  · rw [isCandidatePart, letter_alphanum other letter, Bool.true_or]
  · rw [isCandidateStart, letter, Bool.true_or]
  · exact bne_iff_ne.mpr (alphanum_no_underscore other (letter_alphanum other letter))

theorem candidate_lower_iff (chars : List Char) : Candidate (chars.map Char.toLower) ↔ Candidate chars := by
  have parts : (chars.map Char.toLower).all isCandidatePart = chars.all isCandidatePart := by
    rw [Bool.eq_iff_iff, List.all_eq_true, List.all_eq_true, List.forall_mem_map]
    exact forall₂_congr fun ch _ => by rw [(lower_candidate ch).1]
  have start : (chars.map Char.toLower).head?.any isCandidateStart = chars.head?.any isCandidateStart := by
    cases chars with
    | nil => rfl
    | cons first rest => exact (lower_candidate first).2.1
  constructor
  · exact fun candidate => ⟨parts ▸ candidate.parts, start ▸ candidate.start⟩
  · exact fun candidate => ⟨parts ▸ candidate.parts, start ▸ candidate.start⟩

theorem without_underscores_lower (chars : List Char) :
    (withoutUnderscores chars).map Char.toLower = withoutUnderscores (chars.map Char.toLower) := by
  rw [withoutUnderscores, withoutUnderscores, List.filter_map]
  exact congrArg _ (List.filter_congr fun ch _ => (lower_candidate ch).2.2.symm)

section
variable (chars : List Char) (plain : ∀ ch ∈ chars, ch.isAlphanum ∨ ch = '_' ∨ ch = '$')

include plain

theorem plain_ascii : ∀ ch ∈ chars, ch.toNat < 128 := by
  intro ch member
  rcases plain ch member with letter | rfl | rfl
  · exact alphanum_ascii ch letter
  · decide
  · decide

theorem stripped_lower : (withoutUnderscores (collapseRunsFrom false chars)).map Char.toLower =
    (withoutUnderscores chars).map Char.toLower := by
  rw [without_underscores_lower, collapse_lower false chars (plain_ascii chars plain), without_underscores_lower]

theorem unquoted_candidate (noDigit : ledByDigit chars = false) (letters : withoutUnderscores chars ≠ []) :
    Candidate (withoutUnderscores chars) := by
  have part (ch : Char) (member : ch ∈ withoutUnderscores chars) : ch.isAlphanum ∨ ch = '$' := by
    obtain ⟨inText, other⟩ := List.mem_filter.mp member
    exact (plain ch inText).imp_right fun sign => sign.resolve_left (bne_iff_ne.mp other)
  refine ⟨List.all_eq_true.mpr fun ch member => ?_, ?_⟩
  · rcases part ch member with letter | rfl
    · rw [isCandidatePart, letter, Bool.true_or]
    · rfl
  · rw [led_by_digit_eq] at noDigit
    cases left : withoutUnderscores chars with
    | nil => exact absurd left letters
    | cons first rest =>
        rw [left] at noDigit part
        rcases part first List.mem_cons_self with letter | rfl
        · have isLetter := alphanum_alpha first letter
          rw [show first.isDigit = false from noDigit] at isLetter
          rw [List.head?_cons, Option.any_some, isCandidateStart, isLetter]
          rfl
        · rfl

theorem stripped_candidate (noDigit : ledByDigit chars = false) (letters : withoutUnderscores chars ≠ []) :
    Candidate (withoutUnderscores (collapseRunsFrom false chars)) := by
  rw [← candidate_lower_iff, stripped_lower chars plain, candidate_lower_iff]
  exact unquoted_candidate chars plain noDigit letters

theorem member_name_of_quoted : memberNameChars ('"' :: chars ++ ['"']) =
    respell (if chars.head? == some '_' then withoutUnderscores (collapseRunsFrom false chars) ++ "Field".toList
      else withoutUnderscores (collapseRunsFrom false chars)) := by
  have visible : (('"' :: chars ++ ['"']).all isBlank) = false := by
    rw [List.cons_append, List.all_cons, show isBlank '"' = false from rfl, Bool.false_and]
  have solid : ∀ ch ∈ chars, (ch == '"') = false := by
    intro ch member
    rcases plain ch member with letter | rfl | rfl
    · exact beq_false_of_ne fun same => by rw [same] at letter; cases letter
    · rfl
    · rfl
  have unquoted : trimWhere (· == '"') ('"' :: chars ++ ['"']) = chars :=
    (trim_blank_ends (· == '"') ['"'] chars ['"'] rfl rfl).trans (trim_nothing _ chars solid)
  rw [memberNameChars, visible, unquoted]
  rfl

theorem quoted_candidate (some : chars ≠ []) (noDigit : ledByDigit chars = false) :
    Candidate (memberNameChars ('"' :: chars ++ ['"'])) := by
  rw [member_name_of_quoted chars plain]
  refine candidate_respelled _ ?_
  by_cases letters : withoutUnderscores chars = []
  · -- Of underscores alone nothing is left but the mark.
    have nothing : withoutUnderscores (collapseRunsFrom false chars) = [] := by
      have lower := stripped_lower chars plain
      rwa [letters, List.map_nil, List.map_eq_nil_iff] at lower
    obtain ⟨first, rest, rfl⟩ := List.exists_cons_of_ne_nil some
    have underscore : first = '_' := by
      have left := List.filter_eq_nil_iff.mp letters first List.mem_cons_self
      simpa using left
    rw [nothing, underscore]
    show Candidate "Field".toList
    exact ⟨by decide, by decide⟩
  · have candidate := stripped_candidate chars plain noDigit letters
    split
    · exact candidate_append _ _ candidate (by decide)
    · exact candidate

end

theorem candidate_capitalized (chars : List Char) (candidate : Candidate chars) (noDollar : '$' ∉ chars) :
    isValidChars (capitalizeChars chars) ∧ '_' ∉ capitalizeChars chars ∧
      ∃ first rest, capitalizeChars chars = first :: rest ∧ first.isUpper := by
  have letters : ∀ ch ∈ chars, ch.isAlphanum := by
    intro ch member
    have part := List.all_eq_true.mp candidate.parts ch member
    have other : (ch == '$') = false := beq_false_of_ne fun same => noDollar (same ▸ member)
    rwa [isCandidatePart, other, Bool.or_false] at part
  obtain ⟨first, rest, rfl, starts⟩ := candidate_cons chars candidate
  have own := letters first List.mem_cons_self
  have isLetter : first.isAlpha := by
    have other : (first == '$') = false := beq_false_of_ne fun same => noDollar (same ▸ List.mem_cons_self)
    rwa [isCandidateStart, other, Bool.or_false] at starts
  refine ⟨(capitalized_valid first rest letters).trans isLetter, ?_, first.toUpper, rest, capitalize_alphanum first rest letters, ?_⟩
  · rw [capitalize_alphanum first rest letters]
    intro member
    rcases List.mem_cons.mp member with isFirst | later
    · exact alphanum_no_underscore _ (alphanum_capital first own) isFirst.symm
    · exact alphanum_no_underscore '_' (letters '_' (List.mem_cons_of_mem _ later)) rfl
  · rw [Char.isUpper_toUpper_eq_isAlpha, isLetter]

-- A literal that reads like a name, dollar signs included, gives a constant a valid name with a capital in front and
-- without underscores.
theorem quoted_name_valid (text : String) (some : text ≠ "") (plain : ∀ ch ∈ text.toList, ch.isAlphanum ∨ ch = '_' ∨ ch = '$')
    (noDigit : ledByDigit text.toList = false) :
    isValid (constantName ("\"" ++ text ++ "\"")) ∧ '_' ∉ (constantName ("\"" ++ text ++ "\"")).toList ∧
      ∃ first rest, (constantName ("\"" ++ text ++ "\"")).toList = first :: rest ∧ first.isUpper := by
  have chars : (constantName ("\"" ++ text ++ "\"")).toList = capitalizeChars (memberNameChars ('"' :: text.toList ++ ['"'])) := by
    rw [constantName, capitalize, memberName, String.toList_ofList, String.toList_ofList, String.toList_append, String.toList_append]
    rfl
  have noDollar : '$' ∉ memberNameChars ('"' :: text.toList ++ ['"']) := by
    rw [member_name_of_quoted text.toList plain]
    exact no_dollar_respelled _
  have nonempty : text.toList ≠ [] := fun nothing => some (String.toList_eq_nil_iff.mp nothing)
  rw [isValid, chars]
  exact candidate_capitalized _ (quoted_candidate text.toList plain nonempty noDigit) noDollar

theorem underscored_sign_named : ("__i_d$HTTPServer9" ≠ "") ∧ (∀ ch ∈ "__i_d$HTTPServer9".toList, ch.isAlphanum ∨ ch = '_' ∨ ch = '$') ∧
    ledByDigit "__i_d$HTTPServer9".toList = false ∧
    constantName ("\"" ++ "__i_d$HTTPServer9" ++ "\"") = "IdDollarHttpserver9Field" ∧ isValid "IdDollarHttpserver9Field" := by
  have checked : ("__i_d$HTTPServer9".toList.all fun ch => ch.isAlphanum || ch == '_' || ch == '$') = true := by decide
  have plain : ∀ ch ∈ "__i_d$HTTPServer9".toList, ch.isAlphanum ∨ ch = '_' ∨ ch = '$' := by
    intro ch member
    simpa [or_assoc] using List.all_eq_true.mp checked ch member
  have some : "__i_d$HTTPServer9" ≠ "" := by decide
  have noDigit : ledByDigit "__i_d$HTTPServer9".toList = false := by decide
  have named : constantName ("\"" ++ "__i_d$HTTPServer9" ++ "\"") = "IdDollarHttpserver9Field" := by decide +kernel
  obtain ⟨valid, -, -⟩ := quoted_name_valid "__i_d$HTTPServer9" some plain noDigit
  rw [named] at valid
  exact ⟨some, plain, noDigit, named, valid⟩

end Identifier

end SmellCheck
