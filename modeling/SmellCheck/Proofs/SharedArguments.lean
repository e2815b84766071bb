import Mathlib
import SmellCheck.Build
import SmellCheck.Detect.TestCases
import SmellCheck.Proofs.Spots

/-!
The argument that all test cases share. The position found is the least one at which every case has an
argument and all have the same, so it does not depend on the order of the cases; and a method with
several test cases is reported exactly when there is such a position, in whatever lists its attributes
stand.
-/

set_option autoImplicit false

namespace SmellCheck.Detect

def Shared (cases : List (List String)) (position : Nat) : Prop :=
  ∃ text, ∀ case ∈ cases, case[position]? = some text

structure FirstShared (cases : List (List String)) (position : Nat) : Prop where
  shared : Shared cases position
  least : ∀ earlier < position, ¬ Shared cases earlier

theorem shared_cons_iff (first : List String) (rest : List (List String)) (position : Nat) :
    Shared (first :: rest) position ↔
      position < first.length ∧ ∀ case ∈ rest, case[position]? = first[position]? := by
  constructor
  · rintro ⟨text, same⟩
    have own := same first List.mem_cons_self
    refine ⟨(List.getElem?_eq_some_iff.mp own).1, fun case member => ?_⟩
    rw [same case (List.mem_cons_of_mem _ member), own]
  · rintro ⟨inside, same⟩
    refine ⟨first[position], fun case member => ?_⟩
    rcases List.mem_cons.mp member with rfl | later
    · exact List.getElem?_eq_getElem inside
    · rw [same case later, List.getElem?_eq_getElem inside]

instance (cases : List (List String)) (position : Nat) : Decidable (Shared cases position) :=
  match cases with
  | [] => .isTrue ⟨"", nofun⟩
  | first :: rest => decidable_of_iff _ (shared_cons_iff first rest position).symm

instance (cases : List (List String)) (position : Nat) : Decidable (FirstShared cases position) :=
  decidable_of_iff (Shared cases position ∧ ∀ earlier < position, ¬ Shared cases earlier)
    ⟨fun ⟨shared, least⟩ => ⟨shared, least⟩, fun ⟨shared, least⟩ => ⟨shared, least⟩⟩

theorem first_shared_exists (cases : List (List String)) (position : Nat) (shared : Shared cases position) :
    ∃ least, FirstShared cases least := by
  classical
  have some : ∃ position, Shared cases position := ⟨position, shared⟩
  exact ⟨Nat.find some, Nat.find_spec some, fun _ earlier => Nat.find_min some earlier⟩

theorem first_shared_perm (cases others : List (List String)) (same : others.Perm cases) (position : Nat) :
    FirstShared others position ↔ FirstShared cases position := by
  have shared (place : Nat) : Shared others place ↔ Shared cases place := by
    simp only [Shared, same.mem_iff]
  constructor
  · rintro ⟨here, least⟩
    exact ⟨(shared position).mp here, fun earlier less => mt (shared earlier).mpr (least earlier less)⟩
  · rintro ⟨here, least⟩
    exact ⟨(shared position).mpr here, fun earlier less => mt (shared earlier).mp (least earlier less)⟩

theorem shared_position_some_iff (cases : List (List String)) (several : 2 ≤ cases.length) (position : Nat) :
    sharedPosition? cases = some position ↔ FirstShared cases position := by
  match cases, several with
  | first :: second :: rest, _ =>
      have agrees (place : Nat) (inside : place < first.length) :
          ((second :: rest).all fun case => case[place]? == first[place]?) = true ↔
            Shared (first :: second :: rest) place := by
        rw [shared_cons_iff, List.all_eq_true]
        simp only [beq_iff_eq, inside, true_and]
      have search : sharedPosition? (first :: second :: rest) = (List.range first.length).find? fun place =>
          (second :: rest).all fun case => case[place]? == first[place]? := rfl
      rw [search, List.find?_range_eq_some]
      constructor
      · rintro ⟨equal, inRange, before⟩
        have inside := List.mem_range.mp inRange
        refine ⟨(agrees position inside).mp equal, fun earlier less shared => ?_⟩
        have differ := before earlier less
        rw [(agrees earlier (less.trans inside)).mpr shared] at differ
        cases differ
      · rintro ⟨shared, least⟩
        have inside := ((shared_cons_iff _ _ position).mp shared).1
        refine ⟨(agrees position inside).mpr shared, List.mem_range.mpr inside, fun earlier less => ?_⟩
        rw [Bool.not_eq_true', Bool.eq_false_iff]
        exact mt (agrees earlier (less.trans inside)).mp (least earlier less)

theorem shared_position_none_iff (cases : List (List String)) (several : 2 ≤ cases.length) :
    sharedPosition? cases = none ↔ ∀ position, ¬ Shared cases position := by
  constructor
  · intro nothing position shared
    obtain ⟨least, first⟩ := first_shared_exists cases position shared
    rw [(shared_position_some_iff cases several least).mpr first] at nothing
    cases nothing
  · intro nowhere
    refine Option.eq_none_iff_forall_ne_some.mpr fun position found => ?_
    exact nowhere position ((shared_position_some_iff cases several position).mp found).shared

theorem shared_position_perm (cases others : List (List String)) (several : 2 ≤ cases.length) (same : others.Perm cases) :
    sharedPosition? others = sharedPosition? cases := by
  refine Option.ext fun position => ?_
  rw [shared_position_some_iff cases several, shared_position_some_iff others (same.length_eq ▸ several),
    first_shared_perm cases others same]

-- The attributes of a method that are test cases, each once and in any order.
structure CasesOf (method : Node) (uses : List Node) : Prop where
  once : uses.Nodup
  exact : ∀ use, use ∈ uses ↔ ∃ list name : Node, list ∈ method.children ∧ list.kind = .attributeList ∧
    use ∈ list.children ∧ use.kind = .attributeUse ∧ use.firstChild? = some name ∧ name.trimmed = "TestCase"

def caseTexts (use : Node) : List String := argumentTexts (use.childOfKind? .attributeArgList) .attributeArg

def treeTexts (use : Tree) : List String :=
  (use.subtrees.find? (·.kind == .attributeArgList)).elim [] fun list =>
    (list.subtrees.filter (·.kind == .attributeArg)).map fun argument => Text.trim argument.text

theorem case_texts_focus (use : Node) : caseTexts use = treeTexts use.focus := by
  rw [caseTexts, treeTexts, ← child_of_kind_focus]
  cases use.childOfKind? .attributeArgList with
  | none => rfl
  | some list =>
      rw [Option.map_some, Option.elim_some, ← children_of_kind_focus, List.map_map]
      rfl

theorem case_texts_perm (uses others : List Node) (same : (others.map Node.focus).Perm (uses.map Node.focus)) :
    (others.map caseTexts).Perm (uses.map caseTexts) := by
  have ofTrees : caseTexts = treeTexts ∘ Node.focus := funext case_texts_focus
  rw [ofTrees, ← List.map_map, ← List.map_map]
  exact same.map treeTexts

def sharedMessage (number : Nat) : String :=
  "Simplify Test Code by removing same arguments across all test cases (argument " ++ toString number ++ ")"

theorem shared_message_injective (number other : Nat) (same : sharedMessage number = sharedMessage other) : number = other := by
  have digits := (String.append_right_inj _).mp ((String.append_left_inj _).mp same)
  exact Nat.repr_injective digits

section
variable (method : Node)

theorem cases_of_attributes : CasesOf method (caseAttributes method) := by
  refine ⟨.filter _ (List.nodup_flatMap.mpr ⟨fun list _ => (Node.children_nodup list).filter _, ?_⟩), fun use => ?_⟩
  · -- An attribute stands in one list only, that above it.
    refine ((Node.children_nodup method).filter _).imp fun different use inFirst inSecond => different ?_
    have first := Node.parent_of_child _ use (List.mem_filter.mp inFirst).1
    have second := Node.parent_of_child _ use (List.mem_filter.mp inSecond).1
    exact Option.some.inj (first.symm.trans second)
  · simp only [caseAttributes, startsWithName, Node.childrenOfKind, List.mem_filter, List.mem_flatMap, beq_iff_eq,
      Option.any_eq_true]
    constructor
    · rintro ⟨⟨list, ⟨inMethod, isList⟩, inList, isUse⟩, name, isFirst, isName⟩
      exact ⟨list, name, inMethod, isList, inList, isUse, isFirst, isName⟩
    · rintro ⟨list, name, inMethod, isList, inList, isUse, isFirst, isName⟩
      exact ⟨⟨list, ⟨inMethod, isList⟩, inList, isUse⟩, name, isFirst, isName⟩

theorem cases_of_perm (uses : List Node) (given : CasesOf method uses) : uses.Perm (caseAttributes method) := by
  have own := cases_of_attributes method
  exact (List.perm_ext_iff_of_nodup given.once own.once).mpr fun use => (given.exact use).trans (own.exact use).symm

variable (semantics? : Option Semantics) (uses : List Node) (isMethod : method.kind = .methodDecl)
  (given : CasesOf method uses) (several : 2 ≤ uses.length)

include isMethod given several

theorem method_messages : (testCaseArguments semantics? method).map Finding.message? =
    (sharedPosition? (uses.map caseTexts)).map fun position => some (sharedMessage (position + 1)) := by
  have same := cases_of_perm method uses given
  have many : 2 ≤ (caseAttributes method).length := same.length_eq ▸ several
  have agree := shared_position_perm (uses.map caseTexts) ((caseAttributes method).map caseTexts)
    (by rwa [List.length_map]) (same.map caseTexts).symm
  obtain ⟨first, rest, split⟩ := List.exists_cons_of_length_pos (Nat.lt_of_lt_of_le Nat.zero_lt_two many)
  have found : testCases? method = some (first, (caseAttributes method).map caseTexts) := by
    rw [testCases?, isMethod]
    dsimp only
    rw [split]
    rfl
  have notOne : ((caseAttributes method).map caseTexts).length ≠ 1 := by
    rw [List.length_map]
    omega
  simp only [testCaseArguments, found, bind, Option.bind_some, if_neg notOne, ← agree]
  cases sharedPosition? ((caseAttributes method).map caseTexts) <;> rfl

theorem method_reported_iff (number : Nat) :
    (∃ finding, testCaseArguments semantics? method = some finding ∧ finding.message? = some (sharedMessage number)) ↔
      ∃ position, number = position + 1 ∧ FirstShared (uses.map caseTexts) position := by
  have many : 2 ≤ (uses.map caseTexts).length := by rwa [List.length_map]
  have messages := method_messages method semantics? uses isMethod given several
  rw [← Option.map_eq_some_iff, messages, Option.map_eq_some_iff]
  constructor
  · rintro ⟨position, found, same⟩
    have numbers := shared_message_injective _ _ (Option.some.inj same)
    exact ⟨position, numbers.symm, (shared_position_some_iff _ many position).mp found⟩
  · rintro ⟨position, rfl, first⟩
    exact ⟨position, (shared_position_some_iff _ many position).mpr first, rfl⟩

theorem method_silent_iff :
    testCaseArguments semantics? method = none ↔ ∀ position, ¬ Shared (uses.map caseTexts) position := by
  have many : 2 ≤ (uses.map caseTexts).length := by rwa [List.length_map]
  rw [← shared_position_none_iff _ many, ← Option.map_eq_none_iff (f := Finding.message?),
    method_messages method semantics? uses isMethod given several, Option.map_eq_none_iff]

end

-- The shared argument of several cases is found exactly, in whatever order they come; and a method is reported with the
-- number of the one that its test cases share.
theorem shared_argument_exact :
    (∀ cases : List (List String), 2 ≤ cases.length →
      (∀ position, sharedPosition? cases = some position ↔ FirstShared cases position) ∧
      (sharedPosition? cases = none ↔ ∀ position, ¬ Shared cases position) ∧
      ∀ others : List (List String), others.Perm cases → sharedPosition? others = sharedPosition? cases) ∧
    ∀ (semantics? : Option Semantics) (method : Node) (uses : List Node), method.kind = .methodDecl →
      CasesOf method uses → 2 ≤ uses.length →
      (∀ number, (∃ finding, testCaseArguments semantics? method = some finding ∧
          finding.message? = some (sharedMessage number)) ↔
        ∃ position, number = position + 1 ∧ FirstShared (uses.map caseTexts) position) ∧
      (testCaseArguments semantics? method = none ↔ ∀ position, ¬ Shared (uses.map caseTexts) position) ∧
      ∀ (otherSemantics? : Option Semantics) (other : Node) (others : List Node), other.kind = .methodDecl →
        CasesOf other others → (others.map Node.focus).Perm (uses.map Node.focus) →
        (testCaseArguments otherSemantics? other).map Finding.message? =
          (testCaseArguments semantics? method).map Finding.message? := by
  refine ⟨fun cases several => ⟨shared_position_some_iff cases several, shared_position_none_iff cases several,
    fun others same => shared_position_perm cases others several same⟩, ?_⟩
  intro semantics? method uses isMethod given several
  refine ⟨method_reported_iff method semantics? uses isMethod given several,
    method_silent_iff method semantics? uses isMethod given several, ?_⟩
  intro otherSemantics? other others isMethod' given' same
  have many : 2 ≤ others.length := by
    have lengths := same.length_eq
    rw [List.length_map, List.length_map] at lengths
    rwa [lengths]
  have positions := shared_position_perm (uses.map caseTexts) (others.map caseTexts) (by rwa [List.length_map])
    (case_texts_perm uses others same)
  rw [method_messages method semantics? uses isMethod given several,
    method_messages other otherSemantics? others isMethod' given' many, positions]

def testMethod (lists : List (List Tree)) : Node :=
  .ofRoot 0 (Build.method (lists.map Build.attributeList) ["public"] (Build.predefinedType "void") "Parses"
    (Build.parameterList []) (Build.block []))

def testCase (number text : String) : Tree :=
  Build.attributeUse "TestCase" (some [Build.numberLiteral number, Build.stringLiteral text])

theorem cases_share_second_argument :
    let cases := [["1", "a", "x"], ["2", "a"], ["1", "a", "x"]]
    let method := testMethod [[testCase "1" "a"], [testCase "2" "a", testCase "3" "a"]]
    let other := testMethod [[testCase "3" "a", Build.attributeUse "Test" none], [testCase "1" "a"], [testCase "2" "a"]]
    sharedPosition? cases = some 1 ∧ sharedPosition? cases.reverse = some 1 ∧ method.kind = .methodDecl ∧
      CasesOf method (caseAttributes method) ∧ 2 ≤ (caseAttributes method).length ∧
      ((caseAttributes other).map Node.focus).Perm ((caseAttributes method).map Node.focus) ∧
      (testCaseArguments none method).map Finding.message? = some (some (sharedMessage 2)) ∧
      (testCaseArguments none other).map Finding.message? = some (some (sharedMessage 2)) := by
  intro cases method other
  obtain ⟨ofCases, ofMethod⟩ := shared_argument_exact
  obtain ⟨found, -, reordered⟩ := ofCases cases (by decide)
  have inCases : sharedPosition? cases = some 1 := (found 1).mpr (by decide)
  have isMethod : method.kind = .methodDecl := by decide
  have given := cases_of_attributes method
  have several : 2 ≤ (caseAttributes method).length := by decide
  obtain ⟨reported, -, permuted⟩ := ofMethod none method _ isMethod given several
  have swapped : ((caseAttributes other).map Node.focus).Perm ((caseAttributes method).map Node.focus) := by decide
  have message : (testCaseArguments none method).map Finding.message? = some (some (sharedMessage 2)) :=
    Option.map_eq_some_iff.mpr ((reported 2).mpr ⟨1, rfl, by decide⟩)
  exact ⟨inCases, (reordered _ cases.reverse_perm).trans inCases, isMethod, given, several, swapped, message,
    (permuted none other _ (by decide) (cases_of_attributes other) swapped).trans message⟩

end SmellCheck.Detect
