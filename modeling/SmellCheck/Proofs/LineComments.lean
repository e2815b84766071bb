import SmellCheck.Proofs.RemovalMarks

/-!
Line comments. A comment that starts with two slashes reaches to the end of its line, so the token after
it has to be white space with a line break. Removals take white space away, line breaks included; that
does harm exactly where the next token that stays does not end the line either.
-/

set_option autoImplicit false

namespace SmellCheck

def isLineBreak (ch : Char) : Bool := ['\n', '\r', '\u0085', '\u2028', '\u2029'].contains ch

namespace Leaf

def isLineComment (leaf : Leaf) : Bool := leaf.1 == .comment && Text.startsWith leaf.2 "//"

def endsLine (leaf : Leaf) : Bool := leaf.1 == .whitespace && leaf.2.toList.any isLineBreak

end Leaf

def LinesEnd : List Leaf → Prop
  | [] => True
  | leaf :: rest => (leaf.isLineComment → ∀ next ∈ rest.head?, next.endsLine) ∧ LinesEnd rest

def LinesEnd.decide : (leaves : List Leaf) → Decidable (LinesEnd leaves)
  | [] => isTrue trivial
  | leaf :: rest =>
      have := LinesEnd.decide rest
      inferInstanceAs (Decidable ((leaf.isLineComment → ∀ next ∈ rest.head?, next.endsLine) ∧ LinesEnd rest))

instance (leaves : List Leaf) : Decidable (LinesEnd leaves) := LinesEnd.decide leaves

-- Where a line comment stays and the token after it goes, the next token that stays ends the line.
def Marks.LinesKept : Marks → Prop
  | [] => True
  | mark :: rest =>
      (mark.2 → mark.1.isLineComment → (∀ after ∈ rest.head?, after.2 = false) →
        ∀ next ∈ (Marks.staying rest).head?, next.endsLine) ∧ Marks.LinesKept rest

def Marks.LinesKept.decide : (marks : Marks) → Decidable marks.LinesKept
  | [] => isTrue trivial
  | mark :: rest =>
      have := Marks.LinesKept.decide rest
      inferInstanceAs (Decidable ((mark.2 → mark.1.isLineComment → (∀ after ∈ rest.head?, after.2 = false) →
        ∀ next ∈ (Marks.staying rest).head?, next.endsLine) ∧ Marks.LinesKept rest))

instance (marks : Marks) : Decidable marks.LinesKept := Marks.LinesKept.decide marks

theorem lines_end_iff (marks : Marks) (closed : LinesEnd marks.leaves) : LinesEnd marks.staying ↔ marks.LinesKept := by
  induction marks with
  | nil => exact Iff.rfl
  | cons mark rest ih =>
      obtain ⟨leaf, stays⟩ := mark
      obtain ⟨ends, closed⟩ := closed
      rw [Marks.LinesKept, ← ih closed]
      cases stays with
      | false => exact (and_iff_right_of_imp fun _ => nofun).symm
      | true =>
          refine and_congr_left fun _ => ⟨fun ends' _ comment _ => ends' comment, fun kept comment => ?_⟩
          cases rest with
          | nil => exact nofun
          | cons after later =>
              obtain ⟨next, stays⟩ := after
              cases stays with
              | false => exact kept rfl comment fun _ same => Option.some.inj same ▸ rfl
              | true =>
                  exact ends comment

namespace Catalog

open SmellCheck.Fix

-- The tokens of the fixed document are those that are marked to stay. Where line comments ended before,
-- they end after the fix exactly where none of them that stays loses the end of its line to a token that
-- does not end it.
theorem removal_lines_end_iff (catalog : Catalog) (rule : Rule)
    (removing : rule = .unnecessaryShimsContext ∨ rule = .removeFakes) (home : Node) (result : Tree)
    (fixed : catalog.fix rule.id home = .ok result) (closed : LinesEnd home.root.leaves) :
    let marks := home.root.marks (takes rule home) (cutOut rule)
    marks.leaves = home.root.leaves ∧ marks.staying = result.leaves ∧ (LinesEnd result.leaves ↔ marks.LinesKept) := by
  intro marks
  obtain ⟨all, staying⟩ := removal_marks catalog rule removing home result fixed
  refine ⟨all, staying, ?_⟩
  rw [← staying]
  exact lines_end_iff _ (all ▸ closed)

end Catalog

namespace Commented

open Build

def comment : Element := token .comment "// a"

def call (name : String) : Tree := exprStmt (identifierName name)

def guard (after : String) : Node :=
  ⟨0, usingStmt (invocation (memberAccess (identifierName "ShimsContext") "Create") [])
      (tree .block [punct "\x7b", space, call "a", space, comment, whitespace "\n", punct "\x7d"]),
    [⟨Kind.block.raw, [space, punct "\x7b"], [whitespace after, (call "b").toElement, space, punct "\x7d"]⟩]⟩

def fake : Node :=
  let member := memberAccess (identifierName "S") "A"
  let assigned := assignment member (simpleLambda "o" (numberLiteral "1"))
  ⟨0, member, [⟨Kind.assignment.raw, [], assigned.children.tail⟩, ⟨Kind.exprStmt.raw, [], (exprStmt assigned).children.tail⟩,
    ⟨Kind.block.raw, [whitespace "\n", comment, space, punct "\x7b"], [space, (call "b").toElement, space, punct "\x7d"]⟩]⟩

def noted (before : List Element) (after : String) : Tree :=
  tree .block ([punct "\x7b", space] ++ before ++ [comment, whitespace after, (call "b").toElement, space, punct "\x7d"])

end Commented

namespace Catalog

open SmellCheck.Fix Commented

theorem lines_end_after_guard :
    let result := noted [(call "a").toElement, Build.space] "\n"
    LinesEnd (guard "\n").root.leaves ∧ builtin.fix Rule.unnecessaryShimsContext.id (guard "\n") = .ok result ∧
      LinesEnd result.leaves := by
  intro result
  have closed : LinesEnd (guard "\n").root.leaves := by decide
  have unwrapped : removeGuards (guard "\n") = some result := by decide +kernel
  have fixed := builtin_fix .unnecessaryShimsContext removeGuards rfl _ _ unwrapped
  have kept : ((guard "\n").root.marks (takes .unnecessaryShimsContext (guard "\n")) (cutOut .unnecessaryShimsContext)).LinesKept := by
    decide +kernel
  exact ⟨closed, fixed, (removal_lines_end_iff builtin .unnecessaryShimsContext (.inl rfl) _ _ fixed closed).2.2.mpr kept⟩

theorem comment_swallows_code :
    (LinesEnd (guard " ").root.leaves ∧
      builtin.fix Rule.unnecessaryShimsContext.id (guard " ") = .ok (noted [(call "a").toElement, Build.space] " ") ∧
      ¬ LinesEnd (noted [(call "a").toElement, Build.space] " ").leaves) ∧
    LinesEnd fake.root.leaves ∧ builtin.fix Rule.removeFakes.id fake = .ok (noted [] " ") ∧ ¬ LinesEnd (noted [] " ").leaves := by
  have unwrapped : removeGuards (guard " ") = some (noted [(call "a").toElement, Build.space] " ") := by decide +kernel
  have removed : removeFakes fake = some (noted [] " ") := by decide +kernel
  exact ⟨⟨by decide, builtin_fix .unnecessaryShimsContext removeGuards rfl _ _ unwrapped, by decide⟩, by decide,
    builtin_fix .removeFakes removeFakes rfl _ _ removed, by decide⟩

end Catalog

end SmellCheck
