import SmellCheck.Text.Blank
import SmellCheck.Text.Case
import SmellCheck.Text.Search

/-!
Names made from other names: the property name of a field, the constant name of a literal, and the
conversions between naming conventions.
-/

set_option autoImplicit false

namespace SmellCheck.Identifier

open Text

-- Blank text has no first letter and is kept.
def capitalizeChars : List Char → List Char
  | [] => []
  | ch :: rest => if (ch :: rest).all isBlank then ch :: rest else toUpper ch ++ rest

def decapitalizeChars : List Char → List Char
  | [] => []
  | ch :: rest => toLower ch ++ rest

def isWordBreak (ch : Char) : Bool := ch == '_' || ch == '-' || ch == ' '

def pascalCaseChars (chars : List Char) : List Char :=
  ((splitWhere isWordBreak chars).filter (!·.isEmpty)).flatMap capitalizeChars

-- Keeps the first letter of every run of upper-case letters and lowers the others; `inRun` when the
-- letter before was upper case.
def collapseRunsFrom : (inRun : Bool) → List Char → List Char
  | _, [] => []
  | inRun, ch :: rest =>
      if isUpper ch then (if inRun then toLower ch else [ch]) ++ collapseRunsFrom true rest
      else ch :: collapseRunsFrom false rest

def withoutUnderscores (chars : List Char) : List Char := chars.filter (· != '_')

def spellings : List (String × String) := [("id", "Id"), ("URL", "Url"), ("$", "Dollar")]

def respell (chars : List Char) : List Char :=
  spellings.foldl (fun chars spelling =>
    replaceAll spelling.1.toList spelling.2.toList chars) chars

-- A leading underscore leaves the mark `Field` at the end.
def memberNameChars (literal : List Char) : List Char :=
  if literal.all isBlank then []
  else
    let unquoted := trimWhere (· == '"') literal
    let name := withoutUnderscores (collapseRunsFrom false unquoted)
    respell (if unquoted.head? == some '_' then name ++ "Field".toList else name)

def isNameStart (ch : Char) : Bool := ch.isAlpha || ch == '_'

def isNamePart (ch : Char) : Bool := ch.isAlphanum || ch == '_'

def isValidChars : List Char → Bool
  | [] => false
  | ch :: rest => isNameStart ch && rest.all isNamePart

def capitalize (text : String) : String := .ofList (capitalizeChars text.toList)

def decapitalize (text : String) : String := .ofList (decapitalizeChars text.toList)

def pascalCase (text : String) : String := .ofList (pascalCaseChars text.toList)

def camelCase (text : String) : String := decapitalize (pascalCase text)

def collapseRuns (text : String) : String := .ofList (collapseRunsFrom false text.toList)

def propertyName? (fieldName : String) : Option String :=
  match withoutUnderscores fieldName.toList with
  | [] => none
  | name => some (.ofList (capitalizeChars name))

theorem property_name_none_iff (old : String) : propertyName? old = none ↔ ∀ ch ∈ old.toList, ch = '_' := by
  have nothing : withoutUnderscores old.toList = [] ↔ ∀ ch ∈ old.toList, ch = '_' := by
    simp [withoutUnderscores, List.filter_eq_nil_iff]
  rw [← nothing, propertyName?]
  cases withoutUnderscores old.toList <;> simp

def memberName (literal : String) : String := .ofList (memberNameChars literal.toList)

def constantName (literal : String) : String := capitalize (memberName literal)

-- A name is an ASCII letter or underscore followed by ASCII letters, digits and underscores.
def isValid (text : String) : Bool := isValidChars text.toList

end SmellCheck.Identifier
