import SmellCheck.Toml.Scalar

/-!
Reading TOML 1.0. A document is a sequence of statements: headers, which open tables, and keys with
values, which add to the table opened last. Arrays, inline tables and keys may be nested less than
eighty deep. A text that is no document has no reading.
-/

set_option autoImplicit false

namespace SmellCheck.Toml

def skipFiller : (inComment : Bool) → List Char → List Char
  | _, [] => []
  | _, '\n' :: rest => skipFiller false rest
  | _, '\r' :: '\n' :: rest => skipFiller false rest
  | true, ch :: rest => if isPlain ch then skipFiller true rest else ch :: rest
  | false, ch :: rest =>
      if isSpace ch then skipFiller false rest
      else if ch = '#' then skipFiller true rest
      else ch :: rest

def skipSpace (chars : List Char) : List Char := chars.dropWhile isSpace

-- What follows the end of a line; only spaces and a comment may stand before it.
def lineEnd (chars : List Char) : Option (List Char) :=
  let rest := match skipSpace chars with
    | '#' :: comment => comment.dropWhile isPlain
    | rest => rest
  match rest with
  | [] => some []
  | '\n' :: rest => some rest
  | '\r' :: '\n' :: rest => some rest
  | _ => none

def isBareKeyChar (ch : Char) : Bool := ch.isAlphanum || ch == '-' || ch == '_'

def simpleKey (chars : List Char) : Option (String × List Char) :=
  match chars.head? with
  | some '"' | some '\'' => (quotedLine chars).map fun (text, rest) => (.ofList text, rest)
  | _ =>
      match chars.takeWhile isBareKeyChar with
      | [] => none
      | name => some (.ofList name, chars.dropWhile isBareKeyChar)

-- A key of one part or of several with dots between; `room` is how many more parts it may have.
def dottedKey : (room : Nat) → List Char → Option (List String × List Char)
  | 0, _ => none
  | room + 1, chars => do
      let (part, rest) ← simpleKey (skipSpace chars)
      match skipSpace rest with
      | '.' :: rest =>
          let (parts, rest) ← dottedKey room rest
          return (part :: parts, rest)
      | rest => return ([part], rest)

structure KeyPath where
  path : List String
  name : String

def keyPath (chars : List Char) : Option (KeyPath × List Char) := do
  let (parts, rest) ← dottedKey 79 chars
  return (⟨parts.dropLast, ← parts.getLast?⟩, rest)

mutual
-- A value; `room` is how much deeper it may be nested, and `fuel` bounds the work.
def value (room : Nat) : (fuel : Nat) → List Char → Option (Value × List Char)
  | 0, _ => none
  | fuel + 1, chars =>
      match chars with
      | '[' :: rest =>
          if room = 0 then none
          else (arrayItems (room - 1) fuel rest).map fun (items, rest) => (.array items, rest)
      | '\x7b' :: rest =>
          if room = 0 then none
          else match skipSpace rest with
            | '\x7d' :: rest => some (.table .inline [], rest)
            | rest => (inlineEntries (room - 1) fuel [] rest).map fun (entries, rest) =>
                (.table .inline entries, rest)
      | chars =>
          if chars.head? = some '"' || chars.head? = some '\'' then
            (quoted chars).map fun (text, rest) => (.string (.ofList text), rest)
          else
            let text := scalarText chars
            (scalar? text).map (·, chars.drop text.length)

-- The items of an array up to its closing bracket; a comma may follow the last one.
def arrayItems (room : Nat) : (fuel : Nat) → List Char → Option (List Value × List Char)
  | 0, _ => none
  | fuel + 1, chars =>
      match skipFiller false chars with
      | ']' :: rest => some ([], rest)
      | chars => do
          let (item, rest) ← value room fuel chars
          match skipFiller false rest with
          | ']' :: rest => return ([item], rest)
          | ',' :: rest =>
              let (items, rest) ← arrayItems room fuel rest
              return (item :: items, rest)
          | _ => none

-- The entries of an inline table up to its closing brace; no comma follows the last one.
def inlineEntries (room : Nat) : (fuel : Nat) → Entries → List Char →
    Option (Entries × List Char)
  | 0, _, _ => none
  | fuel + 1, entries, chars => do
      let (key, rest) ← keyPath chars
      let (item, rest) ← value room fuel (skipSpace (← expect '=' rest))
      let entries ← addValue key.path key.name item .inline entries
      match skipSpace rest with
      | '\x7d' :: rest => return (entries, rest)
      | ',' :: rest => inlineEntries room fuel entries rest
      | _ => none
end

structure Document where
  entries : Entries
  current : List String

namespace Document

def addValue (document : Document) (key : KeyPath) (item : Value) : Option Document := do
  let entries ← within .implied (Toml.addValue key.path key.name item) document.current .header
    document.entries
  return { document with entries }

def openTable (document : Document) (key : KeyPath) : Option Document := do
  return ⟨← Toml.openTable key.path key.name document.entries, key.path ++ [key.name]⟩

def openNext (document : Document) (key : KeyPath) : Option Document := do
  return ⟨← Toml.openNext key.path key.name document.entries, key.path ++ [key.name]⟩

end Document

def statement (document : Document) (chars : List Char) : Option (Document × List Char) :=
  match chars with
  | '[' :: '[' :: rest => do
      let (key, rest) ← keyPath rest
      let rest ← expect ']' (← expect ']' rest)
      return (← document.openNext key, ← lineEnd rest)
  | '[' :: rest => do
      let (key, rest) ← keyPath rest
      let rest ← expect ']' rest
      return (← document.openTable key, ← lineEnd rest)
  | chars => do
      let (key, rest) ← keyPath chars
      let rest := skipSpace (← expect '=' rest)
      let (item, rest) ← value 79 (2 * rest.length + 2) rest
      return (← document.addValue key item, ← lineEnd rest)

-- Every statement takes at least one character, so as much fuel as characters is enough.
def statements : (fuel : Nat) → Document → List Char → Option Document
  | 0, _, _ => none
  | fuel + 1, document, chars =>
      match skipFiller false chars with
      | [] => some document
      | chars => do
          let (document, rest) ← statement document chars
          statements fuel document rest

def read (text : String) : Option Entries :=
  let chars := match text.toList with
    | '\ufeff' :: rest => rest
    | chars => chars
  (statements (chars.length + 1) ⟨[], []⟩ chars).map (·.entries)

end SmellCheck.Toml
