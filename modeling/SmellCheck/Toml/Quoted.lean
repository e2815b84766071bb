/-!
Quoted strings of TOML: basic ones with escapes and literal ones without, each on one line or over
several. A reader gets the text after the opening quotes and answers the content and what follows
the closing ones.
-/

set_option autoImplicit false

namespace SmellCheck.Toml

def isPlain (ch : Char) : Bool := ch == '\t' || (0x20 ≤ ch.toNat && ch.toNat != 0x7f)

def isSpace (ch : Char) : Bool := ch == ' ' || ch == '\t'

def hexDigit? (ch : Char) : Option Nat :=
  if '0' ≤ ch && ch ≤ '9' then some (ch.toNat - 48)
  else if 'a' ≤ ch && ch ≤ 'f' then some (ch.toNat - 87)
  else if 'A' ≤ ch && ch ≤ 'F' then some (ch.toNat - 55)
  else none

def charOfHex? (digits : List Char) : Option Char := do
  let code ← digits.foldlM (fun code digit => (hexDigit? digit).map (code * 16 + ·)) 0
  if Nat.isValidChar code then some (.ofNat code) else none

def escaped? : Char → Option Char
  | 'b' => some '\x08'
  | 't' => some '\t'
  | 'n' => some '\n'
  | 'f' => some '\x0c'
  | 'r' => some '\r'
  | '"' => some '"'
  | '\\' => some '\\'
  | _ => none

abbrev Content := Option (List Char × List Char)

def Content.after (content : Content) (ch : Char) : Content :=
  content.map fun (text, rest) => (ch :: text, rest)

-- Where a basic string over several lines stands between a backslash at the end of a line and the
-- text that goes on.
inductive LineFold where
  | none
  | beforeBreak
  | afterBreak
deriving DecidableEq

-- The rest of a basic string; over several lines up to two quotes may stand before the closing
-- ones.
def basicRest (lines : Bool) : LineFold → List Char → Content
  | _, [] => .none
  | fold, '\r' :: '\n' :: rest =>
      if !lines then .none
      else if fold = .none then (basicRest lines .none rest).after '\n'
      else basicRest lines .afterBreak rest
  | fold, '\n' :: rest =>
      if !lines then .none
      else if fold = .none then (basicRest lines .none rest).after '\n'
      else basicRest lines .afterBreak rest
  | fold, ch :: rest =>
      if fold ≠ .none && isSpace ch then basicRest lines fold rest
      else if fold = .beforeBreak then .none
      else if ch = '"' then
        if !lines then some ([], rest)
        else match rest with
          | '"' :: '"' :: '"' :: '"' :: rest => some (['"', '"'], rest)
          | '"' :: '"' :: '"' :: rest => some (['"'], rest)
          | '"' :: '"' :: rest => some ([], rest)
          | rest => (basicRest lines .none rest).after '"'
      else if ch = '\\' then
        match rest with
        | 'u' :: a :: b :: c :: d :: rest =>
            (charOfHex? [a, b, c, d]).bind (basicRest lines .none rest).after
        | 'U' :: a :: b :: c :: d :: e :: f :: g :: h :: rest =>
            (charOfHex? [a, b, c, d, e, f, g, h]).bind (basicRest lines .none rest).after
        | next :: rest =>
            if lines && (isSpace next || next = '\n') then
              basicRest lines (if next = '\n' then .afterBreak else .beforeBreak) rest
            else if lines && next = '\r' then
              match rest with
              | '\n' :: rest => basicRest lines .afterBreak rest
              | _ => .none
            else (escaped? next).bind (basicRest lines .none rest).after
        | [] => .none
      else if isPlain ch then (basicRest lines .none rest).after ch
      else .none

def literalRest (lines : Bool) : List Char → Content
  | [] => none
  | '\r' :: '\n' :: rest => if lines then (literalRest lines rest).after '\n' else none
  | '\n' :: rest => if lines then (literalRest lines rest).after '\n' else none
  | ch :: rest =>
      if ch = '\'' then
        if !lines then some ([], rest)
        else match rest with
          | '\'' :: '\'' :: '\'' :: '\'' :: rest => some (['\'', '\''], rest)
          | '\'' :: '\'' :: '\'' :: rest => some (['\''], rest)
          | '\'' :: '\'' :: rest => some ([], rest)
          | rest => (literalRest lines rest).after '\''
      else if isPlain ch then (literalRest lines rest).after ch
      else none

def withoutFirstBreak : List Char → List Char
  | '\n' :: rest => rest
  | '\r' :: '\n' :: rest => rest
  | chars => chars

def quotedLine : List Char → Content
  | '"' :: rest => basicRest false .none rest
  | '\'' :: rest => literalRest false rest
  | _ => none

def quoted : List Char → Content
  | '"' :: '"' :: '"' :: rest => basicRest true .none (withoutFirstBreak rest)
  | '\'' :: '\'' :: '\'' :: rest => literalRest true (withoutFirstBreak rest)
  | chars => quotedLine chars

end SmellCheck.Toml
