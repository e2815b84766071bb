import SmellCheck.Toml.Quoted
import SmellCheck.Toml.Value

/-!
Values of TOML that are written without quotes or brackets: booleans, integers, floats, dates and
times.
-/

set_option autoImplicit false

namespace SmellCheck.Toml

def digits? (isDigit : Char → Bool) : List Char → Option (List Char)
  | [] => none
  | [ch] => if isDigit ch then some [ch] else none
  | ch :: '_' :: rest => if isDigit ch then (digits? isDigit rest).map (ch :: ·) else none
  | ch :: rest => if isDigit ch then (digits? isDigit rest).map (ch :: ·) else none

def number (base : Nat) (digits : List Char) : Nat :=
  digits.foldl (fun number digit => number * base + (hexDigit? digit).getD 0) 0

def unsigned : List Char → List Char
  | '+' :: rest => rest
  | '-' :: rest => rest
  | chars => chars

-- The digits of a decimal number, which starts with a zero only if it is zero.
def decimal? (chars : List Char) : Option (List Char) :=
  match chars with
  | ['0'] => some chars
  | '0' :: _ => none
  | _ => digits? Char.isDigit chars

def inRange (number : Int) : Option Value :=
  if -0x8000000000000000 ≤ number && number < 0x8000000000000000 then some (.integer number)
  else none

def integer? : List Char → Option Value
  | '0' :: 'x' :: rest =>
      (digits? (fun ch => (hexDigit? ch).isSome) rest).bind fun digits => inRange (number 16 digits)
  | '0' :: 'o' :: rest =>
      (digits? (fun ch => '0' ≤ ch && ch ≤ '7') rest).bind fun digits => inRange (number 8 digits)
  | '0' :: 'b' :: rest =>
      (digits? (fun ch => ch == '0' || ch == '1') rest).bind fun digits =>
        inRange (number 2 digits)
  | chars =>
      (decimal? (unsigned chars)).bind fun digits =>
        inRange (if chars.head? = some '-' then -(number 10 digits : Int) else number 10 digits)

-- The least number that a float of 64 bits rounds up to infinity: half way from the largest finite
-- one, which is odd, to the next power of two.
def floatLimit : Nat := Nat.pow 2 1024 - Nat.pow 2 970

-- Whether the number with the given digits, times the given power of ten, is no finite float. Its
-- size is clear from the place of its first digit, unless that is the place of the limit's.
def isInfinite (digits : List Char) (exponent : Int) : Bool :=
  let digits := digits.dropWhile (· == '0')
  let width := digits.length + exponent
  !digits.isEmpty && (309 < width ||
    (width == 309 &&
      floatLimit * Nat.pow 10 digits.length ≤ number 10 digits * Nat.pow 10 309))

def fraction? : List Char → Option (List Char)
  | [] => some []
  | _ :: rest => digits? Char.isDigit rest

def exponent? : List Char → Option Int
  | [] => some 0
  | _ :: rest => (digits? Char.isDigit (unsigned rest)).map fun digits =>
      if rest.head? = some '-' then -(number 10 digits : Int) else number 10 digits

-- Reads a float. A positive one that is too large is refused, a negative one is not.
def float? (chars : List Char) : Option Value :=
  let size := unsigned chars
  if size = "inf".toList || size = "nan".toList then some (.float (.ofList chars))
  else
    let isMark := fun ch => ch == 'e' || ch == 'E'
    let mantissa := size.takeWhile (!isMark ·)
    let exponentPart := size.dropWhile (!isMark ·)
    let fractionPart := mantissa.dropWhile (· != '.')
    if exponentPart.isEmpty && fractionPart.isEmpty then none
    else do
      let whole ← decimal? (mantissa.takeWhile (· != '.'))
      let fraction ← fraction? fractionPart
      let exponent ← exponent? exponentPart
      if chars.head? ≠ some '-' && isInfinite (whole ++ fraction) (exponent - fraction.length) then
        none
      else return .float (.ofList chars)

def field? (width low high : Nat) (chars : List Char) : Option (Nat × List Char) :=
  let digits := chars.take width
  let value := number 10 digits
  if digits.length = width && digits.all Char.isDigit && low ≤ value && value ≤ high then
    some (value, chars.drop width)
  else none

def expect (ch : Char) : List Char → Option (List Char)
  | [] => none
  | first :: rest => if first = ch then some rest else none

def isLeap (year : Nat) : Bool := year % 4 == 0 && (year % 100 != 0 || year % 400 == 0)

def daysIn (year month : Nat) : Nat :=
  if month = 2 then (if isLeap year then 29 else 28)
  else if [4, 6, 9, 11].contains month then 30
  else 31

def date? (chars : List Char) : Option (List Char) := do
  let (year, rest) ← field? 4 0 9999 chars
  let (month, rest) ← field? 2 1 12 (← expect '-' rest)
  let (_, rest) ← field? 2 1 (daysIn year month) (← expect '-' rest)
  return rest

def time? (chars : List Char) : Option (List Char) := do
  let (_, rest) ← field? 2 0 23 chars
  let (_, rest) ← field? 2 0 59 (← expect ':' rest)
  let (_, rest) ← field? 2 0 60 (← expect ':' rest)
  match rest with
  | '.' :: fraction =>
      if (fraction.head?.any Char.isDigit) then return fraction.dropWhile Char.isDigit else none
  | rest => return rest

def isOffset (chars : List Char) : Bool :=
  match chars with
  | ['Z'] | ['z'] => true
  | sign :: rest =>
      (sign == '+' || sign == '-') && ((do
        let (_, rest) ← field? 2 0 23 rest
        let (_, rest) ← field? 2 0 59 (← expect ':' rest)
        return rest.isEmpty : Option Bool) == some true)
  | [] => false

def isDateTime (chars : List Char) : Bool :=
  match date? chars with
  | none => time? chars == some []
  | some [] => true
  | some (mark :: rest) =>
      (mark == 'T' || mark == 't' || mark == ' ') && match time? rest with
        | none => false
        | some [] => true
        | some offset => isOffset offset

def scalar? (chars : List Char) : Option Value :=
  if chars = "true".toList then some (.boolean true)
  else if chars = "false".toList then some (.boolean false)
  else if isDateTime chars then some (.dateTime (.ofList chars))
  else (integer? chars).or (float? chars)

def isScalarChar (ch : Char) : Bool :=
  ch.isAlphanum || ch == '+' || ch == '-' || ch == '_' || ch == '.' || ch == ':'

def scalarText (chars : List Char) : List Char :=
  let first := chars.takeWhile isScalarChar
  match date? first, chars.dropWhile isScalarChar with
  | some [], ' ' :: digit :: rest =>
      if digit.isDigit then first ++ ' ' :: (digit :: rest).takeWhile isScalarChar else first
  | _, _ => first

end SmellCheck.Toml
