import Retoken.Json.Basic
import Retoken.Json.Number
import Retoken.Text.Utf16

/-!
# Reading JSON

A document is one value with blanks around it. Values nest at most `maxNesting` deep. A text is refused if a string holds a plain control character or half of a surrogate pair, and so is a number too great for a double.
-/

namespace Retoken.Json

/-- Takes something off the front of a text. -/
abbrev Scanner (α : Type) := List Char → Option (α × List Char)

/-- How many arrays and objects may be open at once. -/
def maxNesting : Nat := 127

def isBlank (c : Char) : Bool :=
  c == ' ' || c == '\t' || c == '\n' || c == '\r'

def skipBlanks (text : List Char) : List Char :=
  text.dropWhile isBlank

/-! ### Strings -/

def hexValue? (c : Char) : Option Nat :=
  if '0' ≤ c ∧ c ≤ '9' then some (c.toNat - '0'.toNat)
  else if 'a' ≤ c ∧ c ≤ 'f' then some (c.toNat - 'a'.toNat + 10)
  else if 'A' ≤ c ∧ c ≤ 'F' then some (c.toNat - 'A'.toNat + 10)
  else none

/-- The code unit that four hexadecimal digits stand for. -/
def scanUnit : Scanner UInt16
  | a :: b :: c :: d :: rest => do
    let n := (((← hexValue? a) * 16 + (← hexValue? b)) * 16 + (← hexValue? c)) * 16 + (← hexValue? d)
    return (UInt16.ofNat n, rest)
  | _ => none

/-- A character given by its code unit, or by two of them if it is above the first 65536. -/
def scanUnicode : Scanner Char := fun text => do
  let (unit, rest) ← scanUnit text
  if Text.Utf16.isHigh unit then
    match rest with
    | '\\' :: 'u' :: rest =>
      let (low, rest) ← scanUnit rest
      if Text.Utf16.isLow low then return (Text.Utf16.paired unit low, rest) else none
    | _ => none
  else if Text.Utf16.isLow unit then none
  else return (Char.ofNat unit.toNat, rest)

/-- What follows a backslash. -/
def scanEscape : Scanner Char
  | '"' :: rest => some ('"', rest)
  | '\\' :: rest => some ('\\', rest)
  | '/' :: rest => some ('/', rest)
  | 'b' :: rest => some ('\x08', rest)
  | 'f' :: rest => some ('\x0c', rest)
  | 'n' :: rest => some ('\n', rest)
  | 'r' :: rest => some ('\r', rest)
  | 't' :: rest => some ('\t', rest)
  | 'u' :: rest => scanUnicode rest
  | _ => none

/-- The rest of a string after the characters already read, which are given latest first. -/
def scanStringAfter (read : List Char) : (fuel : Nat) → Scanner String
  | 0, _ => none
  | _, [] => none
  | fuel + 1, c :: rest =>
    if c = '"' then some (String.ofList read.reverse, rest)
    else if c = '\\' then do
      let (c, rest) ← scanEscape rest
      scanStringAfter (c :: read) fuel rest
    else if c < ' ' then none
    else scanStringAfter (c :: read) fuel rest

/-- A string after its opening quote. -/
def scanString : Scanner String := fun text =>
  scanStringAfter [] text.length text

/-! ### Numbers -/

def scanDigits (text : List Char) : List Char × List Char :=
  text.span Char.isDigit

/-- One or more digits. -/
def scanSomeDigits : Scanner (List Char) := fun text =>
  match scanDigits text with
  | ([], _) => none
  | (digits, rest) => some (digits, rest)

/-- The whole part: zero alone, or digits of which the first is not zero. -/
def scanWhole : Scanner (List Char) := fun text => do
  let (digits, rest) ← scanSomeDigits text
  if digits.head? = some '0' ∧ digits.length ≠ 1 then none else return (digits, rest)

def scanFraction : Scanner (Option (List Char))
  | '.' :: rest => do
    let (digits, rest) ← scanSomeDigits rest
    return (some digits, rest)
  | text => some (none, text)

/-- The sign of an exponent, as whether it is negative. -/
def scanSign : List Char → Bool × List Char
  | '-' :: rest => (true, rest)
  | '+' :: rest => (false, rest)
  | text => (false, text)

def scanExponent : Scanner (Option (Bool × List Char)) := fun text =>
  match text with
  | c :: rest =>
    if c = 'e' ∨ c = 'E' then do
      let (negative, rest) := scanSign rest
      let (digits, rest) ← scanSomeDigits rest
      return (some (negative, digits), rest)
    else some (none, text)
  | [] => some (none, [])

def scanNumeral (negative : Bool) : Scanner Numeral := fun text => do
  let (whole, rest) ← scanWhole text
  let (fraction?, rest) ← scanFraction rest
  let (exponent?, rest) ← scanExponent rest
  return ({ negative, whole, fraction?, exponent? }, rest)

def scanNumber (negative : Bool) : Scanner JsonValue := fun text => do
  let (numeral, rest) ← scanNumeral negative text
  return (.number (← numeral.text?), rest)

/-! ### Values -/

/-- The further items of an array, up to its bracket. -/
def scanItems (item : Scanner JsonValue) (read : List JsonValue) : (fuel : Nat) → Scanner JsonValue
  | 0, _ => none
  | fuel + 1, text => do
    let (value, rest) ← item text
    match skipBlanks rest with
    | ',' :: rest => scanItems item (value :: read) fuel rest
    | ']' :: rest => return (.array (value :: read).reverse, rest)
    | _ => none

/-- An array after its opening bracket. -/
def scanArray (item : Scanner JsonValue) : Scanner JsonValue := fun text =>
  match skipBlanks text with
  | ']' :: rest => some (.array [], rest)
  | text => scanItems item [] text.length text

/-- A key, a colon and a value. -/
def scanMember (value : Scanner JsonValue) : Scanner (String × JsonValue) := fun text =>
  match skipBlanks text with
  | '"' :: rest => do
    let (key, rest) ← scanString rest
    match skipBlanks rest with
    | ':' :: rest =>
      let (value, rest) ← value rest
      return ((key, value), rest)
    | _ => none
  | _ => none

/-- The further members of an object, up to its brace. -/
def scanMembers (value : Scanner JsonValue) (read : List (String × JsonValue)) :
    (fuel : Nat) → Scanner JsonValue
  | 0, _ => none
  | fuel + 1, text => do
    let (found, rest) ← scanMember value text
    match skipBlanks rest with
    | ',' :: rest => scanMembers value (found :: read) fuel rest
    | '}' :: rest => return (.ofMembers (found :: read).reverse, rest)
    | _ => none

/-- An object after its opening brace. -/
def scanObject (value : Scanner JsonValue) : Scanner JsonValue := fun text =>
  match skipBlanks text with
  | '}' :: rest => some (.object [], rest)
  | text => scanMembers value [] text.length text

/-- A value, given how to go on after an opening bracket or brace. -/
def scanValueWith (array object : Scanner JsonValue) : Scanner JsonValue := fun text =>
  match skipBlanks text with
  | 'n' :: 'u' :: 'l' :: 'l' :: rest => some (.null, rest)
  | 't' :: 'r' :: 'u' :: 'e' :: rest => some (.bool true, rest)
  | 'f' :: 'a' :: 'l' :: 's' :: 'e' :: rest => some (.bool false, rest)
  | '"' :: rest => do
    let (value, rest) ← scanString rest
    return (.string value, rest)
  | '[' :: rest => array rest
  | '{' :: rest => object rest
  | '-' :: rest => scanNumber true rest
  | text => scanNumber false text

/-- A value in which at most the given number of arrays and objects are open at once. -/
def scanValue : Nat → Scanner JsonValue
  | 0 => scanValueWith (fun _ => none) (fun _ => none)
  | levels + 1 => scanValueWith (scanArray (scanValue levels)) (scanObject (scanValue levels))

end Retoken.Json

namespace Retoken.JsonValue

/-- The value of a document. -/
def ofText? (text : String) : Option JsonValue := do
  let (value, rest) ← Json.scanValue Json.maxNesting text.toList
  if (Json.skipBlanks rest).isEmpty then return value else none

end Retoken.JsonValue
