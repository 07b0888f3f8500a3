import Retoken.Text.GraphemeExtend
import Retoken.Text.Unprintable

/-!
# Quoted text

Messages show keys, tags and site texts between quotes, with a backslash before what would be misread: the quote itself, the backslash, the usual control characters by letter, and by number in braces every other character that has no visible form of its own or would be drawn onto its neighbour.
-/

namespace Retoken.Text

/-- A lower-case hexadecimal numeral without leading zeros. -/
def hexNumeral (n : Nat) : String :=
  String.ofList (Nat.toDigits 16 n)

/-- How a character stands between the given quotes. -/
def escaped (quote c : Char) : String :=
  if c = '\x00' then "\\0"
  else if c = '\t' then "\\t"
  else if c = '\r' then "\\r"
  else if c = '\n' then "\\n"
  else if c = '\\' || c = quote then "\\" ++ c.toString
  else if ' ' ≤ c && c ≤ '~' then c.toString
  else if isGraphemeExtend c || isUnprintable c then "\\u\x7b" ++ hexNumeral c.toNat ++ "\x7d"
  else c.toString

def quoted (text : String) : String :=
  "\"" ++ String.join (text.toList.map (escaped '"')) ++ "\""

def quotedChar (c : Char) : String :=
  "'" ++ escaped '\'' c ++ "'"

end Retoken.Text
