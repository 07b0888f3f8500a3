/-!
# UTF-16 code units

A character of the first 65536 code points is one code unit, its own number. Any other is a high surrogate followed by a low one, each carrying ten bits of the number above 65536. A surrogate outside such a pair denotes no character.
-/

namespace Retoken.Text.Utf16

def isHigh (unit : UInt16) : Bool :=
  0xD800 ≤ unit && unit ≤ 0xDBFF

def isLow (unit : UInt16) : Bool :=
  0xDC00 ≤ unit && unit ≤ 0xDFFF

def units (c : Char) : List UInt16 :=
  if c.toNat < 0x10000 then [UInt16.ofNat c.toNat]
  else
    [UInt16.ofNat (0xD800 + (c.toNat - 0x10000) / 0x400),
      UInt16.ofNat (0xDC00 + (c.toNat - 0x10000) % 0x400)]

/-- The character that a high and a low surrogate denote together. -/
def paired (high low : UInt16) : Char :=
  Char.ofNat (0x10000 + (high.toNat - 0xD800) * 0x400 + (low.toNat - 0xDC00))

/-- Continues after the characters already read, which are given latest first. -/
def charsAfter (read : List Char) : List UInt16 → Option (List Char)
  | [] => some read.reverse
  | unit :: rest =>
    if isHigh unit then
      match rest with
      | low :: rest => if isLow low then charsAfter (paired unit low :: read) rest else none
      | [] => none
    else if isLow unit then none
    else charsAfter (Char.ofNat unit.toNat :: read) rest

/-- The characters that the units denote, if no surrogate stands alone. -/
def chars? (units : List UInt16) : Option (List Char) :=
  charsAfter [] units

end Retoken.Text.Utf16
