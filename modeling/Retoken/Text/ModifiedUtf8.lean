import Retoken.Text.Utf16

/-!
# Modified UTF-8

The text format of class files. Each UTF-16 unit is a group of its own: one byte for 1 to 0x7F, two bytes for zero and for 0x80 to 0x7FF, three bytes for the rest. So zero is never a plain zero byte, and a character above the first 65536 is written as two groups of three bytes, one for each surrogate.

Reading takes longer groups than necessary, but no other lead bytes, and no surrogate without its partner.
-/

namespace Retoken.Text.ModifiedUtf8

/-- Whether a byte is a group of its own. -/
def isPlain (byte : UInt8) : Bool :=
  0x01 ≤ byte && byte ≤ 0x7F

def isContinuation (byte : UInt8) : Bool :=
  0x80 ≤ byte && byte ≤ 0xBF

/-- The shortest group for a unit, where zero counts as a unit that needs two bytes. -/
def group (unit : UInt16) : List UInt8 :=
  let n := unit.toNat
  if 0x01 ≤ n ∧ n ≤ 0x7F then [UInt8.ofNat n]
  else if n ≤ 0x7FF then [UInt8.ofNat (0xC0 + n / 0x40), UInt8.ofNat (0x80 + n % 0x40)]
  else
    [UInt8.ofNat (0xE0 + n / 0x1000), UInt8.ofNat (0x80 + n / 0x40 % 0x40),
      UInt8.ofNat (0x80 + n % 0x40)]

def ofString (text : String) : List UInt8 :=
  text.toList.flatMap fun c => (Utf16.units c).flatMap group

/-- The unit that a group of two bytes denotes. -/
def unit2 (a b : UInt8) : UInt16 :=
  UInt16.ofNat ((a.toNat - 0xC0) * 0x40 + (b.toNat - 0x80))

/-- The unit that a group of three bytes denotes. -/
def unit3 (a b c : UInt8) : UInt16 :=
  UInt16.ofNat (((a.toNat - 0xE0) * 0x40 + (b.toNat - 0x80)) * 0x40 + (c.toNat - 0x80))

/-- Continues after the units already read, which are given latest first. -/
def unitsAfter (read : List UInt16) : List UInt8 → Option (List UInt16)
  | [] => some read.reverse
  | a :: rest =>
    if isPlain a then unitsAfter (a.toUInt16 :: read) rest
    else if 0xC0 ≤ a && a ≤ 0xDF then
      match rest with
      | b :: rest => if isContinuation b then unitsAfter (unit2 a b :: read) rest else none
      | [] => none
    else if 0xE0 ≤ a && a ≤ 0xEF then
      match rest with
      | b :: c :: rest =>
        if isContinuation b && isContinuation c then unitsAfter (unit3 a b c :: read) rest
        else none
      | _ => none
    else none

/-- The units that the groups denote. -/
def units? (bytes : List UInt8) : Option (List UInt16) :=
  unitsAfter [] bytes

/-- The text of bytes that may hold groups of every length. -/
def ofGroups? (bytes : List UInt8) : Option String := do
  return String.ofList (← Utf16.chars? (← units? bytes))

/-- The text of bytes that are all groups of their own. -/
def ofPlain (bytes : List UInt8) : String :=
  String.ofList (bytes.map fun byte => Char.ofNat byte.toNat)

def toString? (bytes : List UInt8) : Option String :=
  if bytes.all isPlain then some (ofPlain bytes) else ofGroups? bytes

end Retoken.Text.ModifiedUtf8
