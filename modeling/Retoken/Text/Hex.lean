/-!
# Hexadecimal text

Bytes are shown as two lower-case digits each, opcodes and magic numbers as upper-case digits padded to a fixed width.
-/

namespace Retoken.Text

def hexDigit (n : Nat) : Char :=
  if n < 10 then Char.ofNat ('0'.toNat + n) else Char.ofNat ('a'.toNat + (n - 10))

def hexOfByte (byte : UInt8) : List Char :=
  [hexDigit (byte.toNat / 16), hexDigit (byte.toNat % 16)]

def hexOfBytes (bytes : List UInt8) : String :=
  String.ofList (bytes.flatMap hexOfByte)

/-- The last `width` digits of a number, in upper case. -/
def upperHex (width n : Nat) : String :=
  String.ofList (((List.range width).reverse.map fun i => hexDigit ((n >>> (4 * i)) % 16)).map Char.toUpper)

end Retoken.Text
