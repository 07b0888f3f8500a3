import Retoken.Decimal.Shortest

/-!
# JSON numbers

A numeral is split into its parts first. One without fraction and exponent that fits 64 bits is shown as it stands. Every other numeral is taken as a double and shown with the fewest digits that read back.

The double is computed from at most 64 bits of leading digits, which are then scaled by a power of ten. The result can differ from the double nearest to the numeral in its last place, and is refused if it would be infinite.
-/

namespace Retoken.Json

open Decimal

/-- The parts of a numeral. -/
structure Numeral where
  negative : Bool
  whole : List Char
  /-- The digits after the point, if there is one. -/
  fraction? : Option (List Char)
  /-- Whether the exponent is negative, and its digits. -/
  exponent? : Option (Bool × List Char)
deriving DecidableEq, Repr

def digitValue (c : Char) : Nat :=
  c.toNat - '0'.toNat

/-- Appends digits to a number as long as it fits 64 bits. Also gives how many fitted. -/
def absorbAfter (taken : Nat) (significand : Nat) : List Char → Nat × Nat
  | [] => (significand, taken)
  | c :: digits =>
    let longer := significand * 10 + digitValue c
    if longer < UInt64.size then absorbAfter (taken + 1) longer digits else (significand, taken)

def absorb (significand : Nat) (digits : List Char) : Nat × Nat :=
  absorbAfter 0 significand digits

namespace Numeral

/-- The leading digits of the whole part, and how many digits follow them. -/
def leadingDigits (numeral : Numeral) : Nat × Nat :=
  let (significand, taken) := absorb 0 numeral.whole
  (significand, numeral.whole.length - taken)

/-- The leading digits of the numeral, and the power of ten that they stand for. -/
def scaled (numeral : Numeral) : Nat × Int :=
  let (leading, dropped) := numeral.leadingDigits
  let (significand, taken) := absorb leading (numeral.fraction?.getD [])
  let exponent : Int := match numeral.exponent? with
    | some (negative, digits) =>
      let size : Int := digits.foldl (fun n c => n * 10 + digitValue c) (0 : Nat)
      if negative then -size else size
    | none => 0
  (significand, dropped - taken + exponent)

end Numeral

/-! ### Scaling by powers of ten -/

/-- The greatest power of ten that is scaled by in one step. -/
def maxStep : Nat := 308

def powerOfTen? (n : Nat) : Option Binary64 :=
  Binary64.ofRatio? (Nat.pow 10 n) 1

/-- Divides by a power of ten, in steps, until nothing is left. -/
def scaleDown (x : Binary64) (n : Nat) : Option Binary64 := do
  if n ≤ maxStep then x.div? (← powerOfTen? n)
  else if x.mantissa = 0 then return x
  else scaleDown (← x.div? (← powerOfTen? maxStep)) (n - maxStep)
termination_by n
decreasing_by simp_wf; simp [maxStep] at *; omega

/-- The double for leading digits and a power of ten, unless it is too great. -/
def toBinary64? (significand : Nat) (exponent : Int) : Option Binary64 := do
  let x ← Binary64.ofRatio? significand 1
  match exponent with
  | .ofNat n =>
    if n ≤ maxStep then x.mul? (← powerOfTen? n)
    else if x.mantissa = 0 then return x
    else none
  | .negSucc n => scaleDown x (n + 1)

/-! ### The text of a double -/

/-- Numbers are written without an exponent from this power of ten on … -/
def plainFrom : Int := -5

/-- … up to this one. -/
def plainBelow : Int := 16

/-- A decimal without an exponent, with a digit on each side of the point at least. -/
def plainText (decimal : Scaled) : String :=
  let digits := Nat.toDigits 10 decimal.digits
  let beforePoint := digits.length + decimal.exponent
  let text :=
    if 0 ≤ decimal.exponent then
      digits ++ List.replicate decimal.exponent.toNat '0' ++ ['.', '0']
    else if 0 < beforePoint then
      digits.take beforePoint.toNat ++ '.' :: digits.drop beforePoint.toNat
    else ['0', '.'] ++ List.replicate (-beforePoint).toNat '0' ++ digits
  String.ofList text

/-- A decimal with one digit before the point, and an exponent with its sign. -/
def exponentText (decimal : Scaled) (power : Int) : String :=
  let digits := Nat.toDigits 10 decimal.digits
  let mantissa := match digits with
    | first :: second :: rest => first :: '.' :: second :: rest
    | digits => digits
  String.ofList mantissa ++ (if power < 0 then "e" else "e+") ++ toString power

def magnitudeText (x : Binary64) : String :=
  if x.mantissa = 0 then "0.0"
  else
    let decimal := x.shortest
    let power := decimal.exponent + digitCount decimal.digits - 1
    if plainFrom ≤ power ∧ power < plainBelow then plainText decimal else exponentText decimal power

namespace Numeral

/-- Whether the numeral is a whole number without an exponent that fits 64 bits. Minus zero is none. -/
def isWord (numeral : Numeral) : Bool :=
  let (significand, dropped) := numeral.leadingDigits
  numeral.fraction?.isNone && numeral.exponent?.isNone && dropped == 0
    && (!numeral.negative || (0 < significand && significand ≤ UInt64.size / 2))

/-- The text that the number is shown with. -/
def text? (numeral : Numeral) : Option String := do
  let sign := if numeral.negative then "-" else ""
  if numeral.isWord then return sign ++ String.ofList numeral.whole
  let (significand, exponent) := numeral.scaled
  return sign ++ magnitudeText (← toBinary64? significand exponent)

end Numeral

end Retoken.Json
