import Retoken.Decimal.Binary64

/-!
# The shortest decimal that reads back

Of the decimal numbers that are nearer to a double than to any other, or as near when the mantissa is even, the ones with the fewest digits are candidates, and the nearest of those is taken. For each number of digits only the two neighbours of the double on the grid of such decimals need to be looked at: if any point of the grid reads back, one of these does.
-/

namespace Retoken.Decimal

/-- The number `digits * 10 ^ exponent`. -/
structure Scaled where
  digits : Nat
  exponent : Int
deriving DecidableEq, Repr

namespace Scaled

def num (x : Scaled) : Nat :=
  x.digits * Nat.pow 10 x.exponent.toNat

def den (x : Scaled) : Nat :=
  Nat.pow 10 (-x.exponent).toNat

/-- Whether the ratio is below the number. -/
def isAbove (x : Scaled) (num den : Nat) : Bool :=
  num * x.den < x.num * den

def isBelow (x : Scaled) (num den : Nat) : Bool :=
  x.num * den < num * x.den

/-- The distance from a ratio, over the product of both denominators. -/
def distance (x : Scaled) (num den : Nat) : Nat :=
  let own := x.num * den
  let other := num * x.den
  max own other - min own other

/-- The same number without zeros at the end of its digits, of which there are at most `fuel`. -/
def stripZeros : Nat → Scaled → Scaled
  | 0, x => x
  | fuel + 1, x =>
    if x.digits ≠ 0 ∧ x.digits % 10 = 0 then stripZeros fuel ⟨x.digits / 10, x.exponent + 1⟩ else x

end Scaled

/-- How many decimal digits a number has. -/
def digitCount (n : Nat) : Nat :=
  (Nat.toDigits 10 n).length

/-- The power of ten at the leading digit of a positive ratio. -/
def leadingPower (num den : Nat) : Int :=
  if den ≤ num then digitCount (num / den) - 1 else -digitCount ((den + num - 1) / num - 1)

namespace Binary64

/-- Whether a decimal number reads back as the double. Below the least mantissa of an exponent the next double is only half as far away. -/
def readsBack (x : Binary64) (decimal : Scaled) : Bool :=
  let quarters := 4 * x.num
  let unit := x.num / x.mantissa
  let low := quarters - (if x.mantissa = leastMantissa ∧ minExponent < x.exponent then unit else 2 * unit)
  let high := quarters + 2 * unit
  if x.mantissa % 2 = 0 then !decimal.isBelow low (4 * x.den) && !decimal.isAbove high (4 * x.den)
  else decimal.isAbove low (4 * x.den) && decimal.isBelow high (4 * x.den)

/-- The better one of the two neighbours of the double on the grid with the given spacing, if one of them reads back. Of two equally near the one with the even last digit is taken. -/
def onGrid? (x : Binary64) (power : Int) : Option Scaled :=
  let spaced : Scaled := ⟨1, power⟩
  let below : Scaled := ⟨x.num * spaced.den / (x.den * spaced.num), power⟩
  let above : Scaled := ⟨below.digits + 1, power⟩
  match x.readsBack below, x.readsBack above with
  | true, true =>
    let toBelow := below.distance x.num x.den
    let toAbove := above.distance x.num x.den
    if toBelow < toAbove ∨ (toBelow = toAbove ∧ below.digits % 2 = 0) then some below else some above
  | true, false => some below
  | false, true => some above
  | false, false => none

/-- More digits than this are never needed. -/
def maxDigits : Nat := 17

/-- The shortest decimal for a double other than zero, without zeros at the end. -/
def shortest (x : Binary64) : Scaled :=
  let leading := leadingPower x.num x.den
  match (List.range maxDigits).findSome? fun (more : Nat) => x.onGrid? (leading - more) with
  | some decimal => decimal.stripZeros maxDigits
  | none => ⟨0, 0⟩

end Binary64

end Retoken.Decimal
