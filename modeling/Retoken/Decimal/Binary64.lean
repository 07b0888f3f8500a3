/-!
# Double-precision numbers

The magnitude of a finite double is a mantissa below 2 ^ 53 times a power of two not below 2 ^ (-1074). Products and quotients are the exact ones, rounded once to the nearest such number; of two equally near the one with the even mantissa is taken. There is no result where that would be 2 ^ 1024 or more.
-/

namespace Retoken.Decimal

/-- The magnitude `mantissa * 2 ^ exponent`. -/
structure Binary64 where
  mantissa : Nat
  exponent : Int
deriving DecidableEq, Repr

/-- The whole number nearest to a ratio, the even one of two. -/
def roundHalfEven (num den : Nat) : Nat :=
  let quotient := num / den
  let remainder := num % den
  if 2 * remainder < den ∨ (2 * remainder = den ∧ quotient % 2 = 0) then quotient else quotient + 1

namespace Binary64

/-- The least exponent. -/
def minExponent : Int := -1074

/-- The greatest exponent. -/
def maxExponent : Int := 971

/-- The least mantissa of a number above the least exponent. -/
def leastMantissa : Nat := 0x10000000000000

def zero : Binary64 := ⟨0, minExponent⟩

/-- The position of the leading bit of a positive ratio. -/
def leadingBit (num den : Nat) : Int :=
  let estimate : Int := num.log2 - den.log2
  if num <<< (-estimate).toNat < den <<< estimate.toNat then estimate - 1 else estimate

/-- The double nearest to a ratio. -/
def ofRatio? (num den : Nat) : Option Binary64 :=
  if num = 0 then some zero
  else
    let exponent := max (leadingBit num den - 52) minExponent
    let mantissa := roundHalfEven (num <<< (-exponent).toNat) (den <<< exponent.toNat)
    let rounded : Binary64 :=
      if mantissa = 2 * leastMantissa then ⟨leastMantissa, exponent + 1⟩ else ⟨mantissa, exponent⟩
    if rounded.exponent ≤ maxExponent then some rounded else none

/-- The value as a ratio. -/
def num (x : Binary64) : Nat :=
  x.mantissa <<< x.exponent.toNat

def den (x : Binary64) : Nat :=
  1 <<< (-x.exponent).toNat

def mul? (x y : Binary64) : Option Binary64 :=
  ofRatio? (x.num * y.num) (x.den * y.den)

/-- The quotient by a number other than zero. -/
def div? (x y : Binary64) : Option Binary64 :=
  ofRatio? (x.num * y.den) (x.den * y.num)

end Binary64

end Retoken.Decimal
