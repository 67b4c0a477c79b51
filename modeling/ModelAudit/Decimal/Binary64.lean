namespace ModelAudit

structure Decimal where
  digits : Nat
  exponent : Int
deriving DecidableEq, Repr

-- The number of members from one power of two to the next, and of those below the first.
def Binary64.binade : Nat := 4503599627370496

def Binary64.count : Nat := 2047 * binade

-- A finite number of the 64-bit binary format, by its place among those without a sign. Infinities and
-- what follows them in the format are left out.
structure Binary64 where
  negative : Bool
  magnitude : Nat
  magnitude_lt : magnitude < Binary64.count := by decide
deriving DecidableEq, Repr

-- Halfway goes to the even neighbour.
def roundDiv (num den : Nat) : Nat :=
  let q := num / den
  if 2 * (num % den) < den ∨ (2 * (num % den) = den ∧ q % 2 = 0) then q else q + 1

namespace Binary64

def zero (negative : Bool) : Binary64 where
  negative := negative
  magnitude := 0

def ofMagnitude? (negative : Bool) (magnitude : Nat) : Option Binary64 :=
  if h : magnitude < count then some ⟨negative, magnitude, h⟩ else none

-- The pair `(m, e)` with which the number is `m * 2 ^ e`, apart from its sign.
def scaled (x : Binary64) : Nat × Int :=
  if x.magnitude < binade then (x.magnitude, -1074)
  else (x.magnitude % binade + binade, (x.magnitude / binade : Nat) - 1075)

def decimalFraction (d : Decimal) : Nat × Nat :=
  (d.digits * Nat.pow 10 d.exponent.toNat, Nat.pow 10 (-d.exponent).toNat)

-- The unit of the last place is the power of two at which the rounded quotient has 53 bits, but no
-- less than the smallest unit of the format. There is no member beyond the largest finite number.
def ofFraction? (negative : Bool) (num den : Nat) : Option Binary64 :=
  if num = 0 then some (zero negative)
  else
    let low : Int := max ((num.log2 : Int) - den.log2 - 53) (-1074)
    let units (e : Int) : Nat × Nat := (num * Nat.pow 2 (-e).toNat, den * Nat.pow 2 e.toNat)
    let unit := if (units low).1 / (units low).2 < 2 * binade then low else low + 1
    let q := roundDiv (units unit).1 (units unit).2
    ofMagnitude? negative (q + (unit + 1074).toNat * binade)

-- Exponents far outside the range of the format are decided without the power of ten.
def ofDecimal? (negative : Bool) (d : Decimal) : Option Binary64 :=
  if d.digits = 0 then some (zero negative)
  else if 310 < d.exponent then none
  else if d.exponent + d.digits.log2 < -330 then some (zero negative)
  else
    let (num, den) := decimalFraction d
    ofFraction? negative num den

-- The two zeros are the same real number.
def same (x y : Binary64) : Bool :=
  x.magnitude == y.magnitude && (x.negative == y.negative || x.magnitude == 0)

theorem same_self (x : Binary64) : x.same x = true := by
  simp [same]

theorem same_iff {x y : Binary64} :
    x.same y = true ↔ x.magnitude = y.magnitude ∧ (x.negative = y.negative ∨ x.magnitude = 0) := by
  simp [same]

end Binary64

end ModelAudit
