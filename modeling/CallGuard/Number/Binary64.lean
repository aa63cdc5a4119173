/-! # Binary64 numbers

Finite double-precision numbers as exact data, and rounding of fractions of naturals to the
nearest of them. Every operation that leaves the finite range gives `none`. -/

namespace CallGuard

/-- A significand and an exponent in normal form: the significand has 53 bits, or fewer at the
lowest exponent. -/
def Binary64.Normal (significand : Nat) (exponent : Int) : Prop :=
  significand < 1 <<< 53 ∧ -1074 ≤ exponent ∧ exponent ≤ 971 ∧
    (1 <<< 52 ≤ significand ∨ exponent = -1074)

instance (significand : Nat) (exponent : Int) : Decidable (Binary64.Normal significand exponent) :=
  inferInstanceAs (Decidable (_ ∧ _))

/-- The number `significand * 2 ^ exponent`, or its negative. -/
structure Binary64 where
  negative : Bool
  significand : Nat
  exponent : Int
  normal : Binary64.Normal significand exponent
deriving DecidableEq, Repr

namespace Binary64

def zero (negative : Bool) : Binary64 :=
  ⟨negative, 0, -1074, by decide⟩

/-- Two numbers are numerically equal when they are the same, the zeros of both signs included. -/
def same (x y : Binary64) : Bool :=
  x == y || (x.significand == 0 && y.significand == 0)

/-- The number with given parts, unless it is too large. -/
def ofParts? (negative : Bool) (significand : Nat) (exponent : Int) : Option Binary64 :=
  if h : Normal significand exponent then some ⟨negative, significand, exponent, h⟩ else none

/-! ## Rounding -/

/-- The natural nearest to a fraction, the even one of two. -/
def roundEven (num den : Nat) : Nat :=
  let q := num / den
  let r := num % den
  if 2 * r < den then q else if den < 2 * r then q + 1 else q + q % 2

/-- The fraction `num / (den * 2 ^ exponent)`. -/
def scale (num den : Nat) (exponent : Int) : Nat × Nat :=
  if 0 ≤ exponent then (num, den <<< exponent.toNat) else (num <<< (-exponent).toNat, den)

/-- The exponent at which the whole part of a positive fraction has 53 bits, or the lowest. -/
def exponentOf (num den : Nat) : Int :=
  let guess : Int := (num.log2 : Int) - (den.log2 : Int) - 52
  let (n, d) := scale num den guess
  max (if n / d < 1 <<< 52 then guess - 1 else guess) (-1074)

/-- The number nearest to a fraction, the one with an even significand of two. -/
def nearest? (negative : Bool) (num den : Nat) : Option Binary64 :=
  if num = 0 then some (zero negative)
  else
    let exponent := exponentOf num den
    let (n, d) := scale num den exponent
    let m := roundEven n d
    if m = 1 <<< 53 then ofParts? negative (1 <<< 52) (exponent + 1) else ofParts? negative m exponent

/-! ## Arithmetic -/

/-- Numerator and denominator of the absolute value. -/
def fraction (x : Binary64) : Nat × Nat :=
  if 0 ≤ x.exponent then (x.significand <<< x.exponent.toNat, 1)
  else (x.significand, 1 <<< (-x.exponent).toNat)

/-- The rounded product of absolute values. -/
def mul? (x y : Binary64) : Option Binary64 :=
  nearest? false (x.fraction.1 * y.fraction.1) (x.fraction.2 * y.fraction.2)

/-- The rounded quotient of absolute values. -/
def div? (x y : Binary64) : Option Binary64 :=
  nearest? false (x.fraction.1 * y.fraction.2) (x.fraction.2 * y.fraction.1)

/-- The number nearest to a power of ten. -/
def powerOfTen? (k : Nat) : Option Binary64 :=
  nearest? false (Nat.pow 10 k) 1

def withSign (negative : Bool) (x : Binary64) : Binary64 :=
  { x with negative := negative }

/-- The whole number nearest to the absolute value; a half goes up. -/
def roundHalfUp (x : Binary64) : Nat :=
  let (n, d) := x.fraction
  (2 * n + d) / (2 * d)

end Binary64

end CallGuard
