import CallGuard.Number.Shortest

/-! # Numbers

A number is an exact 64-bit integer or a double. A numeral, the written form, is read in three
steps: as many digits as fit into 64 bits form a significand, the significand is rounded to a
double, and one multiplication or division by a power of ten follows. -/

namespace CallGuard

/-- An integer between `-2 ^ 63` and `2 ^ 64`, or a double. -/
inductive Number where
  | integer (n : Int)
  | double (x : Binary64)
deriving DecidableEq, Repr

namespace Number

/-- Integers are compared with integers and doubles with doubles. -/
def same : Number → Number → Bool
  | integer m, integer n => m == n
  | double x, double y => x.same y
  | _, _ => false

def nat? : Number → Option Nat
  | integer n => if 0 ≤ n then some n.toNat else none
  | double _ => none

/-- The text of a number; a double always has a point or an exponent. -/
def text : Number → String
  | integer n => toString n
  | double x => x.text

end Number

/-- A written number. The digits stand in reading order. -/
structure Numeral where
  negative : Bool
  whole : List Nat
  fraction : Option (List Nat)
  exponent : Option Int
deriving DecidableEq, Repr

namespace Numeral

/-- Takes digits into a significand as long as it fits into 64 bits, and returns the rest. -/
def absorb (significand : Nat) : List Nat → Nat × List Nat
  | [] => (significand, [])
  | d :: ds =>
    if 10 * significand + d < 1 <<< 64 then absorb (10 * significand + d) ds
    else (significand, d :: ds)

/-- The double for `significand * 10 ^ exponent`. Small powers are divided away in steps of at
most `10 ^ 308`, and nothing is left below `10 ^ -616`. -/
def scaled? (significand : Nat) (exponent : Int) : Option Binary64 := do
  let x ← Binary64.nearest? false significand 1
  if significand = 0 then return x
  if 0 ≤ exponent then
    if 308 < exponent then none
    else x.mul? (← Binary64.powerOfTen? exponent.toNat)
  else
    let k := (-exponent).toNat
    if k ≤ 308 then x.div? (← Binary64.powerOfTen? k)
    else if k ≤ 616 then
      let y ← x.div? (← Binary64.powerOfTen? 308)
      y.div? (← Binary64.powerOfTen? (k - 308))
    else return Binary64.zero false

/-- The double that a numeral stands for; none if it is too large. -/
def double? (n : Numeral) : Option Binary64 :=
  let (significand, left) := absorb 0 n.whole
  let fraction := n.fraction.getD []
  let (significand, unread) := absorb significand fraction
  let exponent : Int := left.length - (fraction.length - unread.length : Nat) + n.exponent.getD 0
  (scaled? significand exponent).map (Binary64.withSign n.negative)

/-- The exact value of a numeral without fraction and exponent that fits into 64 bits; the
negative zero is no integer. -/
def integer? (n : Numeral) : Option Int :=
  let (m, left) := absorb 0 n.whole
  if n.fraction.isNone && n.exponent.isNone && left.isEmpty then
    if n.negative then if 0 < m && m ≤ 1 <<< 63 then some (-m) else none
    else some m
  else none

/-- The number that a numeral stands for; none if it is too large. -/
def number? (n : Numeral) : Option Number :=
  match n.integer? with
  | some m => some (.integer m)
  | none => n.double?.map .double

end Numeral

end CallGuard
