import CallGuard.Number.Binary64

/-! # Shortest decimal text

The text of a binary64 number has the fewest digits that read back as the number and, among
those, the nearest ones. The digits come from the coarsest decimal grid with a point in the
interval of reals that round to the number. -/

namespace CallGuard

/-- The number `digits * 10 ^ exponent`. -/
structure Decimal where
  digits : Nat
  exponent : Int
deriving DecidableEq, Repr

namespace Decimal

/-- Compares the multiple `d` of `10 ^ grid` with the fraction `num / den`. -/
def compareAt (d : Nat) (grid : Int) (num den : Nat) : Ordering :=
  if 0 ≤ grid then compare (d * Nat.pow 10 grid.toNat * den) num
  else compare (d * den) (num * Nat.pow 10 (-grid).toNat)

/-- The whole part of `num / den` in units of `10 ^ grid`. -/
def floorAt (grid : Int) (num den : Nat) : Nat :=
  if 0 ≤ grid then num / (den * Nat.pow 10 grid.toNat)
  else num * Nat.pow 10 (-grid).toNat / den

/-- Drops the zeros at the end of the digits, at most `fuel` many. -/
def stripZeros : Nat → Decimal → Decimal
  | 0, d => d
  | fuel + 1, d =>
    if d.digits ≠ 0 ∧ d.digits % 10 = 0 then stripZeros fuel ⟨d.digits / 10, d.exponent + 1⟩ else d

end Decimal

namespace Binary64

/-- The reals that round to a number lie between two fractions with a common denominator; its
significand tells whether the ends belong to them. -/
structure Interval where
  low : Nat
  middle : Nat
  high : Nat
  den : Nat
  closed : Bool

/-- The interval of a number that is not zero. Below a power of two the spacing is half as wide. -/
def interval (x : Binary64) : Interval :=
  let below := if x.significand = 1 <<< 52 ∧ x.exponent ≠ -1074 then 1 else 2
  let m := x.significand
  let closed := m % 2 == 0
  let e := x.exponent - 2
  if 0 ≤ e then
    ⟨(4 * m - below) <<< e.toNat, (4 * m) <<< e.toNat, (4 * m + 2) <<< e.toNat, 1, closed⟩
  else ⟨4 * m - below, 4 * m, 4 * m + 2, 1 <<< (-e).toNat, closed⟩

/-- Whether the multiple `d` of `10 ^ grid` lies in an interval. -/
def Interval.contains (i : Interval) (d : Nat) (grid : Int) : Bool :=
  let fromLow := Decimal.compareAt d grid i.low i.den
  let fromHigh := Decimal.compareAt d grid i.high i.den
  (fromLow == .gt || (i.closed && fromLow == .eq)) &&
    (fromHigh == .lt || (i.closed && fromHigh == .eq))

/-- The point of a grid that lies in an interval nearest to its middle; of two at the same
distance the even one. -/
def Interval.hit? (i : Interval) (grid : Int) : Option Nat :=
  let d := Decimal.floorAt grid i.middle i.den
  match i.contains d grid, i.contains (d + 1) grid with
  | false, false => none
  | true, false => some d
  | false, true => some (d + 1)
  | true, true =>
    match Decimal.compareAt (2 * d + 1) grid (2 * i.middle) i.den with
    | .gt => some d
    | .lt => some (d + 1)
    | .eq => some (d + d % 2)

/-- Looks through ever finer grids, at most `fuel` many. -/
def Interval.search (i : Interval) : Nat → Int → Decimal
  | 0, grid => ⟨Decimal.floorAt grid i.middle i.den, grid⟩
  | fuel + 1, grid =>
    match i.hit? grid with
    | some d => ⟨d, grid⟩
    | none => i.search fuel (grid - 1)

/-- The shortest decimal of the absolute value. The first grid is coarser than the number. -/
def shortest (x : Binary64) : Decimal :=
  if x.significand = 0 then ⟨0, 0⟩
  else
    let log2 : Int := x.significand.log2 + x.exponent
    Decimal.stripZeros 20 (x.interval.search 40 (log2 * 30103 / 100000 + 2))

/-! ## Text -/

/-- How a number is written: the decimal exponents between two bounds in positional notation and
always with a point, all others as one digit, a point if more digits follow, and an exponent with
its sign. -/
structure TextFormat where
  lowestPositional : Int
  highestPositional : Int

/-- Numbers from `0.00001` to below `10 ^ 16` are written in positional notation. -/
def textFormat : TextFormat := ⟨-5, 15⟩

/-- Digits with a point after the first `whole` of them, zeros filled in on either side. -/
def positional (digits : List Char) (whole : Int) : List Char :=
  if whole ≤ 0 then '0' :: '.' :: (List.replicate (-whole).toNat '0' ++ digits)
  else
    let n := whole.toNat
    let front := digits.take n
    let back := digits.drop n
    front ++ List.replicate (n - front.length) '0' ++ '.' :: (if back.isEmpty then ['0'] else back)

/-- Scientific notation for digits whose first one has the given exponent. -/
def scientific (digits : List Char) (exponent : Int) : List Char :=
  let mark := if exponent < 0 then ['e', '-'] else ['e', '+']
  let tail := mark ++ Nat.toDigits 10 exponent.natAbs
  match digits with
  | [] => tail
  | [d] => d :: tail
  | d :: rest => d :: '.' :: rest ++ tail

def text (x : Binary64) : String :=
  let d := x.shortest
  let digits := Nat.toDigits 10 d.digits
  let exponent := d.exponent + (digits.length : Int) - 1
  let body :=
    if textFormat.lowestPositional ≤ exponent ∧ exponent ≤ textFormat.highestPositional then
      positional digits (exponent + 1)
    else scientific digits exponent
  String.ofList (if x.negative then '-' :: body else body)

end Binary64

end CallGuard
