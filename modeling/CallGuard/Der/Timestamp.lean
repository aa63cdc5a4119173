/-! # Timestamps

The two written forms of an instant in binary objects. Both end in `Z`, and both stand for a real
day of the calendar and a real second of that day. -/

namespace CallGuard.Der.Timestamp

/-! ## Calendar -/

/-- Whether a year of the Gregorian calendar, counted on through zero, has a leap day. -/
def isLeapYear (year : Int) : Bool :=
  year % 4 = 0 && (year % 100 ≠ 0 || year % 400 = 0)

def daysInMonth (year : Int) (month : Nat) : Nat :=
  if month = 2 then if isLeapYear year then 29 else 28
  else if [4, 6, 9, 11].contains month then 30
  else 31

/-- Whether there is such a second; leap seconds are not. -/
def isInstant (year : Int) (month day hour minute second : Nat) : Bool :=
  1 ≤ month && month ≤ 12 && 1 ≤ day && day ≤ daysInMonth year month
    && hour < 24 && minute < 60 && second < 60

/-! ## Digits -/

def isDigit (b : UInt8) : Bool :=
  48 ≤ b && b ≤ 57

/-- The values of decimal digits, two by two. -/
def pairs? : List UInt8 → Option (List Nat)
  | [] => some []
  | [_] => none
  | a :: b :: rest =>
    if isDigit a && isDigit b then
      (pairs? rest).map fun ns => (10 * (a.toNat - 48) + (b.toNat - 48)) :: ns
    else none

/-! ## Written forms -/

/-- A time `yymmddhhmmssZ` between 1950 and 2049. -/
def isUtc (bytes : List UInt8) : Bool :=
  bytes.length = 13 && bytes.getLast? = some 90
    && match pairs? (bytes.take 12) with
      | some [year, month, day, hour, minute, second] =>
        isInstant (if 50 ≤ year then 1900 + year else 2000 + year) month day hour minute second
      | _ => false

/-- Digits `yyyymmddhhmmss` of a year that counts backwards or not. -/
def isFull (backwards : Bool) (digits : List UInt8) : Bool :=
  match pairs? digits with
  | some [century, year, month, day, hour, minute, second] =>
    let year : Int := 100 * century + year
    isInstant (if backwards then -year else year) month day hour minute second
  | _ => false

/-- The most digits that a fraction of a second may have. -/
def maxFraction : Nat := 32

/-- A time `yyyymmddhhmmss`, a fraction of a second and `Z`. The point in front of the fraction may
be missing unless the year has a sign. -/
def isGeneralized (bytes : List UInt8) : Bool :=
  let hasPoint := bytes.contains 46
  let (backwards, unsigned) := match bytes with
    | 43 :: rest => if hasPoint then (false, rest) else (false, bytes)
    | 45 :: rest => if hasPoint then (true, rest) else (false, bytes)
    | _ => (false, bytes)
  let fraction := match unsigned.drop 14 with
    | 46 :: rest => rest
    | rest => if hasPoint then [] else rest
  isFull backwards (unsigned.take 14) && fraction.getLast? = some 90
    && fraction.dropLast.all isDigit && fraction.length ≤ maxFraction + 1

end CallGuard.Der.Timestamp
