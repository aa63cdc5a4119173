/-! # Base64

Both alphabets, read strictly: no foreign characters, no impossible lengths, and no bits left over
that are not zero. -/

namespace CallGuard.Base64

/-- The value of a digit, in an alphabet with the given last two characters. -/
def digit? (c62 c63 : Char) (c : Char) : Option Nat :=
  if 'A' ≤ c ∧ c ≤ 'Z' then some (c.toNat - 65)
  else if 'a' ≤ c ∧ c ≤ 'z' then some (c.toNat - 71)
  else if '0' ≤ c ∧ c ≤ '9' then some (c.toNat + 4)
  else if c = c62 then some 62
  else if c = c63 then some 63
  else none

/-- The bytes of digits, four of which make three bytes. -/
def bytes? : List Nat → Option (List UInt8)
  | [] => some []
  | [_] => none
  | [a, b] => if b % 16 = 0 then some [UInt8.ofNat (a * 4 + b / 16)] else none
  | [a, b, c] =>
    if c % 4 = 0 then
      some [UInt8.ofNat (a * 4 + b / 16), UInt8.ofNat (b % 16 * 16 + c / 4)]
    else none
  | a :: b :: c :: d :: rest =>
    (bytes? rest).map fun bs =>
      UInt8.ofNat (a * 4 + b / 16) :: UInt8.ofNat (b % 16 * 16 + c / 4)
        :: UInt8.ofNat (c % 4 * 64 + d) :: bs

/-- Reads the alphabet that is safe in URLs, without padding. -/
def decodeUrl? (s : String) : Option (List UInt8) :=
  (s.toList.mapM (digit? '-' '_')).bind bytes?

/-- Reads the standard alphabet, padded to a multiple of four. -/
def decodePadded? (s : String) : Option (List UInt8) :=
  let cs := s.toList
  let body := (cs.reverse.dropWhile (· == '=')).reverse
  if cs.length % 4 = 0 && cs.length ≤ body.length + 2 then
    (body.mapM (digit? '+' '/')).bind bytes?
  else none

end CallGuard.Base64
