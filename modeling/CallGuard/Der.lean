import CallGuard.Der.Timestamp

/-! # DER

Binary objects as nested blocks. Sequences, object identifiers and strings of bits or octets are
told apart from the rest, which is checked for its form and then dropped. -/

namespace CallGuard

inductive Der where
  | sequence (items : List Der)
  | objectId (arcs : List Nat)
  | octets
  | other
deriving Repr

namespace Der

/-! ## Numbers -/

/-- Reads a number in base 128 behind the digits `n`. All its bytes but the last have their high
bit set. -/
def base128? (n : Nat) : List UInt8 → Option (Nat × List UInt8)
  | [] => none
  | b :: rest =>
    let n := 128 * n + (b &&& 127).toNat
    if 128 ≤ b then base128? n rest else some (n, rest)

/-- Reads numbers in base 128 to the end of the bytes, the first of them behind the digits `n`.
`isOpen` tells whether a number has begun. -/
def base128s? (n : Nat) (isOpen : Bool) : List UInt8 → Option (List Nat)
  | [] => if isOpen then none else some []
  | b :: rest =>
    let n := 128 * n + (b &&& 127).toNat
    if 128 ≤ b then base128s? n true rest else (base128s? 0 false rest).map (n :: ·)

/-! ## Heads of blocks -/

/-- What a block says that it is. -/
structure Tag where
  /-- Whether the number is one of those with a fixed meaning. -/
  isUniversal : Bool
  number : Nat
deriving DecidableEq, Repr

def tag? : List UInt8 → Option (Tag × List UInt8)
  | [] => none
  | b :: rest =>
    if b &&& 31 = 31 then (base128? 0 rest).map fun (n, rest) => (⟨b < 64, n⟩, rest)
    else some (⟨b < 64, (b &&& 31).toNat⟩, rest)

def length? : List UInt8 → Option (Nat × List UInt8)
  | [] => none
  | b :: rest =>
    if b < 128 then some (b.toNat, rest)
    else
      let n := b.toNat - 128
      if 8 < n ∨ rest.length < n then none
      else some ((rest.take n).foldl (fun n b => n * 256 + b.toNat) 0, rest.drop n)

/-! ## Bodies of blocks -/

/-- The numbers of an object identifier, the first two of which share a byte. -/
def arcs? : List UInt8 → Option (List Nat)
  | [] => none
  | b :: rest =>
    let first := min (b.toNat / 40) 2
    (base128s? 0 false rest).map fun arcs => first :: (b.toNat - 40 * first) :: arcs

/-- Whether the first byte of a bit string counts bits that are there. -/
def isBitString : List UInt8 → Bool
  | [] => true
  | unused :: bits => unused.toNat ≤ 8 * bits.length

def isUtf8 (body : List UInt8) : Bool :=
  (String.fromUTF8? ⟨body.toArray⟩).isSome

/-- Whether all bytes are letters, digits or one of a few marks. -/
def isPrintable (body : List UInt8) : Bool :=
  let marks := " '()+,-./:=?".toUTF8.toList
  body.all fun b => (65 ≤ b && b ≤ 90) || (97 ≤ b && b ≤ 122) || (48 ≤ b && b ≤ 57)
    || marks.contains b

/-- The block with a number of fixed meaning that holds no other blocks. -/
def leaf? (number : Nat) (body : List UInt8) : Option Der :=
  let ensure (holds : Bool) (block : Der) : Option Der := if holds then some block else none
  match number with
  | 1 => ensure (body.length = 1) other
  | 3 => ensure (isBitString body) octets
  | 4 => some octets
  | 6 => (arcs? body).map objectId
  | 12 | 20 | 28 | 30 => ensure (isUtf8 body) other
  | 19 => ensure (isPrintable body) other
  | 23 => ensure (Timestamp.isUtc body) other
  | 24 => ensure (Timestamp.isGeneralized body) other
  | _ => some other

/-! ## Reading -/

/-- The blocks in at most `fuel` bytes, which hold at least one block. What is inside a set or a
block without fixed meaning is out of sight, but that of a set must be well-formed. -/
def blocks? : Nat → List UInt8 → Option (List Der)
  | 0, _ => none
  | fuel + 1, bytes => do
    let (tag, rest) ← tag? bytes
    let (length, rest) ← length? rest
    if rest.length < length then none
    else
      let body := rest.take length
      let block ←
        if !tag.isUniversal then some other
        else match tag.number with
          | 16 => (blocks? fuel body).map sequence
          | 17 => (blocks? fuel body).map fun _ => other
          | number => leaf? number body
      match rest.drop length with
      | [] => return [block]
      | rest => return block :: (← blocks? fuel rest)

def read? (bytes : List UInt8) : Option (List Der) :=
  blocks? bytes.length bytes

/-! ## Search -/

mutual

/-- The first answer that a function gives for an object identifier, sequences being searched
from the inside. -/
def findId? {α : Type} (f : List Nat → Option α) : Der → Option α
  | objectId arcs => f arcs
  | sequence items => findIds? f items
  | octets => none
  | other => none

def findIds? {α : Type} (f : List Nat → Option α) : List Der → Option α
  | [] => none
  | d :: ds =>
    match findId? f d with
    | some a => some a
    | none => findIds? f ds

end

mutual

/-- Whether a string of bits or octets is there, be it inside sequences. -/
def hasOctets : Der → Bool
  | octets => true
  | sequence items => haveOctets items
  | objectId _ => false
  | other => false

def haveOctets : List Der → Bool
  | [] => false
  | d :: ds => hasOctets d || haveOctets ds

end

end Der

end CallGuard
