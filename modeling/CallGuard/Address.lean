import CallGuard.Text

/-! # IP addresses

Addresses as bit vectors, and their usual texts: dotted decimal for version 4, and for version 6
hexadecimal groups in which the first longest run of zero groups is left out. -/

namespace CallGuard

inductive Address where
  | v4 (bits : BitVec 32)
  | v6 (bits : BitVec 128)
deriving DecidableEq, Repr

namespace Address

/-! ## Writing -/

def dotted (bits : BitVec 32) : String :=
  let n := bits.toNat
  Text.join "." ([n >>> 24, n >>> 16 % 256, n >>> 8 % 256, n % 256].map toString)

/-- The eight groups of sixteen bits. -/
def groups (bits : BitVec 128) : List Nat :=
  [7, 6, 5, 4, 3, 2, 1, 0].map fun i => bits.toNat >>> (16 * i) % 65536

/-- The version 4 address that a version 6 address stands for, if it is a mapped one. -/
def mapped? (bits : BitVec 128) : Option (BitVec 32) :=
  if bits.toNat >>> 32 = 0xFFFF then some (bits.setWidth 32) else none

/-- The number of zeros at the start of a list. -/
def zeros (gs : List Nat) : Nat :=
  (gs.takeWhile (· == 0)).length

/-- Where the first longest run of zero groups starts, and its length. -/
def longestZeros (gs : List Nat) : Nat × Nat :=
  (List.range gs.length).foldl
    (fun best i => if best.2 < zeros (gs.drop i) then (i, zeros (gs.drop i)) else best) (0, 0)

/-- Groups in lower-case hexadecimal with colons between them. -/
def hexGroups (gs : List Nat) : String :=
  Text.join ":" (gs.map fun g => String.ofList (Nat.toDigits 16 g))

/-- The text of a version 6 address. A single zero group is written out. -/
def colons (bits : BitVec 128) : String :=
  match mapped? bits with
  | some low => "::ffff:" ++ dotted low
  | none =>
    let gs := groups bits
    let (start, length) := longestZeros gs
    if length < 2 then hexGroups gs
    else hexGroups (gs.take start) ++ "::" ++ hexGroups (gs.drop (start + length))

def text : Address → String
  | v4 bits => dotted bits
  | v6 bits => colons bits

/-- The version 4 address in place of a mapped one. -/
def canonical : Address → Address
  | v4 bits => v4 bits
  | v6 bits => match mapped? bits with
    | some low => v4 low
    | none => v6 bits

/-! ## Reading -/

/-- Four numbers with dots between them, each read by `octet?`. -/
def quad? (octet? : List Char → Option Nat) (cs : List Char) : Option (BitVec 32) :=
  match (Text.Chars.pieces (· == '.') cs).mapM octet? with
  | some [a, b, c, d] => some (BitVec.ofNat 32 (((a * 256 + b) * 256 + c) * 256 + d))
  | _ => none

/-- A number up to 255 without needless zeros in front. -/
def octet? (cs : List Char) : Option Nat := do
  let n ← Text.Chars.decimal? cs
  if n ≤ 255 && cs.length ≤ 3 && (cs.length = 1 || cs.head? ≠ some '0') then some n else none

def hexValue? (c : Char) : Option Nat :=
  let c := c.toLower
  if c.isDigit then some (c.toNat - 48)
  else if 'a' ≤ c ∧ c ≤ 'f' then some (c.toNat - 87)
  else none

/-- A group of one to four hexadecimal digits. -/
def group? (cs : List Char) : Option Nat := do
  if cs.isEmpty || 4 < cs.length then none
  else return (← cs.mapM hexValue?).foldl (fun n d => 16 * n + d) 0

/-- Groups with colons between them. At the end of an address, the last two may be written as a
version 4 address. -/
def groupList? (atEnd : Bool) : List (List Char) → Option (List Nat)
  | [] => some []
  | [cs] =>
    match group? cs with
    | some g => some [g]
    | none =>
      if atEnd then (quad? octet? cs).map fun q => [q.toNat / 65536, q.toNat % 65536] else none
  | cs :: rest => do
    let g ← group? cs
    return g :: (← groupList? atEnd rest)

/-- The groups on one side of a double colon, which may be none. -/
def side? (atEnd : Bool) (cs : List Char) : Option (List Nat) :=
  if cs.isEmpty then some [] else groupList? atEnd (Text.Chars.pieces (· == ':') cs)

/-- What stands before and after the first double colon. -/
def cutDouble? : List Char → Option (List Char × List Char)
  | ':' :: ':' :: rest => some ([], rest)
  | c :: rest => (cutDouble? rest).map fun p => (c :: p.1, p.2)
  | [] => none

def ofGroups (gs : List Nat) : Address :=
  v6 (BitVec.ofNat 128 (gs.foldl (fun n g => n * 65536 + g) 0))

/-- Reads an address of either version. A double colon stands for one or more zero groups. -/
def ofText? (s : String) : Option Address :=
  let cs := s.toList
  match quad? octet? cs with
  | some q => some (v4 q)
  | none =>
    match cutDouble? cs with
    | none =>
      match groupList? true (Text.Chars.pieces (· == ':') cs) with
      | some gs => if gs.length = 8 then some (ofGroups gs) else none
      | none => none
    | some (front, back) =>
      match side? false front, side? true back with
      | some f, some b =>
        if f.length + b.length ≤ 7 then
          some (ofGroups (f ++ List.replicate (8 - f.length - b.length) 0 ++ b))
        else none
      | _, _ => none

end Address

end CallGuard
