import CallGuard.Address

/-! # Trusted values

A trust signal is accepted when it equals an expected value, or when an expected value is a range
of version 4 addresses that holds it. -/

namespace CallGuard.Trust

/-- A decimal number that fits a word of 32 bits. -/
def word? (cs : List Char) : Option Nat :=
  match Text.Chars.decimal? cs with
  | some n => if n < 1 <<< 32 then some n else none
  | none => none

/-- A number of one to three digits up to 255; zeros may stand in front. -/
def octet? (cs : List Char) : Option Nat :=
  if 3 < cs.length then none
  else match word? cs with
    | some n => if n ≤ 255 then some n else none
    | none => none

def quad? (s : String) : Option (BitVec 32) :=
  Address.quad? octet? s.toList

/-- How many leading bits a range fixes: a run of digits with a value up to 32. -/
def rangeLength? (s : String) : Option Nat :=
  match word? s.toList with
  | some n => if n ≤ 32 then some n else none
  | none => none

/-! ## Masks -/

/-- Moves the bits of a word to the left, which overflows when it is by the whole width or more. -/
def shiftLeft? (w : BitVec 32) (n : Nat) : Option (BitVec 32) :=
  if n < 32 then some (w <<< n) else none

/-- Ones in the leading `length` bits and zeros in the others. There is no such word for a length
over 32. -/
def mask? (length : Nat) : Option (BitVec 32) :=
  if length = 0 then some 0
  else if length ≤ 32 then shiftLeft? (BitVec.allOnes 32) (32 - length) else none

theorem rangeLength?_le {s : String} {n : Nat} (h : rangeLength? s = some n) : n ≤ 32 := by
  unfold rangeLength? at h
  split at h
  next m _ =>
    split at h
    next hle => exact Option.some.inj h ▸ hle
    next => cases h
  next => cases h

/-- A length of a range is never one for which the shift overflows: at 0 nothing is shifted. -/
theorem mask?_eq_some {n : Nat} (h : n ≤ 32) :
    mask? n = some (BitVec.allOnes 32 <<< (32 - n)) := by
  unfold mask?
  by_cases hzero : n = 0
  · subst hzero
    rfl
  · have hshort : 32 - n < 32 := by omega
    rw [if_neg hzero, if_pos h, shiftLeft?, if_pos hshort]

/-! ## Ranges -/

/-- A range `network/length` holds the addresses that agree with the network on the leading
bits. There is no answer where the mask overflows. -/
def inRange? (range candidate : String) : Option Bool :=
  match Text.cut? '/' range with
  | none => some false
  | some (network, length) =>
    match rangeLength? length with
    | none => some false
    | some n =>
      match quad? network, quad? candidate with
      | some a, some b => (mask? n).map fun m => a &&& m == b &&& m
      | _, _ => some false

theorem isSome_inRange? (range candidate : String) : (inRange? range candidate).isSome := by
  unfold inRange?
  split
  next => rfl
  next network length _ =>
    split
    next => rfl
    next n hn =>
      split
      next => rw [mask?_eq_some (rangeLength?_le hn)]; rfl
      next => rfl

def inRange (range candidate : String) : Bool :=
  (inRange? range candidate).get (isSome_inRange? range candidate)

@[simp] theorem inRange?_eq_some (range candidate : String) :
    inRange? range candidate = some (inRange range candidate) :=
  (Option.some_get _).symm

/-- Whether a candidate is one of the expected values or else lies in one of the ranges, which are
tried in their order. -/
def isTrusted? (expected : List String) (candidate : String) : Option Bool :=
  if expected.contains candidate then some true
  else expected.anyM fun range => inRange? range candidate

theorem isTrusted?_eq_some (expected : List String) (candidate : String) :
    isTrusted? expected candidate =
      some (expected.contains candidate || expected.any fun range => inRange range candidate) := by
  have hany : (expected.anyM fun range => inRange? range candidate) =
      some (expected.any fun range => inRange range candidate) := by
    simp only [inRange?_eq_some]
    exact List.anyM_pure
  unfold isTrusted?
  cases hcontains : expected.contains candidate with
  | true => rfl
  | false => exact hany

theorem isSome_isTrusted? (expected : List String) (candidate : String) :
    (isTrusted? expected candidate).isSome := by
  rw [isTrusted?_eq_some]
  rfl

def isTrusted (expected : List String) (candidate : String) : Bool :=
  (isTrusted? expected candidate).get (isSome_isTrusted? expected candidate)

end CallGuard.Trust
