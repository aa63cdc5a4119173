import CallGuard.Error
import CallGuard.Keyed

/-! # Credential caches

A cache holds a bounded number of entries for a fixed time and makes room by dropping the entry
that was not used for the longest. Every use gives an entry a fresh tick, and a second table from
ticks to keys, in increasing order, has the least recently used key in front.

Times are whole milliseconds on a clock that never goes back, and so is the time to live: a clock
with finer units is read as it stood at the last whole one, and a time to live with a fraction is
not spoken of. Ticks are natural numbers. A counter of 64 bits counts the same for as long as it
does not come to its end, and no operation takes more than one tick. -/

namespace CallGuard

/-- A kept value, when it goes out of date, and the tick of its last use. -/
structure CacheEntry (α : Type) where
  value : α
  expiresAt : Nat
  used : Nat

structure CacheState (α : Type) where
  entries : List (String × CacheEntry α)
  /-- The key of each tick, in increasing order of ticks. -/
  order : List (Nat × String)
  tick : Nat

/-- A cache with its bounds. Without capacity it keeps nothing. -/
structure Cache (α : Type) where
  capacity : Nat
  ttl : Nat
  state : CacheState α

/-- The clock ends where the number of whole seconds leaves 63 bits. -/
def clockEnd : Nat := 1000 <<< 63

/-! ## State -/

namespace CacheState

variable {α : Type}

def empty : CacheState α := ⟨[], [], 0⟩

def removeKey (s : CacheState α) (key : String) : CacheState α :=
  match Keyed.get? key s.entries with
  | none => s
  | some e => { s with entries := Keyed.erase key s.entries, order := Keyed.erase e.used s.order }

def evict (s : CacheState α) : CacheState α :=
  match s.order with
  | [] => s
  | (_, key) :: rest => { s with entries := Keyed.erase key s.entries, order := rest }

/-- Forgets keys until fewer than `capacity` entries are left, at most one for each tick. -/
def makeRoom (capacity : Nat) : Nat → CacheState α → CacheState α
  | 0, s => s
  | fuel + 1, s =>
    if capacity ≤ s.entries.length ∧ s.order ≠ [] then makeRoom capacity fuel s.evict else s

/-- Gives the entry of a key the next tick. -/
def touch (s : CacheState α) (key : String) (e : CacheEntry α) : CacheState α where
  entries := Keyed.set key { e with used := s.tick + 1 } s.entries
  order := Keyed.erase e.used s.order ++ [(s.tick + 1, key)]
  tick := s.tick + 1

/-- Adds an entry for a key that has none. -/
def add (s : CacheState α) (key : String) (value : α) (expiresAt : Nat) : CacheState α where
  entries := Keyed.set key ⟨value, expiresAt, s.tick + 1⟩ s.entries
  order := s.order ++ [(s.tick + 1, key)]
  tick := s.tick + 1

/-- Forgets everything but the tick. -/
def clear (s : CacheState α) : CacheState α :=
  { s with entries := [], order := [] }

end CacheState

/-! ## Operations -/

namespace Cache

variable {α : Type}

/-- An empty cache; a time to live of zero is refused. -/
def new (capacity ttl : Nat) : Except Error (Cache α) :=
  if ttl = 0 then .error (.configuration "cache ttl must be greater than zero")
  else .ok ⟨capacity, ttl, .empty⟩

/-- The number of entries, those included that are out of date. -/
def size (c : Cache α) : Nat :=
  c.state.entries.length

/-- The value of a key. An entry that is out of date is dropped, and a hit counts as use. -/
def get (c : Cache α) (now : Nat) (key : String) : Option α × Cache α :=
  if c.capacity = 0 then (none, c)
  else match Keyed.get? key c.state.entries with
    | none => (none, c)
    | some e =>
      if e.expiresAt ≤ now then (none, { c with state := c.state.removeKey key })
      else (some e.value, { c with state := c.state.touch key e })

/-- Stores a value under a key; none if it would go out of date after the end of the clock. -/
def set (c : Cache α) (now : Nat) (key : String) (value : α) : Option (Cache α) :=
  if c.capacity = 0 then some c
  else if clockEnd ≤ now + c.ttl then none
  else
    let s := c.state.removeKey key
    let s := CacheState.makeRoom c.capacity s.order.length s
    some { c with state := s.add key value (now + c.ttl) }

def invalidate (c : Cache α) (key : String) : Cache α :=
  { c with state := c.state.removeKey key }

def clear (c : Cache α) : Cache α :=
  { c with state := c.state.clear }

end Cache

/-! ## Optional caches -/

/-- A cache that a check of credentials may do without. -/
inductive CredentialCache (α : Type) where
  | off
  | on (cache : Cache α)

namespace CredentialCache

variable {α : Type}

def get (c : CredentialCache α) (now : Nat) (key : String) : Option α × CredentialCache α :=
  match c with
  | off => (none, off)
  | on cache => ((cache.get now key).1, on (cache.get now key).2)

def set (c : CredentialCache α) (now : Nat) (key : String) (value : α) :
    Option (CredentialCache α) :=
  match c with
  | off => some off
  | on cache => (cache.set now key value).map on

def invalidate (c : CredentialCache α) (key : String) : CredentialCache α :=
  match c with
  | off => off
  | on cache => on (cache.invalidate key)

def clear : CredentialCache α → CredentialCache α
  | off => off
  | on cache => on cache.clear

end CredentialCache

end CallGuard
