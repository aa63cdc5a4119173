import CallGuard.Proofs.Cache.Order

/-! # Caches and the list of last uses

The simplest bounded cache is a list with the least recently used entry in front: whatever is used
moves to the end, and what does not fit is dropped at the front. A cache with ticks gives the same
answers as that list, and has the same size, through any series of operations. -/

namespace CallGuard

variable {α : Type}

/-! ## The list of last uses -/

/-- A value that is kept under a key up to an instant. -/
structure Slot (α : Type) where
  key : String
  value : α
  expiresAt : Nat
deriving DecidableEq, Repr

/-- A cache that is its bounds and the list of its entries, the least recently used one first. -/
structure RecencyList (α : Type) where
  capacity : Nat
  ttl : Nat
  slots : List (Slot α)
deriving DecidableEq, Repr

namespace RecencyList

def new (capacity ttl : Nat) : RecencyList α := ⟨capacity, ttl, []⟩

def size (l : RecencyList α) : Nat :=
  l.slots.length

def invalidate (l : RecencyList α) (key : String) : RecencyList α :=
  { l with slots := l.slots.filter fun s => s.key ≠ key }

def clear (l : RecencyList α) : RecencyList α :=
  { l with slots := [] }

/-- A hit moves the entry to the end as it is; an entry that is out of date is removed. -/
def get (l : RecencyList α) (now : Nat) (key : String) : Option α × RecencyList α :=
  match l.slots.find? fun s => s.key = key with
  | none => (none, l)
  | some s =>
    if s.expiresAt ≤ now then (none, l.invalidate key)
    else (some s.value, { l with slots := (l.invalidate key).slots ++ [s] })

/-- Replaces the entry of the key. If the others leave no room, the first of them is dropped. -/
def set (l : RecencyList α) (now : Nat) (key : String) (value : α) : RecencyList α :=
  if l.capacity = 0 then l
  else
    let others := (l.invalidate key).slots
    let left := if others.length < l.capacity then others else others.tail
    { l with slots := left ++ [⟨key, value, now + l.ttl⟩] }

end RecencyList

/-! ## Operations -/

/-- What can be asked of a cache. Times need not be in order. -/
inductive CacheOperation (α : Type) where
  | get (now : Nat) (key : String)
  | set (now : Nat) (key : String) (value : α)
  | invalidate (key : String)
  | clear

/-- What an operation answers and leaves; nothing if it stores beyond the end of the clock. -/
def Cache.perform (c : Cache α) : CacheOperation α → Option (Option α × Cache α)
  | .get now key => some (c.get now key)
  | .set now key value => (c.set now key value).map fun d => (none, d)
  | .invalidate key => some (none, c.invalidate key)
  | .clear => some (none, c.clear)

def RecencyList.perform (l : RecencyList α) : CacheOperation α → Option α × RecencyList α
  | .get now key => l.get now key
  | .set now key value => (none, l.set now key value)
  | .invalidate key => (none, l.invalidate key)
  | .clear => (none, l.clear)

/-- The answer to each of some operations with the size after it, and the cache that they leave. -/
def Cache.run (c : Cache α) : List (CacheOperation α) → Option (List (Option α × Nat) × Cache α)
  | [] => some ([], c)
  | op :: rest => do
    let (answer, d) ← c.perform op
    let (answers, last) ← d.run rest
    return ((answer, d.size) :: answers, last)

/-- The answer to each of some operations with the size after it. -/
def RecencyList.answers (l : RecencyList α) : List (CacheOperation α) → List (Option α × Nat)
  | [] => []
  | op :: rest =>
    let (answer, m) := l.perform op
    (answer, m.size) :: m.answers rest

/-! ## One operation -/

def CacheState.Use.slot (u : CacheState.Use α) : Slot α :=
  ⟨u.1, u.2.value, u.2.expiresAt⟩

open CacheState (Use others roomy)

theorem RecencyList.invalidate_slots {l : RecencyList α} {uses : List (Use α)}
    (h : l.slots = uses.map Use.slot) (key : String) :
    (l.invalidate key).slots = (others key uses).map Use.slot := by
  rw [invalidate, h, List.filter_map]
  rfl

/-- The slot of a key is that of the entry which the state has for it. -/
theorem CacheState.Keeps.find?_slot {s : CacheState α} {uses : List (Use α)} (h : s.Keeps uses)
    (key : String) :
    ((uses.map Use.slot).find? fun t => t.key = key) =
      (s.kept? key).map fun e => Use.slot (key, e) := by
  have hfind : (uses.find? fun u => u.1 = key) = (s.kept? key).map fun e => (key, e) := by
    cases hk : s.kept? key with
    | none => simpa using h.kept?_eq_none_iff.mp hk
    | some e =>
        have hmem := h.kept?_eq_some_iff.mp hk
        have hsome : (uses.find? fun u => u.1 = key).isSome = true :=
          List.find?_isSome.mpr ⟨(key, e), hmem, by simp⟩
        obtain ⟨u, hu⟩ := Option.isSome_iff_exists.mp hsome
        have hkey : u.1 = key := by simpa using List.find?_some hu
        rw [hu, h.eq_of_key_eq (List.mem_of_find?_eq_some hu) hmem hkey]
        rfl
  have hslot : ((fun t : Slot α => decide (t.key = key)) ∘ Use.slot) =
      fun u : Use α => decide (u.1 = key) := rfl
  rw [List.find?_map, hslot, hfind, Option.map_map]
  rfl

/-- A cache and a list have the same bounds and the same entries in the same order. -/
structure Cache.Mirrors (c : Cache α) (l : RecencyList α) : Prop where
  capacity : c.capacity = l.capacity
  ttl : c.ttl = l.ttl
  fits : l.slots.length ≤ l.capacity
  slots : ∃ uses, c.state.Keeps uses ∧ l.slots = uses.map Use.slot

variable {c : Cache α} {l : RecencyList α}

theorem Cache.Mirrors.size_eq (h : c.Mirrors l) : c.size = l.size := by
  obtain ⟨uses, hkeeps, hslots⟩ := h.slots
  rw [Cache.size, RecencyList.size, hkeeps.length_eq, hslots, List.length_map]

theorem Cache.mirrors_of_new {capacity ttl : Nat} (h : Cache.new capacity ttl = .ok c) :
    c.Mirrors (.new capacity ttl) := by
  obtain rfl := Cache.eq_of_new h
  exact ⟨rfl, rfl, Nat.zero_le _, [], CacheState.keeps_empty, rfl⟩

theorem Cache.Mirrors.invalidate (h : c.Mirrors l) (key : String) :
    (c.invalidate key).Mirrors (l.invalidate key) := by
  obtain ⟨uses, hkeeps, hslots⟩ := h.slots
  refine ⟨h.capacity, h.ttl, (List.length_filter_le _ _).trans h.fits, others key uses,
    hkeeps.removeKey key, RecencyList.invalidate_slots hslots key⟩

theorem Cache.Mirrors.clear (h : c.Mirrors l) : c.clear.Mirrors l.clear :=
  ⟨h.capacity, h.ttl, Nat.zero_le _, [], CacheState.keeps_clear _, rfl⟩

/-- A list without capacity has no entries. -/
theorem Cache.Mirrors.slots_eq_nil (h : c.Mirrors l) (hzero : c.capacity = 0) : l.slots = [] := by
  have hfits := h.fits
  rw [← h.capacity, hzero] at hfits
  exact List.eq_nil_of_length_eq_zero (Nat.le_zero.mp hfits)

/-- Moving an entry to the end changes neither the number of entries nor anything in them. -/
theorem Cache.Mirrors.touch (h : c.Mirrors l) {key : String} {e : CacheEntry α}
    (he : c.state.kept? key = some e) :
    Mirrors { c with state := c.state.touch key e }
      { l with slots := (l.invalidate key).slots ++ [Use.slot (key, e)] } := by
  obtain ⟨uses, hkeeps, hslots⟩ := h.slots
  refine ⟨h.capacity, h.ttl, ?_, _, hkeeps.touch he, ?_⟩
  · have hmem : Use.slot (key, e) ∈ l.slots :=
      hslots ▸ List.mem_map_of_mem (hkeeps.kept?_eq_some_iff.mp he)
    have hshorter : (l.invalidate key).slots.length < l.slots.length :=
      List.length_filter_lt_length_iff_exists.mpr ⟨_, hmem, by simp [Use.slot]⟩
    rw [List.length_append, List.length_singleton]
    exact hshorter.trans_le h.fits
  · rw [RecencyList.invalidate_slots hslots, List.map_append]
    rfl

theorem Cache.Mirrors.get (h : c.Mirrors l) (now : Nat) (key : String) :
    (c.get now key).1 = (l.get now key).1 ∧ (c.get now key).2.Mirrors (l.get now key).2 := by
  obtain ⟨uses, hkeeps, hslots⟩ := h.slots
  have hfind := hkeeps.find?_slot key
  rw [← hslots] at hfind
  by_cases hzero : c.capacity = 0
  · rw [Cache.get_of_no_capacity hzero, RecencyList.get, h.slots_eq_nil hzero]
    exact ⟨rfl, h⟩
  · rw [RecencyList.get, hfind]
    cases hk : c.state.kept? key with
    | none =>
        rw [Cache.get_of_none hk]
        exact ⟨rfl, h⟩
    | some e =>
        by_cases hlate : e.expiresAt ≤ now
        · rw [Cache.get_of_expired hzero hk hlate]
          simp only [Option.map_some, Use.slot, if_pos hlate]
          exact ⟨trivial, h.invalidate key⟩
        · rw [Cache.get_of_hit hzero hk hlate]
          simp only [Option.map_some, Use.slot, if_neg hlate]
          exact ⟨trivial, h.touch hk⟩

theorem Cache.Mirrors.set (h : c.Mirrors l) {now : Nat} (hclock : now + c.ttl < clockEnd)
    (key : String) (value : α) :
    ∃ d, c.set now key value = some d ∧ d.Mirrors (l.set now key value) := by
  unfold Cache.set RecencyList.set
  rw [← h.capacity, ← h.ttl]
  split
  next => exact ⟨c, rfl, h⟩
  next hzero =>
    obtain ⟨uses, hkeeps, hslots⟩ := h.slots
    have hpos : 0 < c.capacity := Nat.pos_of_ne_zero hzero
    have hfits : (others key uses).length ≤ c.capacity := by
      calc (others key uses).length ≤ uses.length := List.length_filter_le _ _
        _ = l.slots.length := by rw [hslots, List.length_map]
        _ ≤ c.capacity := h.capacity ▸ h.fits
    have hroom := (hkeeps.removeKey key).makeRoom hpos hfits
    have hnew : ∀ u ∈ roomy c.capacity (others key uses), u.1 ≠ key := by
      intro u hu
      exact CacheState.ne_of_mem_others (CacheState.roomy_sublist.subset hu)
    have hslots' : (if (l.invalidate key).slots.length < c.capacity then (l.invalidate key).slots
        else (l.invalidate key).slots.tail) =
          (roomy c.capacity (others key uses)).map Use.slot := by
      rw [RecencyList.invalidate_slots hslots, roomy, List.length_map]
      split
      next => rfl
      next => rw [List.map_tail]
    rw [if_neg (Nat.not_le.mpr hclock)]
    refine ⟨_, rfl, rfl, rfl, ?_, _, hroom.add hnew value (now + c.ttl), ?_⟩
    · dsimp only
      rw [hslots', List.length_append, List.length_map, List.length_singleton]
      exact CacheState.length_roomy_lt hpos hfits
    · dsimp only
      rw [hslots', List.map_append]
      rfl

/-- An operation is answered alike by both, unless it stores beyond the end of the clock. -/
theorem Cache.Mirrors.perform (h : c.Mirrors l) {op : CacheOperation α}
    (hclock : ∀ now key value, op = .set now key value → now + c.ttl < clockEnd) :
    ∃ d, c.perform op = some ((l.perform op).1, d) ∧ d.Mirrors (l.perform op).2 := by
  cases op with
  | get now key =>
      obtain ⟨hanswer, hmirrors⟩ := h.get now key
      refine ⟨(c.get now key).2, ?_, hmirrors⟩
      rw [Cache.perform, RecencyList.perform, ← hanswer]
  | set now key value =>
      obtain ⟨d, hd, hmirrors⟩ := h.set (hclock now key value rfl) key value
      refine ⟨d, ?_, hmirrors⟩
      rw [Cache.perform, hd]
      rfl
  | invalidate key => exact ⟨_, rfl, h.invalidate key⟩
  | clear => exact ⟨_, rfl, h.clear⟩

/-! ## Ticks -/

theorem Cache.get_tick_le (c : Cache α) (now : Nat) (key : String) :
    (c.get now key).2.state.tick ≤ c.state.tick + 1 := by
  by_cases hzero : c.capacity = 0
  · rw [get_of_no_capacity hzero]
    exact Nat.le_succ _
  · cases hk : c.state.kept? key with
    | none =>
        rw [get_of_none hk]
        exact Nat.le_succ _
    | some e =>
        by_cases hlate : e.expiresAt ≤ now
        · rw [get_of_expired hzero hk hlate]
          exact (CacheState.removeKey_tick c.state key).le.trans (Nat.le_succ _)
        · rw [get_of_hit hzero hk hlate]
          exact Nat.le_refl _

theorem Cache.set_tick_le {c d : Cache α} {now : Nat} {key : String} {value : α}
    (h : c.set now key value = some d) : d.state.tick ≤ c.state.tick + 1 := by
  unfold set at h
  split at h
  next =>
    cases h
    exact Nat.le_succ _
  next =>
    split at h
    next => cases h
    next =>
      cases h
      dsimp only [CacheState.add]
      rw [CacheState.makeRoom_tick, CacheState.removeKey_tick]

/-- An operation keeps the time to live and takes one tick at most. -/
theorem Cache.perform_frame {c d : Cache α} {op : CacheOperation α} {answer : Option α}
    (h : c.perform op = some (answer, d)) :
    d.ttl = c.ttl ∧ d.state.tick ≤ c.state.tick + 1 := by
  cases op with
  | get now key =>
      obtain rfl : (c.get now key).2 = d := congrArg Prod.snd (Option.some.inj h)
      exact ⟨c.get_ttl now key, c.get_tick_le now key⟩
  | set now key value =>
      obtain ⟨e, he, hpair⟩ := Option.map_eq_some_iff.mp h
      obtain ⟨-, rfl⟩ := Prod.mk.inj hpair
      exact ⟨set_ttl he, set_tick_le he⟩
  | invalidate key =>
      obtain ⟨-, rfl⟩ := Prod.mk.inj (Option.some.inj h)
      exact ⟨rfl, (CacheState.removeKey_tick c.state key).le.trans (Nat.le_succ _)⟩
  | clear =>
      obtain ⟨-, rfl⟩ := Prod.mk.inj (Option.some.inj h)
      exact ⟨rfl, Nat.le_succ _⟩

/-! ## All operations -/

theorem Cache.Mirrors.run_eq (h : c.Mirrors l) {ops : List (CacheOperation α)}
    (hclock : ∀ now key value, .set now key value ∈ ops → now + c.ttl < clockEnd) :
    ∃ d, c.run ops = some (l.answers ops, d) ∧ d.state.tick ≤ c.state.tick + ops.length := by
  induction ops generalizing c l with
  | nil => exact ⟨c, rfl, Nat.le_refl _⟩
  | cons op rest ih =>
      have hfirst : ∀ now key value, op = .set now key value → now + c.ttl < clockEnd := by
        rintro now key value rfl
        exact hclock now key value List.mem_cons_self
      obtain ⟨d, hd, hmirrors⟩ := h.perform hfirst
      obtain ⟨httl, htick⟩ := perform_frame hd
      have hrest : ∀ now key value, .set now key value ∈ rest → now + d.ttl < clockEnd := by
        intro now key value hmem
        rw [httl]
        exact hclock now key value (List.mem_cons_of_mem op hmem)
      obtain ⟨last, hlast, hticks⟩ := ih hmirrors hrest
      refine ⟨last, ?_, ?_⟩
      · simp [Cache.run, hd, hlast, RecencyList.answers, hmirrors.size_eq]
      · rw [List.length_cons]
        omega

/-- A new cache answers every operation as the list of last uses does, and has the same size after
each, if nothing is stored beyond the end of the clock. It takes at most one tick for an operation,
so a counter of 64 bits is enough for fewer than `2 ^ 64` of them. -/
theorem Cache.run_new_eq_answers {capacity ttl : Nat} {c : Cache α}
    (hnew : Cache.new capacity ttl = .ok c) (ops : List (CacheOperation α))
    (hclock : ∀ now key value, .set now key value ∈ ops → now + ttl < clockEnd) :
    ∃ d, c.run ops = some ((RecencyList.new capacity ttl).answers ops, d) ∧
      d.state.tick ≤ ops.length := by
  have hmirrors := mirrors_of_new hnew
  obtain rfl := eq_of_new hnew
  obtain ⟨d, hrun, htick⟩ := hmirrors.run_eq hclock
  refine ⟨d, hrun, htick.trans ?_⟩
  exact (Nat.zero_add _).le

/-- Two keys fill the cache, a look-up saves the first from being dropped for a third, storing
again renews an entry, and in the end an entry is out of date. -/
def sampleOperations : List (CacheOperation Nat) :=
  [.set 0 "a" 1, .set 1 "b" 2, .get 2 "a", .set 3 "c" 3, .get 4 "b", .get 5 "a", .set 6 "c" 4,
    .get 11 "a", .invalidate "a", .get 12 "c", .clear, .get 13 "c"]

theorem Cache.run_new_eq_answers_sample :
    Cache.new 2 10 = .ok (⟨2, 10, .empty⟩ : Cache Nat) ∧
      (∀ now key value, .set now key value ∈ sampleOperations → now + 10 < clockEnd) ∧
      ∃ d, (⟨2, 10, .empty⟩ : Cache Nat).run sampleOperations =
        some ([(none, 1), (none, 2), (some 1, 2), (none, 2), (none, 2), (some 1, 2), (none, 2),
          (none, 1), (none, 1), (some 4, 1), (none, 0), (none, 0)], d) := by
  have hclock : ∀ now key value, .set now key value ∈ sampleOperations → now + 10 < clockEnd := by
    simp only [sampleOperations, List.mem_cons, List.not_mem_nil, reduceCtorEq, or_false, false_or,
      CacheOperation.set.injEq]
    rintro now key value (⟨rfl, -⟩ | ⟨rfl, -⟩ | ⟨rfl, -⟩ | ⟨rfl, -⟩) <;> decide
  obtain ⟨d, hd, -⟩ := run_new_eq_answers rfl sampleOperations hclock
  exact ⟨rfl, hclock, d, hd⟩

end CallGuard
