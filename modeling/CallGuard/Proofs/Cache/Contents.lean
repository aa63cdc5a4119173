import CallGuard.Cache

/-! # What a cache holds

The contents of a cache are told by the entry of each key. Forgetting and making room only lose
entries, a use changes the tick of one, and only storing brings a new value in. So a property that
ties every value to its key lasts as long as each stored value has it. -/

namespace CallGuard

variable {α : Type}

namespace CacheState

/-- The entry of a key. -/
def kept? (s : CacheState α) (key : String) : Option (CacheEntry α) :=
  Keyed.get? key s.entries

/-! ## Losing entries -/

/-- Every entry of the first state is one of the second. -/
def Within (s t : CacheState α) : Prop :=
  ∀ key e, s.kept? key = some e → t.kept? key = some e

theorem Within.refl (s : CacheState α) : s.Within s :=
  fun _ _ h => h

theorem Within.trans {s t u : CacheState α} (h₁ : s.Within t) (h₂ : t.Within u) : s.Within u :=
  fun key e h => h₂ key e (h₁ key e h)

/-- Erasing a key from the table of entries only loses entries. -/
theorem within_of_erase {s t : CacheState α} {key : String}
    (h : s.entries = Keyed.erase key t.entries) : s.Within t := by
  intro other e he
  rw [kept?, h] at he
  by_cases hk : other = key
  · rw [hk, Keyed.get?_erase_self] at he
    cases he
  · rwa [Keyed.get?_erase_of_ne hk] at he

theorem removeKey_within (s : CacheState α) (key : String) : (s.removeKey key).Within s := by
  unfold removeKey
  split
  next => exact Within.refl s
  next => exact within_of_erase rfl

theorem evict_within (s : CacheState α) : s.evict.Within s := by
  unfold evict
  split
  next => exact Within.refl s
  next => exact within_of_erase rfl

theorem makeRoom_within (capacity fuel : Nat) (s : CacheState α) :
    (makeRoom capacity fuel s).Within s := by
  induction fuel generalizing s with
  | zero => exact Within.refl s
  | succ fuel ih =>
      rw [makeRoom]
      split
      next => exact (ih s.evict).trans (evict_within s)
      next => exact Within.refl s

/-! ## Changing entries -/

theorem kept?_touch_self (s : CacheState α) (key : String) (e : CacheEntry α) :
    (s.touch key e).kept? key = some { e with used := s.tick + 1 } :=
  Keyed.get?_set_self key _ s.entries

theorem kept?_touch_of_ne (s : CacheState α) {key other : String} (e : CacheEntry α)
    (h : other ≠ key) : (s.touch key e).kept? other = s.kept? other :=
  Keyed.get?_set_of_ne h _ s.entries

theorem kept?_add_self (s : CacheState α) (key : String) (value : α) (expiresAt : Nat) :
    (s.add key value expiresAt).kept? key = some ⟨value, expiresAt, s.tick + 1⟩ :=
  Keyed.get?_set_self key _ s.entries

theorem kept?_add_of_ne (s : CacheState α) {key other : String} (value : α) (expiresAt : Nat)
    (h : other ≠ key) : (s.add key value expiresAt).kept? other = s.kept? other :=
  Keyed.get?_set_of_ne h _ s.entries

/-! ## Values tied to their keys -/

/-- Every value has a property together with its key and the instant at which it goes out of
date. -/
def HoldsUntil (P : String → α → Nat → Prop) (s : CacheState α) : Prop :=
  ∀ key e, s.kept? key = some e → P key e.value e.expiresAt

/-- Every value has a property together with its key. -/
def Holds (P : String → α → Prop) (s : CacheState α) : Prop :=
  ∀ key e, s.kept? key = some e → P key e.value

variable {P : String → α → Prop} {Q : String → α → Nat → Prop}

theorem holds_iff_holdsUntil {s : CacheState α} :
    s.Holds P ↔ s.HoldsUntil fun key value _ => P key value :=
  Iff.rfl

theorem holdsUntil_empty : (empty : CacheState α).HoldsUntil Q := by
  intro key e h
  cases h

theorem holds_empty : (empty : CacheState α).Holds P :=
  holds_iff_holdsUntil.mpr holdsUntil_empty

theorem HoldsUntil.within {s t : CacheState α} (ht : t.HoldsUntil Q) (h : s.Within t) :
    s.HoldsUntil Q :=
  fun key e he => ht key e (h key e he)

theorem HoldsUntil.touch {s : CacheState α} (hs : s.HoldsUntil Q) {key : String}
    {e : CacheEntry α} (he : s.kept? key = some e) : (s.touch key e).HoldsUntil Q := by
  intro other e' he'
  by_cases hk : other = key
  · subst hk
    rw [kept?_touch_self] at he'
    cases he'
    exact hs other e he
  · rw [kept?_touch_of_ne s e hk] at he'
    exact hs other e' he'

theorem HoldsUntil.add {s : CacheState α} (hs : s.HoldsUntil Q) {key : String} {value : α}
    {expiresAt : Nat} (hvalue : Q key value expiresAt) :
    (s.add key value expiresAt).HoldsUntil Q := by
  intro other e he
  by_cases hk : other = key
  · subst hk
    rw [kept?_add_self] at he
    cases he
    exact hvalue
  · rw [kept?_add_of_ne s value expiresAt hk] at he
    exact hs other e he

end CacheState

/-! ## Operations -/

namespace Cache

variable {P : String → α → Prop} {Q : String → α → Nat → Prop}

theorem eq_of_new {capacity ttl : Nat} {c : Cache α} (h : new capacity ttl = .ok c) :
    c = ⟨capacity, ttl, .empty⟩ := by
  unfold new at h
  split at h
  next => cases h
  next =>
    cases h
    rfl

theorem get_of_no_capacity {c : Cache α} (h : c.capacity = 0) (now : Nat) (key : String) :
    c.get now key = (none, c) :=
  if_pos h

theorem get_of_none {c : Cache α} {key : String} (h : c.state.kept? key = none) (now : Nat) :
    c.get now key = (none, c) := by
  unfold CacheState.kept? at h
  rw [get, h]
  split <;> rfl

/-- An entry that is out of date is dropped as if it were invalidated. -/
theorem get_of_expired {c : Cache α} {now : Nat} {key : String} {e : CacheEntry α}
    (hcapacity : c.capacity ≠ 0) (h : c.state.kept? key = some e) (hlate : e.expiresAt ≤ now) :
    c.get now key = (none, c.invalidate key) := by
  unfold CacheState.kept? at h
  rw [get, if_neg hcapacity, h]
  exact if_pos hlate

theorem get_of_hit {c : Cache α} {now : Nat} {key : String} {e : CacheEntry α}
    (hcapacity : c.capacity ≠ 0) (h : c.state.kept? key = some e) (hlive : ¬ e.expiresAt ≤ now) :
    c.get now key = (some e.value, { c with state := c.state.touch key e }) := by
  unfold CacheState.kept? at h
  rw [get, if_neg hcapacity, h]
  exact if_neg hlive

/-- Looking a key up answers with a value tied to it that is not out of date, and loses no tie. -/
theorem holdsUntil_get {c : Cache α} (hc : c.state.HoldsUntil Q) (now : Nat) (key : String) :
    (c.get now key).2.state.HoldsUntil Q ∧
      ∀ v, (c.get now key).1 = some v → ∃ expiresAt, Q key v expiresAt ∧ now < expiresAt := by
  unfold get
  split
  next => exact ⟨hc, by simp⟩
  next =>
    split
    next => exact ⟨hc, by simp⟩
    next e he =>
      split
      next => exact ⟨hc.within (CacheState.removeKey_within c.state key), by simp⟩
      next hlive =>
        refine ⟨hc.touch he, ?_⟩
        intro v hv
        cases hv
        exact ⟨e.expiresAt, hc key e he, Nat.lt_of_not_le hlive⟩

theorem holds_get {c : Cache α} (hc : c.state.Holds P) (now : Nat) (key : String) :
    (c.get now key).2.state.Holds P ∧ ∀ v, (c.get now key).1 = some v → P key v := by
  obtain ⟨hkept, hfound⟩ := holdsUntil_get (CacheState.holds_iff_holdsUntil.mp hc) now key
  refine ⟨hkept, ?_⟩
  intro v hv
  obtain ⟨-, hvalue, -⟩ := hfound v hv
  exact hvalue

theorem holdsUntil_set {c d : Cache α} (hc : c.state.HoldsUntil Q) {now : Nat} {key : String}
    {value : α} (hvalue : Q key value (now + c.ttl)) (h : c.set now key value = some d) :
    d.state.HoldsUntil Q := by
  unfold set at h
  split at h
  next =>
    cases h
    exact hc
  next =>
    split at h
    next => cases h
    next =>
      cases h
      refine CacheState.HoldsUntil.add ?_ hvalue
      exact (hc.within (CacheState.removeKey_within c.state key)).within
        (CacheState.makeRoom_within _ _ _)

theorem holds_set {c d : Cache α} (hc : c.state.Holds P) {now : Nat} {key : String} {value : α}
    (hvalue : P key value) (h : c.set now key value = some d) : d.state.Holds P :=
  holdsUntil_set (CacheState.holds_iff_holdsUntil.mp hc) hvalue h

theorem holdsUntil_invalidate {c : Cache α} (hc : c.state.HoldsUntil Q) (key : String) :
    (c.invalidate key).state.HoldsUntil Q :=
  hc.within (CacheState.removeKey_within c.state key)

theorem holds_invalidate {c : Cache α} (hc : c.state.Holds P) (key : String) :
    (c.invalidate key).state.Holds P :=
  holdsUntil_invalidate (CacheState.holds_iff_holdsUntil.mp hc) key

theorem holdsUntil_clear (c : Cache α) : c.clear.state.HoldsUntil Q := by
  intro key e h
  cases h

theorem holds_clear (c : Cache α) : c.clear.state.Holds P :=
  CacheState.holds_iff_holdsUntil.mpr c.holdsUntil_clear

/-! ## Bounds -/

/-- No operation changes the bounds of a cache. -/
@[simp] theorem get_ttl (c : Cache α) (now : Nat) (key : String) :
    (c.get now key).2.ttl = c.ttl := by
  unfold get
  split
  next => rfl
  next =>
    split
    next => rfl
    next => split <;> rfl

theorem set_ttl {c d : Cache α} {now : Nat} {key : String} {value : α}
    (h : c.set now key value = some d) : d.ttl = c.ttl := by
  unfold set at h
  split at h
  next => cases h; rfl
  next =>
    split at h
    next => cases h
    next => cases h; rfl

/-- Storing works as long as the clock holds the instant at which the value goes out of date. -/
theorem exists_set_eq_some (c : Cache α) {now : Nat} (key : String) (value : α)
    (h : now + c.ttl < clockEnd) : ∃ d, c.set now key value = some d := by
  unfold set
  split
  next => exact ⟨_, rfl⟩
  next =>
    rw [if_neg (Nat.not_le.mpr h)]
    exact ⟨_, rfl⟩

end Cache

end CallGuard
