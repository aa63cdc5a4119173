import CallGuard.Proofs.Cache.Reachable

/-! # The two tables of a cache

The table of entries and the table of ticks say the same, whatever was done to the cache: no tick
is left over, no entry is without its tick, and there are no more entries than the capacity. So
storing has to drop one entry at most, and a look-up still has what it found. -/

namespace CallGuard

variable {α : Type}

/-- What the tables of a cache have in common. Keys and ticks are given once, the ticks in
increasing order, and a tick is that of a key exactly when the entry of the key was last used at
it. -/
structure Cache.Consistent (c : Cache α) : Prop where
  keys_nodup : (Keyed.keys c.state.entries).Nodup
  ticks_rising : (Keyed.keys c.state.order).Pairwise (· < ·)
  get?_order_iff : ∀ tick key, Keyed.get? tick c.state.order = some key ↔
    ∃ e, c.state.kept? key = some e ∧ e.used = tick
  le_tick : ∀ tick ∈ Keyed.keys c.state.order, tick ≤ c.state.tick
  length_order : c.state.order.length = c.size
  size_le : c.size ≤ c.capacity

/-! ## Making room -/

namespace CacheState

/-- The rounds in which entries are dropped: as long as there are too many entries and a tick to
go by, the least recently used one goes. -/
inductive Evicts (capacity : Nat) : Nat → CacheState α → CacheState α → Prop where
  | done {s : CacheState α} (h : ¬ (capacity ≤ s.entries.length ∧ s.order ≠ [])) :
      Evicts capacity 0 s s
  | round {n : Nat} {s t : CacheState α} (h : capacity ≤ s.entries.length ∧ s.order ≠ []) :
      Evicts capacity n s.evict t → Evicts capacity (n + 1) s t

theorem order_evict (s : CacheState α) : s.evict.order = s.order.tail := by
  unfold evict
  cases h : s.order with
  | nil => exact h
  | cons p rest => rfl

/-- Each round takes a tick, so with as many rounds as ticks the rounds come to their end. -/
theorem exists_evicts {capacity fuel : Nat} {s : CacheState α} (hfuel : s.order.length ≤ fuel) :
    ∃ n, Evicts capacity n s (makeRoom capacity fuel s) := by
  induction fuel generalizing s with
  | zero =>
      have hnil : s.order = [] := List.eq_nil_of_length_eq_zero (Nat.le_zero.mp hfuel)
      exact ⟨0, .done fun h => h.2 hnil⟩
  | succ fuel ih =>
      rw [makeRoom]
      split
      next hfull =>
        have hfewer : s.evict.order.length ≤ fuel := by
          rw [order_evict, List.length_tail]
          omega
        obtain ⟨n, hrounds⟩ := ih hfewer
        exact ⟨n + 1, .round hfull hrounds⟩
      next hroom => exact ⟨0, .done hroom⟩

/-- Of entries that fit there is one too many at most. -/
theorem Keeps.evicts_le_one {s t : CacheState α} {uses : List (Use α)} (h : s.Keeps uses)
    {capacity n : Nat} (hfits : uses.length ≤ capacity) (hrounds : Evicts capacity n s t) :
    n ≤ 1 := by
  cases hrounds with
  | done => exact Nat.zero_le 1
  | round hfull hrest =>
      cases hrest with
      | done => exact Nat.le_refl 1
      | round hstill =>
          -- a first round is only for a list that is not empty, and leaves room
          have hpos : 0 < uses.length := by
            apply List.length_pos_iff.mpr
            rintro rfl
            exact hfull.2 h.order
          have hleft := hstill.1
          rw [h.evict.length_eq, List.length_tail] at hleft
          omega

end CacheState

/-! ## Caches that mirror a list -/

namespace Cache

variable {c d : Cache α} {l : RecencyList α}

theorem Mirrors.consistent (h : c.Mirrors l) : c.Consistent := by
  obtain ⟨uses, hkeeps, hslots⟩ := h.slots
  have hticks : Keyed.keys c.state.order = uses.map fun u => u.2.used := by
    rw [Keyed.keys, hkeeps.order, List.map_map]
    rfl
  have hrising : (Keyed.keys c.state.order).Pairwise (· < ·) := by
    rw [hticks, List.pairwise_map]
    exact hkeeps.rising
  refine ⟨(hkeeps.entries.map Prod.fst).nodup_iff.mpr hkeeps.keys, hrising, ?_, ?_, ?_, ?_⟩
  · intro tick key
    rw [Keyed.get?_eq_some_iff (hrising.imp Nat.ne_of_lt), hkeeps.order, List.mem_map]
    simp only [hkeeps.kept?_eq_some_iff]
    constructor
    · rintro ⟨⟨k, e⟩, hmem, hpair⟩
      obtain ⟨rfl, rfl⟩ := Prod.mk.inj hpair
      exact ⟨e, hmem, rfl⟩
    · rintro ⟨e, hmem, rfl⟩
      exact ⟨(key, e), hmem, rfl⟩
  · intro tick htick
    rw [hticks] at htick
    obtain ⟨u, hu, rfl⟩ := List.mem_map.mp htick
    exact hkeeps.bounded u hu
  · rw [size, hkeeps.length_eq, hkeeps.order, List.length_map]
  · rw [h.size_eq, h.capacity]
    exact h.fits

/-- When a key makes way for a new entry of its own, one more entry is dropped at most. -/
theorem Mirrors.evicts (h : c.Mirrors l) (key : String) :
    ∃ n ≤ 1, CacheState.Evicts c.capacity n (c.state.removeKey key)
      (CacheState.makeRoom c.capacity (c.state.removeKey key).order.length
        (c.state.removeKey key)) := by
  obtain ⟨uses, hkeeps, hslots⟩ := (h.invalidate key).slots
  have hfits : uses.length ≤ c.capacity := by
    calc uses.length = (l.invalidate key).slots.length := by rw [hslots, List.length_map]
      _ ≤ c.capacity := h.capacity ▸ (h.invalidate key).fits
  obtain ⟨n, hrounds⟩ : ∃ n, CacheState.Evicts c.capacity n (c.state.removeKey key)
      (CacheState.makeRoom c.capacity (c.state.removeKey key).order.length
        (c.state.removeKey key)) := CacheState.exists_evicts (Nat.le_refl _)
  exact ⟨n, hkeeps.evicts_le_one hfits hrounds, hrounds⟩

/-- A look-up that finds an entry answers with it and leaves it there, with a new tick, as it
leaves all others. -/
theorem Mirrors.get_found (h : c.Mirrors l) {now : Nat} {key : String} {e : CacheEntry α}
    (he : c.state.kept? key = some e) (hlive : now < e.expiresAt) :
    (c.get now key).1 = some e.value ∧
      (c.get now key).2.state.kept? key = some { e with used := c.state.tick + 1 } ∧
      ∀ other, other ≠ key → (c.get now key).2.state.kept? other = c.state.kept? other := by
  rw [get_of_hit (h.capacity_ne_zero he) he (Nat.not_le.mpr hlive)]
  exact ⟨rfl, c.state.kept?_touch_self key e, fun _ hother => c.state.kept?_touch_of_ne e hother⟩

/-! ## All operations -/

/-- Whatever is done to a new cache, at whatever times, its tables stay consistent unless something
is stored beyond the end of the clock. The counter of ticks, which bounds them all, has advanced by
one at most for each operation. In every cache that comes about this way, storing drops at most one
entry to make room, and a look-up does not lose the entry that it finds. -/
theorem run_new_consistent {capacity ttl : Nat} (hnew : Cache.new capacity ttl = .ok c)
    (ops : List (CacheOperation α))
    (hclock : ∀ now key value, .set now key value ∈ ops → now + ttl < clockEnd) :
    ∃ answers d, c.run ops = some (answers, d) ∧ d.capacity = capacity ∧ d.Consistent ∧
      d.state.tick ≤ ops.length ∧
      (∀ key, ∃ n ≤ 1, CacheState.Evicts capacity n (d.state.removeKey key)
        (CacheState.makeRoom capacity (d.state.removeKey key).order.length
          (d.state.removeKey key))) ∧
      ∀ now key e, d.state.kept? key = some e → now < e.expiresAt →
        (d.get now key).1 = some e.value ∧
          (d.get now key).2.state.kept? key = some { e with used := d.state.tick + 1 } ∧
          ∀ other, other ≠ key → (d.get now key).2.state.kept? other = d.state.kept? other := by
  have hmirrors := mirrors_of_new hnew
  obtain rfl := eq_of_new hnew
  obtain ⟨d, hrun, htick⟩ := hmirrors.run_eq hclock
  obtain ⟨m, hm, hbound⟩ := hmirrors.of_run hrun
  obtain rfl : d.capacity = capacity := hm.capacity.trans hbound
  refine ⟨_, d, hrun, rfl, hm.consistent, htick.trans (Nat.zero_add _).le, hm.evicts, ?_⟩
  intro now key e he hlive
  exact hm.get_found he hlive

/-- Three keys for two places: the second was not used again and is dropped for the third. -/
def crowdedSample : List (CacheOperation Nat) :=
  [.set 5 "a" 1, .set 1 "b" 2, .get 2 "a", .set 3 "c" 3]

theorem run_new_consistent_sample :
    Cache.new 2 10 = .ok (⟨2, 10, .empty⟩ : Cache Nat) ∧
      (∀ now key value, .set now key value ∈ crowdedSample → now + 10 < clockEnd) ∧
      ∃ answers d, (⟨2, 10, .empty⟩ : Cache Nat).run crowdedSample = some (answers, d) ∧
        d.Consistent ∧ d.state.order = [(3, "a"), (4, "c")] ∧ d.state.tick ≤ 4 ∧
        (d.get 14 "a").2.state.kept? "a" = some ⟨1, 15, 5⟩ := by
  have hclock : ∀ now key value, .set now key value ∈ crowdedSample → now + 10 < clockEnd := by
    simp only [crowdedSample, List.mem_cons, List.not_mem_nil, reduceCtorEq, or_false, false_or,
      CacheOperation.set.injEq]
    rintro now key value (⟨rfl, -⟩ | ⟨rfl, -⟩ | ⟨rfl, -⟩) <;> decide
  have hnew : Cache.new 2 10 = .ok (⟨2, 10, .empty⟩ : Cache Nat) := rfl
  obtain ⟨answers, d, hrun, -, hconsistent, htick, -, hfound⟩ :=
    run_new_consistent hnew crowdedSample hclock
  obtain ⟨e, he⟩ : ∃ e, (⟨2, 10, .empty⟩ : Cache Nat).run crowdedSample =
      some ([(none, 1), (none, 2), (some 1, 2), (none, 2)], e) ∧
        e.state.order = [(3, "a"), (4, "c")] ∧ e.state.tick = 4 ∧
        e.state.kept? "a" = some ⟨1, 15, 3⟩ := ⟨_, rfl, rfl, rfl, rfl⟩
  obtain ⟨hrun', horder, hlast, ha⟩ := he
  obtain ⟨-, rfl⟩ := Prod.mk.inj (Option.some.inj (hrun.symm.trans hrun'))
  obtain ⟨-, hkept, -⟩ := hfound 14 "a" _ ha (by decide)
  rw [hlast] at hkept
  exact ⟨hnew, hclock, answers, d, hrun, hconsistent, horder, htick, hkept⟩

end Cache

end CallGuard
