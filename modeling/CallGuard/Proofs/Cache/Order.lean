import Mathlib
import CallGuard.Proofs.Cache.Contents

/-! # The order of last use

A cache writes down its contents twice: a table of entries, and a table from ticks to keys. Both
are views of one list, the entries with their keys in the order of their last use. Every operation
is told by what it does to that list, and the ticks are fresh and rising through all of them. -/

namespace CallGuard

variable {α : Type}

namespace CacheState

/-- A key with its entry. -/
abbrev Use (α : Type) := String × CacheEntry α

/-- A state holds some entries, the least recently used one first. -/
structure Keeps (s : CacheState α) (uses : List (Use α)) : Prop where
  entries : s.entries.Perm uses
  order : s.order = uses.map fun u => (u.2.used, u.1)
  keys : (Keyed.keys uses).Nodup
  rising : uses.Pairwise fun u w => u.2.used < w.2.used
  bounded : ∀ u ∈ uses, u.2.used ≤ s.tick

theorem keeps_empty : (empty : CacheState α).Keeps [] where
  entries := .refl _
  order := rfl
  keys := List.nodup_nil
  rising := .nil
  bounded := by simp

theorem keeps_clear (s : CacheState α) : s.clear.Keeps [] where
  entries := .refl _
  order := rfl
  keys := List.nodup_nil
  rising := .nil
  bounded := by simp

variable {s : CacheState α} {uses : List (Use α)} {key : String} {e : CacheEntry α}

/-! ## Looking up -/

theorem Keeps.length_eq (h : s.Keeps uses) : s.entries.length = uses.length :=
  h.entries.length_eq

theorem Keeps.kept?_eq_some_iff (h : s.Keeps uses) : s.kept? key = some e ↔ (key, e) ∈ uses := by
  have hkeys : (Keyed.keys s.entries).Nodup := (h.entries.map Prod.fst).nodup_iff.mpr h.keys
  rw [kept?, Keyed.get?_eq_some_iff hkeys, h.entries.mem_iff]

theorem Keeps.kept?_eq_none_iff (h : s.Keeps uses) : s.kept? key = none ↔ ∀ u ∈ uses, u.1 ≠ key := by
  have hmem : key ∈ Keyed.keys s.entries ↔ key ∈ Keyed.keys uses :=
    (h.entries.map Prod.fst).mem_iff
  rw [kept?, Keyed.get?_eq_none_iff, hmem]
  constructor
  · intro hnot u hu hkey
    exact hnot (hkey ▸ List.mem_map_of_mem hu)
  · intro hne hkey
    obtain ⟨u, hu, rfl⟩ := List.mem_map.mp hkey
    exact hne u hu rfl

/-- No two entries have the same key. -/
theorem Keeps.eq_of_key_eq (h : s.Keeps uses) {u w : Use α} (hu : u ∈ uses) (hw : w ∈ uses)
    (hkey : u.1 = w.1) : u = w :=
  List.inj_on_of_nodup_map h.keys hu hw hkey

/-- No two entries have the same tick. -/
theorem Keeps.eq_of_used_eq (h : s.Keeps uses) {u w : Use α} (hu : u ∈ uses) (hw : w ∈ uses)
    (hused : u.2.used = w.2.used) : u = w := by
  have hdistinct : (uses.map fun u => u.2.used).Nodup := by
    rw [List.nodup_iff_pairwise_ne, List.pairwise_map]
    exact h.rising.imp Nat.ne_of_lt
  exact List.inj_on_of_nodup_map hdistinct hu hw hused

/-! ## Forgetting -/

/-- The entries of all keys but one. -/
def others (key : String) (uses : List (Use α)) : List (Use α) :=
  Keyed.erase key uses

theorem others_eq_self (h : ∀ u ∈ uses, u.1 ≠ key) : others key uses = uses :=
  List.filter_eq_self.mpr fun u hu => decide_eq_true (h u hu)

theorem ne_of_mem_others {u : Use α} (h : u ∈ others key uses) : u.1 ≠ key :=
  of_decide_eq_true (List.mem_filter.mp h).2

/-- A part of the entries is kept by a state with the tables for it. -/
theorem Keeps.sublist (h : s.Keeps uses) {t : CacheState α} {rest : List (Use α)}
    (hrest : rest.Sublist uses) (hentries : t.entries.Perm rest)
    (horder : t.order = rest.map fun u => (u.2.used, u.1)) (htick : t.tick = s.tick) :
    t.Keeps rest where
  entries := hentries
  order := horder
  keys := h.keys.sublist (hrest.map Prod.fst)
  rising := h.rising.sublist hrest
  bounded u hu := htick ▸ h.bounded u (hrest.subset hu)

/-- Erasing the tick of an entry drops the key of that entry, and no other. -/
theorem Keeps.erase_order (h : s.Keeps uses) (he : (key, e) ∈ uses) :
    Keyed.erase e.used s.order = (others key uses).map fun u => (u.2.used, u.1) := by
  rw [h.order, Keyed.erase, others, Keyed.erase, List.filter_map]
  congr 1
  apply List.filter_congr
  intro u hu
  -- among the entries kept, the tick and the key determine each other
  have hiff : u.2.used = e.used ↔ u.1 = key := by
    constructor
    · intro hused
      rw [h.eq_of_used_eq hu he hused]
    · intro hkey
      rw [h.eq_of_key_eq hu he hkey]
  simp [hiff]

theorem Keeps.removeKey (h : s.Keeps uses) (key : String) :
    (s.removeKey key).Keeps (others key uses) := by
  unfold CacheState.removeKey
  split
  next hnone =>
    rw [others_eq_self (h.kept?_eq_none_iff.mp hnone)]
    exact h
  next e he =>
    have hmem : (key, e) ∈ uses := h.kept?_eq_some_iff.mp he
    exact h.sublist List.filter_sublist (h.entries.filter _) (h.erase_order hmem) rfl

theorem Keeps.evict (h : s.Keeps uses) : s.evict.Keeps uses.tail := by
  unfold CacheState.evict
  have horder := h.order
  cases uses with
  | nil =>
      rw [horder]
      exact h
  | cons u rest =>
      rw [horder]
      have hlater : ∀ w ∈ rest, w.1 ≠ u.1 := by
        intro w hw hkey
        exact (List.nodup_cons.mp h.keys).1 (hkey ▸ List.mem_map_of_mem hw)
      have hfirst : Keyed.erase u.1 (u :: rest) = rest := by
        rw [Keyed.erase, List.filter_cons_of_neg (by simp)]
        exact others_eq_self hlater
      have hentries : (Keyed.erase u.1 s.entries).Perm rest := hfirst ▸ h.entries.filter _
      exact h.sublist (List.sublist_cons_self u rest) hentries rfl rfl

theorem makeRoom_eq_self {capacity : Nat} (fuel : Nat) (h : s.entries.length < capacity) :
    makeRoom capacity fuel s = s := by
  cases fuel with
  | zero => rfl
  | succ fuel => rw [makeRoom, if_neg (fun hfull => absurd hfull.1 (Nat.not_le.mpr h))]

/-- What is left of some entries when a capacity must have room for one more. -/
def roomy (capacity : Nat) (uses : List (Use α)) : List (Use α) :=
  if uses.length < capacity then uses else uses.tail

theorem roomy_sublist {capacity : Nat} : (roomy capacity uses).Sublist uses := by
  unfold roomy
  split
  next => exact .refl _
  next => exact List.tail_sublist uses

theorem length_roomy_lt {capacity : Nat} (hpos : 0 < capacity) (hfits : uses.length ≤ capacity) :
    (roomy capacity uses).length < capacity := by
  unfold roomy
  split
  next hroom => exact hroom
  next =>
    rw [List.length_tail]
    omega

/-- Of a list that fits, making room drops the first entry if the list is full, and no entry if it
is not. -/
theorem Keeps.makeRoom (h : s.Keeps uses) {capacity : Nat} (hpos : 0 < capacity)
    (hfits : uses.length ≤ capacity) :
    (makeRoom capacity s.order.length s).Keeps (roomy capacity uses) := by
  have hlength : s.order.length = uses.length := by rw [h.order, List.length_map]
  unfold roomy
  split
  next hroom =>
    rw [makeRoom_eq_self _ (h.length_eq ▸ hroom)]
    exact h
  next hfull =>
    obtain ⟨n, hn⟩ : ∃ n, uses.length = n + 1 := ⟨uses.length - 1, by omega⟩
    have hnonempty : s.order ≠ [] := by
      intro hnil
      rw [hnil, List.length_nil] at hlength
      omega
    have hevict := h.evict
    have hshort : s.evict.entries.length < capacity := by
      rw [hevict.length_eq, List.length_tail]
      omega
    rw [hlength, hn, CacheState.makeRoom,
      if_pos ⟨h.length_eq ▸ Nat.le_of_not_lt hfull, hnonempty⟩, makeRoom_eq_self n hshort]
    exact hevict

/-! ## Adding -/

theorem Keeps.add (h : s.Keeps uses) (hnew : ∀ u ∈ uses, u.1 ≠ key) (value : α)
    (expiresAt : Nat) :
    (s.add key value expiresAt).Keeps (uses ++ [(key, ⟨value, expiresAt, s.tick + 1⟩)]) where
  entries := by
    have herase : Keyed.erase key s.entries = s.entries := by
      apply others_eq_self
      intro u hu
      exact hnew u (h.entries.mem_iff.mp hu)
    rw [CacheState.add, Keyed.set, herase]
    exact (h.entries.cons _).trans (List.perm_append_singleton _ _).symm
  order := by simp [CacheState.add, h.order]
  keys := by
    rw [Keyed.keys, List.map_append, List.nodup_append]
    refine ⟨h.keys, by simp, ?_⟩
    intro k hk l hl
    obtain ⟨u, hu, rfl⟩ := List.mem_map.mp hk
    obtain rfl : l = key := by simpa using hl
    exact hnew u hu
  rising := by
    rw [List.pairwise_append]
    refine ⟨h.rising, by simp, ?_⟩
    intro u hu w hw
    obtain rfl := List.mem_singleton.mp hw
    exact Nat.lt_succ_of_le (h.bounded u hu)
  bounded := by
    intro u hu
    rcases List.mem_append.mp hu with hu | hu
    · exact Nat.le_succ_of_le (h.bounded u hu)
    · obtain rfl := List.mem_singleton.mp hu
      exact Nat.le_refl _

/-- A use forgets the entry and adds it again. -/
theorem touch_eq_add (he : s.kept? key = some e) :
    s.touch key e = (s.removeKey key).add key e.value e.expiresAt := by
  have hremove : s.removeKey key =
      { s with entries := Keyed.erase key s.entries, order := Keyed.erase e.used s.order } := by
    unfold CacheState.removeKey
    unfold kept? at he
    rw [he]
  have htwice : Keyed.erase key (Keyed.erase key s.entries) = Keyed.erase key s.entries := by
    rw [Keyed.erase, Keyed.erase, List.filter_filter]
    simp
  rw [hremove]
  simp only [touch, CacheState.add, Keyed.set, htwice]

theorem removeKey_tick (s : CacheState α) (key : String) : (s.removeKey key).tick = s.tick := by
  unfold CacheState.removeKey
  split <;> rfl

/-- A hit moves the entry to the most recent end. -/
theorem Keeps.touch (h : s.Keeps uses) (he : s.kept? key = some e) :
    (s.touch key e).Keeps (others key uses ++ [(key, { e with used := s.tick + 1 })]) := by
  rw [touch_eq_add he, ← removeKey_tick s key]
  exact (h.removeKey key).add (fun u hu => ne_of_mem_others hu) e.value e.expiresAt

theorem makeRoom_tick (capacity fuel : Nat) (s : CacheState α) :
    (CacheState.makeRoom capacity fuel s).tick = s.tick := by
  induction fuel generalizing s with
  | zero => rfl
  | succ fuel ih =>
      rw [CacheState.makeRoom]
      split
      next =>
        rw [ih]
        unfold CacheState.evict
        split <;> rfl
      next => rfl

end CacheState

end CallGuard
