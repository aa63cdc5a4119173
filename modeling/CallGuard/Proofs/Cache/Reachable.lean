import CallGuard.Proofs.Cache.Recency

/-! # Caches that come about

Whatever is done to a new cache, and in whatever order, its tables keep mirroring a list of last
uses. In such a cache it can be said what it means to lose a single key. -/

namespace CallGuard

variable {α : Type}

/-! ## Performed operations -/

theorem Cache.fits_of_set {c d : Cache α} {now : Nat} {key : String} {value : α}
    (hcapacity : c.capacity ≠ 0) (hdone : c.set now key value = some d) :
    now + c.ttl < clockEnd := by
  apply Nat.lt_of_not_le
  intro hlate
  rw [set, if_neg hcapacity, if_pos hlate] at hdone
  cases hdone

/-- An operation that is done is done by the list as well, with the same answer. -/
theorem Cache.Mirrors.of_perform {c d : Cache α} {l : RecencyList α} (h : c.Mirrors l)
    {op : CacheOperation α} {answer : Option α} (hdone : c.perform op = some (answer, d)) :
    answer = (l.perform op).1 ∧ d.Mirrors (l.perform op).2 := by
  cases op with
  | get now key =>
      obtain ⟨rfl, rfl⟩ := Prod.mk.inj (Option.some.inj hdone)
      exact h.get now key
  | set now key value =>
      obtain ⟨e, hset, hpair⟩ := Option.map_eq_some_iff.mp hdone
      obtain ⟨rfl, rfl⟩ := Prod.mk.inj hpair
      refine ⟨rfl, ?_⟩
      by_cases hzero : c.capacity = 0
      · obtain rfl : c = e := by simpa [Cache.set, hzero] using hset
        have hlist : l.set now key value = l := if_pos (h.capacity ▸ hzero)
        rw [RecencyList.perform, hlist]
        exact h
      · obtain ⟨f, hf, hmirrors⟩ := h.set (fits_of_set hzero hset) key value
        rw [hset] at hf
        obtain rfl := Option.some.inj hf
        exact hmirrors
  | invalidate key =>
      obtain ⟨rfl, rfl⟩ := Prod.mk.inj (Option.some.inj hdone)
      exact ⟨rfl, h.invalidate key⟩
  | clear =>
      obtain ⟨rfl, rfl⟩ := Prod.mk.inj (Option.some.inj hdone)
      exact ⟨rfl, h.clear⟩

theorem RecencyList.perform_bounds (l : RecencyList α) (op : CacheOperation α) :
    (l.perform op).2.capacity = l.capacity ∧ (l.perform op).2.ttl = l.ttl := by
  cases op with
  | get now key =>
      dsimp only [perform, get]
      split
      next => exact ⟨rfl, rfl⟩
      next => split <;> exact ⟨rfl, rfl⟩
  | set now key value =>
      dsimp only [perform, set]
      split
      next => exact ⟨rfl, rfl⟩
      next => exact ⟨rfl, rfl⟩
  | invalidate key => exact ⟨rfl, rfl⟩
  | clear => exact ⟨rfl, rfl⟩

theorem Cache.run_cons_eq_some {c last : Cache α} {op : CacheOperation α}
    {ops : List (CacheOperation α)} {answers : List (Option α × Nat)}
    (h : c.run (op :: ops) = some (answers, last)) :
    ∃ answer d more, c.perform op = some (answer, d) ∧ d.run ops = some (more, last) ∧
      answers = (answer, d.size) :: more := by
  simp only [run, Option.bind_eq_bind, Option.bind_eq_some_iff, Option.pure_def,
    Option.some.injEq, Prod.mk.injEq] at h
  obtain ⟨⟨answer, d⟩, hop, ⟨more, last'⟩, hrest, hanswers, rfl⟩ := h
  exact ⟨answer, d, more, hop, hrest, hanswers.symm⟩

/-- A run ends in a cache that mirrors a list with the same bounds. -/
theorem Cache.Mirrors.of_run {c last : Cache α} {l : RecencyList α} (h : c.Mirrors l)
    {ops : List (CacheOperation α)} {answers : List (Option α × Nat)}
    (hrun : c.run ops = some (answers, last)) :
    ∃ m : RecencyList α, last.Mirrors m ∧ m.capacity = l.capacity := by
  induction ops generalizing c l answers with
  | nil =>
      obtain rfl := (Prod.mk.inj (Option.some.inj hrun)).2
      exact ⟨l, h, rfl⟩
  | cons op ops ih =>
      obtain ⟨answer, d, more, hop, hrest, -⟩ := run_cons_eq_some hrun
      obtain ⟨m, hm, hcapacity⟩ := ih (h.of_perform hop).2 hrest
      exact ⟨m, hm, hcapacity.trans (l.perform_bounds op).1⟩

/-! ## Reachable caches -/

/-- The caches that operations make of a new one, whoever asks for them. -/
inductive Cache.Reachable : Cache α → Prop where
  | new {capacity ttl : Nat} {c : Cache α} : Cache.new capacity ttl = .ok c → Reachable c
  | perform {c d : Cache α} {op : CacheOperation α} {answer : Option α} :
      Reachable c → c.perform op = some (answer, d) → Reachable d

theorem Cache.Reachable.exists_mirrors {c : Cache α} (h : c.Reachable) :
    ∃ l : RecencyList α, c.Mirrors l := by
  induction h with
  | new hnew => exact ⟨_, mirrors_of_new hnew⟩
  | perform _ hdone ih =>
      obtain ⟨l, hl⟩ := ih
      exact ⟨_, (hl.of_perform hdone).2⟩

/-- A cache that has an entry has room for it. -/
theorem Cache.Mirrors.capacity_ne_zero {c : Cache α} {l : RecencyList α} (h : c.Mirrors l)
    {key : String} {e : CacheEntry α} (he : c.state.kept? key = some e) : c.capacity ≠ 0 := by
  intro hzero
  obtain ⟨uses, hkeeps, hslots⟩ := h.slots
  have hnil : uses = [] := List.map_eq_nil_iff.mp (hslots ▸ h.slots_eq_nil hzero)
  have hmem := hkeeps.kept?_eq_some_iff.mp he
  rw [hnil] at hmem
  exact absurd hmem List.not_mem_nil

/-! ## Losing one key -/

/-- The second cache is the first without a key. The entries of all other keys are there with
their values, the instants at which they go out of date and the ticks of their last use, they are
in the same order, and there are no more. -/
structure Cache.Without (c : Cache α) (key : String) (d : Cache α) : Prop where
  capacity_eq : d.capacity = c.capacity
  ttl_eq : d.ttl = c.ttl
  gone : d.state.kept? key = none
  others : ∀ other, other ≠ key → d.state.kept? other = c.state.kept? other
  order_eq : d.state.order = c.state.order.filter fun p => p.2 ≠ key

namespace CacheState

variable {s t : CacheState α} {uses : List (Use α)} {key : String} {e : CacheEntry α}

theorem Keeps.kept?_others (hs : s.Keeps uses) (ht : t.Keeps (others key uses)) {other : String}
    (hother : other ≠ key) : t.kept? other = s.kept? other := by
  apply Option.ext
  intro e
  rw [ht.kept?_eq_some_iff, hs.kept?_eq_some_iff]
  constructor
  · intro hmem
    exact (List.mem_filter.mp hmem).1
  · intro hmem
    exact List.mem_filter.mpr ⟨hmem, decide_eq_true hother⟩

theorem Keeps.order_others (hs : s.Keeps uses) (ht : t.Keeps (others key uses)) :
    t.order = s.order.filter fun p => p.2 ≠ key := by
  rw [ht.order, hs.order, List.filter_map]
  rfl

theorem others_others : others key (others key uses) = others key uses :=
  others_eq_self fun _ hu => ne_of_mem_others hu

/-- To use a key and then forget it is to forget it. -/
theorem others_touched : others key (others key uses ++ [(key, e)]) = others key uses := by
  have hlast : others key [(key, e)] = [] := by simp [others, Keyed.erase]
  calc others key (others key uses ++ [(key, e)])
      = others key (others key uses) ++ others key [(key, e)] := List.filter_append ..
    _ = others key uses := by rw [others_others, hlast, List.append_nil]

end CacheState

theorem Cache.without_of_keeps {c d : Cache α} {uses : List (CacheState.Use α)} {key : String}
    (hc : c.state.Keeps uses) (hd : d.state.Keeps (CacheState.others key uses))
    (hcapacity : d.capacity = c.capacity) (httl : d.ttl = c.ttl) : c.Without key d where
  capacity_eq := hcapacity
  ttl_eq := httl
  gone := hd.kept?_eq_none_iff.mpr fun _ hu => CacheState.ne_of_mem_others hu
  others _ hother := hc.kept?_others hd hother
  order_eq := hc.order_others hd

theorem Cache.Reachable.without_invalidate {c : Cache α} (hc : c.Reachable) (key : String) :
    c.Without key (c.invalidate key) := by
  obtain ⟨l, hmirrors⟩ := hc.exists_mirrors
  obtain ⟨uses, hkeeps, -⟩ := hmirrors.slots
  exact without_of_keeps hkeeps (hkeeps.removeKey key) rfl rfl

/-- Forgetting a key after a look-up loses that key alone, and so does a look-up that finds
nothing. -/
theorem Cache.Reachable.without_of_get {c : Cache α} (hc : c.Reachable) (now : Nat)
    (key : String) :
    c.Without key ((c.get now key).2.invalidate key) ∧
      ((c.get now key).1 = none → c.Without key (c.get now key).2) := by
  obtain ⟨l, hmirrors⟩ := hc.exists_mirrors
  obtain ⟨uses, hkeeps, -⟩ := hmirrors.slots
  have hforgotten := hc.without_invalidate key
  cases hk : c.state.kept? key with
  | none =>
      rw [get_of_none hk]
      refine ⟨hforgotten, fun _ => without_of_keeps hkeeps ?_ rfl rfl⟩
      rw [CacheState.others_eq_self (hkeeps.kept?_eq_none_iff.mp hk)]
      exact hkeeps
  | some e =>
      have hcapacity := hmirrors.capacity_ne_zero hk
      by_cases hlate : e.expiresAt ≤ now
      · rw [get_of_expired hcapacity hk hlate]
        refine ⟨without_of_keeps hkeeps ?_ rfl rfl, fun _ => hforgotten⟩
        have htwice := (hkeeps.removeKey key).removeKey key
        rwa [CacheState.others_others] at htwice
      · rw [get_of_hit hcapacity hk hlate]
        refine ⟨without_of_keeps hkeeps ?_ rfl rfl, fun hnone => by cases hnone⟩
        have htouched := (hkeeps.touch hk).removeKey key
        rwa [CacheState.others_touched] at htouched

end CallGuard
