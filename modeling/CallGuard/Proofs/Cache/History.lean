import CallGuard.Proofs.Cache.Reachable

/-! # What a cache remembers of its history

A look-up answers with what was stored last under the key, and with nothing that was forgotten or
is out of date. In the other direction a value is remembered for as long as fewer other keys than
the capacity were used since its own key was: at any time the entries behind an entry, in the order
of last use, are of such keys. -/

namespace CallGuard

variable {α : Type}

/-! ## Histories -/

namespace CacheOperation

/-- After the operation, what was stored under the key before can no longer be looked up. -/
def Supersedes (key : String) : CacheOperation α → Prop
  | get _ _ => False
  | set _ other _ => other = key
  | invalidate other => other = key
  | clear => True

/-- The operation does not look at the clock later than at an instant. -/
def NotAfter (now : Nat) : CacheOperation α → Prop
  | get time _ => time ≤ now
  | set time _ _ => time ≤ now
  | invalidate _ => True
  | clear => True

/-- The key that an operation uses. To look for a key in vain is not to use it. -/
def usedKey? : CacheOperation α → Option α → Option String
  | set _ key _, _ => some key
  | get _ key, some _ => some key
  | get _ _, none => none
  | invalidate _, _ => none
  | clear, _ => none

end CacheOperation

namespace CacheHistory

/-- The last time that something was stored under a key it was this value at this time, and the
key was not forgotten since. -/
def LastStored (ops : List (CacheOperation α)) (key : String) (time : Nat) (value : α) : Prop :=
  ∃ before after, ops = before ++ .set time key value :: after ∧
    ∀ op ∈ after, ¬ op.Supersedes key

/-- The keys that some operations use, told by their answers. -/
def usedKeys (ops : List (CacheOperation α)) (answers : List (Option α × Nat)) : List String :=
  (ops.zip answers).filterMap fun p => p.1.usedKey? p.2.1

/-- Of some used keys, those after the last use of a key, the most recently used one first. -/
def usedSince (key : String) (used : List String) : List String :=
  used.reverse.takeWhile fun other => other ≠ key

variable {past : List (CacheOperation α)} {key : String} {time : Nat} {value : α}

theorem lastStored_append_iff {op : CacheOperation α} :
    LastStored (past ++ [op]) key time value ↔
      op = .set time key value ∨ ¬ op.Supersedes key ∧ LastStored past key time value := by
  constructor
  · rintro ⟨before, after, hsplit, hafter⟩
    rcases List.eq_nil_or_concat after with rfl | ⟨after, last, rfl⟩
    · obtain ⟨-, hop⟩ := List.append_inj' hsplit rfl
      exact .inl (List.cons.inj hop).1
    · have hsnoc : past ++ [op] = (before ++ .set time key value :: after) ++ [last] := by
        simpa using hsplit
      obtain ⟨hpast, hlast⟩ := List.append_inj' hsnoc rfl
      obtain rfl : op = last := by simpa using hlast
      refine .inr ⟨hafter op (by simp), before, after, hpast, ?_⟩
      intro op' hop'
      exact hafter op' (by simp [hop'])
  · rintro (rfl | ⟨hop, before, after, rfl, hafter⟩)
    · exact ⟨past, [], rfl, by simp⟩
    · refine ⟨before, after ++ [op], by simp, ?_⟩
      intro op' hop'
      rcases List.mem_append.mp hop' with hop' | hop'
      · exact hafter op' hop'
      · obtain rfl := List.mem_singleton.mp hop'
        exact hop

/-- A look-up leaves what was stored last as it is. -/
theorem lastStored_append_get_iff {now : Nat} {other : String} :
    LastStored (past ++ [.get now other]) key time value ↔ LastStored past key time value := by
  simp [lastStored_append_iff, CacheOperation.Supersedes]

/-- Something else is not stored last as well. -/
theorem LastStored.unique {time' : Nat} {value' : α} (h : LastStored past key time value)
    (h' : LastStored past key time' value') : time = time' ∧ value = value' := by
  induction past using List.reverseRecOn with
  | nil =>
      obtain ⟨before, after, hsplit, -⟩ := h
      simp at hsplit
  | append_singleton past op ih =>
      rw [lastStored_append_iff] at h h'
      rcases h with rfl | ⟨hop, h⟩
      · rcases h' with hset | ⟨hop, -⟩
        · cases hset
          exact ⟨rfl, rfl⟩
        · exact absurd rfl hop
      · rcases h' with rfl | ⟨-, h'⟩
        · exact absurd rfl hop
        · exact ih h h'

theorem usedSince_append_of_ne {other : String} (h : other ≠ key) (used : List String) :
    usedSince key (used ++ [other]) = other :: usedSince key used := by
  simp [usedSince, h]

theorem usedKeys_cons (op : CacheOperation α) (ops : List (CacheOperation α))
    (answer : Option α) (size : Nat) (answers : List (Option α × Nat)) :
    usedKeys (op :: ops) ((answer, size) :: answers) =
      (op.usedKey? answer).toList ++ usedKeys ops answers := by
  rw [usedKeys, List.zip_cons_cons, List.filterMap_cons]
  cases h : op.usedKey? answer with
  | none => rfl
  | some key => rfl

end CacheHistory

open CacheHistory

/-! ## Places in the order of use -/

/-- A slot is among some others, and those behind it are of recently used keys. -/
def Slot.KeptBefore (s : Slot α) (recent : List String) (slots : List (Slot α)) : Prop :=
  ∃ before after, slots = before ++ s :: after ∧ ∀ t ∈ after, t.key ∈ recent

namespace Slot.KeptBefore

variable {s t : Slot α} {recent : List String} {slots : List (Slot α)}

theorem mem (h : s.KeptBefore recent slots) : s ∈ slots := by
  obtain ⟨before, after, rfl, -⟩ := h
  simp

theorem last (s : Slot α) (recent : List String) (slots : List (Slot α)) :
    s.KeptBefore recent (slots ++ [s]) :=
  ⟨slots, [], rfl, by simp⟩

theorem filter (h : s.KeptBefore recent slots) {other : String} (hne : s.key ≠ other) :
    s.KeptBefore recent (slots.filter fun t => t.key ≠ other) := by
  obtain ⟨before, after, rfl, hafter⟩ := h
  refine ⟨before.filter fun t => t.key ≠ other, after.filter fun t => t.key ≠ other, ?_, ?_⟩
  · rw [List.filter_append, List.filter_cons_of_pos (by simpa using hne)]
  · intro t ht
    exact hafter t (List.mem_filter.mp ht).1

theorem append (h : s.KeptBefore recent slots) (t : Slot α) :
    s.KeptBefore (t.key :: recent) (slots ++ [t]) := by
  obtain ⟨before, after, rfl, hafter⟩ := h
  refine ⟨before, after ++ [t], by simp, ?_⟩
  intro u hu
  rcases List.mem_append.mp hu with hu | hu
  · exact List.mem_cons_of_mem _ (hafter u hu)
  · obtain rfl := List.mem_singleton.mp hu
    exact List.mem_cons_self

/-- A slot in front has all others behind it. So when there are more slots than recent keys, with
one more key that no slot has, the slot in front is another one. -/
theorem tail (h : s.KeptBefore recent slots) (hnodup : (slots.map Slot.key).Nodup)
    {other : String} (hother : ∀ t ∈ slots, t.key ≠ other)
    (hfew : (other :: recent).toFinset.card < slots.length) :
    s.KeptBefore recent slots.tail := by
  obtain ⟨before, after, rfl, hafter⟩ := h
  cases before with
  | cons first before => exact ⟨before, after, rfl, hafter⟩
  | nil =>
      -- every slot behind is of its own recent key, and none is of the further one
      have hkeys : (other :: after.map Slot.key).Nodup := by
        refine List.nodup_cons.mpr ⟨?_, (List.nodup_cons.mp hnodup).2⟩
        intro hmem
        obtain ⟨t, ht, hkey⟩ := List.mem_map.mp hmem
        exact hother t (List.mem_cons_of_mem s ht) hkey
      have hsubset : (other :: after.map Slot.key).toFinset ⊆ (other :: recent).toFinset := by
        intro k hk
        rw [List.mem_toFinset, List.mem_cons] at hk ⊢
        rcases hk with hk | hk
        · exact .inl hk
        · obtain ⟨t, ht, rfl⟩ := List.mem_map.mp hk
          exact .inr (hafter t ht)
      have hcard := Finset.card_le_card hsubset
      rw [List.toFinset_card_of_nodup hkeys] at hcard
      simp only [List.length_cons, List.length_map, List.nil_append] at hcard hfew
      omega

end Slot.KeptBefore

/-! ## Operations on the list of last uses -/

namespace RecencyList

variable {l : RecencyList α}

/-- A look-up finds no slot of the key, one that is out of date, or one that answers it. -/
theorem get_cases (l : RecencyList α) (now : Nat) (key : String) :
    (∀ s ∈ l.slots, s.key ≠ key) ∧ l.get now key = (none, l) ∨
    ∃ s ∈ l.slots, s.key = key ∧
      (s.expiresAt ≤ now ∧ l.get now key = (none, l.invalidate key) ∨
        now < s.expiresAt ∧ l.get now key =
          (some s.value, { l with slots := (l.invalidate key).slots ++ [s] })) := by
  unfold get
  cases hfind : l.slots.find? fun s => s.key = key with
  | none =>
      refine .inl ⟨?_, rfl⟩
      intro s hs
      simpa using List.find?_eq_none.mp hfind s hs
  | some s =>
      refine .inr ⟨s, List.mem_of_find?_eq_some hfind, by simpa using List.find?_some hfind, ?_⟩
      by_cases hlate : s.expiresAt ≤ now
      · exact .inl ⟨hlate, if_pos hlate⟩
      · exact .inr ⟨Nat.lt_of_not_le hlate, if_neg hlate⟩

/-! ## What the list recalls -/

/-- A list recalls a history of operations, of which it is told which keys they used: what it has
was stored last, and what was stored last and has not gone out of date is there unless too many
other keys were used since. -/
structure Recalls (l : RecencyList α) (past : List (CacheOperation α)) (used : List String) :
    Prop where
  nodup : (l.slots.map Slot.key).Nodup
  stored : ∀ s ∈ l.slots, ∃ time, LastStored past s.key time s.value ∧ s.expiresAt = time + l.ttl
  kept : ∀ {now key time value}, LastStored past key time value → now < time + l.ttl →
    (∀ op ∈ past, op.NotAfter now) → (usedSince key used).toFinset.card < l.capacity →
    (⟨key, value, time + l.ttl⟩ : Slot α).KeptBefore (usedSince key used) l.slots

theorem recalls_new (capacity ttl : Nat) : (new capacity ttl : RecencyList α).Recalls [] [] where
  nodup := List.nodup_nil
  stored := by simp [new]
  kept := by
    rintro now key time value ⟨before, after, hsplit, -⟩
    simp at hsplit

variable {past : List (CacheOperation α)} {used : List String}

/-- A slot of a key is what was stored last under the key. -/
theorem Recalls.eq_of_lastStored (h : l.Recalls past used) {s : Slot α} (hs : s ∈ l.slots)
    {time : Nat} {value : α} (hlast : LastStored past s.key time value) :
    s = ⟨s.key, value, time + l.ttl⟩ := by
  obtain ⟨time', hlast', hexpires⟩ := h.stored s hs
  obtain ⟨rfl, rfl⟩ := hlast.unique hlast'
  rw [← hexpires]

theorem Recalls.expiresAt_eq (h : l.Recalls past used) {s : Slot α} (hs : s ∈ l.slots)
    {time : Nat} {value : α} (hlast : LastStored past s.key time value) :
    s.expiresAt = time + l.ttl :=
  congrArg Slot.expiresAt (h.eq_of_lastStored hs hlast)

/-- After an operation, slots that were there and whose keys it does not supersede are what was
stored last. -/
theorem Recalls.stored_append (h : l.Recalls past used) {op : CacheOperation α} {s : Slot α}
    (hs : s ∈ l.slots) (hop : ¬ op.Supersedes s.key) :
    ∃ time, LastStored (past ++ [op]) s.key time s.value ∧ s.expiresAt = time + l.ttl := by
  obtain ⟨time, hlast, hexpires⟩ := h.stored s hs
  exact ⟨time, lastStored_append_iff.mpr (.inr ⟨hop, hlast⟩), hexpires⟩

theorem Recalls.nodup_invalidate (h : l.Recalls past used) (key : String) :
    ((l.invalidate key).slots.map Slot.key).Nodup :=
  h.nodup.sublist (List.filter_sublist.map Slot.key)

theorem mem_invalidate_iff {key : String} {s : Slot α} :
    s ∈ (l.invalidate key).slots ↔ s ∈ l.slots ∧ s.key ≠ key := by
  simp [invalidate]

theorem recalls_clear (l : RecencyList α) (past : List (CacheOperation α)) (used : List String) :
    l.clear.Recalls (past ++ [.clear]) used where
  nodup := List.nodup_nil
  stored := by simp [RecencyList.clear]
  kept := by
    intro now key time value hlast
    rw [lastStored_append_iff] at hlast
    rcases hlast with hset | ⟨hop, -⟩
    · cases hset
    · exact absurd trivial hop

theorem Recalls.invalidate (h : l.Recalls past used) (key : String) :
    (l.invalidate key).Recalls (past ++ [.invalidate key]) used where
  nodup := h.nodup_invalidate key
  stored := by
    intro s hs
    obtain ⟨hs, hkey⟩ := mem_invalidate_iff.mp hs
    exact h.stored_append hs (Ne.symm hkey)
  kept := by
    intro now other time value hlast hlive htimes hfew
    rw [lastStored_append_iff] at hlast
    rcases hlast with hset | ⟨hop, hlast⟩
    · cases hset
    · obtain ⟨hbefore, -⟩ := List.forall_mem_append.mp htimes
      exact (h.kept hlast hlive hbefore hfew).filter (Ne.symm hop)

/-- A look-up in vain is not a use. It may drop an entry that is out of date and stays so. -/
theorem Recalls.get_miss (h : l.Recalls past used) {time : Nat} {key : String}
    (hmiss : (l.get time key).1 = none) :
    (l.get time key).2.Recalls (past ++ [.get time key]) used := by
  have hop (other : String) : ¬ (CacheOperation.get time key : CacheOperation α).Supersedes other :=
    id
  rcases l.get_cases time key with ⟨-, hget⟩ | ⟨s, hs, rfl, ⟨hlate, hget⟩ | ⟨-, hget⟩⟩
  · rw [hget]
    refine ⟨h.nodup, fun s hs => h.stored_append hs (hop s.key), ?_⟩
    intro now other stored value hlast hlive htimes hfew
    obtain ⟨hbefore, -⟩ := List.forall_mem_append.mp htimes
    exact h.kept (lastStored_append_get_iff.mp hlast) hlive hbefore hfew
  · rw [hget]
    refine ⟨h.nodup_invalidate s.key, ?_, ?_⟩
    · intro t ht
      exact h.stored_append (mem_invalidate_iff.mp ht).1 (hop t.key)
    · intro now other stored value hlast hlive htimes hfew
      have hlast := lastStored_append_get_iff.mp hlast
      obtain ⟨hbefore, hnow⟩ := List.forall_mem_append.mp htimes
      -- what was out of date when it was looked up still is now
      have hother : other ≠ s.key := by
        rintro rfl
        have hpast : time ≤ now := hnow _ (List.mem_singleton_self _)
        have hexpires := h.expiresAt_eq hs hlast
        have hlive : now < stored + l.ttl := hlive
        omega
      exact (h.kept hlast hlive hbefore hfew).filter hother
  · rw [hget] at hmiss
    cases hmiss

/-- When slots of other keys are left and one is put behind them, no two have the same key. -/
theorem Recalls.nodup_put (h : l.Recalls past used) {s : Slot α} {left : List (Slot α)}
    (hleft : left.Sublist (l.invalidate s.key).slots) :
    ((left ++ [s]).map Slot.key).Nodup := by
  rw [List.map_append, List.nodup_append]
  refine ⟨(h.nodup_invalidate s.key).sublist (hleft.map Slot.key), by simp, ?_⟩
  intro k hk k' hk'
  obtain ⟨t, ht, rfl⟩ := List.mem_map.mp hk
  obtain rfl : k' = s.key := by simpa using hk'
  exact (mem_invalidate_iff.mp (hleft.subset ht)).2

/-- Another use makes no fewer keys used since. -/
theorem card_usedSince_le {key other : String} (hne : other ≠ key) (used : List String) :
    (usedSince key used).toFinset.card ≤ (usedSince key (used ++ [other])).toFinset.card := by
  rw [usedSince_append_of_ne hne]
  apply Finset.card_le_card
  intro k hk
  rw [List.mem_toFinset] at hk ⊢
  exact List.mem_cons_of_mem other hk

/-- A hit is a use, and moves the slot behind the others. -/
theorem Recalls.get_hit (h : l.Recalls past used) {time : Nat} {key : String} {answer : α}
    (hhit : (l.get time key).1 = some answer) :
    (l.get time key).2.Recalls (past ++ [.get time key]) (used ++ [key]) := by
  have hop (other : String) : ¬ (CacheOperation.get time key : CacheOperation α).Supersedes other :=
    id
  rcases l.get_cases time key with ⟨-, hget⟩ | ⟨s, hs, rfl, ⟨-, hget⟩ | ⟨-, hget⟩⟩
  · rw [hget] at hhit
    cases hhit
  · rw [hget] at hhit
    cases hhit
  · rw [hget]
    refine ⟨h.nodup_put (List.Sublist.refl _), ?_, ?_⟩
    · intro t ht
      rcases List.mem_append.mp ht with ht | ht
      · exact h.stored_append (mem_invalidate_iff.mp ht).1 (hop t.key)
      · obtain rfl := List.mem_singleton.mp ht
        exact h.stored_append hs (hop t.key)
    · intro now other stored value hlast hlive htimes hfew
      have hlast := lastStored_append_get_iff.mp hlast
      by_cases hother : s.key = other
      · subst hother
        rw [h.eq_of_lastStored hs hlast]
        exact Slot.KeptBefore.last ..
      · have hfewer := (card_usedSince_le hother used).trans_lt hfew
        have hkept := h.kept hlast hlive (List.forall_mem_append.mp htimes).1 hfewer
        rw [usedSince_append_of_ne hother]
        exact (hkept.filter (Ne.symm hother)).append s

/-- The slots that stay when something is stored under a key. -/
def beside (l : RecencyList α) (key : String) : List (Slot α) :=
  if (l.invalidate key).slots.length < l.capacity then (l.invalidate key).slots
  else (l.invalidate key).slots.tail

theorem set_eq (hcapacity : l.capacity ≠ 0) (time : Nat) (key : String) (value : α) :
    l.set time key value = { l with slots := l.beside key ++ [⟨key, value, time + l.ttl⟩] } :=
  if_neg hcapacity

theorem beside_sublist (l : RecencyList α) (key : String) :
    (l.beside key).Sublist (l.invalidate key).slots := by
  unfold beside
  split
  next => exact List.Sublist.refl _
  next => exact List.tail_sublist _

/-- The slot that has to go is not one with few others behind it. -/
theorem Recalls.kept_beside (h : l.Recalls past used) {s : Slot α} {recent : List String}
    (hs : s.KeptBefore recent l.slots) {key : String} (hne : s.key ≠ key)
    (hfew : (key :: recent).toFinset.card < l.capacity) : s.KeptBefore recent (l.beside key) := by
  have hothers : s.KeptBefore recent (l.invalidate key).slots := hs.filter hne
  unfold beside
  split
  next => exact hothers
  next hfull =>
    refine hothers.tail (h.nodup_invalidate key) ?_ (hfew.trans_le (Nat.le_of_not_lt hfull))
    intro t ht
    exact (mem_invalidate_iff.mp ht).2

/-- Storing is a use, and puts the slot behind the others. -/
theorem Recalls.set (h : l.Recalls past used) (hcapacity : l.capacity ≠ 0) (time : Nat)
    (key : String) (value : α) :
    (l.set time key value).Recalls (past ++ [.set time key value]) (used ++ [key]) := by
  rw [set_eq hcapacity]
  refine ⟨h.nodup_put (l.beside_sublist key), ?_, ?_⟩
  · intro s hs
    rcases List.mem_append.mp hs with hs | hs
    · obtain ⟨hs, hkey⟩ := mem_invalidate_iff.mp ((l.beside_sublist key).subset hs)
      exact h.stored_append hs (Ne.symm hkey)
    · obtain rfl := List.mem_singleton.mp hs
      exact ⟨time, lastStored_append_iff.mpr (.inl rfl), rfl⟩
  · intro now other stored value' hlast hlive htimes hfew
    rcases lastStored_append_iff.mp hlast with hset | ⟨hother, hlast⟩
    · cases hset
      exact Slot.KeptBefore.last ..
    · have hother : key ≠ other := hother
      have hfewer := (card_usedSince_le hother used).trans_lt hfew
      have hkept := h.kept hlast hlive (List.forall_mem_append.mp htimes).1 hfewer
      rw [usedSince_append_of_ne hother] at hfew ⊢
      exact (h.kept_beside hkept (Ne.symm hother) hfew).append ⟨key, value, time + l.ttl⟩

/-- Every operation is recalled, and uses a key if its answer says so. -/
theorem Recalls.perform (h : l.Recalls past used) (hcapacity : l.capacity ≠ 0)
    (op : CacheOperation α) :
    (l.perform op).2.Recalls (past ++ [op])
      (used ++ (op.usedKey? (l.perform op).1).toList) := by
  cases op with
  | get time key =>
      cases hanswer : (l.get time key).1 with
      | none => simpa [RecencyList.perform, CacheOperation.usedKey?, hanswer] using h.get_miss hanswer
      | some answer =>
          simpa [RecencyList.perform, CacheOperation.usedKey?, hanswer] using h.get_hit hanswer
  | set time key value => exact h.set hcapacity time key value
  | invalidate key =>
      simpa [RecencyList.perform, CacheOperation.usedKey?] using h.invalidate key
  | clear =>
      simpa [RecencyList.perform, CacheOperation.usedKey?] using recalls_clear l past used

/-- A look-up in a list that recalls its history. -/
theorem Recalls.get_spec (h : l.Recalls past used) (now : Nat) (key : String) (value : α) :
    ((l.get now key).1 = some value →
      ∃ time, LastStored past key time value ∧ now < time + l.ttl) ∧
    ∀ time, LastStored past key time value → now < time + l.ttl →
      (∀ op ∈ past, op.NotAfter now) → (usedSince key used).toFinset.card < l.capacity →
      (l.get now key).1 = some value := by
  rcases l.get_cases now key with ⟨hnone, hget⟩ | ⟨s, hs, rfl, hfound⟩
  · rw [hget]
    refine ⟨by simp, ?_⟩
    intro time hlast hlive htimes hfew
    exact absurd rfl (hnone _ (h.kept hlast hlive htimes hfew).mem)
  · constructor
    · intro hanswer
      obtain ⟨time, hlast, hexpires⟩ := h.stored s hs
      rcases hfound with ⟨-, hget⟩ | ⟨hlive, hget⟩
      · rw [hget] at hanswer
        cases hanswer
      · rw [hget] at hanswer
        obtain rfl := Option.some.inj hanswer
        exact ⟨time, hlast, hexpires ▸ hlive⟩
    · intro time hlast hlive htimes hfew
      have hexpires := h.expiresAt_eq hs hlast
      rcases hfound with ⟨hlate, -⟩ | ⟨-, hget⟩
      · omega
      · rw [hget]
        exact congrArg (some ∘ Slot.value) (h.eq_of_lastStored hs hlast)

end RecencyList

/-! ## Runs -/

/-- A run of the cache is recalled by the list that it mirrors. -/
theorem Cache.Mirrors.exists_recalls {c last : Cache α} {l : RecencyList α} (h : c.Mirrors l)
    (hcapacity : l.capacity ≠ 0) {past ops : List (CacheOperation α)} {used : List String}
    (hrecalls : l.Recalls past used) {answers : List (Option α × Nat)}
    (hrun : c.run ops = some (answers, last)) :
    ∃ m : RecencyList α, last.Mirrors m ∧ m.capacity = l.capacity ∧ m.ttl = l.ttl ∧
      m.Recalls (past ++ ops) (used ++ usedKeys ops answers) := by
  -- the operations done so far go over into the past one by one
  induction ops generalizing c l past used answers with
  | nil =>
      cases hrun
      exact ⟨l, h, rfl, rfl, by simpa [usedKeys] using hrecalls⟩
  | cons op ops ih =>
      obtain ⟨answer, d, more, hop, hrest, rfl⟩ := run_cons_eq_some hrun
      obtain ⟨rfl, hmirrors⟩ := h.of_perform hop
      obtain ⟨hbound, httl⟩ := l.perform_bounds op
      obtain ⟨m, hm, hmbound, hmttl, hrecalled⟩ :=
        ih hmirrors (hbound ▸ hcapacity) (hrecalls.perform hcapacity op) hrest
      refine ⟨m, hm, hmbound.trans hbound, hmttl.trans httl, ?_⟩
      rw [usedKeys_cons]
      simpa using hrecalled

/-- The law of histories. After any operations on a new cache that has room for something, a
look-up answers only with what was stored last under the key, was not forgotten since and is not
out of date. As long as the clock has not gone back and fewer keys than the capacity were used
since the last use of the key, it does answer with that. The operations and the look-up take at
most one tick each, so for fewer than `2 ^ 64` in all a counter of 64 bits is enough. -/
theorem Cache.get_recalls_history {capacity ttl : Nat} {c : Cache α}
    (hnew : Cache.new capacity ttl = .ok c) (hcapacity : 0 < capacity)
    (ops : List (CacheOperation α))
    (hclock : ∀ now key value, .set now key value ∈ ops → now + ttl < clockEnd) :
    ∃ answers last, c.run ops = some (answers, last) ∧ last.state.tick ≤ ops.length ∧
      ∀ now key value,
        (last.get now key).2.state.tick ≤ ops.length + 1 ∧
        ((last.get now key).1 = some value →
          ∃ time, LastStored ops key time value ∧ now < time + ttl) ∧
        ∀ time, LastStored ops key time value → now < time + ttl → (∀ op ∈ ops, op.NotAfter now) →
          (usedSince key (usedKeys ops answers)).toFinset.card < capacity →
          (last.get now key).1 = some value := by
  have hmirrors := mirrors_of_new hnew
  obtain rfl := eq_of_new hnew
  obtain ⟨last, hrun, htick⟩ := hmirrors.run_eq hclock
  have htick : last.state.tick ≤ ops.length := htick.trans (Nat.zero_add _).le
  refine ⟨_, last, hrun, htick, ?_⟩
  obtain ⟨m, hlast, hbound, httl, hrecalls⟩ := hmirrors.exists_recalls
    (Nat.ne_of_gt hcapacity) (RecencyList.recalls_new capacity ttl) hrun
  intro now key value
  have hspec := hrecalls.get_spec now key value
  rw [(hlast.get now key).1]
  rw [hbound, httl] at hspec
  exact ⟨(last.get_tick_le now key).trans (Nat.succ_le_succ htick), hspec⟩

/-- Two keys fill the cache. The first is used again, and then a third takes the place of the
second, which is looked up in vain. -/
def rereadSample : List (CacheOperation Nat) :=
  [.set 0 "a" 1, .set 1 "b" 2, .get 2 "a", .set 3 "c" 3, .get 4 "b"]

/-- Only one other key was used since the first was, so it is still there. -/
theorem Cache.get_recalls_history_sample :
    Cache.new 2 10 = .ok (⟨2, 10, .empty⟩ : Cache Nat) ∧
      (∀ now key value, .set now key value ∈ rereadSample → now + 10 < clockEnd) ∧
      LastStored rereadSample "a" 0 1 ∧
      (∀ op ∈ rereadSample, op.NotAfter 9) ∧
      ∃ answers last, (⟨2, 10, .empty⟩ : Cache Nat).run rereadSample = some (answers, last) ∧
        usedSince "a" (usedKeys rereadSample answers) = ["c"] ∧
        (last.get 9 "a").1 = some 1 := by
  have hclock : ∀ now key value, .set now key value ∈ rereadSample → now + 10 < clockEnd := by
    simp only [rereadSample, List.mem_cons, List.not_mem_nil, reduceCtorEq, or_false, false_or,
      CacheOperation.set.injEq]
    rintro now key value (⟨rfl, -⟩ | ⟨rfl, -⟩ | ⟨rfl, -⟩) <;> decide
  have hstored : LastStored rereadSample "a" 0 1 := by
    refine ⟨[], _, rfl, ?_⟩
    simp [CacheOperation.Supersedes]
  have htimes : ∀ op ∈ rereadSample, op.NotAfter 9 := by
    simp [rereadSample, CacheOperation.NotAfter]
  have hnew : Cache.new 2 10 = .ok (⟨2, 10, .empty⟩ : Cache Nat) := rfl
  obtain ⟨answers, last, hrun, -, hlaw⟩ :=
    get_recalls_history hnew Nat.two_pos rereadSample hclock
  obtain ⟨d, hd⟩ : ∃ d, (⟨2, 10, .empty⟩ : Cache Nat).run rereadSample =
      some ([(none, 1), (none, 2), (some 1, 2), (none, 2), (none, 2)], d) := ⟨_, rfl⟩
  obtain ⟨rfl, -⟩ := Prod.mk.inj (Option.some.inj (hrun.symm.trans hd))
  have hused : usedSince "a" (usedKeys rereadSample
      [(none, 1), (none, 2), (some 1, 2), (none, 2), (none, 2)]) = ["c"] := rfl
  refine ⟨hnew, hclock, hstored, htimes, _, last, hrun, hused, ?_⟩
  refine (hlaw 9 "a" 1).2.2 0 hstored (by decide) htimes ?_
  rw [hused]
  decide

end CallGuard
