import CallGuard.Identity
import Mathlib.Data.List.Induction
import Mathlib.Data.List.Sort

/-! # Laws of identities -/

namespace CallGuard

/-! ## Lists of names -/

namespace NameList

theorem extend_append (l : NameList) (names others : List String) :
    l.extend (names ++ others) = (l.extend names).extend others :=
  List.foldl_append

theorem mem_add (l : NameList) (name other : String) :
    other ∈ (l.add name).names ↔ other ∈ l.names ∨ other = name := by
  unfold add
  split
  next h =>
    constructor
    · exact .inl
    · rintro (hother | rfl)
      · exact hother
      · exact h
  next => simp

theorem mem_extend (l : NameList) (names : List String) (other : String) :
    other ∈ (l.extend names).names ↔ other ∈ l.names ∨ other ∈ names := by
  induction names generalizing l with
  | nil => simp [extend]
  | cons name names ih =>
      have hstep : l.extend (name :: names) = (l.add name).extend names := rfl
      rw [hstep, ih, mem_add, List.mem_cons, or_assoc]

theorem mem_ofList (names : List String) (name : String) :
    name ∈ (ofList names).names ↔ name ∈ names := by
  simp [ofList, mem_extend, empty]

/-- Of a name that is given more than once the first counts. -/
theorem names_ofList (names : List String) : (ofList names).names = names.eraseDups := by
  -- the induction takes the last name off, since it decides about itself only
  induction names using List.reverseRecOn with
  | nil => rfl
  | append_singleton names name ih =>
      have hadd : ofList (names ++ [name]) = (ofList names).add name :=
        empty.extend_append names [name]
      rw [hadd, List.eraseDups_append, ← ih, add]
      by_cases h : name ∈ names
      · have hmem : name ∈ (ofList names).names := (mem_ofList names name).mpr h
        simp [hmem, h, List.cons_removeAll]
      · have hmem : name ∉ (ofList names).names := fun hmem => h ((mem_ofList names name).mp hmem)
        simp [hmem, h, List.cons_removeAll, List.eraseDups_cons]

/-- New names that do not repeat are all added. -/
theorem names_extend {l : NameList} {names : List String} (h : (l.names ++ names).Nodup) :
    (l.extend names).names = l.names ++ names := by
  induction names generalizing l with
  | nil => simp [extend]
  | cons name names ih =>
      have hnew : name ∉ l.names := fun hmem =>
        (List.nodup_append.mp h).2.2 name hmem name List.mem_cons_self rfl
      have hadd : (l.add name).names = l.names ++ [name] := by
        rw [add, dif_neg hnew]
      have hsplit : l.names ++ name :: names = (l.add name).names ++ names := by
        rw [hadd, List.append_assoc, List.singleton_append]
      rw [hsplit] at h ⊢
      exact ih h

theorem exists_names_extend (l : NameList) (names : List String) :
    ∃ new, (l.extend names).names = l.names ++ new ∧ new.Sublist names := by
  induction names generalizing l with
  | nil => exact ⟨[], by simp [extend], List.Sublist.refl _⟩
  | cons name names ih =>
      have hstep : l.extend (name :: names) = (l.add name).extend names := rfl
      obtain ⟨new, hnew, hsublist⟩ := ih (l.add name)
      rw [hstep, hnew, add]
      split
      next => exact ⟨new, rfl, hsublist.cons name⟩
      next => exact ⟨name :: new, by simp, hsublist.cons_cons name⟩

/-- The names of a list are among those that it was made of, in their order. -/
theorem names_ofList_sublist (names : List String) : (ofList names).names.Sublist names := by
  obtain ⟨new, hnew, hsublist⟩ := empty.exists_names_extend names
  rw [ofList, hnew]
  exact hsublist

theorem names_inj {l m : NameList} : l.names = m.names ↔ l = m := by
  cases l
  cases m
  simp

/-- The names of a list make up the list again. -/
theorem ofList_names (l : NameList) : ofList l.names = l :=
  names_inj.mp (names_extend l.nodup)

end NameList

/-! ## Claims -/

namespace Members

variable {α : Type} {members others : List (String × α)}

/-- Among ordered members every key occurs once, so that its member is found. -/
theorem get?_eq_some_iff (h : Ordered members) {key : String} {value : α} :
    get? key members = some value ↔ (key, value) ∈ members := by
  induction members with
  | nil => simp [get?]
  | cons m rest ih =>
      obtain ⟨k, v⟩ := m
      obtain ⟨hfirst, hrest⟩ := List.pairwise_cons.mp h
      by_cases hk : k = key
      · subst hk
        have hother : (k, value) ∉ rest := fun hmem => String.lt_irrefl k (hfirst _ hmem)
        simp [get?, hother, eq_comm]
      · simpa [get?, hk, Ne.symm hk] using ih hrest

theorem get?_insert_of_ne {key other : String} (h : other ≠ key) (value : α) :
    get? other (insert key value members) = get? other members := by
  induction members with
  | nil => simp [insert, get?, Ne.symm h]
  | cons m rest ih =>
      obtain ⟨k, v⟩ := m
      rw [insert]
      split_ifs with hlt heq
      · simp [get?, Ne.symm h]
      · subst heq
        simp [get?, Ne.symm h]
      · simp [get?, ih]

/-- Ordering members adds none. -/
theorem mem_of_mem_ofList {m : String × α} (h : m ∈ ofList members) : m ∈ members := by
  induction members using List.reverseRecOn with
  | nil => cases h
  | append_singleton members last ih =>
      rw [ofList, List.foldl_append] at h
      rcases mem_insert h with rfl | h
      · exact List.mem_append_right _ List.mem_cons_self
      · exact List.mem_append_left _ (ih h)

theorem Ordered.eq_of_mem_iff (hm : Ordered members) (ho : Ordered others)
    (h : ∀ m, m ∈ members ↔ m ∈ others) : members = others := by
  have hirrefl : Std.Irrefl fun a b : String × α => a.1 < b.1 := ⟨fun a => String.lt_irrefl a.1⟩
  have hantisymm : Std.Antisymm fun a b : String × α => a.1 < b.1 :=
    ⟨fun _ _ hlt hgt => absurd hgt (String.lt_asymm hlt)⟩
  exact List.Pairwise.eq_of_mem_iff hm ho h

end Members

namespace Claims

theorem members_inj {c d : Claims} : c.members = d.members ↔ c = d := by
  cases c
  cases d
  simp

theorem get?_insert_of_ne {key other : String} (h : other ≠ key) (value : Json) (c : Claims) :
    (c.insert key value).get? other = c.get? other :=
  Members.get?_insert_of_ne h value

/-- Claims with the same values at the keys that are kept have the same kept claims. -/
theorem filter_congr {keep : String → Bool} {c d : Claims}
    (h : ∀ key, keep key = true → c.get? key = d.get? key) : c.filter keep = d.filter keep := by
  have hmembers : (c.filter keep).members = (d.filter keep).members := by
    apply Members.Ordered.eq_of_mem_iff (c.filter keep).ordered (d.filter keep).ordered
    rintro ⟨key, value⟩
    simp only [filter, List.mem_filter, ← Members.get?_eq_some_iff c.ordered,
      ← Members.get?_eq_some_iff d.ordered]
    refine and_congr_left fun hkeep => ?_
    have hsame : Members.get? key c.members = Members.get? key d.members := h key hkeep
    rw [hsame]
  rwa [← members_inj]

end Claims

/-! ## Requirements -/

/-- More roles and more scopes meet no fewer requirements. -/
theorem Requirement.isMetBy_mono {r : Requirement} {i j : Identity}
    (hroles : i.roles.names ⊆ j.roles.names) (hscopes : i.scopes.names ⊆ j.scopes.names)
    (h : r.isMetBy i = true) : r.isMetBy j = true := by
  simp only [isMetBy, Identity.hasRole, Identity.hasScope, NameList.contains, Bool.and_eq_true,
    Bool.or_eq_true, List.any_eq_true, List.all_eq_true, List.contains_iff_mem] at h ⊢
  obtain ⟨hrole, hscope⟩ := h
  refine ⟨?_, fun s hs => hscopes (hscope s hs)⟩
  rcases hrole with hempty | ⟨role, hlisted, hheld⟩
  · exact .inl hempty
  · exact .inr ⟨role, hlisted, hroles hheld⟩

end CallGuard
