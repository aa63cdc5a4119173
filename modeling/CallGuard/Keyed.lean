/-! # Tables

A table is a list of pairs. Every operation is told by what `get?` answers afterwards. -/

namespace CallGuard.Keyed

variable {κ α : Type} [DecidableEq κ]

/-- The value of the first pair with a key. -/
def get? (key : κ) : List (κ × α) → Option α
  | [] => none
  | (k, v) :: rest => if k = key then some v else get? key rest

def erase (key : κ) (table : List (κ × α)) : List (κ × α) :=
  table.filter fun p => p.1 ≠ key

/-- Gives a key a value and forgets its old one. -/
def set (key : κ) (value : α) (table : List (κ × α)) : List (κ × α) :=
  (key, value) :: erase key table

def keys (table : List (κ × α)) : List κ :=
  table.map Prod.fst

theorem get?_eq_none_iff {key : κ} {table : List (κ × α)} :
    get? key table = none ↔ key ∉ keys table := by
  induction table with
  | nil => simp [get?, keys]
  | cons p rest ih =>
    by_cases h : p.1 = key
    · simp [get?, keys, h]
    · simpa [get?, keys, h, Ne.symm h] using ih

/-- In a table that has each key once, the value of a key is told by membership. -/
theorem get?_eq_some_iff {key : κ} {value : α} {table : List (κ × α)} (h : (keys table).Nodup) :
    get? key table = some value ↔ (key, value) ∈ table := by
  induction table with
  | nil => simp [get?]
  | cons p rest ih =>
    obtain ⟨k, v⟩ := p
    obtain ⟨hnot, hrest⟩ := List.nodup_cons.mp h
    by_cases hk : k = key
    · subst hk
      have hother : (k, value) ∉ rest := fun hmem => hnot (List.mem_map.mpr ⟨_, hmem, rfl⟩)
      simp [get?, hother, eq_comm]
    · simpa [get?, hk, Ne.symm hk] using ih hrest

/-- A key of the front part hides the same key in the back part. -/
theorem get?_append (key : κ) (front back : List (κ × α)) :
    get? key (front ++ back) = (get? key front).or (get? key back) := by
  induction front with
  | nil => rfl
  | cons p front ih =>
    by_cases h : p.1 = key
    · simp [get?, h]
    · simp [get?, h, ih]

theorem get?_erase_self (key : κ) (table : List (κ × α)) : get? key (erase key table) = none := by
  induction table with
  | nil => rfl
  | cons p rest ih =>
    by_cases h : p.1 = key
    · simpa [erase, h] using ih
    · simpa [erase, h, get?] using ih

theorem get?_erase_of_ne {key other : κ} (h : other ≠ key) (table : List (κ × α)) :
    get? other (erase key table) = get? other table := by
  induction table with
  | nil => rfl
  | cons p rest ih =>
    by_cases hk : p.1 = key
    · have : p.1 ≠ other := fun e => h (e.symm.trans hk)
      simpa [erase, hk, get?, Ne.symm h, this] using ih
    · by_cases ho : p.1 = other
      · subst ho
        simp [erase, hk, get?]
      · simpa [erase, hk, get?, ho] using ih

theorem get?_set_self (key : κ) (value : α) (table : List (κ × α)) :
    get? key (set key value table) = some value := by
  simp [set, get?]

theorem get?_set_of_ne {key other : κ} (h : other ≠ key) (value : α) (table : List (κ × α)) :
    get? other (set key value table) = get? other table := by
  simp [set, get?, Ne.symm h, get?_erase_of_ne h]

end CallGuard.Keyed
