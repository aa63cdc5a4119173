import CallGuard.Number

/-! # JSON values

Values keep the members of an object in the order of their keys, each key once, so that equal
objects are equal lists. -/

namespace CallGuard

inductive Json where
  | null
  | bool (b : Bool)
  | number (n : Number)
  | string (s : String)
  | array (items : List Json)
  | object (members : List (String × Json))
deriving Repr

/-! ## Members -/

namespace Members

/-- Puts a member at its place among members in key order; it replaces one with the same key. -/
def insert {α : Type} (key : String) (value : α) : List (String × α) → List (String × α)
  | [] => [(key, value)]
  | (k, v) :: rest =>
    if key < k then (key, value) :: (k, v) :: rest
    else if key = k then (key, value) :: rest
    else (k, v) :: insert key value rest

/-- Orders members by their keys; of members with one key the last counts. -/
def ofList {α : Type} (members : List (String × α)) : List (String × α) :=
  members.foldl (fun sorted m => insert m.1 m.2 sorted) []

def get? {α : Type} (key : String) : List (String × α) → Option α
  | [] => none
  | (k, v) :: rest => if k = key then some v else get? key rest

/-- Members in strictly increasing order of their keys. -/
def Ordered {α : Type} (members : List (String × α)) : Prop :=
  members.Pairwise fun a b => a.1 < b.1

theorem mem_insert {α : Type} {key : String} {value : α} {members : List (String × α)}
    {m : String × α} (h : m ∈ insert key value members) : m = (key, value) ∨ m ∈ members := by
  induction members with
  | nil => simpa [insert] using h
  | cons a rest ih =>
    obtain ⟨k, v⟩ := a
    simp only [insert] at h
    split at h
    · simpa using h
    · split at h
      · rcases List.mem_cons.1 h with h | h
        · exact .inl h
        · exact .inr (List.mem_cons_of_mem _ h)
      · rcases List.mem_cons.1 h with h | h
        · exact .inr (h ▸ List.mem_cons_self ..)
        · rcases ih h with h | h
          · exact .inl h
          · exact .inr (List.mem_cons_of_mem _ h)

theorem ordered_insert {α : Type} (key : String) (value : α) {members : List (String × α)}
    (h : Ordered members) : Ordered (insert key value members) := by
  induction members with
  | nil => simp [insert, Ordered]
  | cons a rest ih =>
    obtain ⟨k, v⟩ := a
    have hrest : Ordered rest := (List.pairwise_cons.1 h).2
    have hfirst := (List.pairwise_cons.1 h).1
    simp only [insert]
    split
    next hlt =>
      refine List.pairwise_cons.2 ⟨fun b hb => ?_, h⟩
      rcases List.mem_cons.1 hb with rfl | hb
      · exact hlt
      · exact String.lt_trans hlt (hfirst b hb)
    next hlt =>
      split
      next heq =>
        subst heq
        exact List.pairwise_cons.2 ⟨hfirst, hrest⟩
      next hne =>
        refine List.pairwise_cons.2 ⟨fun b hb => ?_, ih hrest⟩
        rcases mem_insert hb with rfl | hb
        · rcases Std.lt_trichotomy key k with h1 | h1 | h1
          · exact absurd h1 hlt
          · exact absurd h1 hne
          · exact h1
        · exact hfirst b hb

theorem ordered_ofList {α : Type} (members : List (String × α)) : Ordered (ofList members) := by
  have go : ∀ (ms sorted : List (String × α)), Ordered sorted →
      Ordered (ms.foldl (fun sorted m => insert m.1 m.2 sorted) sorted) := by
    intro ms
    induction ms with
    | nil => exact fun _ h => h
    | cons m ms ih => exact fun sorted h => ih _ (ordered_insert m.1 m.2 h)
  exact go members [] List.Pairwise.nil

end Members

/-! ## Parts of a value -/

namespace Json

def text? : Json → Option String
  | string s => some s
  | _ => none

def nat? : Json → Option Nat
  | number n => n.nat?
  | _ => none

def member? (key : String) : Json → Option Json
  | object members => Members.get? key members
  | _ => none

/-- A list of texts; none if it holds anything else. -/
def texts? : Json → Option (List String)
  | array items => items.mapM text?
  | _ => none

/-! ## Equality

Numbers count as equal when they are so numerically. -/

mutual

def same : Json → Json → Bool
  | null, null => true
  | bool a, bool b => a == b
  | number a, number b => a.same b
  | string a, string b => a == b
  | array a, array b => sameItems a b
  | object a, object b => sameMembers a b
  | _, _ => false

def sameItems : List Json → List Json → Bool
  | [], [] => true
  | a :: as, b :: bs => same a b && sameItems as bs
  | _, _ => false

def sameMembers : List (String × Json) → List (String × Json) → Bool
  | [], [] => true
  | (k, a) :: as, (l, b) :: bs => k == l && same a b && sameMembers as bs
  | _, _ => false

end

end Json

end CallGuard
