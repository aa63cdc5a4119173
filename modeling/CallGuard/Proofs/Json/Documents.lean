import CallGuard.Identity
import CallGuard.Proofs.Json.Grammar

/-! # Values read back

The compact text of a value is one of its spellings, provided that its numbers are 64-bit integers.
So it is read back as the value, unless it is nested too deep. -/

namespace CallGuard

/-! ## Members in key order -/

namespace Members

variable {α : Type}

theorem insert_of_lt {key : String} {value : α} {members : List (String × α)}
    (h : ∀ m ∈ members, m.1 < key) : insert key value members = members ++ [(key, value)] := by
  induction members with
  | nil => rfl
  | cons m rest ih =>
      obtain ⟨hm, hrest⟩ := List.forall_mem_cons.mp h
      have hlt : ¬ key < m.1 := String.lt_asymm hm
      have hne : ¬ key = m.1 := fun heq => String.lt_irrefl _ (heq ▸ hm)
      rw [insert, if_neg hlt, if_neg hne, ih hrest, List.cons_append]

/-- Members that are in order already stay as they are. -/
theorem ofList_eq_self {members : List (String × α)} (h : Ordered members) :
    ofList members = members := by
  -- the members before those still to be inserted are all smaller
  have hgo : ∀ sorted rest : List (String × α), Ordered (sorted ++ rest) →
      rest.foldl (fun sorted m => insert m.1 m.2 sorted) sorted = sorted ++ rest := by
    intro sorted rest
    induction rest generalizing sorted with
    | nil => simp
    | cons m rest ih =>
        intro hordered
        have hsmaller : ∀ p ∈ sorted, p.1 < m.1 := by
          intro p hp
          exact (List.pairwise_append.mp hordered).2.2 p hp m List.mem_cons_self
        have hsplit : sorted ++ m :: rest = sorted ++ [m] ++ rest := by simp
        rw [List.foldl_cons, insert_of_lt hsmaller, ih _ (hsplit ▸ hordered), hsplit]
  exact hgo [] members h

end Members

theorem Claims.ofJson?_json (c : Claims) : Claims.ofJson? c.json = some c := by
  have hmembers : Members.ofList c.members = c.members := Members.ofList_eq_self c.ordered
  simp only [json, ofJson?, ofMembers, hmembers]

/-! ## Exact values -/

namespace Json

mutual

/-- How deep arrays and objects are nested. -/
def depth : Json → Nat
  | array items => itemDepth items + 1
  | object members => memberDepth members + 1
  | _ => 0

def itemDepth : List Json → Nat
  | [] => 0
  | v :: items => max v.depth (itemDepth items)

def memberDepth : List (String × Json) → Nat
  | [] => 0
  | (_, v) :: members => max v.depth (memberDepth members)

end

mutual

/-- All numbers are 64-bit integers, and all objects keep their members in key order, as values
do. -/
def IsExact : Json → Prop
  | number n => n.IsWord
  | array items => AreExact items
  | object members => Members.Ordered members ∧ HaveExact members
  | _ => True

def AreExact : List Json → Prop
  | [] => True
  | v :: items => v.IsExact ∧ AreExact items

def HaveExact : List (String × Json) → Prop
  | [] => True
  | (_, v) :: members => v.IsExact ∧ HaveExact members

end

theorem isExact_strings (names : List String) : (array (names.map string)).IsExact := by
  rw [IsExact]
  induction names with
  | nil => trivial
  | cons s names ih => exact ⟨trivial, ih⟩

/-! ## Compact text -/

mutual

/-- The compact text of a value is one of its spellings. -/
theorem spells_chars : ∀ v : Json, v.IsExact → Spells v.depth (.value v) v.chars
  | null, _ => .null
  | bool true, _ => .isTrue
  | bool false, _ => .isFalse
  | number (.integer _), hv => .integer hv
  | number (.double _), hv => hv.elim
  | string s, _ => .string (spellsString_quote s)
  | array [], _ => .emptyArray allBlanks_nil
  | array (v :: items), hv => .array (spells_itemChars items hv.2 (spells_chars v hv.1))
  | object [], _ => .emptyObject allBlanks_nil
  | object ((k, v) :: members), hv => by
      have h := Spells.object (spells_memberChars members hv.2.2 k (spells_chars v hv.2.1))
      rwa [Members.ofList_eq_self hv.1] at h

/-- The first item is given by its spelling, so that the recursion goes along the others. -/
theorem spells_itemChars : ∀ items : List Json, AreExact items → ∀ {n : Nat} {v : Json}
    {t : List Char}, Spells n (.value v) t →
      Spells (max n (itemDepth items)) (.items (v :: items)) (t ++ itemChars items)
  | [], _, _, _, _, h => by
      rw [itemDepth, Nat.max_zero, itemChars]
      exact .lastItem h (.refl _)
  | w :: items, hitems, _, _, _, h => by
      rw [itemDepth, itemChars]
      exact .item h (.refl _) (spells_itemChars items hitems.2 (spells_chars w hitems.1))

theorem spells_memberChars : ∀ members : List (String × Json), HaveExact members →
    ∀ (k : String) {n : Nat} {v : Json} {t : List Char}, Spells n (.value v) t →
      Spells (max n (memberDepth members)) (.members ((k, v) :: members))
        (quote k ++ ':' :: (t ++ memberChars members))
  | [], _, k, _, _, _, h => by
      rw [memberDepth, Nat.max_zero, memberChars]
      exact .lastMember (spellsString_quote k) (.refl _) h (.refl _)
  | (l, w) :: members, hmembers, k, _, _, _, h => by
      rw [memberDepth, memberChars]
      exact .member (spellsString_quote k) (.refl _) h (.refl _)
        (spells_memberChars members hmembers.2 l (spells_chars w hmembers.1))

end

theorem spaced_text (v : Json) : Spaced v.chars v.text.toList := by
  rw [text, String.toList_ofList]
  exact .refl _

/-- The text of an exact value is read back as the value, unless it is nested too deep. -/
theorem parse?_text {v : Json} (hv : v.IsExact) :
    parse? v.text = if v.depth ≤ maxDepth then some v else none :=
  parse?_of_spells (spells_chars v hv) (spaced_text v)

end Json

/-- A list of strings is read back from its text. -/
theorem Decoder.ofText_strings (names : List String) :
    Decoder.ofText (.list .string) (Json.array (names.map .string)).text = .ok names :=
  ofText_of_spells (Json.spells_chars _ (Json.isExact_strings names)) (Json.spaced_text _)

end CallGuard
