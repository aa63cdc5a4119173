import CallGuard.Proofs.Json.Documents

/-! # Characters of compact text

Escapes and numbers are visible ASCII, so that any other character of a compact text comes from a
string of the value, and control characters below U+0020 do not occur at all. -/

namespace CallGuard.Json

mutual

/-- The texts inside a value: its strings and the keys of its objects. -/
def strings : Json → List String
  | string s => [s]
  | array items => itemStrings items
  | object members => memberStrings members
  | _ => []

def itemStrings : List Json → List String
  | [] => []
  | v :: items => v.strings ++ itemStrings items

def memberStrings : List (String × Json) → List String
  | [] => []
  | (k, v) :: members => k :: (v.strings ++ memberStrings members)

end

theorem strings_array_map_string (names : List String) :
    (array (names.map string)).strings = names := by
  rw [strings]
  induction names with
  | nil => rfl
  | cons s names ih =>
      rw [List.map_cons, itemStrings, ih]
      rfl

/-- The visible ASCII characters and the space. -/
def isPlain (c : Char) : Bool :=
  0x20 ≤ c.toNat && c.toNat < 0x7f

/-- A character that some texts account for: it is plain, or stands in one of them and need not
be escaped. -/
def Shows (texts : List String) (c : Char) : Prop :=
  isPlain c = true ∨ 0x20 ≤ c.toNat ∧ ∃ s ∈ texts, c ∈ s.toList

theorem Shows.mono {texts more : List String} {c : Char} (h : Shows texts c)
    (hsub : texts ⊆ more) : Shows more c := by
  rcases h with hplain | ⟨hlow, s, hs, hc⟩
  · exact .inl hplain
  · exact .inr ⟨hlow, s, hsub hs, hc⟩

/-! ## Strings and numbers -/

theorem all_isPlain_shortHex {n : Nat} (h : n < 0x20) :
    ('\\' :: 'u' :: shortHex n).all isPlain = true := by
  have hall : ∀ n : Fin 0x20, ('\\' :: 'u' :: shortHex n.val).all isPlain = true := by decide
  exact hall ⟨n, h⟩

/-- A character is written as itself or else in plain characters. -/
theorem escape_eq_or_all_isPlain (c : Char) :
    escape c = [c] ∧ 0x20 ≤ c.toNat ∨ (escape c).all isPlain = true := by
  unfold escape
  split_ifs with _ _ hhigh
  · exact .inr rfl
  · exact .inr rfl
  · exact .inl ⟨rfl, hhigh⟩
  · exact .inr rfl
  · exact .inr rfl
  · exact .inr rfl
  · exact .inr rfl
  · exact .inr rfl
  · exact .inr (all_isPlain_shortHex (Nat.lt_of_not_le hhigh))

theorem shows_of_mem_quote {s : String} {c : Char} (h : c ∈ quote s) : Shows [s] c := by
  have hquote : isPlain '"' = true := rfl
  rw [quote, List.mem_cons, List.mem_append, List.mem_flatMap, List.mem_singleton] at h
  rcases h with rfl | ⟨d, hd, hc⟩ | rfl
  · exact .inl hquote
  · rcases escape_eq_or_all_isPlain d with ⟨hself, hlow⟩ | hplain
    · rw [hself, List.mem_singleton] at hc
      subst hc
      exact .inr ⟨hlow, s, List.mem_singleton_self s, hd⟩
    · exact .inl (List.all_eq_true.mp hplain c hc)
  · exact .inl hquote

theorem isPlain_of_mem_text {n : Int} {c : Char} (h : c ∈ (Number.integer n).text.toList) :
    isPlain c = true := by
  have hdigit : ∀ d ∈ Nat.toDigits 10 n.natAbs, isPlain d = true := by
    intro d hd
    have hrange : 48 ≤ d.toNat ∧ d.toNat ≤ 57 := by
      simpa [Char.isDigit, UInt32.le_iff_toNat_le] using Document.isDigit_of_mem_toDigits hd
    simp [isPlain]
    omega
  rw [Document.text_integer_toList] at h
  split at h
  next =>
    rcases List.mem_cons.mp h with rfl | h
    · rfl
    · exact hdigit c h
  next => exact hdigit c h

/-! ## Values -/

mutual

/-- The text of an exact value shows its strings and nothing else. -/
theorem shows_of_mem_chars {c : Char} : ∀ v : Json, v.IsExact → c ∈ v.chars → Shows v.strings c
  | null, _, h => .inl (List.all_eq_true.mp rfl c h)
  | bool true, _, h => .inl (List.all_eq_true.mp rfl c h)
  | bool false, _, h => .inl (List.all_eq_true.mp rfl c h)
  | number (.integer n), _, h => by
      rw [chars] at h
      exact .inl (isPlain_of_mem_text h)
  | number (.double _), hv, _ => hv.elim
  | string s, _, h => by
      rw [chars] at h
      exact shows_of_mem_quote h
  | array [], _, h => .inl (List.all_eq_true.mp rfl c h)
  | array (v :: items), hv, h => by
      rw [chars, List.mem_cons, List.mem_append] at h
      rw [strings, itemStrings]
      rcases h with rfl | h | h
      · exact .inl rfl
      · exact (shows_of_mem_chars v hv.1 h).mono (List.subset_append_left _ _)
      · exact (shows_of_mem_itemChars items hv.2 h).mono (List.subset_append_right _ _)
  | object [], _, h => .inl (List.all_eq_true.mp rfl c h)
  | object ((k, v) :: members), hv, h => by
      rw [chars, List.mem_cons, List.mem_append, List.mem_cons, List.mem_append] at h
      rw [strings, memberStrings]
      rcases h with rfl | h | rfl | h | h
      · exact .inl rfl
      · exact (shows_of_mem_quote h).mono (by simp)
      · exact .inl rfl
      · exact (shows_of_mem_chars v hv.2.1 h).mono (by simp)
      · exact (shows_of_mem_memberChars members hv.2.2 h).mono (by simp)

theorem shows_of_mem_itemChars {c : Char} :
    ∀ items : List Json, AreExact items → c ∈ itemChars items → Shows (itemStrings items) c
  | [], _, h => .inl (List.all_eq_true.mp rfl c h)
  | v :: items, hv, h => by
      rw [itemChars, List.mem_cons, List.mem_append] at h
      rw [itemStrings]
      rcases h with rfl | h | h
      · exact .inl rfl
      · exact (shows_of_mem_chars v hv.1 h).mono (List.subset_append_left _ _)
      · exact (shows_of_mem_itemChars items hv.2 h).mono (List.subset_append_right _ _)

theorem shows_of_mem_memberChars {c : Char} :
    ∀ members : List (String × Json), HaveExact members → c ∈ memberChars members →
      Shows (memberStrings members) c
  | [], _, h => .inl (List.all_eq_true.mp rfl c h)
  | (k, v) :: members, hv, h => by
      rw [memberChars, List.mem_cons, List.mem_append, List.mem_cons, List.mem_append] at h
      rw [memberStrings]
      rcases h with rfl | h | rfl | h | h
      · exact .inl rfl
      · exact (shows_of_mem_quote h).mono (by simp)
      · exact .inl rfl
      · exact (shows_of_mem_chars v hv.1 h).mono (by simp)
      · exact (shows_of_mem_memberChars members hv.2 h).mono (by simp)

end

end CallGuard.Json
