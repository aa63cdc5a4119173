import Mathlib
import CallGuard.Json.Document
import CallGuard.Json.Printer

/-! # Literals

A string has many spellings, as every character can be written with its code and some with short
escapes. All of them are read as the string, and the one that is written is among them. An integer
has one spelling. Both statements leave the rest of the text open: a string ends at its closing
quote, and an integer where something follows that cannot belong to a number. -/

namespace CallGuard

/-! ## Spellings of strings -/

namespace Json

/-- The hexadecimal digit of a number below 16, in either case. -/
def IsHex (n : Nat) (c : Char) : Prop :=
  n < 16 ∧ (c = n.digitChar ∨ c = n.digitChar.toUpper)

instance (n : Nat) (c : Char) : Decidable (IsHex n c) :=
  inferInstanceAs (Decidable (_ ∧ _))

/-- The four hexadecimal digits of a 16-bit code. -/
structure IsCode (n : Nat) (a b c d : Char) : Prop where
  first : IsHex (n / 0x1000) a
  second : IsHex (n / 0x100 % 0x10) b
  third : IsHex (n / 0x10 % 0x10) c
  fourth : IsHex (n % 0x10) d

theorem isCode_iff {n : Nat} {a b c d : Char} : IsCode n a b c d ↔ IsHex (n / 0x1000) a ∧
    IsHex (n / 0x100 % 0x10) b ∧ IsHex (n / 0x10 % 0x10) c ∧ IsHex (n % 0x10) d :=
  ⟨fun h => ⟨h.1, h.2, h.3, h.4⟩, fun h => ⟨h.1, h.2.1, h.2.2.1, h.2.2.2⟩⟩

instance (n : Nat) (a b c d : Char) : Decidable (IsCode n a b c d) :=
  decidable_of_iff _ isCode_iff.symm

/-- The characters after the backslash of a short escape, and what they stand for. -/
def shortEscapes : List (Char × Char) :=
  [('"', '"'), ('\\', '\\'), ('/', '/'), ('b', '\x08'), ('f', '\x0c'), ('n', '\n'), ('r', '\r'),
   ('t', '\t')]

/-- The spellings of a character inside a string: itself, a short escape, its code, or the two
codes that make up one beyond 16 bits. -/
inductive SpellsChar : Char → List Char → Prop where
  | plain {c} (hlow : 0x20 ≤ c.toNat) (hquote : c ≠ '"') (hslash : c ≠ '\\') : SpellsChar c [c]
  | short {c e} (h : (e, c) ∈ shortEscapes) : SpellsChar c ['\\', e]
  | code {c x y z w} (h : IsCode c.toNat x y z w) : SpellsChar c ['\\', 'u', x, y, z, w]
  | pair {c x y z w x' y' z' w'} (hbeyond : 0x10000 ≤ c.toNat)
      (hhigh : IsCode (0xD800 + (c.toNat - 0x10000) / 0x400) x y z w)
      (hlow : IsCode (0xDC00 + (c.toNat - 0x10000) % 0x400) x' y' z' w') :
      SpellsChar c ['\\', 'u', x, y, z, w, '\\', 'u', x', y', z', w']

/-- The spellings of a string, with its quotes. -/
inductive SpellsString (s : String) : List Char → Prop where
  | intro {ts : List (List Char)} (h : List.Forall₂ SpellsChar s.toList ts) :
      SpellsString s ('"' :: (ts.flatten ++ ['"']))

/-! ## Strings that are written -/

theorem isCode_shortHex {n : Nat} (h : n < 0x20) :
    IsCode n '0' '0' (n / 16).digitChar (n % 16).digitChar := by
  have hfirst : n / 0x1000 = 0 := by omega
  have hsecond : n / 0x100 % 0x10 = 0 := by omega
  have hthird : n / 0x10 % 0x10 = n / 16 := by omega
  refine ⟨⟨by omega, .inl ?_⟩, ⟨by omega, .inl ?_⟩, ⟨by omega, .inl ?_⟩, ⟨by omega, .inl rfl⟩⟩
  · rw [hfirst]
    rfl
  · rw [hsecond]
    rfl
  · rw [hthird]

theorem spellsChar_escape (c : Char) : SpellsChar c (escape c) := by
  unfold escape
  split_ifs with hquote hslash hhigh hb ht hn hf hr
  · exact .short (by simp [shortEscapes, hquote])
  · exact .short (by simp [shortEscapes, hslash])
  · exact .plain hhigh hquote hslash
  · exact .short (by simp [shortEscapes, hb])
  · exact .short (by simp [shortEscapes, ht])
  · exact .short (by simp [shortEscapes, hn])
  · exact .short (by simp [shortEscapes, hf])
  · exact .short (by simp [shortEscapes, hr])
  · exact .code (isCode_shortHex (Nat.lt_of_not_le hhigh))

theorem spellsString_quote (s : String) : SpellsString s (quote s) := by
  have hchars : List.Forall₂ SpellsChar s.toList (s.toList.map escape) := by
    rw [List.forall₂_map_right_iff, List.forall₂_same]
    exact fun c _ => spellsChar_escape c
  exact .intro hchars

end Json

/-! ## Strings that are read -/

namespace Document

open Json

theorem hexDigit?_of_isHex {n : Nat} {c : Char} (h : IsHex n c) : hexDigit? c = some n := by
  have hall : ∀ n : Fin 16, hexDigit? n.val.digitChar = some n.val ∧
      hexDigit? n.val.digitChar.toUpper = some n.val := by decide
  obtain ⟨hn, rfl | rfl⟩ := h
  · exact (hall ⟨n, hn⟩).1
  · exact (hall ⟨n, hn⟩).2

theorem hexCode?_of_isCode {n : Nat} {a b c d : Char} (h : IsCode n a b c d) :
    hexCode? a b c d = some n := by
  have hwhole : ((n / 0x1000 * 16 + n / 0x100 % 0x10) * 16 + n / 0x10 % 0x10) * 16 + n % 0x10 =
      n := by omega
  simp [hexCode?, hexDigit?_of_isHex h.first, hexDigit?_of_isHex h.second,
    hexDigit?_of_isHex h.third, hexDigit?_of_isHex h.fourth, hwhole]

theorem shortEscape?_of_mem {c e : Char} (h : (e, c) ∈ shortEscapes) : shortEscape? e = some c := by
  have hall : ∀ p ∈ shortEscapes, shortEscape? p.1 = some p.2 := by decide
  exact hall (e, c) h

/-- A character that is written as it is makes a piece of its own. -/
theorem pieces?_cons {c : Char} (hlow : 0x20 ≤ c.toNat) (hquote : c ≠ '"') (hslash : c ≠ '\\')
    (cs : List Char) : pieces? (c :: cs) = (pieces? cs).map fun p => (.plain c :: p.1, p.2) := by
  rw [pieces?]
  · rw [if_neg (by simp [Nat.not_lt.mpr hlow, hslash])]
    cases pieces? cs <;> rfl
  · exact hquote
  · rintro a b c' d rest rfl
    exact absurd rfl hslash
  · rintro d rest rfl
    exact absurd rfl hslash

/-- A character that is written with a short escape makes a piece of its own. -/
theorem pieces?_shortEscape {c e : Char} (he : shortEscape? e = some c) (cs : List Char) :
    pieces? ('\\' :: e :: cs) = (pieces? cs).map fun p => (.plain c :: p.1, p.2) := by
  have hu : e ≠ 'u' := by
    rintro rfl
    cases he
  rw [pieces?, he]
  · cases pieces? cs <;> rfl
  · intro a b c' d rest heq
    exact absurd heq hu

theorem pieces?_code {n : Nat} {a b c d : Char} (h : IsCode n a b c d) (cs : List Char) :
    pieces? ('\\' :: 'u' :: a :: b :: c :: d :: cs) =
      (pieces? cs).map fun p => (.code n :: p.1, p.2) := by
  rw [pieces?, hexCode?_of_isCode h]
  cases pieces? cs <;> rfl

/-- A code that is no half of a pair stands for its character. -/
theorem meaning?_code (c : Char) (ps : List Piece) :
    meaning? (.code c.toNat :: ps) = (meaning? ps).map (c :: ·) := by
  have hwhole : c.toNat < 0xD800 ∨ 0xDFFF < c.toNat := by
    rcases c.valid with hlow | hhigh
    · exact .inl hlow
    · exact .inr hhigh.1
  rw [meaning?.eq_def]
  dsimp only
  rw [if_pos hwhole, Char.ofNat_toNat]

/-- The two halves of a pair stand for the character that they make up. -/
theorem meaning?_pair {c : Char} (h : 0x10000 ≤ c.toNat) (ps : List Piece) :
    meaning? (.code (0xD800 + (c.toNat - 0x10000) / 0x400) ::
        .code (0xDC00 + (c.toNat - 0x10000) % 0x400) :: ps) =
      (meaning? ps).map (c :: ·) := by
  have hbound : c.toNat < 0x110000 := by
    rcases c.valid with hlow | hhigh
    · exact Nat.lt_trans hlow (by decide)
    · exact hhigh.2
  have hwhole : 0x10000 + (0xD800 + (c.toNat - 0x10000) / 0x400 - 0xD800) * 0x400 +
      (0xDC00 + (c.toNat - 0x10000) % 0x400 - 0xDC00) = c.toNat := by omega
  rw [meaning?.eq_def]
  dsimp only
  rw [if_neg (by omega), if_pos (by omega), hwhole, Char.ofNat_toNat]

/-- A spelling of a character makes pieces that stand for the character. -/
theorem SpellsChar.exists_pieces {c : Char} {t : List Char} (h : SpellsChar c t) :
    ∃ ps, (∀ cs, pieces? (t ++ cs) = (pieces? cs).map fun p => (ps ++ p.1, p.2)) ∧
      ∀ qs, meaning? (ps ++ qs) = (meaning? qs).map (c :: ·) := by
  cases h with
  | plain hlow hquote hslash =>
      exact ⟨[.plain c], pieces?_cons hlow hquote hslash, fun qs => rfl⟩
  | short h =>
      exact ⟨[.plain c], pieces?_shortEscape (shortEscape?_of_mem h), fun qs => rfl⟩
  | code h =>
      exact ⟨[.code c.toNat], pieces?_code h, meaning?_code c⟩
  | pair hbeyond hhigh hlow =>
      refine ⟨[.code _, .code _], fun cs => ?_, meaning?_pair hbeyond⟩
      simp only [List.cons_append, List.nil_append]
      rw [pieces?_code hhigh, pieces?_code hlow, Option.map_map]
      rfl

theorem exists_pieces {cs : List Char} {ts : List (List Char)}
    (h : List.Forall₂ SpellsChar cs ts) (rest : List Char) :
    ∃ ps, pieces? (ts.flatten ++ '"' :: rest) = some (ps, rest) ∧ meaning? ps = some cs := by
  induction h with
  | nil => exact ⟨[], rfl, rfl⟩
  | cons hc _ ih =>
      obtain ⟨qs, hqs, hmeaning⟩ := ih
      obtain ⟨ps, hps, hchar⟩ := SpellsChar.exists_pieces hc
      refine ⟨ps ++ qs, ?_, ?_⟩
      · rw [List.flatten_cons, List.append_assoc, hps, hqs, Option.map_some]
      · rw [hchar, hmeaning, Option.map_some]

/-- A spelling of a string is read as the string, whatever follows its closing quote. -/
theorem exists_quoted {s : String} {t : List Char} (h : SpellsString s t) :
    ∃ body, t = '"' :: body ∧ ∀ rest, quoted? (body ++ rest) = some (some s, rest) := by
  cases h with
  | @intro ts hts =>
      refine ⟨_, rfl, fun rest => ?_⟩
      obtain ⟨ps, hps, hmeaning⟩ := exists_pieces hts rest
      rw [List.append_assoc, List.cons_append, List.nil_append, quoted?, hps, Option.map_some,
        hmeaning, Option.map_some, String.ofList_toList]

end Document

/-! ## Integers -/

/-- A number is an integer that fits into 64 bits with a sign or without. -/
def Number.IsWord : Number → Prop
  | integer n => -(2 ^ 63) ≤ n ∧ n < 2 ^ 64
  | double _ => False

/-- The decimal digits of a natural as numbers. -/
def digitValues (n : Nat) : List Nat :=
  (Nat.toDigits 10 n).map fun c => c.toNat - 48

theorem digitValues_of_lt {n : Nat} (h : n < 10) : digitValues n = [n] := by
  rw [digitValues, Nat.toDigits_of_lt_base h, List.map_singleton,
    Nat.toNat_digitChar_sub_48_of_lt_ten h]

theorem digitValues_of_le {n : Nat} (h : 10 ≤ n) :
    digitValues n = digitValues (n / 10) ++ [n % 10] := by
  have hlast : (n % 10).digitChar.toNat - 48 = n % 10 :=
    Nat.toNat_digitChar_sub_48_of_lt_ten (Nat.mod_lt n (by decide))
  rw [digitValues, Nat.toDigits_of_base_le (by decide) h, List.map_append, List.map_singleton,
    hlast, digitValues]

/-- No natural but zero has a zero in front. -/
theorem exists_digitValues_eq_cons {n : Nat} (h : 0 < n) :
    ∃ d ds, digitValues n = d :: ds ∧ d ≠ 0 := by
  induction n using Nat.strong_induction_on with
  | _ n ih =>
      by_cases hsmall : n < 10
      · exact ⟨n, [], digitValues_of_lt hsmall, Nat.ne_of_gt h⟩
      · have hle : 10 ≤ n := Nat.le_of_not_lt hsmall
        obtain ⟨d, ds, hds, hd⟩ := ih (n / 10) (by omega) (by omega)
        exact ⟨d, ds ++ [n % 10], by rw [digitValues_of_le hle, hds]; rfl, hd⟩

namespace Numeral

theorem absorb_append {s m : Nat} {ds es : List Nat} (h : absorb s ds = (m, [])) :
    absorb s (ds ++ es) = absorb m es := by
  induction ds generalizing s with
  | nil =>
      obtain rfl : s = m := congrArg Prod.fst h
      rfl
  | cons d ds ih =>
      rw [absorb] at h
      rw [List.cons_append, absorb]
      split at h
      next hfits => rw [if_pos hfits, ih h]
      next => cases h

/-- The digits of a natural below `2 ^ 64` make up the natural again. -/
theorem absorb_digitValues {n : Nat} (h : n < 2 ^ 64) : absorb 0 (digitValues n) = (n, []) := by
  induction n using Nat.strong_induction_on with
  | _ n ih =>
      by_cases hsmall : n < 10
      · rw [digitValues_of_lt hsmall, absorb, if_pos (by omega), Nat.mul_zero, Nat.zero_add]
        rfl
      · have hfront := ih (n / 10) (by omega) (by omega)
        have hwhole : 10 * (n / 10) + n % 10 = n := Nat.div_add_mod n 10
        rw [digitValues_of_le (Nat.le_of_not_lt hsmall), absorb_append hfront, absorb, hwhole,
          if_pos (by simpa using h)]
        rfl

/-- The numeral that an integer is written as. -/
def ofInt (n : Int) : Numeral :=
  ⟨decide (n < 0), digitValues n.natAbs, none, none⟩

/-- An integer of 64 bits is the value of its numeral. -/
theorem number?_ofInt {n : Int} (h : (Number.integer n).IsWord) :
    (ofInt n).number? = some (.integer n) := by
  obtain ⟨hlow, hhigh⟩ := h
  have habsorb : absorb 0 (digitValues n.natAbs) = (n.natAbs, []) :=
    absorb_digitValues (by omega)
  have hinteger : (ofInt n).integer? = some n := by
    simp only [integer?, ofInt, habsorb, Option.isNone_none, List.isEmpty_nil, Bool.and_self,
      if_true]
    by_cases hneg : n < 0
    · have hpos : 0 < n.natAbs := by omega
      have hle : n.natAbs ≤ 1 <<< 63 := by omega
      have hvalue : -(n.natAbs : Int) = n := by omega
      simp only [hneg, hpos, hle, hvalue, decide_true, Bool.and_self, if_true]
    · have hvalue : (n.natAbs : Int) = n := by omega
      simp only [hneg, hvalue, decide_false, Bool.false_eq_true, if_false]
  rw [number?, hinteger]

end Numeral

namespace Document

/-- A place where a number ends: that of the text, or one before a character that cannot belong to
a number. -/
def Ends (cs : List Char) : Prop :=
  ∀ c, cs.head? = some c → c.isDigit = false ∧ c ≠ '.' ∧ c ≠ 'e' ∧ c ≠ 'E'

theorem isDigit_of_mem_toDigits {n : Nat} {c : Char} (h : c ∈ Nat.toDigits 10 n) :
    c.isDigit = true :=
  Nat.isDigit_of_mem_toDigits (by decide) (by decide) h

theorem Ends.takeWhile_isDigit {rest : List Char} (h : Ends rest) :
    rest.takeWhile Char.isDigit = [] ∧ rest.dropWhile Char.isDigit = rest := by
  cases rest with
  | nil => exact ⟨rfl, rfl⟩
  | cons c rest =>
      have hdigit : c.isDigit = false := (h c rfl).1
      simp [hdigit]

theorem digits_toDigits (n : Nat) {rest : List Char} (h : Ends rest) :
    digits (Nat.toDigits 10 n ++ rest) = (digitValues n, rest) := by
  have hall : ∀ c ∈ Nat.toDigits 10 n, c.isDigit = true := fun c => isDigit_of_mem_toDigits
  obtain ⟨htake, hdrop⟩ := h.takeWhile_isDigit
  rw [digits, List.takeWhile_append_of_pos hall, List.dropWhile_append_of_pos hall, htake, hdrop,
    List.append_nil, digitValues]

theorem whole?_toDigits (n : Nat) {rest : List Char} (h : Ends rest) :
    whole? (Nat.toDigits 10 n ++ rest) = some (digitValues n, rest) := by
  rw [whole?, digits_toDigits n h]
  rcases Nat.eq_zero_or_pos n with rfl | hpos
  · rfl
  · obtain ⟨d, ds, hds, hd⟩ := exists_digitValues_eq_cons hpos
    rw [hds]
    split
    next heq => cases heq
    next heq => exact absurd (List.cons.inj (Prod.mk.inj heq).1).1 hd
    next => rfl

theorem fraction?_of_ends {rest : List Char} (h : Ends rest) :
    fraction? rest = some (none, rest) := by
  unfold fraction?
  split
  next => exact absurd rfl (h '.' rfl).2.1
  next => rfl

theorem exponent?_of_ends {rest : List Char} (h : Ends rest) :
    exponent? rest = some (none, rest) := by
  cases rest with
  | nil => rfl
  | cons c rest =>
      obtain ⟨-, -, he, hE⟩ := h c rfl
      rw [exponent?.eq_def]
      exact if_neg (by simp [he, hE])

theorem text_integer_toList (n : Int) :
    (Number.integer n).text.toList =
      if n < 0 then '-' :: Nat.toDigits 10 n.natAbs else Nat.toDigits 10 n.natAbs := by
  rw [Number.text, Int.toString_eq_repr, Int.repr_eq_if]
  by_cases hneg : n < 0
  · have habs : (-n).toNat = n.natAbs := by omega
    rw [if_neg (Int.not_le.mpr hneg), if_pos hneg, habs]
    simp
  · have habs : n.toNat = n.natAbs := by omega
    rw [if_pos (Int.not_lt.mp hneg), if_neg hneg, habs]
    simp

theorem exists_toDigits_eq_cons (n : Nat) :
    ∃ c cs, Nat.toDigits 10 n = c :: cs ∧ c.isDigit = true := by
  have hne : Nat.toDigits 10 n ≠ [] := Nat.toDigits_ne_nil
  obtain ⟨c, cs, hcs⟩ := List.exists_cons_of_ne_nil hne
  exact ⟨c, cs, hcs, isDigit_of_mem_toDigits (hcs ▸ List.mem_cons_self)⟩

/-- A written integer is read back as far as it goes. -/
theorem numeral?_text (n : Int) {rest : List Char} (h : Ends rest) :
    numeral? ((Number.integer n).text.toList ++ rest) = some (.ofInt n, rest) := by
  have hwhole := whole?_toDigits n.natAbs h
  rw [text_integer_toList]
  by_cases hneg : n < 0
  · rw [if_pos hneg, List.cons_append]
    simp [numeral?, hwhole, fraction?_of_ends h, exponent?_of_ends h, Numeral.ofInt, hneg]
  · rw [if_neg hneg]
    obtain ⟨c, cs, hcs, hdigit⟩ := exists_toDigits_eq_cons n.natAbs
    have hminus : c ≠ '-' := by
      rintro rfl
      cases hdigit
    rw [hcs, List.cons_append] at hwhole ⊢
    simp [numeral?, hminus, hwhole, fraction?_of_ends h, exponent?_of_ends h, Numeral.ofInt, hneg]

/-- The characters that integers begin with. -/
def IsNumeric (c : Char) : Prop :=
  c = '-' ∨ c.isDigit = true

theorem exists_text_eq_cons (n : Int) :
    ∃ c cs, (Number.integer n).text.toList = c :: cs ∧ IsNumeric c := by
  rw [text_integer_toList]
  split
  next => exact ⟨'-', _, rfl, .inl rfl⟩
  next =>
    obtain ⟨c, cs, hcs, hdigit⟩ := exists_toDigits_eq_cons n.natAbs
    exact ⟨c, cs, hcs, .inr hdigit⟩

theorem IsNumeric.ne {c d : Char} (hc : IsNumeric c) (hd : d ≠ '-' ∧ d.isDigit = false) :
    c ≠ d := by
  rintro rfl
  rcases hc with hminus | hdigit
  · exact hd.1 hminus
  · rw [hd.2] at hdigit
    cases hdigit

end Document

end CallGuard
