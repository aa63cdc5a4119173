import Mathlib
import CallGuard.Header
import CallGuard.Proofs.Text

/-! # Laws of headers -/

namespace CallGuard

/-! ## Names -/

namespace HeaderName

/-- The characters of a token are visible ASCII characters and no capital letters. -/
theorem isTokenChar_range {c : Char} (h : isTokenChar c = true) :
    33 ≤ c.toNat ∧ c.toNat ≤ 126 ∧ ¬ (65 ≤ c.toNat ∧ c.toNat ≤ 90) := by
  simp only [isTokenChar, Bool.or_eq_true] at h
  rcases h with (hletter | hdigit) | hmark
  · have hr : 97 ≤ c.toNat ∧ c.toNat ≤ 122 := by
      simpa [Char.isLower, UInt32.le_iff_toNat_le] using hletter
    omega
  · have hr : 48 ≤ c.toNat ∧ c.toNat ≤ 57 := by
      simpa [Char.isDigit, UInt32.le_iff_toNat_le] using hdigit
    omega
  · have hmarks : ("!#$%&'*+-.^_`|~".toList.all fun c =>
        decide (33 ≤ c.toNat ∧ c.toNat ≤ 126 ∧ ¬ (65 ≤ c.toNat ∧ c.toNat ≤ 90))) = true := by
      decide
    exact of_decide_eq_true (List.all_eq_true.mp hmarks c (List.contains_iff_mem.mp hmark))

theorem isBlank_of_isTokenChar {c : Char} (h : isTokenChar c = true) : Text.isBlank c = false :=
  Text.not_blank_of_visible (isTokenChar_range h).1 (isTokenChar_range h).2.1

theorem toLower_of_isTokenChar {c : Char} (h : isTokenChar c = true) : c.toLower = c := by
  rw [Char.toLower]
  simp only [UInt32.le_iff_toNat_le, ge_iff_le]
  exact dif_neg (isTokenChar_range h).2.2

/-- The text of a name reads back as the name. -/
theorem ofConfig_text (n : HeaderName) : ofConfig n.text = .ok n := by
  have hchars : ∀ c ∈ n.text.toList, isTokenChar c = true := by
    have hv := n.valid
    simp only [isValid, Bool.and_eq_true, List.all_eq_true] at hv
    exact hv.2
  have htrim : Text.trim n.text = n.text :=
    Text.trim_eq_self fun c hc => isBlank_of_isTokenChar (hchars c hc)
  have hmap : n.text.toList.map Char.toLower = n.text.toList :=
    (List.map_congr_left fun c hc => toLower_of_isTokenChar (hchars c hc)).trans (List.map_id _)
  have hlower : Text.lower n.text = n.text := by
    simp only [Text.lower, hmap, String.ofList_toList]
  have hread : ofText? n.text = some n := by
    simp [ofText?, hlower, n.valid]
  unfold ofConfig
  rw [htrim, hread]

/-- The texts of some names stand for these names. -/
theorem exists_text_iff {names : List HeaderName} {n : HeaderName} :
    (∃ s ∈ names.map text, ofConfig s = .ok n) ↔ n ∈ names := by
  constructor
  · rintro ⟨s, hs, hn⟩
    obtain ⟨m, hm, rfl⟩ := List.mem_map.mp hs
    obtain rfl : m = n := by simpa [ofConfig_text] using hn
    exact hm
  · intro h
    exact ⟨n.text, List.mem_map_of_mem h, ofConfig_text n⟩

end HeaderName

/-! ## Values -/

namespace HeaderValue

/-- The characters that a value may hold: the tab, and all that are no ASCII control characters. -/
def IsTextual (c : Char) : Prop :=
  c = '\t' ∨ 0x20 ≤ c.toNat ∧ c ≠ '\x7f'

instance (c : Char) : Decidable (IsTextual c) :=
  inferInstanceAs (Decidable (c = '\t' ∨ 0x20 ≤ c.toNat ∧ c ≠ '\x7f'))

/-- All bytes of a character beyond ASCII may stand in a value. -/
theorem isValidByte_of_le {n : Nat} (hlow : 0x80 ≤ n) (hhigh : n < 0x100) :
    isValidByte (UInt8.ofNat n) = true := by
  have hall : ∀ n : Fin 0x80, isValidByte (UInt8.ofNat (n.val + 0x80)) = true := by decide
  have h := hall ⟨n - 0x80, by omega⟩
  rwa [Nat.sub_add_cancel hlow] at h

theorem isValidByte_iff_of_lt {n : Nat} (h : n < 0x80) :
    isValidByte (UInt8.ofNat n) = true ↔ n = 9 ∨ 0x20 ≤ n ∧ n ≠ 0x7f := by
  have hall : ∀ n : Fin 0x80,
      isValidByte (UInt8.ofNat n.val) = true ↔ n.val = 9 ∨ 0x20 ≤ n.val ∧ n.val ≠ 0x7f := by decide
  exact hall ⟨n, h⟩

theorem isTextual_iff_toNat (c : Char) :
    IsTextual c ↔ c.toNat = 9 ∨ 0x20 ≤ c.toNat ∧ c.toNat ≠ 0x7f := by
  have hiff (d : Char) : c = d ↔ c.toNat = d.toNat := Char.toNat_inj.symm
  rw [IsTextual, ne_eq, hiff, hiff]
  rfl

theorem all_isValidByte_utf8EncodeChar (c : Char) :
    (String.utf8EncodeChar c).all isValidByte = true ↔ IsTextual c := by
  rw [isTextual_iff_toNat]
  have hval : c.val.toNat = c.toNat := rfl
  unfold String.utf8EncodeChar
  rw [hval]
  dsimp only
  by_cases hascii : c.toNat ≤ 0x7f
  · rw [if_pos hascii, List.all_cons, List.all_nil, Bool.and_true]
    exact isValidByte_iff_of_lt (Nat.lt_succ_of_le hascii)
  · have hbeyond : c.toNat = 9 ∨ 0x20 ≤ c.toNat ∧ c.toNat ≠ 0x7f := by omega
    refine iff_of_true ?_ hbeyond
    rw [if_neg hascii]
    split
    · simp (disch := omega) only [List.all_cons, List.all_nil, isValidByte_of_le, Bool.and_self]
    · split
      · simp (disch := omega) only [List.all_cons, List.all_nil, isValidByte_of_le, Bool.and_self]
      · simp (disch := omega) only [List.all_cons, List.all_nil, isValidByte_of_le, Bool.and_self]

/-- A text stands for a value exactly when its characters may all stand in one. -/
theorem all_isValidByte_toUTF8 (s : String) :
    s.toUTF8.data.all isValidByte = true ↔ ∀ c ∈ s.toList, IsTextual c := by
  have hbytes : s.toUTF8 = (s.toList.flatMap String.utf8EncodeChar).toByteArray :=
    String.utf8Encode_toList.symm
  rw [hbytes, ← Array.all_toList, List.toList_data_toByteArray, List.all_flatMap]
  simp only [List.all_eq_true (l := s.toList), all_isValidByte_utf8EncodeChar]

theorem exists_ofText?_iff (s : String) :
    (∃ v, ofText? s = some v) ↔ ∀ c ∈ s.toList, IsTextual c := by
  rw [← all_isValidByte_toUTF8, ofText?, ofBytes?]
  simp

/-- A value that was made from a text gives the text back. -/
theorem text?_of_ofText? {s : String} {v : HeaderValue} (h : ofText? s = some v) :
    v.text? = some s := by
  rw [ofText?, ofBytes?] at h
  split at h
  next =>
    obtain rfl := Option.some.inj h
    exact Text.fromUTF8?_toUTF8 s
  next => cases h

end HeaderValue

/-! ## Maps -/

namespace Headers

theorem values_removeAll (h : Headers) (names : List HeaderName) (other : HeaderName) :
    (h.removeAll names).values other = if other ∈ names then [] else h.values other := by
  induction names generalizing h with
  | nil => simp [removeAll]
  | cons name names ih =>
      have hstep : h.removeAll (name :: names) = (h.remove name).removeAll names := rfl
      rw [hstep, ih, values_remove]
      by_cases hn : name = other
      · simp [hn]
      · simp [hn, Ne.symm hn]

theorem text?_of_head? {h : Headers} {name : HeaderName} {v : HeaderValue} {s : String}
    (hv : (h.values name).head? = some v) (hs : v.bytes = s.toUTF8) : h.text? name = some s := by
  rw [text?, hv, Option.bind_some, HeaderValue.text?, hs, Text.fromUTF8?_toUTF8]

/-- The trimmed text of a header is read off the values of its name. -/
theorem trimmed?_congr {h k : Headers} {name : HeaderName} (e : h.values name = k.values name) :
    h.trimmed? name = k.trimmed? name := by
  simp only [trimmed?, text?, e]

end Headers

end CallGuard
