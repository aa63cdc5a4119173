import CallGuard.Proofs.Trust.Ranges

/-! # Trusted addresses

An address is judged by its text. The text of a version 4 address reads back as the address, so a
range holds the text when it holds the address. No text of a version 6 address reads as one of
version 4, so ranges hold none of them. -/

namespace CallGuard

/-! ## Mapped addresses -/

namespace Address

/-- The version 6 address that stands for a version 4 address. -/
def mapped (x : BitVec 32) : BitVec 128 :=
  0xFFFF#96 ++ x

theorem toNat_mapped (x : BitVec 32) : (mapped x).toNat = 0xFFFF * 2 ^ 32 + x.toNat := by
  rw [mapped, BitVec.toNat_append, ← Nat.shiftLeft_add_eq_or_of_lt x.isLt, Nat.shiftLeft_eq]
  rfl

theorem mapped?_eq_some_iff {y : BitVec 128} {x : BitVec 32} :
    mapped? y = some x ↔ y = mapped x := by
  have hx := x.isLt
  unfold mapped?
  rw [Nat.shiftRight_eq_div_pow]
  constructor
  · intro h
    split at h
    next hhigh =>
      obtain rfl := Option.some.inj h
      apply BitVec.eq_of_toNat_eq
      rw [toNat_mapped, BitVec.toNat_setWidth]
      omega
    next => cases h
  · rintro rfl
    rw [toNat_mapped, if_pos (by omega)]
    congr 1
    apply BitVec.eq_of_toNat_eq
    rw [BitVec.toNat_setWidth, toNat_mapped]
    omega

theorem canonical_mapped (x : BitVec 32) : (v6 (mapped x)).canonical = v4 x := by
  rw [canonical, mapped?_eq_some_iff.mpr rfl]

theorem canonical_of_not_mapped {y : BitVec 128} (h : ∀ x, y ≠ mapped x) :
    (v6 y).canonical = v6 y := by
  have hnone : mapped? y = none :=
    Option.eq_none_iff_forall_ne_some.mpr fun x hx => h x (mapped?_eq_some_iff.mp hx)
  rw [canonical, hnone]

end Address

namespace Trust

/-! ## Texts of version 4 addresses -/

theorem isDecimal_toDigits (n : Nat) : IsDecimal (Nat.toDigits 10 n) n := by
  have hdigits : (Nat.toDigits 10 n).all Char.isDigit = true :=
    List.all_eq_true.mpr fun c hc => Nat.isDigit_of_mem_toDigits (by decide) (by decide) hc
  have hvalue : (Nat.toDigits 10 n).foldl (fun n c => 10 * n + (c.toNat - 48)) 0 = n :=
    Nat.ofDigitChars_eq_foldl.symm.trans Nat.ofDigitChars_ten_toDigits
  apply Text.Chars.decimal?_eq_some_iff.mp
  rw [Text.Chars.decimal?, if_neg (by simp [Nat.toDigits_ne_nil, hdigits]), hvalue]

theorem octet_toDigits {n : Nat} (h : n ≤ 255) : Octet (Nat.toDigits 10 n) n where
  toIsDecimal := isDecimal_toDigits n
  short := (Nat.length_toDigits_le_iff (by decide) (by decide)).mpr (by omega)
  le := h

/-- The text of a version 4 address spells the address. -/
theorem quad_dotted (x : BitVec 32) : Quad (Address.dotted x).toList x.toNat := by
  have hx := x.isLt
  have hchars : (Address.dotted x).toList =
      Nat.toDigits 10 (x.toNat / 2 ^ 24) ++ '.' ::
        (Nat.toDigits 10 (x.toNat / 2 ^ 16 % 256) ++ '.' ::
          (Nat.toDigits 10 (x.toNat / 2 ^ 8 % 256) ++ '.' ::
            Nat.toDigits 10 (x.toNat % 256))) := by
    simp [Address.dotted, Text.join, Nat.shiftRight_eq_div_pow]
  have hvalue : x.toNat = x.toNat / 2 ^ 24 * 2 ^ 24 + x.toNat / 2 ^ 16 % 256 * 2 ^ 16 +
      x.toNat / 2 ^ 8 % 256 * 2 ^ 8 + x.toNat % 256 := by omega
  have hquad := Quad.dotted (octet_toDigits (n := x.toNat / 2 ^ 24) (by omega))
    (octet_toDigits (n := x.toNat / 2 ^ 16 % 256) (by omega))
    (octet_toDigits (n := x.toNat / 2 ^ 8 % 256) (by omega))
    (octet_toDigits (n := x.toNat % 256) (by omega))
  rw [← hvalue, ← hchars] at hquad
  exact hquad

/-- It spells no other number. -/
theorem eq_toNat_of_quad_dotted {x : BitVec 32} {n : Nat}
    (h : Quad (Address.dotted x).toList n) : n = x.toNat := by
  have hread : quad? (Address.dotted x) = some (.ofNatLT n h.lt) := quad?_eq_some_iff.mpr h
  rw [quad?_eq_some_iff.mpr (quad_dotted x)] at hread
  rw [Option.some.inj hread]
  rfl

/-- A range `network/length` holds an address when it is well formed and the network and the
address agree on as many leading bits as the length says. -/
inductive Holds : String → BitVec 32 → Prop where
  | network {network length : String} {n q : Nat} {x : BitVec 32} :
      '/' ∉ network.toList → IsDecimal length.toList n → n ≤ 32 → Quad network.toList q →
      (∀ i < n, q.testBit (31 - i) = x.toNat.testBit (31 - i)) →
      Holds (network ++ "/" ++ length) x

/-- A range covers the text of an address when it holds the address. -/
theorem covers_dotted_iff {range : String} {x : BitVec 32} :
    Covers range (Address.dotted x) ↔ Holds range x := by
  constructor
  · intro h
    cases h with
    | @network _ _ _ _ _ r hslash hlength hle hq hr hbits =>
        obtain rfl := eq_toNat_of_quad_dotted hr
        exact .network hslash hlength hle hq hbits
  · intro h
    cases h with
    | network hslash hlength hle hq hbits =>
        exact .network hslash hlength hle hq (quad_dotted x) hbits

/-! ## Texts of version 6 addresses -/

theorem Quad.colon_notMem {cs : List Char} {n : Nat} (h : Quad cs n) : ':' ∉ cs := by
  have hpart {part : List Char} {k : Nat} (hk : Octet part k) : ':' ∉ part := fun hmem =>
    absurd (hk.digits ':' hmem) (by decide)
  cases h with
  | dotted ha hb hc hd => simp [hpart ha, hpart hb, hpart hc, hpart hd]

/-- Two groups or more have a colon between them. -/
theorem colon_mem_hexGroups {g h : Nat} {gs : List Nat} :
    ':' ∈ (Address.hexGroups (g :: h :: gs)).toList := by
  simp [Address.hexGroups, Text.join]

theorem colon_mem_colons (y : BitVec 128) : ':' ∈ (Address.colons y).toList := by
  unfold Address.colons
  split
  next low => simp
  next =>
    dsimp only
    split
    next => exact colon_mem_hexGroups
    next => simp

theorem not_covers_colons {range : String} {y : BitVec 128} :
    ¬ Covers range (Address.colons y) := by
  intro h
  cases h with
  | network _ _ _ _ hr _ => exact hr.colon_notMem (colon_mem_colons y)

/-! ## Trust in addresses -/

theorem isTrusted_dotted_iff {expected : List String} {x : BitVec 32} :
    isTrusted expected (Address.dotted x) = true ↔
      ∃ value ∈ expected, value = Address.dotted x ∨ Holds value x := by
  simp only [isTrusted_iff, covers_dotted_iff, and_or_left, exists_or, exists_eq_right]

theorem isTrusted_colons_iff {expected : List String} {y : BitVec 128} :
    isTrusted expected (Address.colons y) = true ↔ Address.colons y ∈ expected := by
  simp only [isTrusted_iff, not_covers_colons, and_false, exists_false, or_false]

end Trust

end CallGuard
