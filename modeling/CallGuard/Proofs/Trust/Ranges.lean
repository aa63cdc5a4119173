import Mathlib
import CallGuard.Proofs.Text
import CallGuard.Trust

/-! # Trusted ranges

Which texts are addresses and ranges is told by their characters, and which addresses a range holds
by the leading bits of the two numbers. What is trusted follows from these rules alone. -/

namespace CallGuard

/-! ## Lists of readings -/

section

variable {α β : Type} {read : α → Option β}

theorem mapM_eq_some_nil_iff {texts : List α} : texts.mapM read = some [] ↔ texts = [] := by
  cases texts with
  | nil => simp
  | cons a rest => simp [List.mapM_cons, Option.bind_eq_some_iff]

/-- Reading a list gives a first answer when its first item does, and the rest gives the rest. -/
theorem mapM_eq_some_cons_iff {texts : List α} {b : β} {answers : List β} :
    texts.mapM read = some (b :: answers) ↔
      ∃ a rest, texts = a :: rest ∧ read a = some b ∧ rest.mapM read = some answers := by
  cases texts with
  | nil => simp
  | cons a rest => simp [List.mapM_cons, Option.bind_eq_some_iff]

end

/-! ## Numbers and dots -/

/-- A number as a run of decimal digits, in which zeros may stand in front. -/
structure IsDecimal (cs : List Char) (n : Nat) : Prop where
  nonempty : cs ≠ []
  digits : ∀ c ∈ cs, '0' ≤ c ∧ c ≤ '9'
  value : n = Nat.ofDigits 10 (cs.reverse.map fun c => c.toNat - '0'.toNat)

namespace Text.Chars

theorem isDigit_iff (c : Char) : c.isDigit = true ↔ '0' ≤ c ∧ c ≤ '9' := by
  simp [Char.isDigit, Char.le_def, UInt32.le_iff_toNat_le]

theorem decimal?_eq_some_iff {cs : List Char} {n : Nat} :
    decimal? cs = some n ↔ IsDecimal cs n := by
  have hvalue : Nat.ofDigits 10 (cs.reverse.map fun c => c.toNat - '0'.toNat) =
      cs.foldl (fun n c => 10 * n + (c.toNat - 48)) 0 := by
    rw [Nat.ofDigits_eq_foldr, List.foldr_map, List.foldr_reverse]
    congr 1
    funext n c
    exact Nat.add_comm _ _
  unfold decimal?
  constructor
  · intro h
    split at h
    next => cases h
    next hdigits =>
      simp only [Bool.or_eq_true, Bool.not_eq_true', not_or, Bool.not_eq_true,
        Bool.not_eq_false, List.all_eq_true, List.isEmpty_eq_false_iff] at hdigits
      refine ⟨hdigits.1, fun c hc => (isDigit_iff c).mp (hdigits.2 c hc), ?_⟩
      rw [hvalue]
      exact (Option.some.inj h).symm
  · intro h
    have hdigits : cs.all Char.isDigit = true :=
      List.all_eq_true.mpr fun c hc => (isDigit_iff c).mpr (h.digits c hc)
    rw [if_neg (by simp [h.nonempty, hdigits]), h.value, hvalue]

end Text.Chars

/-- Digits are no dots. -/
theorem IsDecimal.dot_notMem {cs : List Char} {n : Nat} (h : IsDecimal cs n) : '.' ∉ cs := by
  intro hdot
  exact absurd (h.digits '.' hdot) (by decide)

/-- A short number is small. -/
theorem IsDecimal.lt_pow {cs : List Char} {n : Nat} (h : IsDecimal cs n) : n < 10 ^ cs.length := by
  have hdigits : ∀ d ∈ cs.reverse.map fun c => c.toNat - '0'.toNat, d < 10 := by
    intro d hd
    obtain ⟨c, hc, rfl⟩ := List.mem_map.mp hd
    have hle : c.toNat ≤ '9'.toNat := (h.digits c (List.mem_reverse.mp hc)).2
    have hnine : '9'.toNat = '0'.toNat + 9 := rfl
    omega
  have hlt := Nat.ofDigits_lt_base_pow_length (by decide) hdigits
  rwa [← h.value, List.length_map, List.length_reverse] at hlt

namespace Address

/-- Four groups with dots between them are read when each of them is. -/
theorem quad?_eq_some_iff {octet? : List Char → Option Nat} {cs : List Char} {q : BitVec 32}
    (hdots : ∀ cs n, octet? cs = some n → '.' ∉ cs) :
    quad? octet? cs = some q ↔
      ∃ a b c d x y z w, cs = a ++ '.' :: (b ++ '.' :: (c ++ '.' :: d)) ∧
        octet? a = some x ∧ octet? b = some y ∧ octet? c = some z ∧ octet? d = some w ∧
        q = BitVec.ofNat 32 (((x * 256 + y) * 256 + z) * 256 + w) := by
  constructor
  · intro h
    unfold quad? at h
    split at h
    next x y z w hread =>
      simp only [mapM_eq_some_cons_iff, mapM_eq_some_nil_iff] at hread
      obtain ⟨a, _, hpieces, ha, b, _, rfl, hb, c, _, rfl, hc, d, _, rfl, hd, rfl⟩ := hread
      obtain ⟨s, _, hs, rfl, hrest⟩ := Text.Chars.exists_of_pieces_eq_cons_cons hpieces
      obtain ⟨t, _, ht, rfl, hrest'⟩ := Text.Chars.exists_of_pieces_eq_cons_cons hrest
      obtain ⟨u, _, hu, rfl, hlast⟩ := Text.Chars.exists_of_pieces_eq_cons_cons hrest'
      obtain rfl := Text.Chars.eq_of_pieces_eq_singleton hlast
      obtain rfl := beq_iff_eq.mp hs
      obtain rfl := beq_iff_eq.mp ht
      obtain rfl := beq_iff_eq.mp hu
      exact ⟨a, b, c, _, x, y, z, w, rfl, ha, hb, hc, hd, (Option.some.inj h).symm⟩
    next => cases h
  · rintro ⟨a, b, c, d, x, y, z, w, rfl, ha, hb, hc, hd, rfl⟩
    have hpiece (cs : List Char) (n : Nat) (h : octet? cs = some n) :
        Text.Chars.pieces (· == '.') cs = [cs] := by
      apply Text.Chars.pieces_of_not
      intro e he
      exact beq_eq_false_iff_ne.mpr fun hdot => hdots cs n h (hdot ▸ he)
    have hpart (cs rest : List Char) : Text.Chars.pieces (· == '.') (cs ++ '.' :: rest) =
        Text.Chars.pieces (· == '.') cs ++ Text.Chars.pieces (· == '.') rest := by
      apply Text.Chars.pieces_append_cons
      rfl
    have hread : (Text.Chars.pieces (· == '.') (a ++ '.' :: (b ++ '.' :: (c ++ '.' :: d)))).mapM
        octet? = some [x, y, z, w] := by
      rw [hpart, hpart, hpart, hpiece a x ha, hpiece b y hb, hpiece c z hc, hpiece d w hd]
      simp [List.mapM_cons, ha, hb, hc, hd]
    unfold quad?
    rw [hread]

end Address

namespace Trust

/-! ## Addresses and ranges -/

/-- A part of an address: a number of at most three digits that is no greater than 255. -/
structure Octet (cs : List Char) (n : Nat) : Prop extends IsDecimal cs n where
  short : cs.length ≤ 3
  le : n ≤ 255

/-- The text of an address, four parts with dots between them, and the number that it spells. -/
inductive Quad : List Char → Nat → Prop where
  | dotted {a b c d : List Char} {x y z w : Nat} :
      Octet a x → Octet b y → Octet c z → Octet d w →
      Quad (a ++ '.' :: (b ++ '.' :: (c ++ '.' :: d)))
        (x * 2 ^ 24 + y * 2 ^ 16 + z * 2 ^ 8 + w)

/-- A range `network/length` covers an address when the network and the address agree on as many
leading bits as the length says. -/
inductive Covers : String → String → Prop where
  | network {network length candidate : String} {n q r : Nat} :
      '/' ∉ network.toList → IsDecimal length.toList n → n ≤ 32 →
      Quad network.toList q → Quad candidate.toList r →
      (∀ i < n, q.testBit (31 - i) = r.testBit (31 - i)) →
      Covers (network ++ "/" ++ length) candidate

/-! ## Reading them -/

theorem word?_eq_some_iff {cs : List Char} {n : Nat} :
    word? cs = some n ↔ IsDecimal cs n ∧ n < 1 <<< 32 := by
  rw [← Text.Chars.decimal?_eq_some_iff]
  unfold word?
  cases Text.Chars.decimal? cs with
  | none => simp
  | some m =>
      by_cases hlt : m < 1 <<< 32
      · simp only [if_pos hlt, Option.some.injEq]
        exact ⟨fun h => ⟨h, h ▸ hlt⟩, And.left⟩
      · simp only [if_neg hlt, Option.some.injEq, reduceCtorEq, false_iff, not_and]
        rintro rfl
        exact hlt

theorem octet?_eq_some_iff {cs : List Char} {n : Nat} : octet? cs = some n ↔ Octet cs n := by
  unfold octet?
  constructor
  · intro h
    split at h
    next => cases h
    next hshort =>
      split at h
      next m hm =>
        split at h
        next hle =>
          obtain rfl := Option.some.inj h
          exact ⟨(word?_eq_some_iff.mp hm).1, Nat.le_of_not_lt hshort, hle⟩
        next => cases h
      next => cases h
  · intro h
    have hfits : n < 1 <<< 32 := Nat.lt_of_le_of_lt h.le (by decide)
    rw [if_neg (Nat.not_lt.mpr h.short), word?_eq_some_iff.mpr ⟨h.toIsDecimal, hfits⟩]
    exact if_pos h.le

/-- An address is read as the number that it spells, which always fits. -/
theorem quad?_eq_some_iff {s : String} {q : BitVec 32} :
    quad? s = some q ↔ Quad s.toList q.toNat := by
  have hdots : ∀ cs n, octet? cs = some n → '.' ∉ cs :=
    fun _ _ h => (octet?_eq_some_iff.mp h).dot_notMem
  rw [quad?, Address.quad?_eq_some_iff hdots]
  constructor
  · rintro ⟨a, b, c, d, x, y, z, w, hs, ha, hb, hc, hd, rfl⟩
    rw [octet?_eq_some_iff] at ha hb hc hd
    have hfits : ((x * 256 + y) * 256 + z) * 256 + w < 2 ^ 32 := by
      have := ha.le
      have := hb.le
      have := hc.le
      have := hd.le
      omega
    have hvalue : ((x * 256 + y) * 256 + z) * 256 + w =
        x * 2 ^ 24 + y * 2 ^ 16 + z * 2 ^ 8 + w := by omega
    rw [BitVec.toNat_ofNat, Nat.mod_eq_of_lt hfits, hvalue, hs]
    exact .dotted ha hb hc hd
  · intro h
    generalize hcs : s.toList = cs at h ⊢
    generalize hn : q.toNat = n at h
    cases h with
    | @dotted a b c d x y z w ha hb hc hd =>
        refine ⟨a, b, c, d, x, y, z, w, rfl, octet?_eq_some_iff.mpr ha, octet?_eq_some_iff.mpr hb,
          octet?_eq_some_iff.mpr hc, octet?_eq_some_iff.mpr hd, ?_⟩
        have hvalue : ((x * 256 + y) * 256 + z) * 256 + w = q.toNat := by omega
        rw [hvalue, BitVec.ofNat_toNat, BitVec.setWidth_eq]

theorem Quad.lt {cs : List Char} {n : Nat} (h : Quad cs n) : n < 2 ^ 32 := by
  cases h with
  | dotted ha hb hc hd =>
      have := ha.le
      have := hb.le
      have := hc.le
      have := hd.le
      omega

theorem rangeLength?_eq_some_iff {s : String} {n : Nat} :
    rangeLength? s = some n ↔ IsDecimal s.toList n ∧ n ≤ 32 := by
  constructor
  · intro h
    have hle := rangeLength?_le h
    unfold rangeLength? at h
    split at h
    next m hm =>
      split at h
      next =>
        obtain rfl := Option.some.inj h
        exact ⟨(word?_eq_some_iff.mp hm).1, hle⟩
      next => cases h
    next => cases h
  · rintro ⟨hn, hle⟩
    have hfits : n < 1 <<< 32 := Nat.lt_of_le_of_lt hle (by decide)
    rw [rangeLength?, word?_eq_some_iff.mpr ⟨hn, hfits⟩]
    exact if_pos hle

/-- Under a mask two numbers are the same when they agree on the leading bits that it keeps. -/
theorem and_mask_eq_iff {n : Nat} {m : BitVec 32} (hn : n ≤ 32) (hm : mask? n = some m)
    (a b : BitVec 32) :
    a &&& m = b &&& m ↔ ∀ i < n, a.toNat.testBit (31 - i) = b.toNat.testBit (31 - i) := by
  rw [mask?_eq_some hn] at hm
  obtain rfl := Option.some.inj hm
  have hbit (x : BitVec 32) (j : Nat) (hj : j < 32) :
      (x &&& BitVec.allOnes 32 <<< (32 - n)).getLsbD j =
        (x.toNat.testBit j && decide (32 - n ≤ j)) := by
    rw [BitVec.getLsbD_and, BitVec.getLsbD_shiftLeft, BitVec.getLsbD_allOnes,
      BitVec.testBit_toNat]
    have hlow : (decide (j < 32) && !decide (j < 32 - n) && decide (j - (32 - n) < 32)) =
        decide (32 - n ≤ j) := by
      simp only [← Bool.decide_and, ← decide_not, decide_eq_decide]
      omega
    rw [hlow]
  constructor
  · intro h i hi
    have hbits : (a &&& BitVec.allOnes 32 <<< (32 - n)).getLsbD (31 - i) =
        (b &&& BitVec.allOnes 32 <<< (32 - n)).getLsbD (31 - i) := by rw [h]
    have hkept : 32 - n ≤ 31 - i := by omega
    rw [hbit a _ (by omega), hbit b _ (by omega)] at hbits
    simpa [hkept] using hbits
  · intro h
    apply BitVec.eq_of_getLsbD_eq
    intro j hj
    rw [hbit a j hj, hbit b j hj]
    by_cases hkept : 32 - n ≤ j
    · have hagree := h (31 - j) (by omega)
      rw [Nat.sub_sub_self (by omega)] at hagree
      rw [hagree]
    · simp [hkept]

theorem inRange?_eq_some_true_iff {range candidate : String} :
    inRange? range candidate = some true ↔ Covers range candidate := by
  constructor
  · intro h
    unfold inRange? at h
    split at h
    next => cases h
    next network length hcut =>
      obtain ⟨rfl, hslash⟩ := Text.cut?_eq_some_iff.mp hcut
      split at h
      next => cases h
      next n hn =>
        obtain ⟨hlength, hle⟩ := rangeLength?_eq_some_iff.mp hn
        split at h
        next a b ha hb =>
          obtain ⟨m, hm, hagree⟩ := Option.map_eq_some_iff.mp h
          exact .network hslash hlength hle (quad?_eq_some_iff.mp ha) (quad?_eq_some_iff.mp hb)
            ((and_mask_eq_iff hle hm a b).mp (beq_iff_eq.mp hagree))
        next => cases h
  · intro h
    cases h with
    | @network network length candidate n q r hslash hlength hle hq hr hbits =>
        have hcut : Text.cut? '/' (network ++ "/" ++ length) = some (network, length) :=
          Text.cut?_eq_some_iff.mpr ⟨rfl, hslash⟩
        have hread {s : String} {m : Nat} (hm : Quad s.toList m) :
            ∃ v : BitVec 32, quad? s = some v ∧ v.toNat = m :=
          ⟨.ofNatLT m hm.lt, quad?_eq_some_iff.mpr hm, rfl⟩
        obtain ⟨a, ha, rfl⟩ := hread hq
        obtain ⟨b, hb, rfl⟩ := hread hr
        have hmask := mask?_eq_some hle
        have hagree := (and_mask_eq_iff hle hmask a b).mpr hbits
        unfold inRange?
        rw [hcut]
        simp only [rangeLength?_eq_some_iff.mpr ⟨hlength, hle⟩, ha, hb]
        exact Option.map_eq_some_iff.mpr ⟨_, hmask, beq_iff_eq.mpr hagree⟩

theorem inRange_iff {range candidate : String} :
    inRange range candidate = true ↔ Covers range candidate := by
  rw [← inRange?_eq_some_true_iff, inRange?_eq_some, Option.some.injEq]

/-! ## What is trusted -/

theorem isTrusted?_eq (expected : List String) (candidate : String) :
    isTrusted? expected candidate = some (isTrusted expected candidate) :=
  (Option.some_get _).symm

theorem isTrusted_iff {expected : List String} {candidate : String} :
    isTrusted expected candidate = true ↔
      candidate ∈ expected ∨ ∃ range ∈ expected, Covers range candidate := by
  have hvalue : isTrusted expected candidate =
      (expected.contains candidate || expected.any fun range => inRange range candidate) :=
    Option.some.inj ((isTrusted?_eq expected candidate).symm.trans
      (isTrusted?_eq_some expected candidate))
  simp [hvalue, inRange_iff]

/-- A candidate is trusted exactly when it is an expected value or one of them covers it. So the
order of the expected values and repetitions among them do not matter, and what is no address lies
in no range. Nothing overflows on the way: a part of an address has at most ten bits and fits its
word, an address has 32, every length of a range has a mask, and so there is always an answer. -/
theorem isTrusted_exact (expected : List String) (candidate : String) :
    (isTrusted expected candidate = true ↔
      candidate ∈ expected ∨ ∃ range ∈ expected, Covers range candidate) ∧
    (∀ other : List String, (∀ value, value ∈ other ↔ value ∈ expected) →
      isTrusted other candidate = isTrusted expected candidate) ∧
    (∀ range, inRange range candidate = true → ∃ q, Quad candidate.toList q) ∧
    (∀ cs n, IsDecimal cs n → cs.length ≤ 3 → n < 2 ^ 10 ∧ word? cs = some n) ∧
    (∀ s q, quad? s = some q → Quad s.toList q.toNat) ∧
    (∀ s n, rangeLength? s = some n → n ≤ 32 ∧ ∃ m, mask? n = some m) ∧
    isTrusted? expected candidate = some (isTrusted expected candidate) := by
  refine ⟨isTrusted_iff, ?_, ?_, ?_, ?_, ?_, isTrusted?_eq expected candidate⟩
  · intro other hsame
    rw [Bool.eq_iff_iff, isTrusted_iff, isTrusted_iff]
    simp only [hsame]
  · intro range h
    cases inRange_iff.mp h with
    | network _ _ _ _ hcandidate _ => exact ⟨_, hcandidate⟩
  · intro cs n hn hshort
    have hlt : n < 2 ^ 10 := calc
      n < 10 ^ cs.length := hn.lt_pow
      _ ≤ 10 ^ 3 := Nat.pow_le_pow_right (by decide) hshort
      _ < 2 ^ 10 := by decide
    exact ⟨hlt, word?_eq_some_iff.mpr ⟨hn, Nat.lt_trans hlt (by decide)⟩⟩
  · intro s q h
    exact quad?_eq_some_iff.mp h
  · intro s n h
    exact ⟨rangeLength?_le h, _, mask?_eq_some (rangeLength?_le h)⟩

/-- Zeros in front count for nothing, behind the first slash there must be a length, and a length
that is no word is none. -/
example : isTrusted ["10.0.0.0/33", "010.000.0.0/08"] "10.1.2.3" = true ∧
    isTrusted ["10.0.0.0/8/8", "10.0.0/8", "10.0.0.0/", "10.0.0.0/4294967304"] "10.1.2.3" =
      false := by
  decide +kernel

end Trust

end CallGuard
