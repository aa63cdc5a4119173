import CallGuard.Proofs.Identities
import CallGuard.Proofs.Json.Literals
import CallGuard.Proofs.Token.Issuing

/-! # The age of a token

The check of the age cuts a difference off at zero and a sum off at 64 bits. Neither shows: as long
as the clock and the time of issue fit into 64 bits, it decides as exact arithmetic does. -/

namespace CallGuard

/-! ## Integers that were read -/

namespace Numeral

/-- Digits are taken in only as long as the significand fits. -/
theorem absorb_lt {s : Nat} (h : s < 2 ^ 64) (ds : List Nat) : (absorb s ds).1 < 2 ^ 64 := by
  induction ds generalizing s with
  | nil => exact h
  | cons d ds ih =>
      rw [absorb]
      split
      next hfits => exact ih hfits
      next => exact h

theorem isWord_of_integer? {n : Numeral} {m : Int} (h : n.integer? = some m) :
    (Number.integer m).IsWord := by
  have hlt := absorb_lt (by decide : 0 < 2 ^ 64) n.whole
  unfold integer? at h
  rcases habsorb : absorb 0 n.whole with ⟨significand, left⟩
  rw [habsorb] at h hlt
  dsimp only at h hlt
  split at h
  next =>
    split at h
    next =>
      split at h
      next hsign =>
        cases h
        have hlow : significand ≤ 2 ^ 63 := of_decide_eq_true (Bool.and_eq_true_iff.mp hsign).2
        constructor <;> omega
      next => cases h
    next =>
      cases h
      constructor <;> omega
  next => cases h

/-- A numeral that does not fit is read as a double. -/
theorem isWord_of_number? {n : Numeral} {m : Int} (h : n.number? = some (.integer m)) :
    (Number.integer m).IsWord := by
  unfold number? at h
  split at h
  next k hk =>
    cases h
    exact isWord_of_integer? hk
  next => simp at h

end Numeral

namespace Document

theorem isWord_of_value? {d : Document} {depth : Nat} {m : Int}
    (h : d.value? depth = some (.number (.integer m))) : (Number.integer m).IsWord := by
  cases d with
  | number n =>
      obtain ⟨x, hx, hm⟩ := Option.map_eq_some_iff.mp h
      cases hm
      exact Numeral.isWord_of_number? hx
  | null => cases h
  | bool b => cases h
  | string s => simp [value?] at h
  | array items => cases depth <;> simp [value?] at h
  | object members => cases depth <;> simp [value?] at h
  | broken => cases h

/-- The values of members are those of documents. -/
theorem exists_value?_of_mem {ms : List (Quoted × Document)} {depth : Nat}
    {vs : List (String × Json)} (h : memberValues? depth ms = some vs) {key : String} {v : Json}
    (hv : (key, v) ∈ vs) : ∃ d : Document, d.value? depth = some v := by
  induction ms generalizing vs with
  | nil =>
      cases h
      cases hv
  | cons m ms ih =>
      obtain ⟨k, d⟩ := m
      rw [memberValues?] at h
      obtain ⟨k, -, h⟩ := Option.bind_eq_some_iff.mp h
      obtain ⟨w, hw, h⟩ := Option.bind_eq_some_iff.mp h
      obtain ⟨ws, hws, h⟩ := Option.bind_eq_some_iff.mp h
      cases h
      rcases List.mem_cons.mp hv with hfirst | hrest
      · cases hfirst
        exact ⟨d, hw⟩
      · exact ih hws hrest

end Document

/-! ## Claims that were read -/

/-- Every integer among claims fits into 64 bits, with a sign or without. -/
def Claims.HasWords (c : Claims) : Prop :=
  ∀ key n, c.get? key = some (.number (.integer n)) → (Number.integer n).IsWord

namespace Token

/-- What a token states was read from a text, so its integers fit. -/
theorem hasWords_of_claims? {d : Document} {c : Claims} (h : claims? d = some c) : c.HasWords := by
  unfold claims? at h
  obtain ⟨ms, hms, h⟩ := Option.bind_eq_some_iff.mp h
  split at h
  next =>
    obtain ⟨v, hv, hc⟩ := Option.bind_eq_some_iff.mp h
    cases d with
    | object members =>
        obtain ⟨vs, hvs, rfl⟩ := Option.map_eq_some_iff.mp hv
        cases hc
        intro key n hn
        have hmem := (Members.get?_eq_some_iff (Claims.ofMembers _).ordered).mp hn
        obtain ⟨d, hd⟩ := Document.exists_value?_of_mem hvs
          (Members.mem_of_mem_ofList (Members.mem_of_mem_ofList hmem))
        exact Document.isWord_of_value? hd
    | _ => cases hms
  next => cases h

/-! ## Times of issue -/

/-- Claims say when their token was issued: in whole seconds, in 64 bits. -/
structure IssuedAt (c : Claims) (issued : Int) : Prop where
  claim : c.get? "iat" = some (.number (.integer issued))
  nonneg : 0 ≤ issued
  fits : issued < 2 ^ 64

/-- What can stand in the place of a time of issue and is none. A number with a fraction or an
exponent, or one that 64 bits do not hold, is read as a double and is no integer. -/
inductive Undated : Option Json → Prop where
  | absent : Undated none
  | negative {n : Int} (h : n < 0) : Undated (some (.number (.integer n)))
  | fractional (x : Binary64) : Undated (some (.number (.double x)))
  | shapeless {v : Json} (h : ∀ x, v ≠ .number x) : Undated (some v)

theorem IssuedAt.nat?_eq {c : Claims} {issued : Int} (h : IssuedAt c issued) :
    (c.get? "iat").bind Json.nat? = some issued.toNat := by
  simp [h.claim, Json.nat?, Number.nat?, h.nonneg]

theorem Undated.nat?_eq {v : Option Json} (h : Undated v) : v.bind Json.nat? = none := by
  cases h with
  | absent => rfl
  | negative h => simp [Json.nat?, Number.nat?, Int.not_le.mpr h]
  | fractional x => rfl
  | @shapeless v h =>
      cases v with
      | number x => exact absurd rfl (h x)
      | _ => rfl

theorem issuedAt_or_undated {c : Claims} (hc : c.HasWords) :
    (∃ issued, IssuedAt c issued) ∨ Undated (c.get? "iat") := by
  cases hiat : c.get? "iat" with
  | none => exact .inr .absent
  | some v =>
      cases v with
      | number x =>
          cases x with
          | integer n =>
              by_cases hn : 0 ≤ n
              · exact .inl ⟨n, hiat, hn, (hc "iat" n hiat).2⟩
              · exact .inr (.negative (Int.not_le.mp hn))
          | double x => exact .inr (.fractional x)
      | _ => exact .inr (.shapeless fun x => by simp)

/-! ## The check -/

/-- Cut-off arithmetic compares as exact arithmetic does. -/
theorem saturatingAdd_lt_iff {a b : Nat} {now issued : Int} (hnow : now < 2 ^ 64)
    (hissued : 0 ≤ issued) :
    saturatingAdd a b < now.toNat - issued.toNat ↔ (a + b : Int) < now - issued := by
  have hend : (1 <<< 64 - 1 : Nat) = 2 ^ 64 - 1 := by decide
  rw [saturatingAdd, hend]
  omega

/-- How the age of a token is judged in exact arithmetic, by its limit and the leeway. -/
inductive Aged (c : Claims) (now : Int) (leeway : Nat) : Option Nat → Except Error Unit → Prop where
  | unlimited : Aged c now leeway none (.ok ())
  | undated {m} (h : Undated (c.get? "iat")) :
      Aged c now leeway (some m) (.error (.unauthenticated "token missing iat"))
  | recent {m : Nat} {issued} (hissued : IssuedAt c issued) (h : now - issued ≤ m + leeway) :
      Aged c now leeway (some m) (.ok ())
  | old {m : Nat} {issued} (hissued : IssuedAt c issued) (h : m + leeway < now - issued) :
      Aged c now leeway (some m) (.error (.unauthenticated "token too old"))

section

variable {c : Claims} {now : Int} {leeway : Nat} {maxAge : Option Nat} {x : Except Error Unit}

theorem Aged.execution (h : Aged c now leeway maxAge x) (hnow : now < 2 ^ 64) :
    checkAge maxAge leeway now.toNat c = x := by
  cases h with
  | unlimited => rfl
  | undated h => simp [checkAge, h.nat?_eq]
  | recent hissued h =>
      have hle := mt (saturatingAdd_lt_iff hnow hissued.nonneg).mp (Int.not_lt.mpr h)
      simp [checkAge, hissued.nat?_eq, hle]
  | old hissued h =>
      have hlt := (saturatingAdd_lt_iff hnow hissued.nonneg).mpr h
      simp [checkAge, hissued.nat?_eq, hlt]

theorem exists_aged (hc : c.HasWords) (now : Int) (leeway : Nat) (maxAge : Option Nat) :
    ∃ x, Aged c now leeway maxAge x := by
  cases maxAge with
  | none => exact ⟨_, .unlimited⟩
  | some m =>
      rcases issuedAt_or_undated hc with ⟨issued, hissued⟩ | hundated
      · rcases Int.lt_or_le (m + leeway) (now - issued) with hold | hrecent
        · exact ⟨_, .old hissued hold⟩
        · exact ⟨_, .recent hissued hrecent⟩
      · exact ⟨_, .undated hundated⟩

theorem aged_iff (hc : c.HasWords) (hnow : now < 2 ^ 64) :
    Aged c now leeway maxAge x ↔ checkAge maxAge leeway now.toNat c = x := by
  refine ⟨fun h => h.execution hnow, ?_⟩
  rintro rfl
  obtain ⟨y, hy⟩ := exists_aged hc now leeway maxAge
  rwa [hy.execution hnow]

theorem aged_ok_iff : Aged c now leeway maxAge (.ok ()) ↔
    maxAge = none ∨ ∃ m issued, maxAge = some m ∧ IssuedAt c issued ∧ now - issued ≤ m + leeway := by
  constructor
  · intro h
    cases h with
    | unlimited => exact .inl rfl
    | recent hissued h => exact .inr ⟨_, _, rfl, hissued, h⟩
  · rintro (rfl | ⟨m, issued, rfl, hissued, h⟩)
    · exact .unlimited
    · exact .recent hissued h

theorem aged_undated_iff : Aged c now leeway maxAge (.error (.unauthenticated "token missing iat")) ↔
    maxAge ≠ none ∧ Undated (c.get? "iat") := by
  constructor
  · generalize hx : Except.error (Error.unauthenticated "token missing iat") = x
    intro h
    cases h with
    | undated h => exact ⟨Option.some_ne_none _, h⟩
    | old => simp at hx
    | _ => cases hx
  · rintro ⟨hlimited, h⟩
    obtain ⟨m, rfl⟩ := Option.ne_none_iff_exists'.mp hlimited
    exact .undated h

theorem aged_old_iff : Aged c now leeway maxAge (.error (.unauthenticated "token too old")) ↔
    ∃ m issued, maxAge = some m ∧ IssuedAt c issued ∧ m + leeway < now - issued := by
  constructor
  · generalize hx : Except.error (Error.unauthenticated "token too old") = x
    intro h
    cases h with
    | old hissued h => exact ⟨_, _, rfl, hissued, h⟩
    | undated => simp at hx
    | _ => cases hx
  · rintro ⟨m, issued, rfl, hissued, h⟩
    exact .old hissued h

/-- A wider limit, or none at all, and more leeway keep a token recent. -/
theorem Aged.widen (h : Aged c now leeway maxAge (.ok ())) {wider : Option Nat} {more : Nat}
    (hwider : ∀ m', wider = some m' → ∃ m, maxAge = some m ∧ m ≤ m') (hmore : leeway ≤ more) :
    Aged c now more wider (.ok ()) := by
  cases wider with
  | none => exact .unlimited
  | some m' =>
      obtain ⟨m, rfl, hm⟩ := hwider m' rfl
      cases h with
      | recent hissued h => exact .recent hissued (by omega)

end

/-- What the check of the age answers. -/
structure AgeSpec (c : Claims) (now : Int) (leeway : Nat) (maxAge : Option Nat) : Prop where
  passes_iff : checkAge maxAge leeway now.toNat c = .ok () ↔
    maxAge = none ∨ ∃ m issued, maxAge = some m ∧ IssuedAt c issued ∧ now - issued ≤ m + leeway
  undated_iff : checkAge maxAge leeway now.toNat c = .error (.unauthenticated "token missing iat") ↔
    maxAge ≠ none ∧ Undated (c.get? "iat")
  old_iff : checkAge maxAge leeway now.toNat c = .error (.unauthenticated "token too old") ↔
    ∃ m issued, maxAge = some m ∧ IssuedAt c issued ∧ m + leeway < now - issued
  /-- A limit that is higher or given up, and more leeway, reject no token that passed. -/
  widens : ∀ (wider : Option Nat) (more : Nat),
    (∀ m', wider = some m' → ∃ m, maxAge = some m ∧ m ≤ m') → leeway ≤ more →
      checkAge maxAge leeway now.toNat c = .ok () → checkAge wider more now.toNat c = .ok ()

/-- The check of the age is exact for every limit and leeway, however large, at every time that 64
bits hold, whether the token was issued before it or after it. -/
theorem checkAge_exact {c : Claims} (hc : c.HasWords) {now : Int} (hnow : now < 2 ^ 64)
    (leeway : Nat) (maxAge : Option Nat) : AgeSpec c now leeway maxAge where
  passes_iff := (aged_iff hc hnow).symm.trans aged_ok_iff
  undated_iff := (aged_iff hc hnow).symm.trans aged_undated_iff
  old_iff := (aged_iff hc hnow).symm.trans aged_old_iff
  widens _ _ hwider hmore h := (((aged_iff hc hnow).mpr h).widen hwider hmore).execution hnow

/-- A token that was issued in the second second of the epoch. -/
def datedPayload : String := "\x7b\"sub\":\"u\",\"iat\":1,\"exp\":4102444800\x7d"

def datedClaims : Claims :=
  .ofMembers [("exp", .number (.integer 4102444800)), ("iat", .number (.integer 1)),
    ("sub", .string "u")]

theorem datedPayload_read : (wholeDocument? datedPayload).bind claims? = some datedClaims := by
  cbv

/-- With the highest limit a leeway leaves the range of 64 bits, and the token is recent. -/
theorem checkAge_exact_sample :
    datedClaims.HasWords ∧ (1700000000 : Int) < 2 ^ 64 ∧
      checkAge (some (2 ^ 64 - 1)) 60 (1700000000 : Int).toNat datedClaims = .ok () ∧
      checkAge (some 300) 60 (1700000000 : Int).toNat datedClaims =
        .error (.unauthenticated "token too old") := by
  obtain ⟨d, -, hd⟩ := Option.bind_eq_some_iff.mp datedPayload_read
  have hwords : datedClaims.HasWords := hasWords_of_claims? hd
  have hissued : IssuedAt datedClaims 1 := ⟨by cbv, by decide, by decide⟩
  have hnow : (1700000000 : Int) < 2 ^ 64 := by decide
  have hhigh := checkAge_exact hwords hnow 60 (some (2 ^ 64 - 1))
  have hlow := checkAge_exact hwords hnow 60 (some 300)
  refine ⟨hwords, hnow, ?_, ?_⟩
  · exact hhigh.passes_iff.mpr (.inr ⟨_, _, rfl, hissued, by decide⟩)
  · exact hlow.old_iff.mpr ⟨_, _, rfl, hissued, by decide⟩

end Token

end CallGuard
