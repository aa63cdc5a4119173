import CallGuard.Proofs.Authenticator.Keeping
import CallGuard.Proofs.Token.Issuing

/-! # The expiry of a token and of its identity

A verifier reads the expiry of a token twice: once to check it, where any number will do, and once
for the identity, which only takes a whole number. A cache goes by what the identity says. -/

namespace CallGuard.Token

/-- What an identity says of the instant at which its claims expire. A whole number of seconds is
told, and a number that is written with a fraction or an exponent is not. -/
inductive ExpiryTold (c : Claims) (t : Nat) : Option Int → Prop where
  | whole (h : c.get? "exp" = some (.number (.integer t))) : ExpiryTold c t (some t)
  | rounded {x} (h : c.get? "exp" = some (.number (.double x))) : ExpiryTold c t none

theorem expiryTold_of_instant {c : Claims} {t : Nat} (h : (c.get? "exp").bind instant? = some t) :
    ExpiryTold c t ((wholeExpiry? c).map Int.ofNat) := by
  obtain ⟨d, hd, ht⟩ := Option.bind_eq_some_iff.mp h
  unfold wholeExpiry?
  rw [hd, Option.bind_some]
  cases d with
  | number n =>
      cases n with
      | integer m =>
          -- the check and the identity read the same natural number
          obtain ⟨hm, rfl⟩ : 0 ≤ m ∧ m.toNat = t := by simpa [instant?] using ht
          have hcast : (m.toNat : Int) = m := Int.toNat_of_nonneg hm
          have htold : (Json.number (.integer m)).nat?.map Int.ofNat = some (m.toNat : Int) := by
            simp [Json.nat?, Number.nat?, hm]
          rw [htold]
          exact .whole (hd.trans (by rw [hcast]))
      | double x => exact .rounded hd
  | null => cases ht
  | bool b => cases ht
  | string s => cases ht
  | array items => cases ht
  | object members => cases ht

/-- An identity was read from the claims of a token, and says of their expiry what it can. -/
def ReadFrom (token : String) (i : Identity) : Prop :=
  payload? token = some i.claims ∧
    ∃ t, (i.claims.get? "exp").bind instant? = some t ∧ ExpiryTold i.claims t i.expiresAt

theorem TokenVerifier.expiry_of_verify {v : TokenVerifier} {now : Nat} {token : String}
    {i : Identity} (h : v.verify now token = .ok i) :
    payload? token = some i.claims ∧
      ∃ t, (i.claims.get? "exp").bind instant? = some t ∧ now ≤ t + v.limits.leeway ∧
        ExpiryTold i.claims t i.expiresAt := by
  obtain ⟨parts, header, key, c, haccepts, hidentified⟩ := exists_accepts h
  obtain ⟨t, ht, hunexpired⟩ := haccepts.admitted.unexpired
  have hpayload := haccepts.payload?_eq
  cases hidentified with
  | read hs hheld => exact ⟨hpayload, t, ht, hunexpired, expiryTold_of_instant ht⟩

theorem TokenVerifier.readFrom_of_verifier {v : TokenVerifier} {a : Authenticator}
    (ha : a.verifier = v.verifier) (now : Moment) (credential : String) (call : Call)
    (i : Identity) (h : a.verifier now credential call = .ok i) : ReadFrom credential i := by
  rw [ha] at h
  obtain ⟨hpayload, t, ht, -, htold⟩ := expiry_of_verify h
  exact ⟨hpayload, t, ht, htold⟩

/-- An expiry that is a whole number makes its identity expire with it. -/
theorem ReadFrom.lt_of_not_isExpired {token : String} {i : Identity} (hi : ReadFrom token i)
    {now : Int} (hlive : i.isExpired now = false) {t : Int}
    (ht : i.claims.get? "exp" = some (.number (.integer t))) : now < t := by
  obtain ⟨-, u, -, htold⟩ := hi
  unfold Identity.isExpired at hlive
  generalize i.expiresAt = told at htold hlive
  cases htold with
  | whole hu =>
      cases ht.symm.trans hu
      exact Int.lt_of_not_ge (of_decide_eq_false hlive)
  | rounded hx => cases ht.symm.trans hx

variable {ε β : Type}

/-- The identity of a token expires with it as long as the token tells its expiry as a whole
number, and then no cache serves the identity at that instant or later. From any other number that
the check of the expiry accepts, no expiry of the identity is made. -/
theorem verifier_keeps_expiry {v : TokenVerifier} {a : Authenticator}
    (ha : a.verifier = v.verifier) {capacity ttl : Nat} {cache : Cache Identity}
    (hnew : Cache.new capacity ttl = .ok cache) (events : List (Authenticator.Event ε β)) :
    (∀ now token i, v.verify now token = .ok i →
      payload? token = some i.claims ∧
        ∃ t, (i.claims.get? "exp").bind instant? = some t ∧ now ≤ t + v.limits.leeway ∧
          ExpiryTold i.claims t i.expiresAt) ∧
      ∀ (now : Moment) (r : Request ε β) (i : Identity),
        (a.authenticate now (a.cacheAfter (.on cache) events) r).verified = false →
        (a.authenticate now (a.cacheAfter (.on cache) events) r).result = .ok (some i) →
        ∃ token, a.extractor r.call = some token ∧ payload? token = some i.claims ∧
          ∀ t, i.claims.get? "exp" = some (.number (.integer t)) → now.wall < t := by
  refine ⟨fun now token i h => TokenVerifier.expiry_of_verify h, ?_⟩
  intro now r i hserved h
  have hempty : (CredentialCache.on cache).Holds ReadFrom := CredentialCache.holds_of_new hnew
  have hkept := Authenticator.holds_cacheAfter hempty (v.readFrom_of_verifier ha) events
  obtain ⟨token, htoken, hread, hlive⟩ := Authenticator.exists_kept_of_served hkept hserved h
  exact ⟨token, htoken, hread.1, fun t ht => hread.lt_of_not_isExpired hlive ht⟩

/-- The same call again after half a minute is answered from the cache. -/
theorem fixedAuthenticator_serves {v : TokenVerifier} {token : String} {i : Identity}
    (hi : v.verify 1700000000 token = .ok i) (hlive : i.isExpired 1700000030 = false) :
    let a := fixedAuthenticator v token
    let o := a.authenticate ⟨1700000030, 30000⟩
      (a.cacheAfter (.on ⟨1, 60000, .empty⟩) [.call ⟨1700000000, 0⟩ sampleCall]) sampleCall
    o.verified = false ∧ o.result = .ok (some i) := by
  have hclock : ¬ clockEnd ≤ 0 + 60000 := by decide
  simp [fixedAuthenticator, Authenticator.cacheAfter, Authenticator.authenticate,
    Pattern.anySelects, Authenticator.cached, Authenticator.verify, TokenVerifier.verifier, hi,
    CredentialCache.get, Cache.get, CredentialCache.set, Cache.set, CacheState.empty, Keyed.get?,
    CacheState.removeKey, CacheState.makeRoom, CacheState.add, Keyed.set, Keyed.erase, hclock,
    hlive]

theorem verifier_keeps_expiry_sample :
    ∃ i, (sampleVerifier [] []).verify 1700000000 (sampleToken plainPayload) = .ok i ∧
      ExpiryTold i.claims 4102444800 i.expiresAt ∧ i.expiresAt = some 4102444800 ∧
      (1700000030 : Int) < 4102444800 := by
  obtain ⟨i, hi, hclaims⟩ := exists_plain_verify [] []
  obtain ⟨hverified, hserved⟩ := verifier_keeps_expiry
    (show (fixedAuthenticator (sampleVerifier [] []) (sampleToken plainPayload)).verifier =
      (sampleVerifier [] []).verifier from rfl)
    (show Cache.new 1 60000 = .ok (⟨1, 60000, .empty⟩ : Cache Identity) from rfl)
    [.call ⟨1700000000, 0⟩ sampleCall]
  obtain ⟨-, t, ht, -, htold⟩ := hverified _ _ i hi
  have hexp : i.claims.get? "exp" = some (.number (.integer 4102444800)) := by
    rw [hclaims, plainClaims, timedClaims_exp]
  obtain rfl : 4102444800 = t := by
    rw [hexp] at ht
    exact Option.some.inj ht
  have hkept : i.expiresAt = some 4102444800 := by
    generalize i.expiresAt = told at htold
    cases htold with
    | whole h => rfl
    | rounded h => cases hexp.symm.trans h
  have hlive : i.isExpired 1700000030 = false := by
    simp [Identity.isExpired, hkept]
  obtain ⟨hcached, hresult⟩ := fixedAuthenticator_serves hi hlive
  obtain ⟨token, -, -, hbefore⟩ := hserved ⟨1700000030, 30000⟩ sampleCall i hcached hresult
  exact ⟨i, hi, htold, hkept, hbefore _ hexp⟩

/-- The same instant as in the plain claims, with a fraction of zero. -/
def fractionalExpiry : Binary64 :=
  ⟨false, 8603450317209600, -21, by decide⟩

def fractionalPayload : String := "\x7b\"sub\":\"u\",\"exp\":4102444800.0\x7d"

theorem fractionalPayload_read : (wholeDocument? fractionalPayload).bind claims? =
    some (timedClaims (.number (.double fractionalExpiry))) := by
  have hdocument : wholeDocument? fractionalPayload =
      some (timedDocument ⟨false, [4, 1, 0, 2, 4, 4, 4, 8, 0, 0], some [0], none⟩) := by
    cbv
  rw [hdocument]
  exact claims?_timedDocument (by decide +kernel)

/-- An expiry with a fraction is checked and then forgotten. -/
theorem verifier_loses_fractional_expiry :
    ¬ ∀ (config : Config) (v : TokenVerifier) (now : Nat) (token : String) (i : Identity),
      config.build = .ok v → v.verify now token = .ok i →
        ∃ t : Nat, (i.claims.get? "exp").bind instant? = some t ∧ i.expiresAt = some (t : Int) := by
  intro hkept
  have hinstant : instant? (.number (.double fractionalExpiry)) = some 4102444800 := by
    decide +kernel
  have haccepts := sampleVerifier_accepts fractionalPayload_read
    (timedClaims_admitted hinstant (by decide) [] [])
  obtain ⟨i, hi, hclaims⟩ := exists_timed_identity (.number (.double fractionalExpiry)) (by
    rintro u ⟨⟩)
  have hverify := haccepts.verify_eq.trans hi
  obtain ⟨t, -, ht⟩ := hkept _ _ _ _ i (sampleConfig_build [] []) hverify
  obtain ⟨-, u, -, -, htold⟩ := TokenVerifier.expiry_of_verify hverify
  rw [ht] at htold
  cases htold with
  | whole h =>
      rw [hclaims, timedClaims_exp] at h
      cases h

end CallGuard.Token
