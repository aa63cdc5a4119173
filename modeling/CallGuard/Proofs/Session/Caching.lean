import CallGuard.Proofs.Authenticator.LastWord
import CallGuard.Proofs.Checks
import CallGuard.Session

/-! # Sessions in a cache

A store gets to see the headers of a call beside its session, and may answer by them. A cache knows
sessions only: once the store has answered to a call, other calls of the session get the same
answer, whatever their headers are, until the cache forgets it. -/

namespace CallGuard.Session

variable {ε β : Type} {store : SessionStore}

/-- A session is accepted exactly when the store knows an identity for it and the headers. -/
theorem verifier_eq_ok_iff {now : Moment} {session : String} {call : Call} {i : Identity} :
    verifier store now session call = .ok i ↔
      ∃ j, store session call.headers = .ok (some j) ∧ i = label j := by
  unfold verifier
  rw [Checks.bind_eq_ok_iff]
  constructor
  · rintro ⟨found, hfound, h⟩
    cases found with
    | none => cases h
    | some j =>
        cases h
        exact ⟨j, hfound, rfl⟩
  · rintro ⟨j, hj, rfl⟩
    exact ⟨some j, hj, rfl⟩

/-- The configurations of an authenticator for sessions: the options are open, but not whom it asks
and where it finds the session. -/
structure Configures (store : SessionStore) (cookie : String) (c : AuthenticatorConfig) : Prop where
  verifier : c.verifier = (authenticator store cookie).verifier
  extractor : c.extractor = (authenticator store cookie).extractor

theorem Configures.of_build {cookie : String} {c : AuthenticatorConfig} {a : Authenticator}
    (hc : Configures store cookie c) (hbuild : c.build = .ok a) :
    a.verifier = Session.verifier store ∧ a.extractor = Extractor.cookie cookie true := by
  have hbuilt := AuthenticatorConfig.build_eq_ok_iff.mp hbuild
  exact ⟨hbuilt.verifier.trans hc.verifier, hbuilt.extractor.trans hc.extractor⟩

/-- A call is accepted without an identity when its method is let through. Otherwise it shows a
session, and the identity is what the store answers for the session, labelled. If the store was
asked, it was with the headers of the call. If not, it was with those of an earlier call, the last
one for which it was asked about the session: since then neither was the session invalidated nor
the cache cleared, less than the time to live has passed, and the identity has not expired. -/
theorem build_serves_last_answer {cookie : String} {c : AuthenticatorConfig} {a : Authenticator}
    (hc : Configures store cookie c) (hbuild : c.build = .ok a)
    {capacity ttl : Nat} {cache : Cache Identity} (hnew : Cache.new capacity ttl = .ok cache)
    (events : List (Authenticator.Event ε β)) {now : Moment} {r : Request ε β}
    {o : Outcome ε β}
    (ho : a.authenticate now (a.cacheAfter (.on cache) events) r = o) {caller : Option Identity}
    (haccepted : o.result = .ok caller) :
    caller = none ∧ Pattern.anySelects a.skip r.method = true ∨
      ∃ session i, caller = some (label i) ∧
        Extractor.cookie cookie true r.call = some session ∧
        (o.verified = true ∧ store session r.headers = .ok (some i) ∨
          o.verified = false ∧ ∃ time q,
            Authenticator.LastWord a (.on cache) session events time q (label i) ∧
              store session q.headers = .ok (some i) ∧ now.uptime < time.uptime + ttl ∧
              (label i).isExpired now.wall = false) := by
  obtain ⟨hverifier, hextractor⟩ := hc.of_build hbuild
  subst ho
  cases caller with
  | none => exact .inl ⟨rfl, (Authenticator.result_eq_ok_none_iff ..).mp haccepted⟩
  | some caller =>
      right
      obtain ⟨session, hx, ⟨hverified, hv⟩ | ⟨hserved, time, q, hword, hfresh, hlive⟩⟩ :=
        Authenticator.verified_or_lastWord hnew events haccepted
      · rw [hverifier] at hv
        obtain ⟨i, hi, rfl⟩ := verifier_eq_ok_iff.mp hv
        exact ⟨session, i, rfl, hextractor ▸ hx, .inl ⟨hverified, hi⟩⟩
      · have hv := hword.verifier_eq
        rw [hverifier] at hv
        obtain ⟨i, hi, rfl⟩ := verifier_eq_ok_iff.mp hv
        exact ⟨session, i, rfl, hextractor ▸ hx, .inr ⟨hserved, time, q, hword, hi, hfresh, hlive⟩⟩

/-! ## Two tenants -/

def tenantHeader : HeaderName := ⟨"x-tenant", by decide⟩

/-- Alice, with the tenant that the headers of a call name. -/
def tenantIdentity (h : Headers) : Identity :=
  (Identity.ofSubject "alice").withClaim "tenant" (((h.text? tenantHeader).map .string).getD .null)

/-- There is one session, which Alice has for any tenant. -/
def tenantStore : SessionStore := fun session h =>
  if session = "s-1" then .ok (some (tenantIdentity h)) else .ok none

def acmeValue : HeaderValue := ⟨"acme".toUTF8, by decide +kernel⟩

def globexValue : HeaderValue := ⟨"globex".toUTF8, by decide +kernel⟩

/-- A call of the session for a tenant. -/
def tenantCall (tenant : HeaderValue) : Request Unit Unit :=
  { Request.ofMethod ⟨"svc.Profile", "Get"⟩ () () with
    headers := ⟨[(.cookie, ⟨"sid=s-1".toUTF8, by decide +kernel⟩), (tenantHeader, tenant)]⟩ }

def tenantAuthenticator : Authenticator where
  verifier := verifier tenantStore
  extractor := Extractor.cookie "sid" true
  skip := []
  strip := []
  propagation := none
  exposeErrors := false

/-- A call for the second tenant, right after one for the first. -/
def secondTenantOutcome : Outcome Unit Unit :=
  tenantAuthenticator.authenticate ⟨0, 1⟩
    (tenantAuthenticator.cacheAfter (.on ⟨8, 60000, .empty⟩) [.call ⟨0, 0⟩ (tenantCall acmeValue)])
    (tenantCall globexValue)

theorem secondTenantOutcome_result :
    secondTenantOutcome.result = .ok (some (label (tenantIdentity (tenantCall acmeValue).headers))) :=
  rfl

/-- The call for the second tenant is answered for the first one, and not as the store answers for
it. -/
theorem cache_ignores_headers :
    (authenticator tenantStore "sid").build = .ok tenantAuthenticator ∧
      Cache.new 8 60000 = .ok (⟨8, 60000, .empty⟩ : Cache Identity) ∧
      ∃ i, secondTenantOutcome.result = .ok (some i) ∧
        ¬ ∃ session j, Extractor.cookie "sid" true (tenantCall globexValue).call = some session ∧
          tenantStore session (tenantCall globexValue).headers = .ok (some j) ∧ i = label j := by
  refine ⟨rfl, rfl, _, secondTenantOutcome_result, ?_⟩
  rintro ⟨session, j, hx, hj, hi⟩
  have hsession : Extractor.cookie "sid" true (tenantCall globexValue).call = some "s-1" := rfl
  obtain rfl := Option.some.inj (hsession.symm.trans hx)
  obtain rfl : tenantIdentity (tenantCall globexValue).headers = j :=
    Option.some.inj (Except.ok.inj hj)
  have hclaim := congrArg (fun i => i.claims.get? "tenant") hi
  change some (Json.string "acme") = some (Json.string "globex") at hclaim
  simp at hclaim

theorem build_serves_last_answer_sample :
    (authenticator tenantStore "sid").build = .ok tenantAuthenticator ∧
      Cache.new 8 60000 = .ok (⟨8, 60000, .empty⟩ : Cache Identity) ∧
      secondTenantOutcome.verified = false ∧
      secondTenantOutcome.result =
        .ok (some (label (tenantIdentity (tenantCall acmeValue).headers))) ∧
      ∃ i time q, Authenticator.LastWord tenantAuthenticator (.on ⟨8, 60000, .empty⟩) "s-1"
          [.call ⟨0, 0⟩ (tenantCall acmeValue)] time q (label i) ∧
        tenantStore "s-1" q.headers = .ok (some i) ∧ 1 < time.uptime + 60000 := by
  have hconfigures : Configures tenantStore "sid" (authenticator tenantStore "sid") := ⟨rfl, rfl⟩
  have hbuild : (authenticator tenantStore "sid").build = .ok tenantAuthenticator := rfl
  have hnew : Cache.new 8 60000 = .ok (⟨8, 60000, .empty⟩ : Cache Identity) := rfl
  have hserved : secondTenantOutcome.verified = false := rfl
  have hsession : Extractor.cookie "sid" true (tenantCall globexValue).call = some "s-1" := rfl
  refine ⟨hbuild, hnew, hserved, secondTenantOutcome_result, ?_⟩
  obtain ⟨hnone, -⟩ | ⟨session, i, -, hx, ⟨hverified, -⟩ | ⟨-, time, q, hword, hi, hfresh, -⟩⟩ :=
    build_serves_last_answer hconfigures hbuild hnew [.call ⟨0, 0⟩ (tenantCall acmeValue)]
      (show _ = secondTenantOutcome from rfl) secondTenantOutcome_result
  · cases hnone
  · rw [hserved] at hverified
    cases hverified
  · obtain rfl := Option.some.inj (hsession.symm.trans hx)
    exact ⟨i, time, q, hword, hi, hfresh⟩

end CallGuard.Session
