import CallGuard.Authenticator
import CallGuard.Proofs.Checks
import CallGuard.Proofs.Headers

/-! # What an authenticator makes of a request

An authenticator is built from checked texts. It lets a method through, misses the credential, or
finds out who is behind it. The headers that it hands on are told by the values of each name. -/

namespace CallGuard

/-! ## Construction -/

namespace AuthenticatorConfig

/-- The checks that a configuration has passed, and what became of its parts. -/
structure Built (c : AuthenticatorConfig) (a : Authenticator) : Prop where
  verifier : a.verifier = c.verifier
  extractor : a.extractor = c.extractor
  skip : Pattern.parseAll c.skip = .ok a.skip
  strip : c.strip.mapM HeaderName.ofConfig = .ok a.strip
  propagation : a.propagation = c.propagation
  exposeErrors : a.exposeErrors = c.exposeErrors

theorem build_eq_ok_iff {c : AuthenticatorConfig} {a : Authenticator} :
    c.build = .ok a ↔ c.Built a := by
  constructor
  · intro h
    unfold build at h
    obtain ⟨strip, hstrip, h⟩ := Checks.bind_eq_ok_iff.mp h
    obtain ⟨skip, hskip, h⟩ := Checks.bind_eq_ok_iff.mp h
    cases h
    exact ⟨rfl, rfl, hskip, hstrip, rfl, rfl⟩
  · intro h
    obtain ⟨verifier, extractor, skip, strip, propagation, exposeErrors⟩ := a
    obtain ⟨rfl, rfl, hskip, hstrip, rfl, rfl⟩ := h
    unfold build
    refine Checks.bind_eq_ok_iff.mpr ⟨strip, hstrip, ?_⟩
    exact Checks.bind_eq_ok_iff.mpr ⟨skip, hskip, rfl⟩

end AuthenticatorConfig

namespace Authenticator

variable {ε β : Type}

/-! ## Headers that do not travel -/

/-- Whether an authenticator takes a header out of the requests that it lets through. -/
def strips (a : Authenticator) (name : HeaderName) : Bool :=
  a.strip.contains name || (a.propagation.isSome && Propagation.headerNames.contains name)

theorem strips_iff (a : Authenticator) (name : HeaderName) :
    a.strips name = true ↔
      name ∈ a.strip ∨ a.propagation.isSome = true ∧ name ∈ Propagation.headerNames := by
  simp [strips]

theorem values_stripHeaders (a : Authenticator) (h : Headers) (name : HeaderName) :
    (a.stripHeaders h).values name = if a.strips name then [] else h.values name := by
  by_cases hp : a.propagation.isSome = true
  · by_cases hn : name ∈ a.strip <;>
      simp [stripHeaders, Propagation.strip, strips, Headers.values_removeAll, hp, hn]
  · simp [stripHeaders, strips, Headers.values_removeAll, hp]

/-! ## Looking for an identity -/

/-- What a look-up finds is taken as it is, unless it has expired: then it is forgotten. -/
theorem cached_cases {cache d : CredentialCache Identity} {now : Moment} {credential : String}
    {found : Option Identity} (hk : cached cache now credential = (found, d)) :
    (cache.get now.uptime credential = (found, d) ∧
        ∀ i, found = some i → i.isExpired now.wall = false) ∨
      found = none ∧ d = (cache.get now.uptime credential).2.invalidate credential := by
  unfold cached at hk
  rcases hget : cache.get now.uptime credential with ⟨_ | i, e⟩
  · rw [hget] at hk
    cases hk
    exact .inl ⟨rfl, by simp⟩
  · rw [hget] at hk
    dsimp only at hk
    split at hk
    next =>
      cases hk
      exact .inr ⟨rfl, rfl⟩
    next hlive =>
      cases hk
      refine .inl ⟨rfl, ?_⟩
      rintro _ ⟨⟩
      exact eq_false_of_ne_true hlive

/-! ## The ways a check can end -/

section

variable {a : Authenticator} {now : Moment} {cache : CredentialCache Identity} {r : Request ε β}

theorem authenticate_of_selected (hs : Pattern.anySelects a.skip r.method = true) :
    a.authenticate now cache r =
      ⟨.ok none, r.withHeaders (a.stripHeaders r.headers), cache, false⟩ := by
  simp [authenticate, hs]

theorem authenticate_of_none (hs : Pattern.anySelects a.skip r.method = false)
    (hc : a.extractor r.call = none) :
    a.authenticate now cache r =
      ⟨.error (.error (.unauthenticated "missing credential")), r, cache, false⟩ := by
  simp [authenticate, hs, hc]

/-- A credential whose identity is kept is not verified again. -/
theorem authenticate_of_hit {credential : String} {i : Identity} {d : CredentialCache Identity}
    (hs : Pattern.anySelects a.skip r.method = false)
    (hc : a.extractor r.call = some credential)
    (hk : cached cache now credential = (some i, d)) :
    a.authenticate now cache r =
      ⟨.ok (some i), r.withHeaders (a.forwardHeaders i r.headers), d, false⟩ := by
  simp [authenticate, hs, hc, hk]

theorem authenticate_of_miss {credential : String} {d : CredentialCache Identity}
    (hs : Pattern.anySelects a.skip r.method = false)
    (hc : a.extractor r.call = some credential)
    (hk : cached cache now credential = (none, d)) :
    a.authenticate now cache r =
      match a.verify now d credential r.call with
      | (.error f, d) => ⟨.error f, r, d, true⟩
      | (.ok i, d) => ⟨.ok (some i), r.withHeaders (a.forwardHeaders i r.headers), d, true⟩ := by
  simp only [authenticate, hs, hc, hk]
  rcases a.verify now d credential r.call with ⟨_ | i, d⟩
  · rfl
  · rfl

/-- Without a cache the verifier is asked about every credential. -/
theorem authenticate_off_of_some {credential : String}
    (hs : Pattern.anySelects a.skip r.method = false)
    (hc : a.extractor r.call = some credential) :
    a.authenticate now .off r =
      match a.verifier now credential r.call with
      | .error f => ⟨.error (.ofVerify a.exposeErrors f), r, .off, true⟩
      | .ok i => ⟨.ok (some i), r.withHeaders (a.forwardHeaders i r.headers), .off, true⟩ := by
  rw [authenticate_of_miss hs hc (show cached .off now credential = (none, .off) from rfl)]
  cases hv : a.verifier now credential r.call with
  | error f => simp [verify, hv]
  | ok i => simp [verify, CredentialCache.set, hv]

theorem authenticate_off_cache (a : Authenticator) (now : Moment) (r : Request ε β) :
    (a.authenticate now .off r).cache = .off := by
  cases hs : Pattern.anySelects a.skip r.method with
  | true => rw [authenticate_of_selected hs]
  | false =>
      cases hc : a.extractor r.call with
      | none => rw [authenticate_of_none hs hc]
      | some credential =>
          rw [authenticate_off_of_some hs hc]
          cases a.verifier now credential r.call with
          | error f => rfl
          | ok i => rfl

end

/-! ## The course of a call -/

/-- A call is let through, shows no credential, or shows one: then an identity is kept for it, or
the verifier refuses it, or the verifier knows who is behind it. What the verifier finds out may
fail to be kept. -/
inductive Course (a : Authenticator) (now : Moment) (cache : CredentialCache Identity)
    (r : Request ε β) : Outcome ε β → Prop where
  | letThrough (hs : Pattern.anySelects a.skip r.method = true) :
      Course a now cache r ⟨.ok none, r.withHeaders (a.stripHeaders r.headers), cache, false⟩
  | unpresented (hs : Pattern.anySelects a.skip r.method = false)
      (hc : a.extractor r.call = none) :
      Course a now cache r
        ⟨.error (.error (.unauthenticated "missing credential")), r, cache, false⟩
  | kept {credential i d} (hs : Pattern.anySelects a.skip r.method = false)
      (hc : a.extractor r.call = some credential)
      (hk : cached cache now credential = (some i, d)) :
      Course a now cache r
        ⟨.ok (some i), r.withHeaders (a.forwardHeaders i r.headers), d, false⟩
  | refused {credential d f} (hs : Pattern.anySelects a.skip r.method = false)
      (hc : a.extractor r.call = some credential)
      (hk : cached cache now credential = (none, d))
      (hv : a.verifier now credential r.call = .error f) :
      Course a now cache r ⟨.error (.ofVerify a.exposeErrors f), r, d, true⟩
  | unstorable {credential d i} (hs : Pattern.anySelects a.skip r.method = false)
      (hc : a.extractor r.call = some credential)
      (hk : cached cache now credential = (none, d))
      (hv : a.verifier now credential r.call = .ok i) (he : d.set now.uptime credential i = none) :
      Course a now cache r ⟨.error .clockOverflow, r, d, true⟩
  | verified {credential d i e} (hs : Pattern.anySelects a.skip r.method = false)
      (hc : a.extractor r.call = some credential)
      (hk : cached cache now credential = (none, d))
      (hv : a.verifier now credential r.call = .ok i)
      (he : d.set now.uptime credential i = some e) :
      Course a now cache r
        ⟨.ok (some i), r.withHeaders (a.forwardHeaders i r.headers), e, true⟩

theorem authenticate_course (a : Authenticator) (now : Moment) (cache : CredentialCache Identity)
    (r : Request ε β) : a.Course now cache r (a.authenticate now cache r) := by
  cases hs : Pattern.anySelects a.skip r.method with
  | true =>
      rw [authenticate_of_selected hs]
      exact .letThrough hs
  | false =>
      cases hc : a.extractor r.call with
      | none =>
          rw [authenticate_of_none hs hc]
          exact .unpresented hs hc
      | some credential =>
          rcases hk : cached cache now credential with ⟨_ | i, d⟩
          · rw [authenticate_of_miss hs hc hk]
            cases hv : a.verifier now credential r.call with
            | error f =>
                simp only [verify, hv]
                exact .refused hs hc hk hv
            | ok i =>
                cases he : d.set now.uptime credential i with
                | none =>
                    simp only [verify, hv, he]
                    exact .unstorable hs hc hk hv he
                | some e =>
                    simp only [verify, hv, he]
                    exact .verified hs hc hk hv he
          · rw [authenticate_of_hit hs hc hk]
            exact .kept hs hc hk

/-- A check never changes which method is called. -/
theorem authenticate_method (a : Authenticator) (now : Moment) (cache : CredentialCache Identity)
    (r : Request ε β) : (a.authenticate now cache r).request.method = r.method := by
  have hcourse := a.authenticate_course now cache r
  generalize a.authenticate now cache r = o at hcourse
  cases hcourse <;> rfl

/-- A check ends without an identity exactly for the methods that are let through. -/
theorem result_eq_ok_none_iff (a : Authenticator) (now : Moment) (cache : CredentialCache Identity)
    (r : Request ε β) :
    (a.authenticate now cache r).result = .ok none ↔ Pattern.anySelects a.skip r.method = true := by
  have hcourse := a.authenticate_course now cache r
  generalize a.authenticate now cache r = o at hcourse ⊢
  cases hcourse with
  | letThrough hs => simp [hs]
  | unpresented hs => simp [hs]
  | kept hs => simp [hs]
  | refused hs => simp [hs]
  | unstorable hs => simp [hs]
  | verified hs => simp [hs]

end Authenticator

end CallGuard
