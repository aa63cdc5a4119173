import CallGuard.Proofs.Authenticator.Outcome
import CallGuard.Proofs.Cache.Reachable

/-! # Failed checks

A check that fails hands back the request that it was given and keeps nothing of what it learned.
All that can happen to the cache is that it loses an entry of the credential at hand, which was out
of date or held an expired identity. Without a credential to check nothing happens at all. -/

namespace CallGuard

namespace CredentialCache

variable {α : Type}

/-- No cache, or one that operations made of a new one. -/
def Reachable : CredentialCache α → Prop
  | off => True
  | on c => c.Reachable

/-- The second cache is the first without a key. -/
def Without : CredentialCache α → String → CredentialCache α → Prop
  | off, _, off => True
  | on c, key, on d => c.Without key d
  | _, _, _ => False

end CredentialCache

namespace Authenticator

variable {ε β : Type} {now : Moment} {cache : CredentialCache Identity}

/-! ## Requests -/

/-- Headers are changed only once the caller is found out. -/
theorem request_of_error {a : Authenticator} {r : Request ε β} {f : Failure}
    (herror : (a.authenticate now cache r).result = .error f) :
    (a.authenticate now cache r).request = r := by
  have hcourse := a.authenticate_course now cache r
  generalize a.authenticate now cache r = o at hcourse herror
  cases hcourse with
  | letThrough hs => cases herror
  | unpresented hs hx => rfl
  | kept hs hx hk => cases herror
  | refused hs hx hk hv => rfl
  | unstorable hs hx hk hv he => rfl
  | verified hs hx hk hv he => cases herror

/-! ## Caches -/

/-- If no identity is served for a credential, the cache has none afterwards and lost nothing
else: also when there was one, whose look-up counted as use before it turned out to be expired. -/
theorem without_of_cached (hc : cache.Reachable) {credential : String}
    {d : CredentialCache Identity} (hk : cached cache now credential = (none, d)) :
    cache.Without credential d := by
  cases cache with
  | off =>
      obtain rfl := (Prod.mk.inj hk).2
      exact trivial
  | on c =>
      obtain ⟨hforgotten, hmissed⟩ := Cache.Reachable.without_of_get hc now.uptime credential
      rcases cached_cases hk with ⟨hget, -⟩ | ⟨-, rfl⟩
      · obtain ⟨hnone, rfl⟩ := Prod.mk.inj hget
        exact hmissed hnone
      · exact hforgotten

/-- Whatever error a check ends with, nothing is stored for it. -/
theorem without_of_error {a : Authenticator} (hc : cache.Reachable) {r : Request ε β} {e : Error}
    (herror : (a.authenticate now cache r).result = .error (.error e)) {credential : String}
    (hx : a.extractor r.call = some credential) :
    cache.Without credential (a.authenticate now cache r).cache := by
  have hcourse := a.authenticate_course now cache r
  generalize a.authenticate now cache r = o at hcourse herror
  cases hcourse with
  | letThrough hs => cases herror
  | unpresented hs hnone =>
      rw [hx] at hnone
      cases hnone
  | kept hs hsome hk => cases herror
  | refused hs hsome hk hv =>
      obtain rfl := Option.some.inj (hsome.symm.trans hx)
      exact without_of_cached hc hk
  | unstorable hs hsome hk hv he => cases herror
  | verified hs hsome hk hv he => cases herror

/-! ## Nothing to check -/

/-- A method that is let through, or a call without credential, never gets to the cache or to the
verifier: any other verifier would do. -/
theorem authenticate_of_nothing_to_check {a : Authenticator} {r : Request ε β}
    (h : Pattern.anySelects a.skip r.method = true ∨ a.extractor r.call = none) :
    (a.authenticate now cache r).cache = cache ∧ (a.authenticate now cache r).verified = false ∧
      ∀ v, { a with verifier := v }.authenticate now cache r = a.authenticate now cache r := by
  cases hs : Pattern.anySelects a.skip r.method with
  | true =>
      rw [authenticate_of_selected hs]
      refine ⟨rfl, rfl, ?_⟩
      intro v
      exact authenticate_of_selected (a := { a with verifier := v }) hs
  | false =>
      have hx : a.extractor r.call = none := h.resolve_left (by simp [hs])
      rw [authenticate_of_none hs hx]
      refine ⟨rfl, rfl, ?_⟩
      intro v
      exact authenticate_of_none (a := { a with verifier := v }) hs hx

/-- A failed check is atomic and leaves nothing in the cache. The request is handed back as it was;
no identity is kept for the credential that was shown, and everything that is kept for others stays
with its value, its expiry and its place in the order of use. Without a credential to check, the
cache is the same as before and the verifier is not asked. -/
theorem authenticate_atomic (a : Authenticator) (now : Moment) {cache : CredentialCache Identity}
    (hc : cache.Reachable) (r : Request ε β) :
    (∀ e, (a.authenticate now cache r).result = .error (.error e) →
      (a.authenticate now cache r).request = r ∧
        ∀ credential, a.extractor r.call = some credential →
          cache.Without credential (a.authenticate now cache r).cache) ∧
    (Pattern.anySelects a.skip r.method = true ∨ a.extractor r.call = none →
      (a.authenticate now cache r).cache = cache ∧
        (a.authenticate now cache r).verified = false ∧
        ∀ v, { a with verifier := v }.authenticate now cache r = a.authenticate now cache r) := by
  refine ⟨?_, authenticate_of_nothing_to_check⟩
  intro e herror
  exact ⟨request_of_error herror, fun _ hx => without_of_error hc herror hx⟩

/-! ## A session that has ended -/

def endedSample : Identity :=
  (Identity.ofSubject "bob").withExpiry 5

/-- Bob's identity was kept before Alice's and has expired since. -/
def keptSample : Cache Identity :=
  ⟨2, 60000, (CacheState.empty.add "bob" endedSample 60000).add "alice" (.ofSubject "alice") 60001⟩

theorem keptSample_reachable : keptSample.Reachable := by
  have hnew : Cache.new 2 60000 = .ok (⟨2, 60000, .empty⟩ : Cache Identity) := rfl
  have hbob : (⟨2, 60000, .empty⟩ : Cache Identity).perform (.set 0 "bob" endedSample) =
      some (none, ⟨2, 60000, CacheState.empty.add "bob" endedSample 60000⟩) := rfl
  have halice : (⟨2, 60000, CacheState.empty.add "bob" endedSample 60000⟩ : Cache Identity).perform
      (.set 1 "alice" (.ofSubject "alice")) = some (none, keptSample) := rfl
  exact ((Cache.Reachable.new hnew).perform hbob).perform halice

/-- An authenticator that lets nobody in. The credential is the name of the method. -/
def refuserSample : Authenticator where
  verifier _ _ _ := .error (.refused (.unauthenticated "session not found"))
  extractor call := some call.method.name
  skip := []
  strip := [.authorization]
  propagation := some .all
  exposeErrors := false

def endedCallSample : Request Unit Unit :=
  { Request.ofMethod ⟨"Users", "bob"⟩ () () with
    headers := ⟨[(.authorization, ⟨"bob".toUTF8, by decide +kernel⟩)]⟩ }

/-- Looking up Bob's identity makes it the last one used, and then it is forgotten. -/
theorem authenticate_atomic_sample :
    (CredentialCache.on keptSample).Reachable ∧
      (refuserSample.authenticate ⟨1000, 2⟩ (.on keptSample) endedCallSample).result =
        .error (.error (.unauthenticated "session not found")) ∧
      (refuserSample.authenticate ⟨1000, 2⟩ (.on keptSample) endedCallSample).request =
        endedCallSample ∧
      (CredentialCache.on keptSample).Without "bob"
        (refuserSample.authenticate ⟨1000, 2⟩ (.on keptSample) endedCallSample).cache := by
  have hresult : (refuserSample.authenticate ⟨1000, 2⟩ (.on keptSample) endedCallSample).result =
      .error (.error (.unauthenticated "session not found")) := rfl
  have hreachable : (CredentialCache.on keptSample).Reachable := keptSample_reachable
  obtain ⟨hrequest, hcache⟩ :=
    (authenticate_atomic refuserSample ⟨1000, 2⟩ hreachable endedCallSample).1 _ hresult
  exact ⟨hreachable, hresult, hrequest, hcache "bob" rfl⟩

end Authenticator

end CallGuard
