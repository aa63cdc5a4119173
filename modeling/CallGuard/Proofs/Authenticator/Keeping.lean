import CallGuard.Proofs.Authenticator.Transparency

/-! # What an authenticator keeps

A verifier may answer differently as time goes by. What a cache keeps under a credential is still
an answer that the verifier once gave to it, and one that has not expired when it is served. -/

namespace CallGuard

namespace CredentialCache

/-- Every identity that is kept has a property together with its credential. -/
def Holds (P : String → Identity → Prop) : CredentialCache Identity → Prop
  | off => True
  | on cache => cache.state.Holds P

/-- Every identity that is kept has a property together with its credential and the instant up to
which it is kept. -/
def HoldsUntil (Q : String → Identity → Nat → Prop) : CredentialCache Identity → Prop
  | off => True
  | on cache => cache.state.HoldsUntil Q

/-- How long a cache keeps an identity. -/
def ttl? : CredentialCache Identity → Option Nat
  | off => none
  | on cache => some cache.ttl

variable {P : String → Identity → Prop} {Q R : String → Identity → Nat → Prop}
  {c d : CredentialCache Identity}

theorem holds_iff_holdsUntil : c.Holds P ↔ c.HoldsUntil fun credential i _ => P credential i := by
  cases c with
  | off => exact Iff.rfl
  | on cache => exact CacheState.holds_iff_holdsUntil

theorem HoldsUntil.mono (hc : c.HoldsUntil Q)
    (h : ∀ credential i expiresAt, Q credential i expiresAt → R credential i expiresAt) :
    c.HoldsUntil R := by
  cases c with
  | off => trivial
  | on cache => exact fun credential e he => h credential e.value e.expiresAt (hc credential e he)

theorem holdsUntil_get (hc : c.HoldsUntil Q) (now : Nat) (credential : String) :
    (c.get now credential).2.HoldsUntil Q ∧
      ∀ i, (c.get now credential).1 = some i →
        ∃ expiresAt, Q credential i expiresAt ∧ now < expiresAt := by
  cases c with
  | off => exact ⟨trivial, by simp [get]⟩
  | on cache => exact Cache.holdsUntil_get hc now credential

theorem holdsUntil_set (hc : c.HoldsUntil Q) {now : Nat} {credential : String} {i : Identity}
    (hi : ∀ ttl, c.ttl? = some ttl → Q credential i (now + ttl))
    (h : c.set now credential i = some d) : d.HoldsUntil Q := by
  cases c with
  | off =>
      cases h
      trivial
  | on cache =>
      obtain ⟨e, he, rfl⟩ := Option.map_eq_some_iff.mp h
      exact Cache.holdsUntil_set hc (hi cache.ttl rfl) he

theorem holds_set (hc : c.Holds P) {now : Nat} {credential : String} {i : Identity}
    (hi : P credential i) (h : c.set now credential i = some d) : d.Holds P :=
  holds_iff_holdsUntil.mpr (holdsUntil_set (holds_iff_holdsUntil.mp hc) (fun _ _ => hi) h)

theorem holdsUntil_invalidate (hc : c.HoldsUntil Q) (credential : String) :
    (c.invalidate credential).HoldsUntil Q := by
  cases c with
  | off => trivial
  | on cache => exact Cache.holdsUntil_invalidate hc credential

theorem holds_invalidate (hc : c.Holds P) (credential : String) :
    (c.invalidate credential).Holds P :=
  holds_iff_holdsUntil.mpr (holdsUntil_invalidate (holds_iff_holdsUntil.mp hc) credential)

theorem holdsUntil_clear (c : CredentialCache Identity) : c.clear.HoldsUntil Q := by
  cases c with
  | off => trivial
  | on cache => exact cache.holdsUntil_clear

theorem holds_clear (c : CredentialCache Identity) : c.clear.Holds P :=
  holds_iff_holdsUntil.mpr c.holdsUntil_clear

theorem holdsUntil_of_new {capacity ttl : Nat} {cache : Cache Identity}
    (h : Cache.new capacity ttl = .ok cache) : (on cache).HoldsUntil Q := by
  obtain rfl := Cache.eq_of_new h
  exact CacheState.holdsUntil_empty

theorem holds_of_new {capacity ttl : Nat} {cache : Cache Identity}
    (h : Cache.new capacity ttl = .ok cache) : (on cache).Holds P :=
  holds_iff_holdsUntil.mpr (holdsUntil_of_new h)

theorem get_ttl? (c : CredentialCache Identity) (now : Nat) (credential : String) :
    (c.get now credential).2.ttl? = c.ttl? := by
  cases c with
  | off => rfl
  | on cache => exact congrArg some (cache.get_ttl now credential)

theorem invalidate_ttl? (c : CredentialCache Identity) (credential : String) :
    (c.invalidate credential).ttl? = c.ttl? := by
  cases c with
  | off => rfl
  | on cache => rfl

/-- A property of caches that no operation takes away. -/
structure Stable {α : Type} (K : CredentialCache α → Prop) : Prop where
  get : ∀ {c}, K c → ∀ now key, K (c.get now key).2
  set : ∀ {c d now key value}, K c → c.set now key value = some d → K d
  invalidate : ∀ {c}, K c → ∀ key, K (c.invalidate key)
  clear : ∀ {c}, K c → K c.clear

theorem stable_ttl? (ttl : Option Nat) : Stable fun c : CredentialCache Identity => c.ttl? = ttl where
  get hc now credential := (get_ttl? _ now credential).trans hc
  set := by
    intro c d now credential i hc h
    cases c with
    | off =>
        cases h
        exact hc
    | on cache =>
        obtain ⟨e, he, rfl⟩ := Option.map_eq_some_iff.mp h
        exact hc ▸ congrArg some (Cache.set_ttl he)
  invalidate hc credential := (invalidate_ttl? _ credential).trans hc
  clear := by
    intro c hc
    cases c with
    | off => exact hc
    | on cache => exact hc

/-- Only the end of the clock is in the way of keeping an identity. -/
theorem exists_ttl_of_set_eq_none {now : Nat} {credential : String} {i : Identity}
    (h : c.set now credential i = none) : ∃ ttl, c.ttl? = some ttl ∧ clockEnd ≤ now + ttl := by
  cases c with
  | off => cases h
  | on cache =>
      refine ⟨cache.ttl, rfl, ?_⟩
      apply Nat.le_of_not_lt
      intro hfits
      obtain ⟨d, hd⟩ := cache.exists_set_eq_some credential i hfits
      rw [set, hd] at h
      cases h

end CredentialCache

namespace Authenticator

variable {ε β : Type} {P : String → Identity → Prop} {Q : String → Identity → Nat → Prop}
  {K : CredentialCache Identity → Prop} {a : Authenticator} {now : Moment}
  {cache : CredentialCache Identity}

/-! ## One call -/

/-- An identity that is found was kept for the credential, is not out of date and has not
expired. -/
theorem holdsUntil_cached (hc : cache.HoldsUntil Q) {credential : String}
    {found : Option Identity} {d : CredentialCache Identity}
    (hk : cached cache now credential = (found, d)) :
    d.HoldsUntil Q ∧ ∀ i, found = some i →
      (∃ expiresAt, Q credential i expiresAt ∧ now.uptime < expiresAt) ∧
        i.isExpired now.wall = false := by
  obtain ⟨hkept, hfound⟩ := CredentialCache.holdsUntil_get hc now.uptime credential
  rcases cached_cases hk with ⟨hget, hlive⟩ | ⟨rfl, rfl⟩
  · rw [hget] at hkept hfound
    exact ⟨hkept, fun i hi => ⟨hfound i hi, hlive i hi⟩⟩
  · exact ⟨CredentialCache.holdsUntil_invalidate hkept credential, by simp⟩

theorem holds_cached (hc : cache.Holds P) {credential : String} {found : Option Identity}
    {d : CredentialCache Identity} (hk : cached cache now credential = (found, d)) :
    d.Holds P ∧ ∀ i, found = some i → P credential i ∧ i.isExpired now.wall = false := by
  obtain ⟨hkept, hfound⟩ := holdsUntil_cached (CredentialCache.holds_iff_holdsUntil.mp hc) hk
  refine ⟨CredentialCache.holds_iff_holdsUntil.mpr hkept, ?_⟩
  intro i hi
  obtain ⟨⟨-, hvalue, -⟩, hlive⟩ := hfound i hi
  exact ⟨hvalue, hlive⟩

theorem stable_cached (hK : CredentialCache.Stable K) (hc : K cache) {credential : String}
    {found : Option Identity} {d : CredentialCache Identity}
    (hk : cached cache now credential = (found, d)) : K d := by
  have hkept := hK.get hc now.uptime credential
  rcases cached_cases hk with ⟨hget, -⟩ | ⟨-, rfl⟩
  · rwa [hget] at hkept
  · exact hK.invalidate hkept credential

theorem cached_ttl? {credential : String} {found : Option Identity} {d : CredentialCache Identity}
    (hk : cached cache now credential = (found, d)) : d.ttl? = cache.ttl? :=
  stable_cached (CredentialCache.stable_ttl? cache.ttl?) rfl hk

theorem stable_authenticate (hK : CredentialCache.Stable K) (hc : K cache) (r : Request ε β) :
    K (a.authenticate now cache r).cache := by
  have hcourse := a.authenticate_course now cache r
  generalize a.authenticate now cache r = o at hcourse
  cases hcourse with
  | letThrough hs => exact hc
  | unpresented hs hx => exact hc
  | kept hs hx hk => exact stable_cached hK hc hk
  | refused hs hx hk hv => exact stable_cached hK hc hk
  | unstorable hs hx hk hv he => exact stable_cached hK hc hk
  | verified hs hx hk hv he => exact hK.set (stable_cached hK hc hk) he

/-- A call adds nothing to the cache but an answer of the verifier. -/
theorem holds_authenticate (hc : cache.Holds P)
    (ha : ∀ now credential call i, a.verifier now credential call = .ok i → P credential i)
    (r : Request ε β) : (a.authenticate now cache r).cache.Holds P := by
  have hcourse := a.authenticate_course now cache r
  generalize a.authenticate now cache r = o at hcourse
  cases hcourse with
  | letThrough hs => exact hc
  | unpresented hs hx => exact hc
  | kept hs hx hk => exact (holds_cached hc hk).1
  | refused hs hx hk hv => exact (holds_cached hc hk).1
  | unstorable hs hx hk hv he => exact (holds_cached hc hk).1
  | verified hs hx hk hv he =>
      exact CredentialCache.holds_set (holds_cached hc hk).1 (ha _ _ _ _ hv) he

/-- An identity that is served without asking the verifier was kept for the credential, and has not
expired. -/
theorem exists_kept_of_served (hc : cache.Holds P) {r : Request ε β} {i : Identity}
    (hserved : (a.authenticate now cache r).verified = false)
    (h : (a.authenticate now cache r).result = .ok (some i)) :
    ∃ credential, a.extractor r.call = some credential ∧ P credential i ∧
      i.isExpired now.wall = false := by
  have hcourse := a.authenticate_course now cache r
  generalize a.authenticate now cache r = o at hcourse hserved h
  cases hcourse with
  | letThrough hs => cases h
  | unpresented hs hx => cases h
  | kept hs hx hk =>
      cases h
      exact ⟨_, hx, (holds_cached hc hk).2 i rfl⟩
  | refused hs hx hk hv => cases hserved
  | unstorable hs hx hk hv he => cases hserved
  | verified hs hx hk hv he => cases hserved

/-! ## All calls -/

theorem stable_cacheAfter (hK : CredentialCache.Stable K) (hc : K cache)
    (events : List (Event ε β)) : K (a.cacheAfter cache events) := by
  induction events generalizing cache with
  | nil => exact hc
  | cons event rest ih =>
      cases event with
      | call now r => exact ih (stable_authenticate hK hc r)
      | invalidate credential => exact ih (hK.invalidate hc credential)
      | clear => exact ih (hK.clear hc)

theorem cacheAfter_append (a : Authenticator) (cache : CredentialCache Identity)
    (past events : List (Event ε β)) :
    a.cacheAfter cache (past ++ events) = a.cacheAfter (a.cacheAfter cache past) events := by
  induction past generalizing cache with
  | nil => rfl
  | cons event rest ih =>
      cases event with
      | call now r => exact ih (a.authenticate now cache r).cache
      | invalidate credential => exact ih (cache.invalidate credential)
      | clear => exact ih cache.clear

theorem holds_cacheAfter (hc : cache.Holds P)
    (ha : ∀ now credential call i, a.verifier now credential call = .ok i → P credential i)
    (events : List (Event ε β)) : (a.cacheAfter cache events).Holds P := by
  -- each event hands another cache to the rest of the run
  induction events generalizing cache with
  | nil => exact hc
  | cons event rest ih =>
      cases event with
      | call now r => exact ih (holds_authenticate hc ha r)
      | invalidate credential => exact ih (CredentialCache.holds_invalidate hc credential)
      | clear => exact ih cache.holds_clear

end Authenticator

end CallGuard
