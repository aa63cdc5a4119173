import CallGuard.Proofs.Authenticator.Outcome
import CallGuard.Proofs.Cache.Recency

/-! # Caches that nobody notices

A cache is transparent when the verifier answers by the credential alone: whatever is kept under a
credential is then the answer that the verifier would give again. -/

namespace CallGuard

/-! ## Ticks -/

namespace CredentialCache

variable {α : Type}

/-- How many ticks a cache has taken. -/
def tick : CredentialCache α → Nat
  | off => 0
  | on cache => cache.state.tick

theorem get_tick_le (c : CredentialCache α) (now : Nat) (key : String) :
    (c.get now key).2.tick ≤ c.tick + 1 := by
  cases c with
  | off => exact Nat.le_succ _
  | on cache => exact cache.get_tick_le now key

theorem set_tick_le {c d : CredentialCache α} {now : Nat} {key : String} {value : α}
    (h : c.set now key value = some d) : d.tick ≤ c.tick + 1 := by
  cases c with
  | off =>
      cases h
      exact Nat.le_succ _
  | on cache =>
      obtain ⟨e, he, rfl⟩ := Option.map_eq_some_iff.mp h
      exact Cache.set_tick_le he

theorem invalidate_tick (c : CredentialCache α) (key : String) :
    (c.invalidate key).tick = c.tick := by
  cases c with
  | off => rfl
  | on cache => exact CacheState.removeKey_tick cache.state key

theorem clear_tick (c : CredentialCache α) : c.clear.tick = c.tick := by
  cases c with
  | off => rfl
  | on cache => rfl

end CredentialCache

namespace Authenticator

variable {ε β : Type}

/-! ## Runs -/

/-- What happens to an authenticator and its cache: a call, or a change of the cache through
another handle. -/
inductive Event (ε β : Type) where
  | call (now : Moment) (r : Request ε β)
  | invalidate (credential : String)
  | clear

/-- What the caller sees of a call: the result, and the request that is handed on. -/
abbrev Answer (ε β : Type) := Except Failure (Option Identity) × Request ε β

/-- The answers to the calls among some events, from a cache on. -/
def run (a : Authenticator) : CredentialCache Identity → List (Event ε β) → List (Answer ε β)
  | _, [] => []
  | cache, .call now r :: rest =>
      let o := a.authenticate now cache r
      (o.result, o.request) :: a.run o.cache rest
  | cache, .invalidate credential :: rest => a.run (cache.invalidate credential) rest
  | cache, .clear :: rest => a.run cache.clear rest

/-- The cache after some events. -/
def cacheAfter (a : Authenticator) :
    CredentialCache Identity → List (Event ε β) → CredentialCache Identity
  | cache, [] => cache
  | cache, .call now r :: rest => a.cacheAfter (a.authenticate now cache r).cache rest
  | cache, .invalidate credential :: rest => a.cacheAfter (cache.invalidate credential) rest
  | cache, .clear :: rest => a.cacheAfter cache.clear rest

/-! ## One call -/

/-- A cache that only holds answers of a verifier, each under its own credential. -/
structure Faithful (answer : String → Except VerifyFailure Identity) (ttl : Nat)
    (cache : Cache Identity) : Prop where
  ttl_eq : cache.ttl = ttl
  holds : cache.state.Holds fun credential i => answer credential = .ok i

section

variable {answer : String → Except VerifyFailure Identity} {ttl : Nat} {cache : Cache Identity}

theorem faithful_of_new {capacity : Nat} (h : Cache.new capacity ttl = .ok cache) :
    Faithful answer ttl cache := by
  obtain rfl := Cache.eq_of_new h
  exact ⟨rfl, CacheState.holds_empty⟩

theorem Faithful.get (hc : Faithful answer ttl cache) (now : Nat) (credential : String) :
    Faithful answer ttl (cache.get now credential).2 :=
  ⟨(cache.get_ttl now credential).trans hc.ttl_eq, (Cache.holds_get hc.holds now credential).1⟩

theorem Faithful.invalidate (hc : Faithful answer ttl cache) (credential : String) :
    Faithful answer ttl (cache.invalidate credential) :=
  ⟨hc.ttl_eq, Cache.holds_invalidate hc.holds credential⟩

theorem Faithful.clear (hc : Faithful answer ttl cache) : Faithful answer ttl cache.clear :=
  ⟨hc.ttl_eq, cache.holds_clear⟩

/-- An identity that is kept for a credential is the one that the verifier finds behind it. -/
theorem Faithful.cached (hc : Faithful answer ttl cache) (now : Moment) (credential : String) :
    ∃ found d, Authenticator.cached (.on cache) now credential = (found, .on d) ∧
      Faithful answer ttl d ∧ ∀ i, found = some i → answer credential = .ok i := by
  have hfound := (Cache.holds_get hc.holds now.uptime credential).2
  have hget := hc.get now.uptime credential
  rcases hk : cache.get now.uptime credential with ⟨found, d⟩
  rw [hk] at hfound hget
  cases found with
  | none => exact ⟨none, d, by simp [Authenticator.cached, CredentialCache.get, hk], hget, by simp⟩
  | some i =>
      by_cases he : i.isExpired now.wall = true
      · refine ⟨none, d.invalidate credential, ?_, hget.invalidate credential, by simp⟩
        simp [Authenticator.cached, CredentialCache.get, CredentialCache.invalidate, hk, he]
      · refine ⟨some i, d, ?_, hget, hfound⟩
        simp [Authenticator.cached, CredentialCache.get, hk, he]

variable {a : Authenticator} {now : Moment}

/-- Only what the verifier finds out is kept, and no failure. -/
theorem Faithful.verify (hc : Faithful answer ttl cache)
    (ha : ∀ now credential call, a.verifier now credential call = answer credential)
    (hclock : now.uptime + ttl < clockEnd) (credential : String) (call : Call) :
    ∃ d, Faithful answer ttl d ∧
      a.verify now (.on cache) credential call =
        match answer credential with
        | .error f => (.error (.ofVerify a.exposeErrors f), .on d)
        | .ok i => (.ok i, .on d) := by
  cases hv : answer credential with
  | error f => exact ⟨cache, hc, by simp [Authenticator.verify, ha, hv]⟩
  | ok i =>
      have hfits : now.uptime + cache.ttl < clockEnd := hc.ttl_eq ▸ hclock
      obtain ⟨d, hd⟩ := cache.exists_set_eq_some credential i hfits
      refine ⟨d, ⟨(Cache.set_ttl hd).trans hc.ttl_eq, Cache.holds_set hc.holds hv hd⟩, ?_⟩
      simp [Authenticator.verify, CredentialCache.set, ha, hv, hd]

/-- One call is answered alike with a faithful cache and without, and leaves the cache
faithful. -/
theorem authenticate_on (hc : Faithful answer ttl cache)
    (ha : ∀ now credential call, a.verifier now credential call = answer credential)
    (hclock : now.uptime + ttl < clockEnd) (r : Request ε β) :
    ∃ d, (a.authenticate now (.on cache) r).cache = .on d ∧ Faithful answer ttl d ∧
      (a.authenticate now (.on cache) r).result = (a.authenticate now .off r).result ∧
      (a.authenticate now (.on cache) r).request = (a.authenticate now .off r).request := by
  cases hs : Pattern.anySelects a.skip r.method with
  | true =>
      rw [authenticate_of_selected hs, authenticate_of_selected hs]
      exact ⟨cache, rfl, hc, rfl, rfl⟩
  | false =>
      cases hx : a.extractor r.call with
      | none =>
          rw [authenticate_of_none hs hx, authenticate_of_none hs hx]
          exact ⟨cache, rfl, hc, rfl, rfl⟩
      | some credential =>
          obtain ⟨found, d, hk, hd, hfound⟩ := hc.cached now credential
          rw [authenticate_off_of_some hs hx, ha]
          cases found with
          | some i =>
              rw [authenticate_of_hit hs hx hk, hfound i rfl]
              exact ⟨d, rfl, hd, rfl, rfl⟩
          | none =>
              obtain ⟨e, he, hverify⟩ := hd.verify ha hclock credential r.call
              rw [authenticate_of_miss hs hx hk, hverify]
              cases answer credential with
              | error f => exact ⟨e, rfl, he, rfl, rfl⟩
              | ok i => exact ⟨e, rfl, he, rfl, rfl⟩

end

section

variable {now : Moment} {cache : CredentialCache Identity}

theorem cached_tick_le {credential : String} {found : Option Identity}
    {d : CredentialCache Identity} (hk : cached cache now credential = (found, d)) :
    d.tick ≤ cache.tick + 1 := by
  have hget := cache.get_tick_le now.uptime credential
  rcases cached_cases hk with ⟨hfound, -⟩ | ⟨-, rfl⟩
  · rwa [hfound] at hget
  · rwa [CredentialCache.invalidate_tick]

/-- A call takes a tick to look an identity up and another one to keep what the verifier found. -/
theorem authenticate_tick_le (a : Authenticator) (now : Moment) (cache : CredentialCache Identity)
    (r : Request ε β) : (a.authenticate now cache r).cache.tick ≤ cache.tick + 2 := by
  have hcourse := a.authenticate_course now cache r
  generalize a.authenticate now cache r = o at hcourse
  cases hcourse with
  | letThrough hs => exact Nat.le_add_right _ _
  | unpresented hs hx => exact Nat.le_add_right _ _
  | kept hs hx hk => exact Nat.le_succ_of_le (cached_tick_le hk)
  | refused hs hx hk hv => exact Nat.le_succ_of_le (cached_tick_le hk)
  | unstorable hs hx hk hv he => exact Nat.le_succ_of_le (cached_tick_le hk)
  | verified hs hx hk hv he =>
      have hlooked := cached_tick_le hk
      have hstored := CredentialCache.set_tick_le he
      dsimp only
      omega

end

/-! ## All calls -/

theorem Faithful.run_eq {answer : String → Except VerifyFailure Identity} {ttl : Nat}
    {a : Authenticator}
    (ha : ∀ now credential call, a.verifier now credential call = answer credential)
    {events : List (Event ε β)}
    (hclock : ∀ now r, .call now r ∈ events → now.uptime + ttl < clockEnd)
    {cache : Cache Identity} (hc : Faithful answer ttl cache) :
    a.run (.on cache) events = a.run .off events := by
  induction events generalizing cache with
  | nil => rfl
  | cons event rest ih =>
      have hrest : ∀ now r, .call now r ∈ rest → now.uptime + ttl < clockEnd :=
        fun now r h => hclock now r (List.mem_cons_of_mem event h)
      cases event with
      | call now r =>
          have hnow := hclock now r List.mem_cons_self
          obtain ⟨d, hd, hfaithful, hresult, hrequest⟩ := authenticate_on hc ha hnow r
          simp only [run, hd, hresult, hrequest, authenticate_off_cache, ih hrest hfaithful]
      | invalidate credential => exact ih hrest (hc.invalidate credential)
      | clear => exact ih hrest hc.clear

theorem cacheAfter_tick_le (a : Authenticator) (cache : CredentialCache Identity)
    (events : List (Event ε β)) :
    (a.cacheAfter cache events).tick ≤ cache.tick + 2 * events.length := by
  induction events generalizing cache with
  | nil => exact Nat.le_refl _
  | cons event rest ih =>
      rw [List.length_cons]
      cases event with
      | call now r =>
          have hcall := authenticate_tick_le a now cache r
          have hrest := ih (a.authenticate now cache r).cache
          rw [cacheAfter]
          omega
      | invalidate credential =>
          have hrest := ih (cache.invalidate credential)
          rw [CredentialCache.invalidate_tick] at hrest
          rw [cacheAfter]
          omega
      | clear =>
          have hrest := ih cache.clear
          rw [CredentialCache.clear_tick] at hrest
          rw [cacheAfter]
          omega

/-- A cache is transparent: whatever its capacity and however it is changed from outside, every
call has the same result and hands on the same request as without a cache. The verifier may
answer anything that depends on the credential alone, identities that have expired included. The
cache takes at most two ticks for an event, so a counter of 64 bits is enough for fewer than
`2 ^ 63` of them. -/
theorem run_new_eq_run_off {answer : String → Except VerifyFailure Identity} {a : Authenticator}
    (ha : ∀ now credential call, a.verifier now credential call = answer credential)
    {capacity ttl : Nat} {cache : Cache Identity} (hnew : Cache.new capacity ttl = .ok cache)
    (events : List (Event ε β))
    (hclock : ∀ now r, .call now r ∈ events → now.uptime + ttl < clockEnd) :
    a.run (.on cache) events = a.run .off events ∧
      (a.cacheAfter (.on cache) events).tick ≤ 2 * events.length := by
  refine ⟨(faithful_of_new hnew).run_eq ha hclock, ?_⟩
  obtain rfl := Cache.eq_of_new hnew
  exact (cacheAfter_tick_le a _ events).trans (Nat.zero_add _).le

/-! ## A cache with room for one -/

/-- Alice is known, Bob's identity has expired, and nobody else is known. -/
def sampleAnswer (credential : String) : Except VerifyFailure Identity :=
  if credential = "alice" then .ok (.ofSubject "alice")
  else if credential = "bob" then .ok ((Identity.ofSubject "bob").withExpiry 5)
  else .error (.foreign "unknown credential")

/-- The credential is the name of the method. -/
def sampleAuthenticator : Authenticator where
  verifier _ credential _ := sampleAnswer credential
  extractor call := some call.method.name
  skip := []
  strip := []
  propagation := some .all
  exposeErrors := false

def sampleCall (uptime : Nat) (credential : String) : Event Unit Unit :=
  .call ⟨1000, uptime⟩ (.ofMethod ⟨"Users", credential⟩ () ())

/-- Hits, evictions, an entry out of date, and changes from outside. -/
def sampleEvents : List (Event Unit Unit) :=
  [sampleCall 0 "alice", sampleCall 1 "alice", sampleCall 2 "bob", sampleCall 3 "bob",
    .invalidate "bob", sampleCall 4 "alice", sampleCall 60005 "alice", .clear,
    sampleCall 60006 "eve"]

theorem run_new_eq_run_off_sample :
    Cache.new 1 60000 = .ok (⟨1, 60000, .empty⟩ : Cache Identity) ∧
      sampleAuthenticator.run (.on ⟨1, 60000, .empty⟩) sampleEvents =
        sampleAuthenticator.run .off sampleEvents ∧
      (sampleAuthenticator.cacheAfter (.on ⟨1, 60000, .empty⟩) sampleEvents).tick ≤ 18 := by
  have hclock : ∀ now r, .call now r ∈ sampleEvents → now.uptime + 60000 < clockEnd := by
    simp only [sampleEvents, sampleCall, List.mem_cons, List.not_mem_nil, reduceCtorEq, or_false,
      false_or, Event.call.injEq]
    rintro now r (⟨rfl, -⟩ | ⟨rfl, -⟩ | ⟨rfl, -⟩ | ⟨rfl, -⟩ | ⟨rfl, -⟩ | ⟨rfl, -⟩ | ⟨rfl, -⟩) <;>
      decide
  exact ⟨rfl, run_new_eq_run_off (fun _ _ _ => rfl) rfl sampleEvents hclock⟩

end Authenticator

end CallGuard
