import CallGuard.Proofs.Authenticator.Atomicity
import CallGuard.Proofs.Authenticator.Keeping

/-! # The last word of a verifier

A verifier gets to see the whole call, but what it finds out is kept under the credential alone. So
a call may be served what the verifier found out for another one. It is then the last that the
verifier said about the credential, it is not older than the time to live, and nobody has forgotten
it since. -/

namespace CallGuard

namespace CredentialCache

variable {α : Type} {Q : String → Identity → Nat → Prop} {c d : CredentialCache Identity}

/-- Without a key, everything that is kept is kept under another one. -/
theorem HoldsUntil.of_without (hd : d.HoldsUntil Q) {credential : String}
    (hw : c.Without credential d) :
    d.HoldsUntil fun other i expiresAt => other ≠ credential ∧ Q other i expiresAt := by
  cases d with
  | off => trivial
  | on cache =>
      cases c with
      | off => exact hw.elim
      | on before =>
          intro other e he
          refine ⟨?_, hd other e he⟩
          rintro rfl
          rw [hw.gone] at he
          cases he

theorem without_invalidate (hc : c.Reachable) (credential : String) :
    c.Without credential (c.invalidate credential) := by
  cases c with
  | off => trivial
  | on cache => exact Cache.Reachable.without_invalidate hc credential

theorem stable_reachable : Stable (Reachable : CredentialCache α → Prop) where
  get := by
    intro c hc now key
    cases c with
    | off => trivial
    | on cache =>
        have hdone : cache.perform (.get now key) = some (cache.get now key) := rfl
        exact Cache.Reachable.perform hc hdone
  set := by
    intro c d now key value hc h
    cases c with
    | off =>
        cases h
        trivial
    | on cache =>
        obtain ⟨e, he, rfl⟩ := Option.map_eq_some_iff.mp h
        have hdone : cache.perform (.set now key value) = some (none, e) := by
          rw [Cache.perform, he]
          rfl
        exact Cache.Reachable.perform hc hdone
  invalidate := by
    intro c hc key
    cases c with
    | off => trivial
    | on cache =>
        have hdone : cache.perform (.invalidate key) = some (none, cache.invalidate key) := rfl
        exact Cache.Reachable.perform hc hdone
  clear := by
    intro c hc
    cases c with
    | off => trivial
    | on cache =>
        have hdone : cache.perform .clear = some (none, cache.clear) := rfl
        exact Cache.Reachable.perform hc hdone

end CredentialCache

namespace Authenticator

variable {ε β : Type} {a : Authenticator} {now : Moment} {cache : CredentialCache Identity}
  {Q R : String → Identity → Nat → Prop}

/-! ## Last words -/

/-- A call makes the verifier look at a credential. -/
structure Asks (a : Authenticator) (cache : CredentialCache Identity) (credential : String)
    (now : Moment) (r : Request ε β) : Prop where
  shown : a.extractor r.call = some credential
  verified : (a.authenticate now cache r).verified = true

/-- What was said about a credential before an event does not count after it. -/
def Supersedes (a : Authenticator) (cache : CredentialCache Identity) (credential : String) :
    Event ε β → Prop
  | .call now r => a.Asks cache credential now r
  | .invalidate other => other = credential
  | .clear => True

/-- The last word about a credential after some events: in this call the verifier was asked about
the credential and found out who is behind it, and no later event superseded that. -/
inductive LastWord (a : Authenticator) (start : CredentialCache Identity) (credential : String) :
    List (Event ε β) → Moment → Request ε β → Identity → Prop where
  | given {past now r i} (hasks : a.Asks (a.cacheAfter start past) credential now r)
      (hv : a.verifier now credential r.call = .ok i) :
      LastWord a start credential (past ++ [.call now r]) now r i
  | upheld {past event now r i} (h : LastWord a start credential past now r i)
      (hevent : ¬ a.Supersedes (a.cacheAfter start past) credential event) :
      LastWord a start credential (past ++ [event]) now r i

theorem LastWord.verifier_eq {start : CredentialCache Identity} {credential : String}
    {events : List (Event ε β)} {time : Moment} {q : Request ε β} {i : Identity}
    (h : LastWord a start credential events time q i) :
    a.verifier time credential q.call = .ok i := by
  induction h with
  | given hasks hv => exact hv
  | upheld h hevent ih => exact ih

/-! ## One call -/

/-- A call that asks about a credential forgets what was kept under it, keeps the answer, and
touches nothing else. -/
theorem holdsUntil_authenticate (hc : cache.HoldsUntil Q) (hreach : cache.Reachable)
    (r : Request ε β)
    (hother : ∀ credential i expiresAt, ¬ a.Asks cache credential now r →
      Q credential i expiresAt → R credential i expiresAt)
    (hasked : ∀ credential i ttl, a.Asks cache credential now r →
      a.verifier now credential r.call = .ok i → cache.ttl? = some ttl →
      R credential i (now.uptime + ttl)) :
    (a.authenticate now cache r).cache.HoldsUntil R := by
  -- after a miss only other credentials are left, and the verifier is not asked about them
  have hmissed {credential : String} {d : CredentialCache Identity}
      (hx : a.extractor r.call = some credential)
      (hk : cached cache now credential = (none, d)) : d.HoldsUntil R := by
    have hothers := (holdsUntil_cached hc hk).1.of_without (without_of_cached hreach hk)
    apply hothers.mono
    rintro other i expiresAt ⟨hne, hQ⟩
    apply hother other i expiresAt _ hQ
    intro hasks
    exact hne (Option.some.inj (hasks.shown.symm.trans hx))
  have hunasked (hserved : (a.authenticate now cache r).verified = false) (credential : String) :
      ¬ a.Asks cache credential now r := by
    intro hasks
    rw [hasks.verified] at hserved
    cases hserved
  have hasks {credential : String} (hx : a.extractor r.call = some credential)
      (hverified : (a.authenticate now cache r).verified = true) :
      a.Asks cache credential now r := ⟨hx, hverified⟩
  have hcourse := a.authenticate_course now cache r
  generalize a.authenticate now cache r = o at hcourse hunasked hasks ⊢
  cases hcourse with
  | letThrough hs => exact hc.mono fun credential i _ => hother credential i _ (hunasked rfl _)
  | unpresented hs hx => exact hc.mono fun credential i _ => hother credential i _ (hunasked rfl _)
  | kept hs hx hk =>
      exact (holdsUntil_cached hc hk).1.mono fun credential i _ =>
        hother credential i _ (hunasked rfl _)
  | refused hs hx hk hv => exact hmissed hx hk
  | unstorable hs hx hk hv he => exact hmissed hx hk
  | verified hs hx hk hv he =>
      apply CredentialCache.holdsUntil_set (hmissed hx hk) _ he
      intro ttl httl
      exact hasked _ _ ttl (hasks hx rfl) hv ((cached_ttl? hk).symm.trans httl)

/-! ## All calls -/

/-- What a cache that was new keeps after some events is the last word about its credential, and is
kept for the time to live from then on. -/
theorem holdsUntil_cacheAfter {capacity ttl : Nat} {c : Cache Identity}
    (hnew : Cache.new capacity ttl = .ok c) (events : List (Event ε β)) :
    (a.cacheAfter (.on c) events).HoldsUntil fun credential i expiresAt =>
      ∃ time q, LastWord a (.on c) credential events time q i ∧ expiresAt = time.uptime + ttl := by
  -- the last event decides about what was said before it, so the induction takes it off
  induction events using List.reverseRecOn with
  | nil => exact CredentialCache.holdsUntil_of_new hnew
  | append_singleton past event ih =>
      have hstart : (CredentialCache.on c).Reachable := Cache.Reachable.new hnew
      have hreach : (a.cacheAfter (.on c) past).Reachable :=
        stable_cacheAfter CredentialCache.stable_reachable hstart past
      have httl : (a.cacheAfter (.on c) past).ttl? = some ttl := by
        apply stable_cacheAfter (CredentialCache.stable_ttl? (some ttl))
        obtain rfl := Cache.eq_of_new hnew
        rfl
      rw [cacheAfter_append]
      cases event with
      | call now r =>
          apply holdsUntil_authenticate ih hreach r
          · rintro credential i expiresAt hasks ⟨time, q, hword, rfl⟩
            exact ⟨time, q, hword.upheld hasks, rfl⟩
          · intro credential i ttl' hasks hv httl'
            obtain rfl := Option.some.inj (httl.symm.trans httl')
            exact ⟨now, r, .given hasks hv, rfl⟩
      | invalidate credential =>
          have hothers := (CredentialCache.holdsUntil_invalidate ih credential).of_without
            (CredentialCache.without_invalidate hreach credential)
          apply hothers.mono
          rintro other i expiresAt ⟨hne, time, q, hword, rfl⟩
          exact ⟨time, q, hword.upheld (Ne.symm hne), rfl⟩
      | clear => exact CredentialCache.holdsUntil_clear _

/-- An identity is found out by the verifier in the call itself, or it is the last word about the
credential, is not older than the time to live and has not expired. -/
theorem verified_or_lastWord {capacity ttl : Nat} {c : Cache Identity}
    (hnew : Cache.new capacity ttl = .ok c) (events : List (Event ε β)) {r : Request ε β}
    {i : Identity}
    (h : (a.authenticate now (a.cacheAfter (.on c) events) r).result = .ok (some i)) :
    ∃ credential, a.extractor r.call = some credential ∧
      ((a.authenticate now (a.cacheAfter (.on c) events) r).verified = true ∧
          a.verifier now credential r.call = .ok i ∨
        (a.authenticate now (a.cacheAfter (.on c) events) r).verified = false ∧
          ∃ time q, LastWord a (.on c) credential events time q i ∧
            now.uptime < time.uptime + ttl ∧ i.isExpired now.wall = false) := by
  have hkept := holdsUntil_cacheAfter (a := a) hnew events
  have hcourse := a.authenticate_course now (a.cacheAfter (.on c) events) r
  generalize a.authenticate now (a.cacheAfter (.on c) events) r = o at hcourse h
  cases hcourse with
  | letThrough hs => cases h
  | unpresented hs hx => cases h
  | kept hs hx hk =>
      cases h
      obtain ⟨⟨-, ⟨time, q, hword, rfl⟩, hfresh⟩, hlive⟩ := (holdsUntil_cached hkept hk).2 i rfl
      exact ⟨_, hx, .inr ⟨rfl, time, q, hword, hfresh, hlive⟩⟩
  | refused hs hx hk hv => cases h
  | unstorable hs hx hk hv he => cases h
  | verified hs hx hk hv he =>
      cases h
      exact ⟨_, hx, .inl ⟨rfl, hv⟩⟩

end Authenticator

end CallGuard
