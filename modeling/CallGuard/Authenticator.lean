import CallGuard.Cache
import CallGuard.Extractor
import CallGuard.Pattern
import CallGuard.Propagation
import CallGuard.Scope

/-! # Authenticators

An authenticator finds the credential of a call, asks its cache and then its verifier who the
caller is, and hands the request on without the headers that must not travel. An error leaves the
request as it was. -/

namespace CallGuard

/-- The time on both clocks: seconds since the epoch, and milliseconds since some start. Both are
whole numbers, of units that have passed, so that a clock with finer units is read as it stood at
the last whole one, and what happens between two of them happens at one moment. -/
structure Moment where
  wall : Int
  uptime : Nat
deriving DecidableEq, Repr

/-- Finds out at a moment who stands behind the credential of a call. -/
abbrev Verifier := Moment → String → Call → Except VerifyFailure Identity

structure Authenticator where
  verifier : Verifier
  extractor : Extractor
  /-- Methods that are let through without a check. -/
  skip : List Pattern
  /-- Headers that never travel. -/
  strip : List HeaderName
  propagation : Option Propagation.Options
  exposeErrors : Bool

/-! ## Construction -/

/-- The parts of an authenticator as they are configured, with texts still to be checked. -/
structure AuthenticatorConfig where
  verifier : Verifier
  extractor : Extractor := Extractor.bearer
  skip : List String := []
  strip : List String := []
  propagation : Option Propagation.Options := none
  exposeErrors : Bool := false

/-- Checks the header names and then the patterns. -/
def AuthenticatorConfig.build (c : AuthenticatorConfig) : Except Error Authenticator := do
  let strip ← c.strip.mapM HeaderName.ofConfig
  let skip ← Pattern.parseAll c.skip
  return {
    verifier := c.verifier, extractor := c.extractor, skip, strip
    propagation := c.propagation, exposeErrors := c.exposeErrors }

/-! ## Authentication -/

structure Outcome (ε β : Type) where
  /-- The caller; none for methods that are let through. -/
  result : Except Failure (Option Identity)
  request : Request ε β
  cache : CredentialCache Identity
  /-- Whether the verifier was asked. -/
  verified : Bool

namespace Authenticator

variable {ε β : Type}

/-- The identity kept for a credential. One that has expired is forgotten. -/
def cached (cache : CredentialCache Identity) (now : Moment) (credential : String) :
    Option Identity × CredentialCache Identity :=
  match cache.get now.uptime credential with
  | (none, cache) => (none, cache)
  | (some i, cache) =>
    if i.isExpired now.wall then (none, cache.invalidate credential) else (some i, cache)

/-- Asks the verifier, and keeps its answer. Where keeping it overflows the clock the call fails, and
the cache beside the failure stands for none that is in use: that one may have lost entries by then,
and its lock is poisoned. So nothing that is stated of runs is about calls after such a failure. -/
def verify (a : Authenticator) (now : Moment) (cache : CredentialCache Identity)
    (credential : String) (call : Call) : Except Failure Identity × CredentialCache Identity :=
  match a.verifier now credential call with
  | .error f => (.error (.ofVerify a.exposeErrors f), cache)
  | .ok i =>
    match cache.set now.uptime credential i with
    | none => (.error .clockOverflow, cache)
    | some cache => (.ok i, cache)

/-- The headers without those that never travel. The propagation headers are among them when the
authenticator writes them itself. -/
def stripHeaders (a : Authenticator) (h : Headers) : Headers :=
  let h := h.removeAll a.strip
  if a.propagation.isSome then Propagation.strip h else h

def forwardHeaders (a : Authenticator) (i : Identity) (h : Headers) : Headers :=
  match a.propagation with
  | some o => Propagation.write o i (a.stripHeaders h)
  | none => a.stripHeaders h

def authenticate (a : Authenticator) (now : Moment) (cache : CredentialCache Identity)
    (r : Request ε β) : Outcome ε β :=
  if Pattern.anySelects a.skip r.method then
    ⟨.ok none, r.withHeaders (a.stripHeaders r.headers), cache, false⟩
  else
    match a.extractor r.call with
    | none => ⟨.error (.error (.unauthenticated "missing credential")), r, cache, false⟩
    | some credential =>
      match cached cache now credential with
      | (some i, cache) =>
        ⟨.ok (some i), r.withHeaders (a.forwardHeaders i r.headers), cache, false⟩
      | (none, cache) =>
        match a.verify now cache credential r.call with
        | (.error f, cache) => ⟨.error f, r, cache, true⟩
        | (.ok i, cache) =>
          ⟨.ok (some i), r.withHeaders (a.forwardHeaders i r.headers), cache, true⟩

end Authenticator

end CallGuard
