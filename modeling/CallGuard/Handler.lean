import CallGuard.Authorizer
import CallGuard.Authenticator

/-! # Guarded handlers

A handler answers requests under the current identity. Authentication binds the identity of a
call around the handler inside, and authorization asks an authorizer about the current identity
before it lets the call through. A next stage is a handler in two parts, one for when it is called
and one for when it is run, and which of them sees the binding depends on who calls it. -/

namespace CallGuard

/-- The state of the guards, and that of the handler inside. -/
structure Guards (τ : Type) where
  cache : CredentialCache Identity
  resolver : Option Resolver
  /-- How often a verifier was asked. -/
  verifications : Nat
  inner : τ

/-- Answers a request. Everything that is done for it, from the call on, is one computation. -/
abbrev Handler (τ ε β α : Type) := Request ε β → Scoped (Guards τ) (Except Failure α)

/-- Answers a request in two parts. To call it does the first part and gives the second, which is
run later and possibly under another binding. -/
structure NextStage (τ ε β α : Type) where
  call : Request ε β → Scoped (Guards τ) (Scoped (Guards τ) (Except Failure α))

variable {τ ε β α : Type}

/-- Runs the check of an authenticator as a step of a computation. -/
def Authenticator.check (a : Authenticator) (now : Moment) (r : Request ε β) :
    Scoped (Guards τ) (Except Failure (Option Identity) × Request ε β) := do
  let o := a.authenticate now (← Scoped.getState).cache r
  Scoped.modifyState fun g => { g with
    cache := o.cache
    verifications := if o.verified then g.verifications + 1 else g.verifications }
  return (o.result, o.request)

namespace NextStage

/-- Both parts in one computation, so that they are under one binding. -/
def handler (next : NextStage τ ε β α) : Handler τ ε β α := fun r => do
  let rest ← next.call r
  rest

/-- A handler as a next stage that does nothing when it is called. -/
instance : Coe (Handler τ ε β α) (NextStage τ ε β α) :=
  ⟨fun h => ⟨fun r => return h r⟩⟩

end NextStage

/-- Checks who makes a call, calls the next stage, and binds the identity around the part that is
left to run. The call itself is made under the binding outside, and methods that are let through
keep that binding for both parts. -/
def Authenticator.intercept (a : Authenticator) (now : Moment) (next : NextStage τ ε β α)
    (r : Request ε β) : Scoped (Guards τ) (Except Failure α) := do
  match ← a.check now r with
  | (.error f, _) => return .error f
  | (.ok (some i), r) =>
    let rest ← next.call r
    Scoped.within (some i) rest
  | (.ok none, r) =>
    let rest ← next.call r
    rest

namespace Handler

/-- Authentication in front of a handler. The handler runs under the identity that was found, or
under the binding outside when there is none. -/
def authenticated (a : Authenticator) (now : Moment) (inner : Handler τ ε β α) : Handler τ ε β α :=
  fun r => do
    let (result, r) ← a.check now r
    match result with
    | .error f => return .error f
    | .ok identity =>
      match identity with
      | some i => Scoped.within (some i) (inner r)
      | none => inner r

def authorized (a : Authorizer) (inner : Handler τ ε β α) : Handler τ ε β α := fun r => do
  let identity ← Scoped.current
  let (answer, resolver) := a.authorize (← Scoped.getState).resolver identity r.method
  Scoped.modifyState fun g => { g with resolver := resolver }
  match answer with
  | .error e => return .error (.error e)
  | .ok () => inner r

end Handler

end CallGuard
