import CallGuard.Handler
import CallGuard.Proofs.Authenticator.Outcome

/-! # Authentication over authorization

A call gets through both checks when authentication finds who makes it and the authorizer allows
it. Its handler then runs once and under that identity, and nothing stays bound afterwards. A next
stage behind the first check alone is run under that identity too, but it is called before. -/

namespace CallGuard

variable {σ τ ε β α : Type}

/-! ## The extent of a binding -/

/-- Wherever a run is cut in two, `identity` is current between its parts. -/
def Scoped.CurrentThroughout (x : Scoped σ α) (s : Scope σ) (identity : Option Identity) : Prop :=
  ∀ (γ : Type) (first : Scoped σ γ) (rest : γ → Scoped σ α), x = first >>= rest →
    (Scoped.current (first s).2).1 = identity

theorem Scoped.currentThroughout_bound (x : Scoped σ α) (s : Scope σ) :
    x.CurrentThroughout s s.bound := by
  intro γ first rest _
  rw [run_current]
  exact first.restores s

/-- To bind again what is bound makes no difference. -/
theorem Scoped.run_within_bound (x : Scoped σ α) (b : Option Identity) (state : σ) :
    within b x ⟨b, state⟩ = x ⟨b, state⟩ := by
  have hbound : (x ⟨b, state⟩).2.bound = b := x.restores ⟨b, state⟩
  rw [run_within]
  exact Prod.ext rfl (congrArg (Scope.mk · _) hbound.symm)

/-! ## One check in front of a handler -/

def Guards.afterCheck (g : Guards τ) (o : Outcome ε β) : Guards τ :=
  { g with
    cache := o.cache
    verifications := if o.verified then g.verifications + 1 else g.verifications }

def Guards.afterDecision (g : Guards τ) (e : Authorizer) (identity : Option Identity)
    (m : Method) : Guards τ :=
  { g with resolver := (e.authorize g.resolver identity m).2 }

def Guards.withInner {ρ : Type} (g : Guards τ) (inner : ρ) : Guards ρ :=
  ⟨g.cache, g.resolver, g.verifications, inner⟩

theorem Authenticator.run_check (a : Authenticator) (now : Moment) (r : Request ε β)
    (s : Scope (Guards τ)) :
    a.check now r s =
      (((a.authenticate now s.state.cache r).result, (a.authenticate now s.state.cache r).request),
        ⟨s.bound, s.state.afterCheck (a.authenticate now s.state.cache r)⟩) :=
  rfl

theorem Authorizer.enforce_eq_ok_iff (d : Except Error Decision) :
    enforce d = .ok () ↔ d = .ok .allow := by
  cases d with
  | error x => simp [enforce]
  | ok d =>
      cases d with
      | allow => simp [enforce]
      | deny rule q => simp [enforce]

theorem Authorizer.authorize_eq_ok_iff (e : Authorizer) (resolver : Option Resolver)
    (identity : Option Identity) (m : Method) :
    (e.authorize resolver identity m).1 = .ok () ↔
      (e.decide resolver identity m).1 = .ok .allow :=
  enforce_eq_ok_iff (e.decide resolver identity m).1

namespace Handler

section

variable {a : Authenticator} {now : Moment} {e : Authorizer} {r : Request ε β}
variable {s : Scope (Guards τ)}

theorem run_authenticated_of_error {f : Failure} (inner : Handler τ ε β α)
    (h : (a.authenticate now s.state.cache r).result = .error f) :
    authenticated a now inner r s =
      (.error f, ⟨s.bound, s.state.afterCheck (a.authenticate now s.state.cache r)⟩) := by
  simp [authenticated, Authenticator.run_check, h]

/-- The handler runs under the identity that was found, or under the binding outside when the
method is let through. -/
theorem run_authenticated_of_ok {identity : Option Identity} (inner : Handler τ ε β α)
    (h : (a.authenticate now s.state.cache r).result = .ok identity) :
    authenticated a now inner r s =
      Scoped.within (identity.or s.bound) (inner (a.authenticate now s.state.cache r).request)
        ⟨s.bound, s.state.afterCheck (a.authenticate now s.state.cache r)⟩ := by
  cases identity with
  | some i => simp [authenticated, Authenticator.run_check, h]
  | none =>
      rw [Option.none_or, Scoped.run_within_bound]
      simp [authenticated, Authenticator.run_check, h]

theorem run_authorized_of_error {x : Error} (inner : Handler τ ε β α)
    (h : (e.authorize s.state.resolver s.bound r.method).1 = .error x) :
    authorized e inner r s =
      (.error (.error x), ⟨s.bound, s.state.afterDecision e s.bound r.method⟩) := by
  simp [authorized, Guards.afterDecision, h]

theorem run_authorized_of_ok (inner : Handler τ ε β α)
    (h : (e.authorize s.state.resolver s.bound r.method).1 = .ok ()) :
    authorized e inner r s = inner r ⟨s.bound, s.state.afterDecision e s.bound r.method⟩ := by
  simp [authorized, Guards.afterDecision, h]

end

end Handler

/-! ## Authentication in front of a next stage -/

namespace NextStage

/-- The handler of a next stage that is called under a binding, whatever is bound when the rest of
it is run. -/
def calledUnder (next : NextStage τ ε β α) (binding : Option Identity) : Handler τ ε β α :=
  fun r => do
    let rest ← Scoped.within binding (next.call r)
    rest

/-- What a next stage does when it is called is the same under all bindings. -/
def Blind (next : NextStage τ ε β α) : Prop :=
  ∀ r b c g, (next.call r ⟨b, g⟩).1 = (next.call r ⟨c, g⟩).1 ∧
    (next.call r ⟨b, g⟩).2.state = (next.call r ⟨c, g⟩).2.state

variable {next : NextStage τ ε β α} {r : Request ε β}

theorem run_calledUnder (b c : Option Identity) (g : Guards τ) :
    next.calledUnder b r ⟨c, g⟩ =
      (next.call r ⟨b, g⟩).1 ⟨c, (next.call r ⟨b, g⟩).2.state⟩ :=
  rfl

theorem run_handler (b : Option Identity) (g : Guards τ) :
    next.handler r ⟨b, g⟩ = (next.call r ⟨b, g⟩).1 ⟨b, (next.call r ⟨b, g⟩).2.state⟩ := by
  have hscope : (next.call r ⟨b, g⟩).2 = ⟨b, (next.call r ⟨b, g⟩).2.state⟩ :=
    congrArg (Scope.mk · _) ((next.call r).restores ⟨b, g⟩)
  rw [handler, Scoped.run_bind, hscope]

/-- Where the call is made under the binding that is there anyway, there is only one binding. -/
theorem run_calledUnder_bound (b : Option Identity) (g : Guards τ) :
    next.calledUnder b r ⟨b, g⟩ = next.handler r ⟨b, g⟩ := by
  rw [run_calledUnder, run_handler]

theorem Blind.run_calledUnder_eq (h : next.Blind) (b c : Option Identity) (g : Guards τ) :
    next.calledUnder b r ⟨c, g⟩ = next.handler r ⟨c, g⟩ := by
  obtain ⟨hrest, hstate⟩ := h r b c g
  rw [run_calledUnder, run_handler, hrest, hstate]

theorem blind_coe (h : Handler τ ε β α) : (h : NextStage τ ε β α).Blind :=
  fun _ _ _ _ => ⟨rfl, rfl⟩

end NextStage

namespace Handler

section

variable {a : Authenticator} {now : Moment} {r : Request ε β} {s : Scope (Guards τ)}

theorem run_intercept_of_error {f : Failure} (next : NextStage τ ε β α)
    (h : (a.authenticate now s.state.cache r).result = .error f) :
    a.intercept now next r s =
      (.error f, ⟨s.bound, s.state.afterCheck (a.authenticate now s.state.cache r)⟩) := by
  simp [Authenticator.intercept, Authenticator.run_check, h]

/-- The next stage is called under the binding outside, and what is left of it runs under the
identity that was found, if there is one. -/
theorem run_intercept_of_ok {identity : Option Identity} (next : NextStage τ ε β α)
    (h : (a.authenticate now s.state.cache r).result = .ok identity) :
    a.intercept now next r s =
      Scoped.within (identity.or s.bound)
        (next.calledUnder s.bound (a.authenticate now s.state.cache r).request)
        ⟨s.bound, s.state.afterCheck (a.authenticate now s.state.cache r)⟩ := by
  cases identity with
  | some i =>
      simp [Authenticator.intercept, Authenticator.run_check, h, NextStage.run_calledUnder,
        (next.call _).restores]
  | none =>
      rw [Option.none_or, Scoped.run_within_bound, NextStage.run_calledUnder_bound]
      simp [Authenticator.intercept, Authenticator.run_check, h, NextStage.handler]

/-- The step that checks and goes on to a next stage is authentication around that stage, except
that the stage is called under the binding outside. -/
theorem intercept_eq_authenticated (next : NextStage τ ε β α) :
    a.intercept now next r s = authenticated a now (next.calledUnder s.bound) r s := by
  cases hfound : (a.authenticate now s.state.cache r).result with
  | error f => rw [run_intercept_of_error next hfound, run_authenticated_of_error _ hfound]
  | ok identity => rw [run_intercept_of_ok next hfound, run_authenticated_of_ok _ hfound]

/-- Only around a stage that looks at the binding when it is called, and for an identity of the
call's own, can the two differ. -/
theorem intercept_eq_handler (next : NextStage τ ε β α)
    (h : next.Blind ∨ ∀ i, (a.authenticate now s.state.cache r).result ≠ .ok (some i)) :
    a.intercept now next r s = authenticated a now next.handler r s := by
  cases hfound : (a.authenticate now s.state.cache r).result with
  | error f => rw [run_intercept_of_error next hfound, run_authenticated_of_error _ hfound]
  | ok identity =>
      rw [run_intercept_of_ok next hfound, run_authenticated_of_ok _ hfound]
      cases h with
      | inl hblind => rw [Scoped.run_within, Scoped.run_within, hblind.run_calledUnder_eq]
      | inr hnone =>
          cases identity with
          | some i => exact absurd hfound (hnone i)
          | none =>
              rw [Option.none_or, Scoped.run_within_bound, Scoped.run_within_bound,
                NextStage.run_calledUnder_bound]

end

/-! ## Visits to a handler -/

/-- A request that reaches a handler, and the identity that is current then. -/
structure Visit (ε β : Type) where
  request : Request ε β
  identity : Option Identity

/-- The handler that also writes down its visits, in a log that it does not see itself. -/
def logged (h : Handler τ ε β α) : Handler (τ × List (Visit ε β)) ε β α := fun r => {
  run s :=
    let (answer, t) := h r ⟨s.bound, s.state.withInner s.state.inner.1⟩
    (answer, ⟨t.bound, t.state.withInner (t.state.inner, s.state.inner.2 ++ [⟨r, s.bound⟩])⟩)
  restores _ := (h r).restores _ }

/-! ## Both checks in front of a handler -/

def stack (a : Authenticator) (now : Moment) (e : Authorizer) (h : Handler τ ε β α) :
    Handler τ ε β α :=
  authenticated a now (authorized e h)

/-- The visits that a call leads to. -/
def visits (a : Authenticator) (now : Moment) (e : Authorizer) (h : Handler τ ε β α)
    (r : Request ε β) (g : Guards τ) : List (Visit ε β) :=
  (stack a now e (logged h) r ⟨none, g.withInner (g.inner, [])⟩).2.state.inner.2

/-- A call is admitted for the identity that authentication finds, if the authorizer allows it. -/
structure Admits (a : Authenticator) (now : Moment) (e : Authorizer) (g : Guards τ)
    (r : Request ε β) (identity : Option Identity) : Prop where
  found : (a.authenticate now g.cache r).result = .ok identity
  allowed : (e.decide g.resolver identity r.method).1 = .ok .allow

/-- A call is refused by authentication, or else by the authorizer. -/
inductive Refuses (a : Authenticator) (now : Moment) (e : Authorizer) (g : Guards τ)
    (r : Request ε β) : Failure → Prop where
  | unauthenticated {f} : (a.authenticate now g.cache r).result = .error f →
      Refuses a now e g r f
  | unauthorized {identity x} : (a.authenticate now g.cache r).result = .ok identity →
      (e.authorize g.resolver identity r.method).1 = .error x → Refuses a now e g r (.error x)

/-- The guards that let a call through for an identity. -/
def admitting (a : Authenticator) (now : Moment) (e : Authorizer) (g : Guards τ)
    (r : Request ε β) (identity : Option Identity) : Guards τ :=
  (g.afterCheck (a.authenticate now g.cache r)).afterDecision e identity r.method

section

variable {a : Authenticator} {now : Moment} {e : Authorizer} {r : Request ε β} {g : Guards τ}

theorem refuses_of_not_admits (h : ¬ ∃ identity, Admits a now e g r identity) :
    ∃ f, Refuses a now e g r f := by
  cases hfound : (a.authenticate now g.cache r).result with
  | error f => exact ⟨f, .unauthenticated hfound⟩
  | ok identity =>
      cases hauthorize : (e.authorize g.resolver identity r.method).1 with
      | error x => exact ⟨.error x, .unauthorized hfound hauthorize⟩
      | ok =>
          have hallowed := (e.authorize_eq_ok_iff g.resolver identity r.method).mp hauthorize
          exact absurd ⟨identity, hfound, hallowed⟩ h

theorem run_stack_of_found {identity : Option Identity} (h : Handler τ ε β α)
    (hfound : (a.authenticate now g.cache r).result = .ok identity) :
    stack a now e h r ⟨none, g⟩ =
      Scoped.within identity (authorized e h (a.authenticate now g.cache r).request)
        ⟨none, g.afterCheck (a.authenticate now g.cache r)⟩ := by
  rw [stack, run_authenticated_of_ok (s := ⟨none, g⟩) _ hfound, Option.or_none]

/-- An admitted call is the handler under the identity that was found. -/
theorem run_stack_of_admits {identity : Option Identity} (h : Handler τ ε β α)
    (hadmits : Admits a now e g r identity) :
    stack a now e h r ⟨none, g⟩ =
      Scoped.within identity (h (a.authenticate now g.cache r).request)
        ⟨none, admitting a now e g r identity⟩ := by
  have hmethod := a.authenticate_method now g.cache r
  have hok := (e.authorize_eq_ok_iff g.resolver identity r.method).mpr hadmits.allowed
  rw [← hmethod] at hok
  rw [run_stack_of_found h hadmits.found, Scoped.run_within, Scoped.run_within,
    run_authorized_of_ok h hok, hmethod]
  rfl

/-- A refused call does not get to the handler. -/
theorem run_stack_of_refuses {f : Failure} (h : Handler τ ε β α)
    (hrefuses : Refuses a now e g r f) :
    ∃ t : Guards τ, t.inner = g.inner ∧ stack a now e h r ⟨none, g⟩ = (.error f, ⟨none, t⟩) := by
  cases hrefuses with
  | unauthenticated hfound =>
      exact ⟨g.afterCheck (a.authenticate now g.cache r), rfl,
        run_authenticated_of_error (s := ⟨none, g⟩) _ hfound⟩
  | @unauthorized identity x hfound hauthorize =>
      refine ⟨admitting a now e g r identity, rfl, ?_⟩
      have hmethod := a.authenticate_method now g.cache r
      rw [← hmethod] at hauthorize
      rw [run_stack_of_found h hfound, Scoped.run_within, run_authorized_of_error h hauthorize,
        hmethod]
      rfl

theorem visits_of_admits {identity : Option Identity} (h : Handler τ ε β α)
    (hadmits : Admits a now e g r identity) :
    visits a now e h r g = [⟨(a.authenticate now g.cache r).request, identity⟩] := by
  have hlogged : Admits a now e (g.withInner (g.inner, ([] : List (Visit ε β)))) r identity :=
    ⟨hadmits.found, hadmits.allowed⟩
  rw [visits, run_stack_of_admits (logged h) hlogged]
  rfl

theorem visits_of_refuses {f : Failure} (h : Handler τ ε β α) (hrefuses : Refuses a now e g r f) :
    visits a now e h r g = [] := by
  have hlogged : Refuses a now e (g.withInner (g.inner, ([] : List (Visit ε β)))) r f := by
    cases hrefuses with
    | unauthenticated hfound => exact .unauthenticated hfound
    | unauthorized hfound hauthorize => exact .unauthorized hfound hauthorize
  obtain ⟨t, ht, hrun⟩ := run_stack_of_refuses (logged h) hlogged
  rw [visits, hrun]
  exact congrArg Prod.snd ht

end

/-! ## The stack as a whole -/

/-- What both checks make of a call that starts without a binding. -/
structure StackSpec (a : Authenticator) (now : Moment) (e : Authorizer) (h : Handler τ ε β α)
    (r : Request ε β) (g : Guards τ) : Prop where
  reached_iff : visits a now e h r g ≠ [] ↔ ∃ identity, Admits a now e g r identity
  visited : ∀ identity, Admits a now e g r identity →
    visits a now e h r g = [⟨(a.authenticate now g.cache r).request, identity⟩]
  extent : ∀ identity, Admits a now e g r identity →
    (h (a.authenticate now g.cache r).request).CurrentThroughout
      ⟨identity, admitting a now e g r identity⟩ identity
  answered : ∀ identity, Admits a now e g r identity →
    (stack a now e h r ⟨none, g⟩).1 =
      (h (a.authenticate now g.cache r).request ⟨identity, admitting a now e g r identity⟩).1
  refused : (¬ ∃ identity, Admits a now e g r identity) →
    visits a now e h r g = [] ∧
      ∃ f, Refuses a now e g r f ∧ (stack a now e h r ⟨none, g⟩).1 = .error f
  unbound : (stack a now e h r ⟨none, g⟩).2.bound = none
  /-- A next stage is called under the binding outside; the identity is bound for the rest of it. -/
  intercepted : ∀ (next : NextStage τ ε β α) (s : Scope (Guards τ)),
    a.intercept now next r s = authenticated a now (next.calledUnder s.bound) r s
  /-- A stage that does not look when it is called, or that has no identity to see, is like a
  handler. -/
  intercepted_alike : ∀ (next : NextStage τ ε β α) (s : Scope (Guards τ)),
    (next.Blind ∨ ∀ i, (a.authenticate now s.state.cache r).result ≠ .ok (some i)) →
    a.intercept now next r s = authenticated a now next.handler r s
  intercepted_handler : ∀ (next : Handler τ ε β α) (s : Scope (Guards τ)),
    a.intercept now next r s = authenticated a now next r s

/-- A handler behind both checks runs exactly for admitted calls, once and under the identity that
was found, and its answer is the answer. Any other call gets the failure of the check that stopped
it. In front of a next stage instead of a handler, authentication binds for what is left of the
stage after it was called. -/
theorem stack_spec (a : Authenticator) (now : Moment) (e : Authorizer) (h : Handler τ ε β α)
    (r : Request ε β) (g : Guards τ) : StackSpec a now e h r g where
  reached_iff := by
    refine ⟨fun hvisits => ?_, fun ⟨identity, hadmits⟩ => ?_⟩
    · refine Classical.byContradiction fun hnot => ?_
      obtain ⟨f, hrefuses⟩ := refuses_of_not_admits hnot
      exact hvisits (visits_of_refuses h hrefuses)
    · rw [visits_of_admits h hadmits]
      exact List.cons_ne_nil _ _
  visited _ hadmits := visits_of_admits h hadmits
  extent identity _ :=
    Scoped.currentThroughout_bound _ ⟨identity, admitting a now e g r identity⟩
  answered identity hadmits := by
    rw [run_stack_of_admits h hadmits]
    rfl
  refused hnot := by
    obtain ⟨f, hrefuses⟩ := refuses_of_not_admits hnot
    obtain ⟨t, -, hrun⟩ := run_stack_of_refuses h hrefuses
    exact ⟨visits_of_refuses h hrefuses, f, hrefuses, by rw [hrun]⟩
  unbound := (stack a now e h r).restores ⟨none, g⟩
  intercepted _ _ := intercept_eq_authenticated _
  intercepted_alike next _ := intercept_eq_handler next
  intercepted_handler next _ := intercept_eq_handler _ (.inl (NextStage.blind_coe next))

/-! ## A stage that looks when it is called -/

/-- Looks at the current identity when it is called, and answers with it when it is run. -/
def earlySample : NextStage Unit Unit Unit (Option Identity) where
  call _ := do
    let identity ← Scoped.current
    return return .ok identity

/-- An authenticator for which all calls come from one caller. -/
def singleSample : Authenticator where
  verifier _ _ _ := .ok (Identity.ofSubject "alice")
  extractor call := some call.method.display
  skip := []
  strip := []
  propagation := none
  exposeErrors := false

/-- Such a stage gives one answer when it follows the check as a next stage and another one when it
stands behind it as a handler. -/
theorem intercept_calls_outside :
    (singleSample.intercept ⟨0, 0⟩ earlySample (.ofMethod ⟨"svc.Foo", "Bar"⟩ () ())
      ⟨none, .off, none, 0, ()⟩).1 = .ok none ∧
    (authenticated singleSample ⟨0, 0⟩ earlySample.handler (.ofMethod ⟨"svc.Foo", "Bar"⟩ () ())
      ⟨none, .off, none, 0, ()⟩).1 = .ok (some (Identity.ofSubject "alice")) :=
  ⟨rfl, rfl⟩

end Handler

end CallGuard
