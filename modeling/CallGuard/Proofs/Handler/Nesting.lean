import CallGuard.Proofs.Handler.Stack
import Mathlib.Logic.Function.Basic

/-! # Calls inside calls

A handler may call other guarded services, or its own again, and may bind identities itself. In
whatever way calls are nested, the stages of a call see the identity that was found for it, the
binding of an enclosing call shows through only where a method is let through, and the caller sees
afterwards what was bound before. -/

namespace CallGuard

variable {κ σ ρ τ ε β α γ : Type}

/-! ## Runs from a binding -/

/-- The part of the state that a computation works on, taken out before it and put back after. -/
def Scoped.through (into : σ → ρ) (back : ρ → σ) (x : Scoped ρ α) : Scoped σ α where
  run s := ((x ⟨s.bound, into s.state⟩).1,
    ⟨(x ⟨s.bound, into s.state⟩).2.bound, back (x ⟨s.bound, into s.state⟩).2.state⟩)
  restores s := x.restores ⟨s.bound, into s.state⟩

/-- The second part of a run starts under the same binding as the first. -/
theorem Scoped.run_bind_bound (x : Scoped σ α) (f : α → Scoped σ γ) (b : Option Identity)
    (state : σ) :
    (x >>= f) ⟨b, state⟩ = f (x ⟨b, state⟩).1 ⟨b, (x ⟨b, state⟩).2.state⟩ := by
  have hscope : (x ⟨b, state⟩).2 = ⟨b, (x ⟨b, state⟩).2.state⟩ :=
    congrArg (Scope.mk · _) (x.restores ⟨b, state⟩)
  rw [run_bind, hscope]

/-- What holds of the state still holds after a run that starts under a binding. -/
def Scoped.Preserves (P : σ → Prop) (binding : Option Identity) (x : Scoped σ α) : Prop :=
  ∀ state, P state → P (x ⟨binding, state⟩).2.state

namespace Scoped.Preserves

variable {P : σ → Prop} {Q : ρ → Prop} {b c : Option Identity}

theorem pure (y : α) : (Pure.pure y : Scoped σ α).Preserves P b :=
  fun _ h => h

theorem state_bind {x : Scoped σ α} {f : α → Scoped σ γ} {state : σ}
    (hx : P (x ⟨b, state⟩).2.state) (hf : ∀ y, (f y).Preserves P b) :
    P ((x >>= f) ⟨b, state⟩).2.state := by
  rw [Scoped.run_bind_bound]
  exact hf _ _ hx

theorem bind {x : Scoped σ α} {f : α → Scoped σ γ} (hx : x.Preserves P b)
    (hf : ∀ y, (f y).Preserves P b) : (x >>= f).Preserves P b :=
  fun state h => state_bind (hx state h) hf

theorem current_bind {f : Option Identity → Scoped σ α} (hf : (f b).Preserves P b) :
    (Scoped.current >>= f).Preserves P b :=
  hf

theorem within {x : Scoped σ α} (hx : x.Preserves P b) : (Scoped.within b x).Preserves P c :=
  hx

theorem through {into : σ → ρ} {back : ρ → σ} {x : Scoped ρ α} (hx : x.Preserves Q b)
    (hinto : ∀ s, P s → Q (into s)) (hback : ∀ t, Q t → P (back t)) :
    (Scoped.through into back x).Preserves P b :=
  fun s h => hback _ (hx _ (hinto s h))

end Scoped.Preserves

/-! ## Who sees which identity -/

/-- The authorizer of a call, its handler, or whoever made the call, once it is over. -/
inductive Stage where
  | authorizer
  | handler
  | caller
deriving DecidableEq

/-- The current identity as a stage of a call sees it, beside what authentication made of the call
and what was bound around it. -/
structure Sighting where
  stage : Stage
  letThrough : Bool
  found : Except Failure (Option Identity)
  outside : Option Identity
  current : Option Identity

/-- Inside a call its own identity is seen, or else the one outside. After the call the one outside
is seen. -/
structure Sighting.Follows (v : Sighting) : Prop where
  letThrough_iff : v.letThrough = true ↔ v.found = .ok none
  inside : v.stage ≠ .caller →
    ∃ identity, v.found = .ok identity ∧ v.current = identity.or v.outside
  after : v.stage = .caller → v.current = v.outside

/-- A call that finds its own identity, or that has nothing around it, is not shown another. -/
theorem Sighting.Follows.found_eq {v : Sighting} (hv : v.Follows) (hstage : v.stage ≠ .caller)
    (hown : v.letThrough = false ∨ v.outside = none) : v.found = .ok v.current := by
  obtain ⟨identity, hfound, hcurrent⟩ := hv.inside hstage
  rw [hfound, hcurrent]
  cases hown with
  | inr hnone => rw [hnone, Option.or_none]
  | inl hchecked =>
      cases identity with
      | some i => rfl
      | none => simp [hv.letThrough_iff.mpr hfound] at hchecked

/-- What is told of some sightings can still be told with another one that follows. -/
def Sighting.Extends (Q : List Sighting → Prop) : Prop :=
  ∀ sightings v, Q sightings → v.Follows → Q (sightings ++ [v])

theorem Sighting.extends_follows : Extends fun sightings => ∀ v ∈ sightings, v.Follows := by
  intro sightings v hall hv x hx
  rcases List.mem_append.mp hx with hx | hx
  · exact hall x hx
  · rw [List.mem_singleton.mp hx]
    exact hv

theorem Sighting.extends_mem (v : Sighting) : Extends (v ∈ ·) :=
  fun _ _ hmem _ => List.mem_append_left _ hmem

/-! ## A world of services -/

/-- The guards of every service, and all sightings so far. -/
structure World (κ : Type) where
  guards : κ → Guards Unit
  sightings : List Sighting

namespace World

/-- The guards of a service, around everything else. -/
def enter (service : κ) (w : World κ) : Guards (World κ) :=
  (w.guards service).withInner w

/-- Puts the guards of a service back. -/
def leave [DecidableEq κ] (service : κ) (g : Guards (World κ)) : World κ :=
  { g.inner with guards := Function.update g.inner.guards service (g.withInner ()) }

/-- Runs something behind the guards of a service. -/
def behind [DecidableEq κ] (service : κ) (x : Scoped (Guards (World κ)) α) : Scoped (World κ) α :=
  Scoped.through (enter service) (leave service) x

/-- Runs something while the guards of a service are where its next call finds them. -/
def beside [DecidableEq κ] (service : κ) (x : Scoped (World κ) α) : Scoped (Guards (World κ)) α :=
  Scoped.through (leave service) (enter service) x

def note (v : Option Identity → Sighting) : Scoped (World κ) Unit := do
  let identity ← Scoped.current
  Scoped.modifyState fun w => { w with sightings := w.sightings ++ [v identity] }

/-- A property of the sightings, told of the world. -/
def Tells (Q : List Sighting → Prop) (w : World κ) : Prop :=
  Q w.sightings

section

variable {Q : List Sighting → Prop} {b : Option Identity}

theorem note_preserves (hQ : Sighting.Extends Q) {v : Option Identity → Sighting}
    (hv : (v b).Follows) : (note v : Scoped (World κ) Unit).Preserves (Tells Q) b :=
  fun w hw => hQ w.sightings (v b) hw hv

theorem beside_preserves [DecidableEq κ] (service : κ) {x : Scoped (World κ) α}
    (hx : x.Preserves (Tells Q) b) :
    (beside service x).Preserves (fun g => g.inner.Tells Q) b :=
  hx.through (fun _ h => h) (fun _ h => h)

end

end World

/-! ## One call -/

/-- The handler behind the authorizer of a service, if it has one. What is current is noted when
the authorizer looks. -/
def Handler.guarded (e : Option Authorizer) (seen : Scoped (Guards τ) Unit)
    (h : Handler τ ε β α) : Handler τ ε β α :=
  match e with
  | none => h
  | some e => fun r => do
      seen
      authorized e h r

/-- What a stage of a call sees, beside what the world before the call tells of it. -/
def World.sighting (w : World κ) (service : κ) (a : Authenticator) (now : Moment)
    (r : Request ε β) (outside : Option Identity) (stage : Stage) (current : Option Identity) :
    Sighting where
  stage
  letThrough := Pattern.anySelects a.skip r.method
  found := (a.authenticate now (w.guards service).cache r).result
  outside
  current

def World.seen (w : World κ) (service : κ) (a : Authenticator) (now : Moment) (r : Request ε β)
    (outside : Option Identity) (stage : Stage) : Scoped (World κ) Unit :=
  note (w.sighting service a now r outside stage)

/-- The handler of a service, which is told how to note what is current and does so first. -/
def World.handled [DecidableEq κ] (service : κ) (seen : Scoped (World κ) Unit)
    (body : Scoped (World κ) Unit → Request ε β → Scoped (World κ) (Except Failure α)) :
    Handler (World κ) ε β α := fun r =>
  beside service do
    seen
    body seen r

/-- What stands behind the authentication of a service. -/
def World.stages [DecidableEq κ] (service : κ) (e : Option Authorizer)
    (seen : Stage → Scoped (World κ) Unit)
    (body : Scoped (World κ) Unit → Request ε β → Scoped (World κ) (Except Failure α)) :
    Handler (World κ) ε β α :=
  Handler.guarded e (beside service (seen .authorizer)) (handled service (seen .handler) body)

/-- Calls a service. Whoever calls it looks again when the call is over. -/
def World.call [DecidableEq κ] (service : κ) (a : Authenticator) (now : Moment)
    (e : Option Authorizer) (r : Request ε β)
    (body : Scoped (World κ) Unit → Request ε β → Scoped (World κ) (Except Failure α)) :
    Scoped (World κ) (Except Failure α) := do
  let outside ← Scoped.current
  let w ← Scoped.getState
  let seen := w.seen service a now r outside
  let answer ← behind service (Handler.authenticated a now (stages service e seen body) r)
  seen .caller
  return answer

/-! ## What one call preserves -/

theorem Handler.authorized_preserves {P : τ → Prop} {b : Option Identity} (e : Authorizer)
    {h : Handler τ ε β α} {r : Request ε β}
    (hh : (h r).Preserves (fun g => P g.inner) b) :
    (authorized e h r).Preserves (fun g => P g.inner) b := by
  intro g hg
  cases hanswer : (e.authorize g.resolver b r.method).1 with
  | error x =>
      rw [run_authorized_of_error (s := ⟨b, g⟩) h hanswer]
      exact hg
  | ok =>
      rw [run_authorized_of_ok (s := ⟨b, g⟩) h hanswer]
      exact hh _ hg

theorem Handler.guarded_preserves {P : τ → Prop} {b : Option Identity} {e : Option Authorizer}
    {seen : Scoped (Guards τ) Unit} {h : Handler τ ε β α} {r : Request ε β}
    (hseen : seen.Preserves (fun g => P g.inner) b)
    (hh : (h r).Preserves (fun g => P g.inner) b) :
    (guarded e seen h r).Preserves (fun g => P g.inner) b := by
  cases e with
  | none => exact hh
  | some e => exact hseen.bind fun _ => authorized_preserves e hh

/-- The handler runs under the identity that was found, or else under the binding outside. -/
theorem Handler.state_authenticated {P : τ → Prop} {b : Option Identity} {a : Authenticator}
    {now : Moment} {h : Handler τ ε β α} {r : Request ε β} {g : Guards τ} (hg : P g.inner)
    (hh : ∀ identity, (a.authenticate now g.cache r).result = .ok identity →
      (h (a.authenticate now g.cache r).request).Preserves (fun g => P g.inner) (identity.or b)) :
    P (authenticated a now h r ⟨b, g⟩).2.state.inner := by
  cases hfound : (a.authenticate now g.cache r).result with
  | error f =>
      rw [run_authenticated_of_error (s := ⟨b, g⟩) h hfound]
      exact hg
  | ok identity =>
      rw [run_authenticated_of_ok (s := ⟨b, g⟩) h hfound]
      exact hh identity hfound _ hg

namespace World

section

variable {Q : List Sighting → Prop} {b : Option Identity} {service : κ} {a : Authenticator}
variable {now : Moment} {r : Request ε β} {w : World κ}

theorem seen_preserves_of_ok (hQ : Sighting.Extends Q) {stage : Stage}
    {identity : Option Identity} (hstage : stage ≠ .caller)
    (hfound : (a.authenticate now (w.guards service).cache r).result = .ok identity) :
    (w.seen service a now r b stage).Preserves (Tells Q) (identity.or b) :=
  note_preserves hQ {
    letThrough_iff := (a.result_eq_ok_none_iff now _ r).symm
    inside _ := ⟨identity, hfound, rfl⟩
    after hcaller := absurd hcaller hstage }

theorem seen_caller_preserves (hQ : Sighting.Extends Q) :
    (w.seen service a now r b .caller).Preserves (Tells Q) b :=
  note_preserves hQ {
    letThrough_iff := (a.result_eq_ok_none_iff now _ r).symm
    inside hstage := absurd rfl hstage
    after _ := rfl }

variable [DecidableEq κ] {e : Option Authorizer}
variable {body : Scoped (World κ) Unit → Request ε β → Scoped (World κ) (Except Failure α)}

theorem handled_preserves {seen : Scoped (World κ) Unit} (hseen : seen.Preserves (Tells Q) b)
    (hbody : (body seen r).Preserves (Tells Q) b) :
    (handled service seen body r).Preserves (fun g => g.inner.Tells Q) b :=
  beside_preserves service (hseen.bind fun _ => hbody)

theorem stages_preserves {seen : Stage → Scoped (World κ) Unit}
    (hseen : ∀ stage, stage ≠ .caller → (seen stage).Preserves (Tells Q) b)
    (hbody : (body (seen .handler) r).Preserves (Tells Q) b) :
    (stages service e seen body r).Preserves (fun g => g.inner.Tells Q) b :=
  Handler.guarded_preserves (beside_preserves service (hseen .authorizer (by decide)))
    (handled_preserves (hseen .handler (by decide)) hbody)

/-- The caller looks again when the stages are done. -/
theorem state_call (hQ : Sighting.Extends Q)
    (h : (Handler.authenticated a now (stages service e (w.seen service a now r b) body) r
      ⟨b, w.enter service⟩).2.state.inner.Tells Q) :
    (call service a now e r body ⟨b, w⟩).2.state.Tells Q := by
  have hrun : call service a now e r body ⟨b, w⟩ =
      (behind service (Handler.authenticated a now
        (stages service e (w.seen service a now r b) body) r) >>= fun answer =>
          w.seen service a now r b .caller >>= fun _ => pure answer) ⟨b, w⟩ := rfl
  rw [hrun]
  refine Scoped.Preserves.state_bind ?_ fun answer =>
    (seen_caller_preserves hQ).bind fun _ => .pure answer
  exact h

/-- What is told of the sightings survives a call, if it survives the handler under any binding
under which it survives a note of the handler. -/
theorem call_preserves (hQ : Sighting.Extends Q)
    (hbody : ∀ seen c, seen.Preserves (Tells Q) c → ∀ r, (body seen r).Preserves (Tells Q) c) :
    (call service a now e r body).Preserves (Tells Q) b := by
  intro w hw
  refine state_call hQ (Handler.state_authenticated (P := Tells Q) hw fun identity hfound => ?_)
  have hseen : ∀ stage, stage ≠ .caller →
      (w.seen service a now r b stage).Preserves (Tells Q) (identity.or b) :=
    fun _ hstage => seen_preserves_of_ok hQ hstage hfound
  exact stages_preserves hseen (hbody _ _ (hseen .handler (by decide)) _)

end

end World

/-! ## What one call adds -/

/-- The stages that a call gets to: the authorizer, if there is one, and the handler, unless the
authorizer is against it. -/
inductive Stage.Reached (e : Option Authorizer) (resolver : Option Resolver)
    (identity : Option Identity) (m : Method) : Stage → Prop where
  | authorizer {e'} (he : e = some e') : Reached e resolver identity m .authorizer
  | handler (hpass : ∀ e', e = some e' → (e'.decide resolver identity m).1 = .ok .allow) :
      Reached e resolver identity m .handler

namespace World

section

variable [DecidableEq κ] {b c identity : Option Identity} {service : κ} {a : Authenticator}
variable {now : Moment} {e : Option Authorizer} {r : Request ε β}
variable {w : World κ} {g : Guards (World κ)}
variable {body : Scoped (World κ) Unit → Request ε β → Scoped (World κ) (Except Failure α)}
variable {v : Stage → Option Identity → Sighting}

theorem leave_enter (service : κ) (w : World κ) : leave service (enter service w) = w := by
  have hguards : Function.update w.guards service (w.guards service) = w.guards :=
    Function.update_eq_self service w.guards
  exact congrArg (World.mk · w.sightings) hguards

theorem enter_leave (service : κ) (g : Guards (World κ)) (sightings : List Sighting) :
    enter service { leave service g with sightings } =
      g.withInner { leave service g with sightings } := by
  have hguards : (leave service g).guards service = g.withInner () :=
    Function.update_self service _ _
  rw [enter, hguards]
  rfl

/-- The world in which a handler goes on, once it and the authorizer in front of it have looked at
the current identity. -/
def handling (service : κ) (e : Option Authorizer) (v : Stage → Option Identity → Sighting)
    (m : Method) (current : Option Identity) (g : Guards (World κ)) : World κ :=
  match e with
  | none =>
    { leave service g with sightings := g.inner.sightings ++ [v .handler current] }
  | some e =>
    { leave service (g.afterDecision e current m) with
      sightings := g.inner.sightings ++ [v .authorizer current] ++ [v .handler current] }

theorem run_beside_enter (service : κ) (x : Scoped (World κ) γ) (w : World κ) :
    beside service x ⟨b, enter service w⟩ =
      ((x ⟨b, w⟩).1, ⟨(x ⟨b, w⟩).2.bound, enter service (x ⟨b, w⟩).2.state⟩) := by
  have hrun : beside service x ⟨b, enter service w⟩ =
      ((x ⟨b, leave service (enter service w)⟩).1,
        ⟨(x ⟨b, leave service (enter service w)⟩).2.bound,
          enter service (x ⟨b, leave service (enter service w)⟩).2.state⟩) := rfl
  rw [hrun, leave_enter]

theorem run_handled (v : Option Identity → Sighting) :
    handled service (note v) body r ⟨c, g⟩ =
      beside service (body (note v) r)
        ⟨c, enter service { leave service g with sightings := g.inner.sightings ++ [v c] }⟩ := by
  rw [run_beside_enter]
  rfl

/-- An authorizer looks at the current identity before it decides about the handler. -/
theorem run_stages_some (e : Authorizer) :
    stages service (some e) (fun stage => note (v stage)) body r ⟨c, g⟩ =
      Handler.authorized e (handled service (note (v .handler)) body) r
        ⟨c, g.withInner
          { leave service g with sightings := g.inner.sightings ++ [v .authorizer c] }⟩ := by
  -- A note is made in the world, so the guards are found as they were.
  rw [← enter_leave service g]
  rfl

/-- The stages of a call that passes are its handler, in the world that it finds. -/
theorem run_stages
    (hpass : ∀ e', e = some e' → (e'.decide g.resolver c r.method).1 = .ok .allow) :
    stages service e (fun stage => note (v stage)) body r ⟨c, g⟩ =
      beside service (body (note (v .handler)) r)
        ⟨c, enter service (handling service e v r.method c g)⟩ := by
  cases e with
  | none => exact run_handled _
  | some e =>
      let noted := g.withInner
        { leave service g with sightings := g.inner.sightings ++ [v .authorizer c] }
      have hok : (e.authorize noted.resolver c r.method).1 = .ok () :=
        (e.authorize_eq_ok_iff _ _ _).mpr (hpass e rfl)
      have hhandling : { leave service (noted.afterDecision e c r.method) with
          sightings := noted.inner.sightings ++ [v .handler c] } =
            handling service (some e) v r.method c g :=
        congrArg (World.mk · _) (Function.update_idem _ _ _)
      rw [run_stages_some, Handler.run_authorized_of_ok (s := ⟨c, noted⟩) _ hok, run_handled]
      exact congrArg (fun w => beside service _ ⟨c, enter service w⟩) hhandling

/-- A call that gets to its handler is the handler in the world that it finds, and then the caller
looks again. -/
theorem run_call_of_ok
    (hfound : (a.authenticate now (w.guards service).cache r).result = .ok identity)
    (hpass : ∀ e', e = some e' →
      (e'.decide (w.guards service).resolver (identity.or b) r.method).1 = .ok .allow) :
    call service a now e r body ⟨b, w⟩ =
      (Scoped.within (identity.or b) (body (w.seen service a now r b .handler)
          (a.authenticate now (w.guards service).cache r).request) >>= fun answer =>
        w.seen service a now r b .caller >>= fun _ => pure answer)
        ⟨b, handling service e (w.sighting service a now r b) r.method (identity.or b)
          ((w.enter service).afterCheck (a.authenticate now (w.guards service).cache r))⟩ := by
  let o := a.authenticate now (w.guards service).cache r
  let v := w.sighting service a now r b
  let h : Handler (World κ) ε β α := stages service e (fun stage => note (v stage)) body
  have hrun : call service a now e r body ⟨b, w⟩ =
      (behind service (Handler.authenticated a now h r) >>= fun answer =>
          w.seen service a now r b .caller >>= fun _ => pure answer) ⟨b, w⟩ := rfl
  have hauth : Handler.authenticated a now h r ⟨b, w.enter service⟩ =
      Scoped.within (identity.or b) (h o.request) ⟨b, (w.enter service).afterCheck o⟩ :=
    Handler.run_authenticated_of_ok (s := ⟨b, w.enter service⟩) h hfound
  have hstages : h o.request ⟨identity.or b, (w.enter service).afterCheck o⟩ =
      beside service (body (note (v .handler)) o.request)
        ⟨identity.or b, enter service (handling service e v r.method (identity.or b)
          ((w.enter service).afterCheck o))⟩ := by
    rw [← a.authenticate_method now (w.guards service).cache r] at hpass ⊢
    exact run_stages hpass
  have hbehind : behind service (Handler.authenticated a now h r) ⟨b, w⟩ =
      Scoped.within (identity.or b) (body (note (v .handler)) o.request)
          ⟨b, handling service e v r.method (identity.or b)
          ((w.enter service).afterCheck o)⟩ := by
    have hdef (x : Scoped (Guards (World κ)) (Except Failure α)) : behind service x ⟨b, w⟩ =
        ((x ⟨b, enter service w⟩).1,
          ⟨(x ⟨b, enter service w⟩).2.bound, leave service (x ⟨b, enter service w⟩).2.state⟩) := rfl
    rw [hdef, hauth, Scoped.run_within, hstages, run_beside_enter, Scoped.run_within]
    dsimp only
    rw [leave_enter]
  rw [hrun, Scoped.run_bind, hbehind]
  rfl

/-- The authorizer looks at the current identity before it decides. -/
theorem authorizer_sighting_mem {e : Authorizer}
    (hbody : (body (note (v .handler)) r).Preserves (Tells (v .authorizer identity ∈ ·)) identity) :
    (stages service (some e) (fun stage => note (v stage)) body r ⟨identity, g⟩).2.state.inner.Tells
      (v .authorizer identity ∈ ·) := by
  have hhandler : (handled service (note (v .handler)) body r).Preserves
      (fun g => g.inner.Tells (v .authorizer identity ∈ ·)) identity :=
    handled_preserves (fun _ hmem => List.mem_append_left _ hmem) hbody
  rw [run_stages_some]
  exact Handler.authorized_preserves e hhandler _ (List.mem_append_right _ List.mem_cons_self)

/-- A handler that is let pass has looked at the current identity first. -/
theorem handler_sighting_mem
    (hpass : ∀ e', e = some e' → (e'.decide g.resolver identity r.method).1 = .ok .allow)
    (hbody : (body (note (v .handler)) r).Preserves (Tells (v .handler identity ∈ ·)) identity) :
    (stages service e (fun stage => note (v stage)) body r ⟨identity, g⟩).2.state.inner.Tells
      (v .handler identity ∈ ·) := by
  have hnoted : (handling service e v r.method identity g).Tells (v .handler identity ∈ ·) := by
    cases e with
    | none => exact List.mem_append_right _ List.mem_cons_self
    | some e => exact List.mem_append_right _ List.mem_cons_self
  rw [run_stages hpass]
  exact beside_preserves service hbody _ hnoted

/-- Every stage that a call gets to is on record afterwards. -/
theorem call_records {stage : Stage}
    (hfound : (a.authenticate now (w.guards service).cache r).result = .ok identity)
    (hreached : stage.Reached e (w.guards service).resolver (identity.or b) r.method)
    (hbody : ∀ v seen c, seen.Preserves (Tells (v ∈ ·)) c →
      ∀ r, (body seen r).Preserves (Tells (v ∈ ·)) c) :
    (call service a now e r body ⟨b, w⟩).2.state.Tells
      (w.sighting service a now r b stage (identity.or b) ∈ ·) := by
  refine state_call (Sighting.extends_mem _) ?_
  rw [Handler.run_authenticated_of_ok (s := ⟨b, w.enter service⟩) _ hfound, Scoped.run_within]
  have hnotes (v : Sighting) : (body (note (w.sighting service a now r b .handler))
      (a.authenticate now (w.guards service).cache r).request).Preserves (Tells (v ∈ ·))
        (identity.or b) :=
    hbody v _ _ (fun _ hmem => List.mem_append_left _ hmem) _
  cases hreached with
  | authorizer he =>
      subst he
      exact authorizer_sighting_mem (v := w.sighting service a now r b) (hnotes _)
  | handler hpass =>
      rw [← a.authenticate_method now (w.guards service).cache r] at hpass
      exact handler_sighting_mem (v := w.sighting service a now r b) hpass (hnotes _)

end

end World

/-! ## Activities -/

/-- What a handler does, or whoever makes the first call. It answers, looks at the current identity
and goes on from there, binds an identity around a part of what it does, or calls a service, where
the request leads to what the handler of that service does. -/
inductive Activity (κ ε β α : Type) where
  | answer (y : Except Failure α)
  | look (rest : Option Identity → Activity κ ε β α)
  | bind (binding : Option Identity) (part : Activity κ ε β α)
      (rest : Except Failure α → Activity κ ε β α)
  | call (service : κ) (a : Authenticator) (now : Moment) (e : Option Authorizer)
      (r : Request ε β) (body : Request ε β → Activity κ ε β α)
      (rest : Except Failure α → Activity κ ε β α)

/-- A call of a service, with the guards of all services and the binding that it finds. -/
structure CallAt (κ ε β : Type) where
  service : κ
  authenticator : Authenticator
  now : Moment
  authorizer : Option Authorizer
  request : Request ε β
  guards : κ → Guards Unit
  outside : Option Identity

namespace CallAt

def outcome (c : CallAt κ ε β) : Outcome ε β :=
  c.authenticator.authenticate c.now (c.guards c.service).cache c.request

/-- The stages that the call gets to for an identity that authentication finds. -/
def Reaches (c : CallAt κ ε β) (identity : Option Identity) (stage : Stage) : Prop :=
  c.outcome.result = .ok identity ∧
    stage.Reached c.authorizer (c.guards c.service).resolver (identity.or c.outside)
      c.request.method

/-- What a stage sees for an identity that authentication finds. -/
def sighting (c : CallAt κ ε β) (identity : Option Identity) (stage : Stage) : Sighting :=
  World.sighting ⟨c.guards, []⟩ c.service c.authenticator c.now c.request c.outside stage
    (identity.or c.outside)

end CallAt

namespace Activity

/-- Runs an activity, with a note of what is current wherever it looks and whenever something that
it ran is over. Under a binding of its own nothing is noted. -/
def run [DecidableEq κ] (seen : Scoped (World κ) Unit) :
    Activity κ ε β α → Scoped (World κ) (Except Failure α)
  | answer y => return y
  | look rest => do
      seen
      (rest (← Scoped.current)).run seen
  | bind binding part rest => do
      let y ← Scoped.within binding (part.run (pure ()))
      seen
      (rest y).run seen
  | call service a now e r body rest => do
      let y ← World.call service a now e r fun seen r => (body r).run seen
      seen
      (rest y).run seen

/-- The call that an activity makes, with what the handler does. -/
def calling [DecidableEq κ] (service : κ) (a : Authenticator) (now : Moment)
    (e : Option Authorizer) (r : Request ε β) (body : Request ε β → Activity κ ε β α) :
    Scoped (World κ) (Except Failure α) :=
  World.call service a now e r fun seen r => (body r).run seen

/-- The part of an activity that has a binding of its own. -/
def holding [DecidableEq κ] (binding : Option Identity) (part : Activity κ ε β α) :
    Scoped (World κ) (Except Failure α) :=
  Scoped.within binding (part.run (pure ()))

/-- The world after a part of an activity and a note of what is current. -/
def after (part : Scoped (World κ) γ) (seen : Scoped (World κ) Unit) (b : Option Identity)
    (w : World κ) : World κ :=
  (seen ⟨b, (part ⟨b, w⟩).2.state⟩).2.state

/-- The calls that an activity makes when it is run in a world under a binding: the one it begins
with, those that its parts make in the worlds in which they are run, and those of the handlers that
its calls get to. -/
inductive Makes [DecidableEq κ] : Scoped (World κ) Unit → Option Identity → World κ →
    Activity κ ε β α → CallAt κ ε β → Prop where
  | outermost {seen b w service a now e r body rest} :
      Makes seen b w (call service a now e r body rest) ⟨service, a, now, e, r, w.guards, b⟩
  | inHandler {seen b w service a now e r body rest identity c} :
      CallAt.Reaches ⟨service, a, now, e, r, w.guards, b⟩ identity .handler →
      Makes (w.seen service a now r b .handler) (identity.or b)
        (World.handling service e (w.sighting service a now r b) r.method (identity.or b)
          ((w.enter service).afterCheck (a.authenticate now (w.guards service).cache r)))
        (body (a.authenticate now (w.guards service).cache r).request) c →
      Makes seen b w (call service a now e r body rest) c
  | afterCall {seen b w service a now e r body rest c} :
      Makes seen b (after (calling service a now e r body) seen b w)
        (rest (calling service a now e r body ⟨b, w⟩).1) c →
      Makes seen b w (call service a now e r body rest) c
  | inPart {seen b w binding part rest c} :
      Makes (pure ()) binding w part c → Makes seen b w (bind binding part rest) c
  | afterPart {seen b w binding part rest c} :
      Makes seen b (after (holding binding part) seen b w)
        (rest (holding binding part ⟨b, w⟩).1) c →
      Makes seen b w (bind binding part rest) c
  | afterLook {seen b w rest c} :
      Makes seen b (after (pure ()) seen b w) (rest b) c → Makes seen b w (look rest) c

/-- All that the stages of the calls see, when an activity starts under a binding. -/
def sightings [DecidableEq κ] (x : Activity κ ε β α) (guards : κ → Guards Unit)
    (binding : Option Identity) : List Sighting :=
  (x.run (pure ()) ⟨binding, guards, []⟩).2.state.sightings

theorem run_preserves [DecidableEq κ] {Q : List Sighting → Prop} (hQ : Sighting.Extends Q)
    (x : Activity κ ε β α) {seen : Scoped (World κ) Unit} {b : Option Identity}
    (hseen : seen.Preserves (World.Tells Q) b) : (x.run seen).Preserves (World.Tells Q) b := by
  -- A call and a binding run their inner part with other notes and under another binding.
  induction x generalizing seen b with
  | answer y => exact .pure y
  | look rest ih => exact hseen.bind fun _ => .current_bind (ih b hseen)
  | bind binding part rest ihpart ihrest =>
      have hpart : (Scoped.within binding (part.run (pure ()))).Preserves (World.Tells Q) b :=
        (ihpart (.pure ())).within
      exact hpart.bind fun y => hseen.bind fun _ => ihrest y hseen
  | call service a now e r body rest ihbody ihrest =>
      have hcall : (World.call service a now e r fun seen r => (body r).run seen).Preserves
          (World.Tells Q) b := World.call_preserves hQ fun _ _ hseen r => ihbody r hseen
      exact hcall.bind fun y => hseen.bind fun _ => ihrest y hseen

theorem follows_of_mem_sightings [DecidableEq κ] {x : Activity κ ε β α}
    {guards : κ → Guards Unit} {binding : Option Identity} {v : Sighting}
    (hv : v ∈ x.sightings guards binding) : v.Follows :=
  x.run_preserves Sighting.extends_follows (.pure ()) ⟨guards, []⟩
    (fun _ h => absurd h List.not_mem_nil) v hv

/-- What is on record after the first part of an activity stays on record. -/
theorem mem_of_part [DecidableEq κ] {v : Sighting} {part : Scoped (World κ) γ}
    {rest : γ → Activity κ ε β α} {seen : Scoped (World κ) Unit} {b : Option Identity}
    {w : World κ} (hpart : (part ⟨b, w⟩).2.state.Tells (v ∈ ·))
    (hseen : seen.Preserves (World.Tells (v ∈ ·)) b) :
    ((part >>= fun y => seen >>= fun _ => (rest y).run seen) ⟨b, w⟩).2.state.Tells (v ∈ ·) :=
  Scoped.Preserves.state_bind (P := World.Tells _) hpart fun y =>
    hseen.bind fun _ => (rest y).run_preserves (Sighting.extends_mem v) hseen

/-- Whatever an activity goes on with is run in the world after its first part. -/
theorem run_after [DecidableEq κ] (part : Scoped (World κ) γ) (rest : γ → Activity κ ε β α)
    (seen : Scoped (World κ) Unit) (b : Option Identity) (w : World κ) :
    (part >>= fun y => seen >>= fun _ => (rest y).run seen) ⟨b, w⟩ =
      (rest (part ⟨b, w⟩).1).run seen ⟨b, after part seen b w⟩ := by
  rw [Scoped.run_bind_bound, Scoped.run_bind_bound]
  rfl

/-- Every stage that a call gets to is on record in the end, wherever the call is made. -/
theorem Makes.sighting_mem [DecidableEq κ] {seen : Scoped (World κ) Unit} {b : Option Identity}
    {w : World κ} {x : Activity κ ε β α} {c : CallAt κ ε β} (h : Makes seen b w x c)
    (hseen : ∀ v, seen.Preserves (World.Tells (v ∈ ·)) b) {identity : Option Identity}
    {stage : Stage} (hreached : c.Reaches identity stage) :
    (x.run seen ⟨b, w⟩).2.state.Tells (c.sighting identity stage ∈ ·) := by
  induction h with
  | @outermost seen b w service a now e r body rest =>
      obtain ⟨hfound, hstage⟩ := hreached
      have hcall : (calling service a now e r body ⟨b, w⟩).2.state.Tells
          (w.sighting service a now r b stage (identity.or b) ∈ ·) :=
        World.call_records hfound hstage fun v seen c hseen r =>
          (body r).run_preserves (Sighting.extends_mem v) hseen
      exact mem_of_part hcall (hseen _)
  | @inHandler seen b w service a now e r body rest found c hhandler hmade ih =>
      obtain ⟨hfound, hpass⟩ := hhandler
      have hbody := ih (fun _ _ hmem => List.mem_append_left _ hmem) hreached
      cases hpass with
      | handler hpass =>
          have hcall : (calling service a now e r body ⟨b, w⟩).2.state.Tells
              (c.sighting identity stage ∈ ·) := by
            rw [calling, World.run_call_of_ok hfound hpass]
            exact Scoped.Preserves.state_bind (P := World.Tells _) hbody fun y =>
              .bind (World.seen_caller_preserves (Sighting.extends_mem _)) fun _ => .pure y
          exact mem_of_part hcall (hseen _)
  | @afterCall seen b w service a now e r body rest c hmade ih =>
      have hrun : (call service a now e r body rest).run seen ⟨b, w⟩ = _ :=
        run_after (calling service a now e r body) rest seen b w
      rw [hrun]
      exact ih hseen hreached
  | inPart hmade ih => exact mem_of_part (ih (fun _ => .pure ()) hreached) (hseen _)
  | @afterPart seen b w binding part rest c hmade ih =>
      have hrun : (bind binding part rest).run seen ⟨b, w⟩ = _ :=
        run_after (holding binding part) rest seen b w
      rw [hrun]
      exact ih hseen hreached
  | @afterLook seen b w rest c hmade ih =>
      have hrun : (look rest).run seen ⟨b, w⟩ = _ :=
        Scoped.run_bind_bound seen (fun _ => Scoped.current >>= fun i => (rest i).run seen) b w
      rw [hrun]
      exact ih hseen hreached

/-- What is seen in all the calls of an activity, however they are nested. -/
structure NestingSpec [DecidableEq κ] (x : Activity κ ε β α) (guards : κ → Guards Unit)
    (binding : Option Identity) : Prop where
  inside : ∀ v ∈ x.sightings guards binding, v.stage ≠ .caller →
    ∃ identity, v.found = .ok identity ∧ v.current = identity.or v.outside
  own : ∀ v ∈ x.sightings guards binding, v.stage ≠ .caller →
    v.letThrough = false ∨ v.outside = none → v.found = .ok v.current
  letThrough_iff : ∀ v ∈ x.sightings guards binding, v.letThrough = true ↔ v.found = .ok none
  after : ∀ v ∈ x.sightings guards binding, v.stage = .caller → v.current = v.outside
  restored : (x.run (pure ()) ⟨binding, guards, []⟩).2.bound = binding
  /-- No stage that a call gets to is left out, in whatever part or handler the call is made. -/
  recorded : ∀ {c identity stage}, Makes (pure ()) binding ⟨guards, []⟩ x c →
    c.Reaches identity stage → c.sighting identity stage ∈ x.sightings guards binding

/-- The stages of a call see just what authentication found for it, unless the method is let
through while something is bound around the call. Then they see what is bound there. The caller
always sees its own binding again. -/
theorem run_nestingSpec [DecidableEq κ] (x : Activity κ ε β α) (guards : κ → Guards Unit)
    (binding : Option Identity) : x.NestingSpec guards binding where
  inside _ hv := (follows_of_mem_sightings hv).inside
  own _ hv := (follows_of_mem_sightings hv).found_eq
  letThrough_iff _ hv := (follows_of_mem_sightings hv).letThrough_iff
  after _ hv := (follows_of_mem_sightings hv).after
  restored := (x.run (pure ())).restores ⟨binding, guards, []⟩
  recorded hmade hreached := hmade.sighting_mem (fun _ => .pure ()) hreached

def outerSample : Identity :=
  (Identity.ofSubject "outer").addRoles ["admin"]

/-- An authenticator that lets all methods of one service through and refuses the others. -/
def openSample : Authenticator where
  verifier _ _ _ := .error (.refused (.unauthenticated "unknown credential"))
  extractor := Extractor.bearer
  skip := [.ofService "svc.B"]
  strip := []
  propagation := none
  exposeErrors := false

/-- Makes a call to the service while an administrator is bound. -/
def enclosedSample : Activity Unit Unit Unit Unit :=
  .bind (some outerSample)
    (.call () openSample ⟨0, 0⟩ none (.ofMethod ⟨"svc.B", "Get"⟩ () ()) (fun _ => .answer (.ok ()))
      .answer)
    .answer

/-- A method that is let through has no identity of its own, and its handler sees the one of the
administrator. -/
theorem handler_sees_outside :
    ∃ v ∈ enclosedSample.sightings (fun _ => ⟨.off, none, 0, ()⟩) none,
      v.stage = .handler ∧ v.letThrough = true ∧ v.found = .ok none ∧
        v.current = some outerSample :=
  ⟨_, List.mem_cons_self, rfl, rfl, rfl, rfl⟩

end Activity

end CallGuard
