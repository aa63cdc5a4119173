import CallGuard.Error
import CallGuard.Identity

/-! # The current identity

An identity is bound for the extent of a computation. Inside, it is the current identity; after
the computation the binding is again what it was. -/

namespace CallGuard

/-- The current identity beside the state of everything else. -/
structure Scope (σ : Type) where
  bound : Option Identity
  state : σ

/-- A computation that can see the current identity. It may bind another for a part of itself, and
leaves the binding as it was. -/
structure Scoped (σ α : Type) where
  run : Scope σ → α × Scope σ
  restores (s : Scope σ) : (run s).2.bound = s.bound

namespace Scoped

variable {σ ρ α β : Type}

instance : CoeFun (Scoped σ α) fun _ => Scope σ → α × Scope σ :=
  ⟨Scoped.run⟩

instance : Monad (Scoped σ) where
  pure a := ⟨fun s => (a, s), fun _ => rfl⟩
  bind x f := ⟨fun s => (f (x s).1) (x s).2, fun s => by rw [restores, restores]⟩

/-- The identity that is bound, if any. -/
def current : Scoped σ (Option Identity) :=
  ⟨fun s => (s.bound, s), fun _ => rfl⟩

/-- The identity that is bound, or the error that one is needed. -/
def require : Scoped σ (Except Error Identity) := do
  match ← current with
  | some i => return .ok i
  | none => return .error .authenticationRequired

/-- Runs a computation under another binding; none hides the one outside. -/
def within (binding : Option Identity) (body : Scoped σ α) : Scoped σ α where
  run s :=
    let (a, t) := body { s with bound := binding }
    (a, { t with bound := s.bound })
  restores _ := rfl

/-- The rest of the state. -/
def getState : Scoped σ σ :=
  ⟨fun s => (s.state, s), fun _ => rfl⟩

/-- Changes the rest of the state. -/
def modifyState (f : σ → σ) : Scoped σ Unit :=
  ⟨fun s => ((), { s with state := f s.state }), fun _ => rfl⟩

/-! ## Runs -/

@[simp] theorem run_pure (a : α) (s : Scope σ) : (pure a : Scoped σ α).run s = (a, s) :=
  rfl

@[simp] theorem run_bind (x : Scoped σ α) (f : α → Scoped σ β) (s : Scope σ) :
    (x >>= f).run s = (f (x.run s).1).run (x.run s).2 :=
  rfl

@[simp] theorem run_current (s : Scope σ) : (current : Scoped σ _).run s = (s.bound, s) :=
  rfl

@[simp] theorem run_getState (s : Scope σ) : (getState : Scoped σ _).run s = (s.state, s) :=
  rfl

@[simp] theorem run_modifyState (f : σ → σ) (s : Scope σ) :
    (modifyState f).run s = ((), ⟨s.bound, f s.state⟩) :=
  rfl

@[simp] theorem run_within (binding : Option Identity) (body : Scoped σ α) (s : Scope σ) :
    (within binding body).run s =
      ((body.run ⟨binding, s.state⟩).1, ⟨s.bound, (body.run ⟨binding, s.state⟩).2.state⟩) :=
  rfl

end Scoped

end CallGuard
