import CallGuard.Policy.Resolver
import CallGuard.Rule

/-! # Authorizers

An authorizer decides in stages: the declared options of the method, the rules in their order, a
hook, and a default. The first stage that has something to say decides. -/

namespace CallGuard

inductive Decision where
  | allow
  | deny (rule : String) (requirement : Option Requirement)
deriving DecidableEq, Repr

/-- The decision that an effect stands for; a denial names a rule and no requirement. -/
def Decision.ofEffect (rule : String) : Effect → Decision
  | .allow => .allow
  | .deny => .deny rule none

/-- What decides once the declared options leave a call open. -/
structure Authorizer where
  rules : List Rule
  /-- Code of the host, which is taken to answer by the identity and the method alone: it has no
  memory, and the same question has the same answer whenever it is asked. -/
  hook : Option (Identity → Method → Bool)
  defaultPolicy : Effect

namespace Authorizer

/-! ## Construction -/

/-- Checks that rule names are not blank and that none is used twice; `seen` are the names of the
rules before. -/
def checkNames : List String → List Rule → Except Error Unit
  | _, [] => .ok ()
  | seen, r :: rest =>
    if (Text.trim r.name).isEmpty then .error (.configuration "rule name must not be empty")
    else if seen.contains r.name then
      .error (.configuration s!"duplicate rule name: {r.name}")
    else checkNames (r.name :: seen) rest

def build (rules : List Rule) (hook : Option (Identity → Method → Bool))
    (defaultPolicy : Effect) : Except Error Authorizer := do
  checkNames [] rules
  return ⟨rules, hook, defaultPolicy⟩

/-! ## Stages -/

/-- Runs a step that needs to know the caller. -/
def withIdentity {α : Type} (identity : Option Identity) (f : Identity → α) : Except Error α :=
  match identity with
  | some i => .ok (f i)
  | none => .error .authenticationRequired

/-- What the declared options say, if anything: a public method is open to all, a requirement
decides alone, and a policy holds for known callers. -/
def decideDeclared (p : ResolvedPolicy) (identity : Option Identity) :
    Option (Except Error Decision) :=
  if p.isPublic then some (.ok .allow)
  else match p.requires with
    | some q => some (withIdentity identity fun i =>
        if q.isMetBy i then .allow else .deny "method-requires" (some q))
    | none => p.policy.map fun e => withIdentity identity fun _ => .ofEffect "method-policy" e

/-- Goes through the rules that select a method. The first that admits the caller decides; until
then the requirement that a known caller failed last is kept. -/
def walk (m : Method) (identity : Option Identity) :
    Option Requirement → List Rule → Except (Option Requirement) Decision
  | unmet, [] => .error unmet
  | unmet, r :: rest =>
    if !r.selects m then walk m identity unmet rest
    else if r.admits identity then .ok (.ofEffect r.name r.effect)
    else walk m identity (if identity.isSome then r.requires else unmet) rest

/-- The decision when no rule and no hook has one. -/
def decideDefault (a : Authorizer) (identity : Option Identity) (unmet : Option Requirement) :
    Except Error Decision :=
  match a.defaultPolicy with
  | .allow => .ok .allow
  | .deny => withIdentity identity fun _ => .deny "default-policy" unmet

def decideOpen (a : Authorizer) (identity : Option Identity) (m : Method) : Except Error Decision :=
  match walk m identity none a.rules with
  | .ok d => .ok d
  | .error unmet =>
    match a.hook, identity with
    | some hook, some i => .ok (if hook i m then .allow else .deny "authorize-hook" none)
    | _, _ => a.decideDefault identity unmet

def decideWith (a : Authorizer) (p : Option ResolvedPolicy) (identity : Option Identity)
    (m : Method) : Except Error Decision :=
  ((p.bind fun p => decideDeclared p identity).getD (a.decideOpen identity m))

/-! ## Calls -/

/-- The declared options of a method, and the resolver that remembers them. -/
def lookUp (r : Option Resolver) (m : Method) : Option ResolvedPolicy × Option Resolver :=
  match r with
  | none => (none, none)
  | some r => (some (r.resolve m).1, some (r.resolve m).2)

def decide (a : Authorizer) (r : Option Resolver) (identity : Option Identity) (m : Method) :
    Except Error Decision × Option Resolver :=
  let (p, r) := lookUp r m
  (a.decideWith p identity m, r)

def enforce : Except Error Decision → Except Error Unit
  | .error e => .error e
  | .ok .allow => .ok ()
  | .ok (.deny rule requirement) => .error (.permissionDenied rule requirement)

/-- Lets a call pass or fails with the reason why not. -/
def authorize (a : Authorizer) (r : Option Resolver) (identity : Option Identity) (m : Method) :
    Except Error Unit × Option Resolver :=
  let (d, r) := a.decide r identity m
  (enforce d, r)

end Authorizer

end CallGuard
