import CallGuard.Identity
import CallGuard.Pattern
import CallGuard.Policy

/-! # Authorization rules -/

namespace CallGuard

/-- An effect on a set of methods, for callers that meet a requirement or for all. -/
structure Rule where
  name : String
  methods : List Pattern
  effect : Effect
  requires : Option Requirement
deriving DecidableEq, Repr

namespace Rule

/-- The rule over the methods that some patterns stand for. -/
def ofPatterns (name : String) (patterns : List String) (effect : Effect)
    (requires : Option Requirement) : Except Error Rule := do
  return ⟨name, ← Pattern.parseAll patterns, effect, requires⟩

def selects (r : Rule) (m : Method) : Bool :=
  Pattern.anySelects r.methods m

/-- Whether a caller, who may be unknown, meets what a rule asks for. -/
def admits (r : Rule) (identity : Option Identity) : Bool :=
  match r.requires with
  | none => true
  | some q => match identity with
    | none => false
    | some i => q.isMetBy i

end Rule

/-! ## Reading -/

def Pattern.decode : Decoder Pattern := fun d => do
  match Pattern.parse (← Decoder.string d) with
  | .ok p => .ok p
  | .error e => .error (.refused e)

/-- The fields of a rule that have been read so far. -/
structure Rule.Fields where
  name : Option String
  methods : Option (List Pattern)
  effect : Option Effect
  requires : Option Requirement

/-- All fields but the requirement must be given. -/
def Rule.decode : Decoder Rule := fun d => do
  let f ← Decoder.record ["name", "methods", "effect", "requires"]
    (fun i d (f : Rule.Fields) => do
      if i = 0 then return { f with name := some (← Decoder.string d) }
      else if i = 1 then return { f with methods := some (← Decoder.list Pattern.decode d) }
      else if i = 2 then return { f with effect := some (← Effect.decode d) }
      else return { f with requires := ← Decoder.optional Requirement.decode d })
    ⟨none, none, none, none⟩ d
  let name ← Decoder.required f.name
  let methods ← Decoder.required f.methods
  let effect ← Decoder.required f.effect
  return ⟨name, methods, effect, f.requires⟩

end CallGuard
