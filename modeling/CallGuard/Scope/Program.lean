import CallGuard.Scope

/-! # Programs that watch the current identity

A program looks at the current identity, binds others around parts of itself, suspends, and runs
parts side by side. Each part sees the bindings around it and no others, also when it is resumed
after a suspension; so parts that take turns observe what they would observe one after the other,
and here they are run in that way. -/

namespace CallGuard

inductive Step where
  | current
  /-- Looks at the current identity and insists on one. -/
  | require
  /-- Lets others go on. -/
  | suspend
  | within (binding : Option Identity) (body : List Step)
  /-- Starts a part under a binding and gives it up when it first suspends. -/
  | abandon (binding : Option Identity) (body : List Step)
  /-- Runs parts in turns until all have ended. -/
  | join (parts : List (List Step))

inductive Observation where
  | identity (i : Option Identity)
  | required (r : Except Error Identity)
  | finished (b : Bool)
  | list (os : List Observation)

namespace Step

mutual

/-- Whether a step suspends before it ends. A part that is given up does not hold up others. -/
def suspends : Step → Bool
  | current | require | abandon _ _ => false
  | suspend => true
  | within _ body => anySuspends body
  | join parts => anyPartSuspends parts

def anySuspends : List Step → Bool
  | [] => false
  | s :: rest => suspends s || anySuspends rest

def anyPartSuspends : List (List Step) → Bool
  | [] => false
  | p :: rest => anySuspends p || anyPartSuspends rest

end

variable {σ : Type}

mutual

def run : Step → Scoped σ (List Observation)
  | current => do return [.identity (← Scoped.current)]
  | require => do return [.required (← Scoped.require)]
  | suspend => return []
  | within binding body => do return [.list (← Scoped.within binding (runAll body))]
  | abandon _ body => return [.list [.finished (!anySuspends body)]]
  | join parts => do return [.list (← runParts parts)]

/-- Runs steps one after the other. -/
def runAll : List Step → Scoped σ (List Observation)
  | [] => return []
  | s :: rest => do return (← run s) ++ (← runAll rest)

/-- Runs parts under the binding around them. -/
def runParts : List (List Step) → Scoped σ (List Observation)
  | [] => return []
  | p :: rest => do return .list (← runAll p) :: (← runParts rest)

end

end Step

end CallGuard
