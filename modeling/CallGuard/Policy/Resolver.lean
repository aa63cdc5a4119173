import CallGuard.Keyed
import CallGuard.Policy

/-! # Resolving declared options

A source holds the declared options. A resolver answers from its source when a method is first
asked for and remembers the answer, whatever happens to the source later. -/

namespace CallGuard

structure PolicySource where
  methodOptions : List (Method × MethodOption)
  serviceOptions : List (String × ServiceOption)

namespace PolicySource

def empty : PolicySource := ⟨[], []⟩

def methodOption (s : PolicySource) (m : Method) : Option MethodOption :=
  Keyed.get? m s.methodOptions

def serviceOption (s : PolicySource) (service : String) : Option ServiceOption :=
  Keyed.get? service s.serviceOptions

/-- Declares the option of a method in place of an earlier one. -/
def setMethod (s : PolicySource) (m : Method) (o : MethodOption) : PolicySource :=
  { s with methodOptions := Keyed.set m o s.methodOptions }

/-- Declares the option of a service in place of an earlier one. -/
def setService (s : PolicySource) (service : String) (o : ServiceOption) : PolicySource :=
  { s with serviceOptions := Keyed.set service o s.serviceOptions }

/-- The methods with an option of their own. -/
def methods (s : PolicySource) : List Method :=
  Keyed.keys s.methodOptions

/-- The declarations in force for a method. -/
def resolve (s : PolicySource) (m : Method) : ResolvedPolicy :=
  .merge (s.methodOption m) (s.serviceOption m.service)

end PolicySource

/-- A source and the answers given so far. -/
structure Resolver where
  source : PolicySource
  resolved : List (Method × ResolvedPolicy)

namespace Resolver

def ofSource (s : PolicySource) : Resolver := ⟨s, []⟩

/-- The remembered answer for a method, or one from the source, which is then remembered. -/
def resolve (r : Resolver) (m : Method) : ResolvedPolicy × Resolver :=
  match Keyed.get? m r.resolved with
  | some p => (p, r)
  | none =>
    let p := r.source.resolve m
    (p, { r with resolved := Keyed.set m p r.resolved })

/-- An answer that was given once is given again. -/
theorem resolve_resolve (r : Resolver) (m : Method) :
    ((r.resolve m).2.resolve m).1 = (r.resolve m).1 := by
  unfold resolve
  cases h : Keyed.get? m r.resolved with
  | some p => simp [h]
  | none => simp [Keyed.get?_set_self]

/-- Resolves some methods ahead of time. -/
def preload (r : Resolver) (methods : List Method) : Resolver :=
  methods.foldl (fun r m => (r.resolve m).2) r

/-- The number of methods with a remembered answer. -/
def size (r : Resolver) : Nat :=
  r.resolved.length

end Resolver

end CallGuard
