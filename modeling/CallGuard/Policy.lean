import CallGuard.Effect
import CallGuard.Json.Decode
import CallGuard.Method

/-! # Declared options

A method and its service may each declare who can call. Options of the method come before those
of the service, field by field. -/

namespace CallGuard

/-- What a method declares about itself. -/
structure MethodOption where
  isPublic : Option Bool
  /-- The word for an effect; other words count as absent. -/
  policy : Option String
  requires : Option Requirement
deriving DecidableEq, Repr

/-- What a service declares for all its methods. -/
structure ServiceOption where
  isPublic : Option Bool
  /-- The word for an effect; other words count as absent. -/
  defaultPolicy : Option String
  defaultRequires : Option Requirement
deriving DecidableEq, Repr

/-! ## Reading -/

def Effect.decode : Decoder Effect :=
  .named Effect.ofWord?

def Requirement.decode : Decoder Requirement :=
  .record ["roles", "scopes"] (fun i d r => do
    if i = 0 then return { r with roles := ← Decoder.list .string d }
    else return { r with scopes := ← Decoder.list .string d }) .none

def MethodOption.decode : Decoder MethodOption :=
  .record ["public", "policy", "requires"] (fun i d o => do
    if i = 0 then return { o with isPublic := ← Decoder.optional .bool d }
    else if i = 1 then return { o with policy := ← Decoder.optional .string d }
    else return { o with requires := ← Decoder.optional Requirement.decode d }) ⟨none, none, none⟩

def ServiceOption.decode : Decoder ServiceOption :=
  .record ["public", "defaultPolicy", "defaultRequires"] (fun i d o => do
    if i = 0 then return { o with isPublic := ← Decoder.optional .bool d }
    else if i = 1 then return { o with defaultPolicy := ← Decoder.optional .string d }
    else return { o with defaultRequires := ← Decoder.optional Requirement.decode d })
    ⟨none, none, none⟩

/-! ## Merging -/

/-- The declarations that are in force for one method. -/
structure ResolvedPolicy where
  isPublic : Bool
  policy : Option Effect
  requires : Option Requirement
deriving DecidableEq, Repr

/-- The declarations of a method over those of its service. A requirement is taken whole, and a
policy that is no effect leaves the field open. -/
def ResolvedPolicy.merge (method : Option MethodOption) (service : Option ServiceOption) :
    ResolvedPolicy where
  isPublic := ((method.bind (·.isPublic)).or (service.bind (·.isPublic))).getD false
  policy := ((method.bind (·.policy)).bind Effect.ofWord?).or
    ((service.bind (·.defaultPolicy)).bind Effect.ofWord?)
  requires := (method.bind (·.requires)).or (service.bind (·.defaultRequires))

end CallGuard
