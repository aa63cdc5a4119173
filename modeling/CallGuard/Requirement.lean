/-! # Requirements -/

namespace CallGuard

/-- What a caller must hold: any one of the roles, if roles are listed, and every scope. -/
structure Requirement where
  roles : List String
  scopes : List String
deriving DecidableEq, Repr

namespace Requirement

def none : Requirement := ⟨[], []⟩

def ofRoles (roles : List String) : Requirement := ⟨roles, []⟩

def ofScopes (scopes : List String) : Requirement := ⟨[], scopes⟩

/-- Asks for further scopes, after those that are asked for already. -/
def withScopes (r : Requirement) (scopes : List String) : Requirement :=
  { r with scopes := r.scopes ++ scopes }

/-- A requirement that lists nothing is empty. -/
def isEmpty (r : Requirement) : Bool :=
  r.roles.isEmpty && r.scopes.isEmpty

end Requirement

end CallGuard
