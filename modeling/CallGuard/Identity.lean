import CallGuard.Json
import CallGuard.Requirement

/-! # Identities

A verified identity has a subject, roles and scopes without repetitions, and claims in key order.
The invariants are part of the type, so every decoder that builds an identity keeps them. -/

namespace CallGuard

/-! ## Claims -/

structure Claims where
  members : List (String × Json)
  ordered : Members.Ordered members

namespace Claims

def empty : Claims := ⟨[], List.Pairwise.nil⟩

/-- Of members with one key the last counts. -/
def ofMembers (members : List (String × Json)) : Claims :=
  ⟨Members.ofList members, Members.ordered_ofList members⟩

def insert (key : String) (value : Json) (c : Claims) : Claims :=
  ⟨Members.insert key value c.members, Members.ordered_insert key value c.ordered⟩

def get? (key : String) (c : Claims) : Option Json :=
  Members.get? key c.members

def filter (keep : String → Bool) (c : Claims) : Claims :=
  ⟨c.members.filter fun m => keep m.1, c.ordered.filter _⟩

/-- The claims of a JSON object; no other value has claims. -/
def ofJson? : Json → Option Claims
  | .object members => some (ofMembers members)
  | _ => none

def json (c : Claims) : Json := .object c.members

end Claims

/-! ## Names without repetitions -/

/-- Names in the order in which they were first given, each once. -/
structure NameList where
  names : List String
  nodup : names.Nodup
deriving DecidableEq, Repr

namespace NameList

def empty : NameList := ⟨[], List.nodup_nil⟩

/-- Adds a name at the end unless it is there already. -/
def add (l : NameList) (name : String) : NameList :=
  if h : name ∈ l.names then l
  else ⟨l.names ++ [name], by
    refine List.nodup_append.2 ⟨l.nodup, by simp, ?_⟩
    intro a ha b hb
    rw [List.mem_singleton.1 hb]
    exact fun e => h (e ▸ ha)⟩

def extend (l : NameList) (names : List String) : NameList :=
  names.foldl add l

def ofList (names : List String) : NameList :=
  empty.extend names

def contains (l : NameList) (name : String) : Bool :=
  l.names.contains name

end NameList

/-! ## Identities -/

/-- The verified identity of a caller. `expiresAt` is in seconds since the epoch. -/
structure Identity where
  subject : String
  displayName : Option String
  roles : NameList
  scopes : NameList
  claims : Claims
  kind : String
  expiresAt : Option Int

namespace Identity

/-- The kind of an identity whose credential nobody labelled. -/
def unknownKind : String := "unknown"

def ofSubject (subject : String) : Identity :=
  ⟨subject, none, .empty, .empty, .empty, unknownKind, none⟩

def addRoles (i : Identity) (roles : List String) : Identity :=
  { i with roles := i.roles.extend roles }

def addScopes (i : Identity) (scopes : List String) : Identity :=
  { i with scopes := i.scopes.extend scopes }

def withClaims (i : Identity) (claims : Claims) : Identity :=
  { i with claims := claims }

def withClaim (i : Identity) (key : String) (value : Json) : Identity :=
  { i with claims := i.claims.insert key value }

def withDisplayName (i : Identity) (name : String) : Identity :=
  { i with displayName := some name }

def withKind (i : Identity) (kind : String) : Identity :=
  { i with kind := kind }

def withExpiry (i : Identity) (instant : Int) : Identity :=
  { i with expiresAt := some instant }

def hasRole (i : Identity) (role : String) : Bool :=
  i.roles.contains role

def hasScope (i : Identity) (scope : String) : Bool :=
  i.scopes.contains scope

/-- An identity has expired from its expiry on. -/
def isExpired (i : Identity) (now : Int) : Bool :=
  match i.expiresAt with
  | some instant => decide (instant ≤ now)
  | none => false

/-- Equality in all parts, with claims compared as JSON values. -/
def same (a b : Identity) : Bool :=
  a.subject == b.subject && a.displayName == b.displayName && a.roles == b.roles
    && a.scopes == b.scopes && Json.same a.claims.json b.claims.json && a.kind == b.kind
    && a.expiresAt == b.expiresAt

end Identity

/-- An identity meets a requirement when it has one of the listed roles, if any are listed, and
every listed scope. -/
def Requirement.isMetBy (r : Requirement) (i : Identity) : Bool :=
  (r.roles.isEmpty || r.roles.any i.hasRole) && r.scopes.all i.hasScope

end CallGuard
