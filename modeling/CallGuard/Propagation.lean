import CallGuard.Header
import CallGuard.Identity
import CallGuard.Json.Decode
import CallGuard.Json.Printer

/-! # Propagation headers

An identity travels to the next hop in six headers. What does not fit into a header is left out
when it is written, and what cannot be read counts as empty. -/

namespace CallGuard

namespace HeaderName

def authSubject : HeaderName := ⟨"x-auth-subject", by decide⟩
def authType : HeaderName := ⟨"x-auth-type", by decide⟩
def authName : HeaderName := ⟨"x-auth-name", by decide⟩
def authRoles : HeaderName := ⟨"x-auth-roles", by decide⟩
def authScopes : HeaderName := ⟨"x-auth-scopes", by decide⟩
def authClaims : HeaderName := ⟨"x-auth-claims", by decide⟩

end HeaderName

namespace Propagation

def headerNames : List HeaderName :=
  [.authSubject, .authType, .authName, .authRoles, .authScopes, .authClaims]

/-- The most bytes that one value may have. -/
def maxBytes : Nat := 8192

/-- Which claims travel: all, or those with the listed keys. -/
structure Options where
  allowedClaims : Option (List String)
deriving DecidableEq, Repr

def Options.all : Options := ⟨none⟩

def Options.allows (o : Options) (key : String) : Bool :=
  match o.allowedClaims with
  | none => true
  | some keys => keys.contains key

def strip (h : Headers) : Headers :=
  h.removeAll headerNames

/-! ## Writing -/

/-- A text without its control characters; tabs stay. -/
def sanitize (s : String) : String :=
  String.ofList (s.toList.filter fun c => !Text.isControl c || c == '\t')

/-- The texts that an identity gives to the headers. -/
def fields (o : Options) (i : Identity) : List (HeaderName × String) :=
  let claims := i.claims.filter o.allows
  [(.authSubject, sanitize i.subject), (.authType, sanitize i.kind)]
    ++ (i.displayName.toList.map fun n => (.authName, sanitize n))
    ++ (if i.roles.names.isEmpty then []
        else [(.authRoles, (Json.array (i.roles.names.map .string)).text)])
    ++ (if i.scopes.names.isEmpty then [] else [(.authScopes, Text.join " " i.scopes.names)])
    ++ (if claims.members.isEmpty then [] else [(.authClaims, claims.json.text)])

/-- Inserts a text that is short enough and can stand in a header. -/
def insertCapped (h : Headers) (name : HeaderName) (text : String) : Headers :=
  if maxBytes < text.utf8ByteSize then h
  else match HeaderValue.ofText? text with
    | some v => h.insert name v
    | none => h

/-- Writes an identity in place of the one that the headers hold. -/
def write (o : Options) (i : Identity) (h : Headers) : Headers :=
  (fields o i).foldl (fun h f => insertCapped h f.1 f.2) (strip h)

/-! ## Reading -/

def stringList? (text : String) : Option (List String) :=
  (Decoder.ofText (.list .string) text).toOption

def claims? (text : String) : Option Claims :=
  (Json.parse? text).bind Claims.ofJson?

/-- The text of a header that is not too long. -/
def bounded? (h : Headers) (name : HeaderName) : Option String :=
  (h.text? name).filter fun s => s.utf8ByteSize ≤ maxBytes

/-- The text of a header that is not empty. -/
def nonempty? (h : Headers) (name : HeaderName) : Option String :=
  (h.text? name).filter fun s => !s.isEmpty

/-- The identity that the headers hold; none without a subject. -/
def read? (h : Headers) : Option Identity := do
  let subject ← nonempty? h .authSubject
  return {
    subject
    displayName := h.text? .authName
    roles := .ofList (((bounded? h .authRoles).bind stringList?).getD [])
    scopes := .ofList (((bounded? h .authScopes).map Text.words).getD [])
    claims := ((bounded? h .authClaims).bind claims?).getD .empty
    kind := (nonempty? h .authType).getD Identity.unknownKind
    expiresAt := none }

end Propagation

end CallGuard
