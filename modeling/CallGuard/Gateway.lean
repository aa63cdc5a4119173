import CallGuard.Authenticator
import CallGuard.Trust

/-! # Gateways

A gateway checks callers itself and passes their identity on in headers. The headers are believed
only when the call shows a trusted signal, and never travel further. -/

namespace CallGuard

/-- What a gateway shows to be believed, with a header name that is still to be checked. -/
inductive TrustSignal where
  | header (name : String)
  | peerAddress
deriving DecidableEq, Repr

/-- How a gateway passes identities on. -/
structure GatewayConfig where
  subjectHeader : String
  nameHeader : Option String
  rolesHeader : Option String
  scopesHeader : Option String
  typeHeader : Option String
  claimsHeader : Option String
  trustSignal : TrustSignal
  /-- Texts that are trusted as they are, and ranges of version 4 addresses. -/
  trustedValues : List String
  stripHeaders : List String
  skipMethods : List String
  propagate : Bool
  propagateClaims : Option (List String)
deriving DecidableEq, Repr

/-! ## Reading -/

def TrustSignal.decode : Decoder TrustSignal :=
  .choice (fun name => if name = "peer-address" then .ok .peerAddress else .error .mismatch)
    fun name d =>
      if name = "header" then (Decoder.string d).map .header
      else if name = "peer-address" then
        match d with
        | .null => .ok .peerAddress
        | _ => .error .mismatch
      else .error .mismatch

namespace GatewayConfig

def fieldNames : List String :=
  ["subjectHeader", "nameHeader", "rolesHeader", "scopesHeader", "typeHeader", "claimsHeader",
   "trustSignal", "trustedValues", "stripHeaders", "skipMethods", "propagate", "propagateClaims"]

/-- A configuration of which the fields without default may still be missing. -/
structure Fields where
  subjectHeader : Option String
  trustSignal : Option TrustSignal
  trustedValues : Option (List String)
  rest : GatewayConfig

def Fields.set (i : Nat) (d : Document) (f : Fields) : Except DecodeError Fields := do
  let text? := Decoder.optional .string
  match i with
  | 0 => return { f with subjectHeader := some (← Decoder.string d) }
  | 1 => return { f with rest := { f.rest with nameHeader := ← text? d } }
  | 2 => return { f with rest := { f.rest with rolesHeader := ← text? d } }
  | 3 => return { f with rest := { f.rest with scopesHeader := ← text? d } }
  | 4 => return { f with rest := { f.rest with typeHeader := ← text? d } }
  | 5 => return { f with rest := { f.rest with claimsHeader := ← text? d } }
  | 6 => return { f with trustSignal := some (← TrustSignal.decode d) }
  | 7 => return { f with trustedValues := some (← Decoder.list .string d) }
  | 8 => return { f with rest := { f.rest with stripHeaders := ← Decoder.list .string d } }
  | 9 => return { f with rest := { f.rest with skipMethods := ← Decoder.list .string d } }
  | 10 => return { f with rest := { f.rest with propagate := ← Decoder.bool d } }
  | _ => return { f with rest := { f.rest with
      propagateClaims := ← Decoder.optional (Decoder.list .string) d } }

/-- The configuration in which everything that has a default has it. -/
def minimal (subjectHeader : String) (trustSignal : TrustSignal) (trustedValues : List String) :
    GatewayConfig :=
  ⟨subjectHeader, none, none, none, none, none, trustSignal, trustedValues, [], [], false, none⟩

def decode : Decoder GatewayConfig := fun d => do
  let start : Fields := ⟨none, none, none, minimal "" .peerAddress []⟩
  let f ← Decoder.record fieldNames Fields.set start d
  let subjectHeader ← Decoder.required f.subjectHeader
  let trustSignal ← Decoder.required f.trustSignal
  let trustedValues ← Decoder.required f.trustedValues
  return { f.rest with subjectHeader, trustSignal, trustedValues }

end GatewayConfig

/-! ## Identities from headers -/

structure GatewayHeaders where
  subject : HeaderName
  name : Option HeaderName
  roles : Option HeaderName
  scopes : Option HeaderName
  type : Option HeaderName
  claims : Option HeaderName
deriving DecidableEq, Repr

namespace GatewayHeaders

def mapped (g : GatewayHeaders) : List HeaderName :=
  g.subject :: [g.name, g.roles, g.scopes, g.type, g.claims].filterMap id

/-- Roles are a JSON array of strings, or else texts with commas between them. -/
def rolesOf (value : String) : List String :=
  match Propagation.stringList? value with
  | some names => names
  | none => (Text.split ',' value).filterMap Text.trimNonempty?

/-- Claims are a JSON object that is not too long; anything else holds none. -/
def claimsOf (value : String) : Claims :=
  if Propagation.maxBytes < value.utf8ByteSize then .empty
  else (Propagation.claims? value).getD .empty

/-- The trimmed text of an optional header that is not blank. -/
def field? (h : Headers) (name : Option HeaderName) : Option String :=
  name.bind h.trimmed?

/-- The identity that the headers of a call hold. -/
def identity (g : GatewayHeaders) (h : Headers) : Except Error Identity :=
  match h.trimmed? g.subject with
  | none => .error (.unauthenticated "missing subject")
  | some subject => .ok {
      subject
      displayName := field? h g.name
      roles := .ofList (((field? h g.roles).map rolesOf).getD [])
      scopes := .ofList (((field? h g.scopes).map Text.words).getD [])
      claims := ((field? h g.claims).map claimsOf).getD .empty
      kind := (field? h g.type).getD "gateway"
      expiresAt := none }

end GatewayHeaders

namespace Gateway

/-- Believes the headers of calls whose signal is trusted. -/
def verifier (trusted : List String) (g : GatewayHeaders) : Verifier := fun _ signal call =>
  if Trust.isTrusted trusted signal then
    match g.identity call.headers with
    | .ok i => .ok i
    | .error e => .error (.refused e)
  else .error (.refused (.unauthenticated "untrusted gateway"))

end Gateway

/-! ## Construction -/

namespace GatewayConfig

def optionalName : Option String → Except Error (Option HeaderName)
  | none => .ok none
  | some s => do return some (← HeaderName.ofConfig s)

def headers (c : GatewayConfig) : Except Error GatewayHeaders := do
  let subject ← HeaderName.ofConfig c.subjectHeader
  let name ← optionalName c.nameHeader
  let roles ← optionalName c.rolesHeader
  let scopes ← optionalName c.scopesHeader
  let type ← optionalName c.typeHeader
  let claims ← optionalName c.claimsHeader
  return { subject, name, roles, scopes, type, claims }

/-- Checks the name of a header that holds the trust signal. -/
def trustSource : TrustSignal → Except Error TrustSource
  | .header name => do return .header (← HeaderName.ofConfig name)
  | .peerAddress => .ok .peerAddress

/-- The headers that must not travel: those in use, that of the trust signal, and those listed. -/
def strip (c : GatewayConfig) (g : GatewayHeaders) (source : TrustSource) : List String :=
  g.mapped.map HeaderName.text
    ++ (match source with
      | .header name => [name.text]
      | .peerAddress => [])
    ++ c.stripHeaders

/-- The authenticator of a gateway. Without a subject header or a trusted value there is none. -/
def build (c : GatewayConfig) : Except Error Authenticator := do
  if (Text.trim c.subjectHeader).isEmpty then
    throw (.configuration "gateway subject header is required")
  if c.trustedValues.isEmpty then
    throw (.configuration "gateway requires at least one trusted value")
  let g ← c.headers
  let source ← trustSource c.trustSignal
  AuthenticatorConfig.build {
    verifier := Gateway.verifier c.trustedValues g
    extractor := source.extractor
    skip := c.skipMethods
    strip := c.strip g source
    propagation := if c.propagate then some ⟨c.propagateClaims⟩ else none }

end GatewayConfig

end CallGuard
