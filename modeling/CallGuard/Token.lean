import CallGuard.Authenticator
import CallGuard.Token.Claims
import CallGuard.Token.PublicKey

/-! # Signed tokens

A token verifier has one source of keys and a list of algorithms. It chooses a key, checks the
signature and then the claims, and reads the identity from the claims. -/

namespace CallGuard.Token

/-! ## Configuration -/

/-- Where the keys of a verifier come from. -/
inductive KeySource where
  | secret (bytes : List UInt8)
  | pem (bytes : List UInt8)
  /-- The set that a supplier of keys gives for a call. One call sees one list: a supplier that
  changes its set between calls is another source for each of them, and while it gives none no
  token is accepted. -/
  | keySet (keys : List SetKey)

structure Config where
  sources : List KeySource
  /-- Accepted algorithms; if none is listed, the usual one for the source. -/
  algorithms : List Algorithm
  issuers : List String
  audiences : List String
  /-- The most seconds that a token may be old. -/
  maxAge : Option Nat
  leeway : Nat
  paths : ClaimPaths
  /-- What signatures under public keys are checked with. -/
  scheme : PublicScheme := .closed

def Config.default : Config where
  sources := []
  algorithms := []
  issuers := []
  audiences := []
  maxAge := none
  leeway := 60
  paths := ⟨"sub", "roles", "scope", "name"⟩

/-- The keys of a verifier: a fixed one, or a set to choose from. -/
inductive Keys where
  | fixed (key : Key)
  | set (keys : List SetKey)

structure TokenVerifier where
  keys : Keys
  algorithms : List Algorithm
  limits : Limits
  maxAge : Option Nat
  paths : ClaimPaths
  scheme : PublicScheme

/-! ## Construction -/

namespace Config

/-- The only source of keys. -/
def source (c : Config) : Except Error KeySource :=
  match c.sources with
  | [] => .error (.configuration "no JWT key source configured")
  | [s] => .ok s
  | _ => .error (.configuration "exactly one JWT key source may be configured")

/-- The accepted algorithms, of which there is at least one. -/
def acceptedAlgorithms (c : Config) (source : KeySource) : List Algorithm :=
  match c.algorithms with
  | [] => match source with
    | .secret _ => [.hs256]
    | _ => [.rs256]
  | algorithms => algorithms

/-- Checks that a secret is long enough for every algorithm. -/
def checkSecret (secret : List UInt8) : List Algorithm → Except Error Unit
  | [] => .ok ()
  | a :: rest =>
    match a.minSecret? with
    | none => .error (.configuration s!"{a.name} cannot be used with a shared secret")
    | some n =>
      if secret.length < n then
        .error (.configuration s!"{a.name} requires a secret of at least {n} bytes")
      else checkSecret secret rest

/-- The key in a PEM text, whose family all algorithms must share. -/
def publicKey (pem : List UInt8) (algorithms : List Algorithm) : Except Error Key :=
  match algorithms.map Algorithm.family with
  | [] => .error (.configuration "algorithms for a public key must share one key type")
  | f :: rest =>
    if rest.any (· ≠ f) then
      .error (.configuration "algorithms for a public key must share one key type")
    else if f = .hmac then .error (.configuration "HMAC algorithms require a shared secret")
    else match PublicKey.check f pem with
      | .ok () => .ok (.publicKey f (.pem pem))
      | .error fault => .error (.configuration s!"invalid public key: {fault.message}")

def keys (algorithms : List Algorithm) : KeySource → Except Error Keys
  | .secret bytes => do
    checkSecret bytes algorithms
    return .fixed (.secret bytes)
  | .pem bytes => do return .fixed (← publicKey bytes algorithms)
  | .keySet keys => .ok (.set keys)

def build (c : Config) : Except Error TokenVerifier := do
  let source ← c.source
  let algorithms := c.acceptedAlgorithms source
  let keys ← Config.keys algorithms source
  return ⟨keys, algorithms, ⟨c.issuers, c.audiences, c.leeway⟩, c.maxAge, c.paths, c.scheme⟩

end Config

/-! ## Verification -/

/-- A fault is a failure that only its text tells. -/
def Fault.failure (f : Fault) : VerifyFailure :=
  .foreign f.message

namespace TokenVerifier

def keyFor (v : TokenVerifier) (id : Option String) : Except VerifyFailure Key :=
  match v.keys with
  | .fixed k => .ok k
  | .set keys =>
    match KeySet.select? keys id with
    | none => .error (.refused (.unauthenticated "no matching signing key"))
    | some k =>
      match k.key? with
      | some key => .ok key
      | none => .error Fault.malformed.failure

/-- How signatures are checked under a key. Algorithms with a keyed hash need a shared secret, and
the others a public key of their family. -/
def checker (v : TokenVerifier) (a : Algorithm) (k : Key) : Except Fault SignatureCheck :=
  match k, a.hash? with
  | .secret bytes, some h => .ok fun message signature => h.hmac bytes message == signature
  | .publicKey f material, none =>
    if f = a.family then (v.scheme a material).mapError .unusableKey else .error .invalidKey
  | _, _ => .error .invalidKey

def checkSignature (v : TokenVerifier) (a : Algorithm) (k : Key) (parts : Parts) :
    Except Fault Unit := do
  let isValid ← v.checker a k
  match Base64.decodeUrl? parts.signature with
  | none => throw .malformed
  | some signature =>
    if isValid parts.signed.toUTF8.toList signature then return () else throw .invalidSignature

/-- The claims of a token whose signature is valid and whose registered claims hold. -/
def claims (v : TokenVerifier) (now : Nat) (a : Algorithm) (k : Key) (parts : Parts) :
    Except Fault Claims := do
  v.checkSignature a k parts
  match (document? parts.payload).bind claims? with
  | none => throw .malformed
  | some c =>
    v.limits.check now c
    return c

def open? (token : String) : Except Fault (Parts × Header) :=
  match Parts.ofText? token with
  | none => .error .invalidToken
  | some parts =>
    match (document? parts.header).bind Header.ofDocument? with
    | none => .error .malformed
    | some header => .ok (parts, header)

/-- Finds out who a token speaks for at a time. -/
def verify (v : TokenVerifier) (now : Nat) (token : String) : Except VerifyFailure Identity := do
  let (parts, header) ← (open? token).mapError Fault.failure
  if !v.algorithms.contains header.algorithm then
    throw (.refused (.unauthenticated "token algorithm not allowed"))
  let key ← v.keyFor header.keyId
  let c ← (v.claims now header.algorithm key parts).mapError Fault.failure
  (checkAge v.maxAge v.limits.leeway now c).mapError .refused
  identity v.paths c

/-- The verifier as a part of an authenticator. -/
def verifier (v : TokenVerifier) : Verifier := fun now token _ =>
  v.verify now.wall.toNat token

end TokenVerifier

/-- An authenticator that reads tokens from the authorization header. -/
def Config.authenticator (c : Config) : Except Error AuthenticatorConfig := do
  let v ← c.build
  return { verifier := v.verifier }

end CallGuard.Token
