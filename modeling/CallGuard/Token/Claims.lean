import CallGuard.Identity
import CallGuard.Token.Header

/-! # Claims of a token

The registered claims are checked for time, issuer and audience. Claims found at configured paths
make up an identity. -/

namespace CallGuard.Token

/-- What can be wrong with a token apart from the rules of its verifier. -/
inductive Fault where
  | invalidToken
  /-- Some part is not base64, or not JSON of the right form. -/
  | malformed
  /-- The key is of another kind than the algorithm needs. -/
  | invalidKey
  /-- The cryptography of public keys has no use for the key. -/
  | unusableKey (reason : String)
  | invalidSignature
  | missingExpiry
  | invalidNotBefore
  | expired
  | immature
  | invalidIssuer
  | invalidAudience
deriving DecidableEq, Repr

def Fault.message : Fault → String
  | invalidToken => "InvalidToken"
  | malformed => "malformed token"
  | invalidKey => "InvalidKeyFormat"
  | unusableKey reason => reason
  | invalidSignature => "InvalidSignature"
  | missingExpiry => "Missing required claim: exp"
  | invalidNotBefore => "Invalid format for claim: nbf"
  | expired => "ExpiredSignature"
  | immature => "ImmatureSignature"
  | invalidIssuer => "InvalidIssuer"
  | invalidAudience => "InvalidAudience"

/-! ## Reading -/

/-- The claims that may be given once only. -/
def registered : List String := ["exp", "nbf", "sub", "iss", "aud"]

/-- Whether registered claims are given once at most, and the subject is no array or object. -/
def hasRegisteredForm (ms : List (String × Document)) : Bool :=
  let keys := ms.map Prod.fst
  registered.all (fun k => keys.count k ≤ 1) &&
    match Keyed.get? "sub" ms with
    | some (.array _) => false
    | some (.object _) => false
    | _ => true

def claims? (d : Document) : Option Claims := do
  let ms ← Header.members? d
  if hasRegisteredForm ms then (← d.value? Json.maxDepth) |> Claims.ofJson? else none

/-! ## Checking -/

/-- A point in time as whole seconds: a number from zero to below `2 ^ 64`, rounded. -/
def instant? : Json → Option Nat
  | .number (.integer n) => if 0 ≤ n then some n.toNat else none
  | .number (.double x) =>
    if x.negative && x.significand ≠ 0 then none
    else if x.fraction.2 <<< 64 ≤ x.fraction.1 then none
    else some x.roundHalfUp
  | _ => none

/-- Whether a claim fits a list of accepted values. A text or a list of texts has to name one of
them; an absent claim and a claim of another shape fit any list. -/
def isAccepted (accepted : List String) : Option Json → Bool
  | some (.string s) => accepted.contains s
  | some v =>
    match v.texts? with
    | some names => names.any accepted.contains
    | none => true
  | none => true

/-- What is asked of the registered claims. An empty list accepts every value. -/
structure Limits where
  issuers : List String
  audiences : List String
  leeway : Nat
deriving DecidableEq, Repr

/-- The first thing that is wrong with the registered claims at a time. -/
def Limits.check (l : Limits) (now : Nat) (c : Claims) : Except Fault Unit := do
  let some exp := (c.get? "exp").bind instant? | throw .missingExpiry
  let nbf := (c.get? "nbf").map instant?
  if nbf = some none then throw .invalidNotBefore
  if exp + l.leeway < now then throw .expired
  if nbf.join.any fun t => now + l.leeway < t then throw .immature
  if !l.issuers.isEmpty && !isAccepted l.issuers (c.get? "iss") then throw .invalidIssuer
  if !l.audiences.isEmpty && !isAccepted l.audiences (c.get? "aud") then throw .invalidAudience

/-- The sum of two naturals, cut to 64 bits. -/
def saturatingAdd (a b : Nat) : Nat :=
  min (a + b) (1 <<< 64 - 1)

/-- Whether a token is recent enough, if that is asked for. -/
def checkAge (maxAge : Option Nat) (leeway now : Nat) (c : Claims) : Except Error Unit :=
  match maxAge with
  | none => .ok ()
  | some maxAge =>
    match (c.get? "iat").bind Json.nat? with
    | none => .error (.unauthenticated "token missing iat")
    | some issued =>
      if saturatingAdd maxAge leeway < now - issued then .error (.unauthenticated "token too old")
      else .ok ()

/-! ## Mapping -/

/-- Where the parts of an identity are found, as names with dots between them. -/
structure ClaimPaths where
  subject : String
  roles : String
  scopes : String
  name : String
deriving DecidableEq, Repr

/-- The value at the end of a path through nested objects. -/
def follow (v : Json) : List String → Option Json
  | [] => some v
  | key :: rest => (v.member? key).bind fun w => follow w rest

def claimAt (c : Claims) (path : String) : Option Json :=
  follow c.json (Text.split '.' path)

/-- The texts in a list, or the words of a text. -/
def nameList : Option Json → List String
  | some (.array items) => items.filterMap Json.text?
  | some (.string s) => Text.words s
  | _ => []

/-- The clock holds instants up to this second. -/
def lastSecond : Nat := 1 <<< 63 - 1

def identity (paths : ClaimPaths) (c : Claims) : Except VerifyFailure Identity :=
  match ((claimAt c paths.subject).bind Json.text?).filter fun s => !s.isEmpty with
  | none => .error (.refused (.unauthenticated "missing subject"))
  | some subject =>
    let expiry := (c.get? "exp").bind Json.nat?
    if expiry.any fun t => lastSecond < t then .error .clockOverflow
    else .ok {
      subject
      displayName := (claimAt c paths.name).bind Json.text?
      roles := .ofList (nameList (claimAt c paths.roles))
      scopes := .ofList (nameList (claimAt c paths.scopes))
      claims := c
      kind := "jwt"
      expiresAt := expiry.map Int.ofNat }

end CallGuard.Token
