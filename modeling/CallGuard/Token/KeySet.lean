import CallGuard.Base64
import CallGuard.Json.Decode
import CallGuard.Token.Algorithm

/-! # Key sets

A key set is a JSON document with a list of keys. The material of a key is decoded only when the
key is chosen. -/

namespace CallGuard.Token

inductive KeyMaterial where
  | octets (k : String)
  | rsa (n e : String)
  | curve (x y : String)
  | pair (x : String)
deriving DecidableEq, Repr

structure SetKey where
  id : Option String
  material : KeyMaterial
deriving DecidableEq, Repr

namespace SetKey

/-! ## Reading -/

/-- The members of an object in text order. Repeated ones are kept. -/
abbrev Members := List (String × Document)

def valuesOf (key : String) (members : Members) : List Document :=
  (members.filter fun m => m.1 == key).map Prod.snd

/-- Whether a member that may be absent or null is at most once there and of the right form. -/
def isOptional (key : String) (fits : Document → Bool) (members : Members) : Bool :=
  match valuesOf key members with
  | [] => true
  | [.null] => true
  | [d] => fits d
  | _ => false

/-- A name, or an object with the name as its only key and null as its value. -/
def name? : Document → Option String
  | .string s => s
  | .object [(s, .null)] => s
  | _ => none

/-- Whether a document names an algorithm, be it a known one or not. An empty object may stand for
null. -/
def isAlgorithmName : Document → Bool
  | .object [(some _, .object [])] => true
  | d => (name? d).isSome

/-- The text of a member that is there once. -/
def text? (key : String) (members : Members) : Option String :=
  match valuesOf key members with
  | [.string s] => s
  | _ => none

/-- Whether a member is there once and is one of some names. -/
def isOneOf (key : String) (names : List String) (members : Members) : Bool :=
  match valuesOf key members with
  | [d] => (name? d).any names.contains
  | _ => false

def curves : List String := ["P-256", "P-384", "P-521", "Ed25519"]

def material? (members : Members) : Option KeyMaterial :=
  if isOneOf "kty" ["EC"] members then
    if isOneOf "crv" curves members then do
      return .curve (← text? "x" members) (← text? "y" members)
    else none
  else if isOneOf "kty" ["RSA"] members then do
    return .rsa (← text? "n" members) (← text? "e" members)
  else if isOneOf "kty" ["oct"] members then do
    return .octets (← text? "k" members)
  else if isOneOf "kty" ["OKP"] members then
    if isOneOf "crv" curves members then do
      return .pair (← text? "x" members)
    else none
  else none

/-- Whether the members that every kind of key may have are of the right form. -/
def hasCommonForm (members : Members) : Bool :=
  let isText (d : Document) : Bool := (Decoder.string d).isOk
  let areTexts (d : Document) : Bool := (Decoder.list .string d).isOk
  ["use", "kid", "x5u", "x5t", "x5t#S256"].all (fun key => isOptional key isText members)
    && ["key_ops", "x5c"].all (fun key => isOptional key areTexts members)
    && isOptional "alg" isAlgorithmName members

/-- The members of an object in which all keys and values have a meaning, arrays and objects being
nested at most `depth` deep. -/
def members? (depth : Nat) : Document → Option Members
  | .object ms => do
    let _ ← Document.memberValues? depth ms
    ms.mapM fun m => m.1.map fun key => (key, m.2)
  | _ => none

/-- The key that an object describes, when arrays and objects inside may be nested at most `depth`
deep. -/
def ofDocument? (depth : Nat) (d : Document) : Option SetKey := do
  let members ← members? depth d
  if hasCommonForm members then
    return ⟨text? "kid" members, ← material? members⟩
  else none

/-- The public key that is made of some numbers, when they can be decoded. -/
def publicKey? (family : Family) (numbers : List String) : Option Key :=
  (numbers.mapM Base64.decodeUrl?).map fun parts => .publicKey family (.numbers parts)

/-- The key to check signatures with, when the material can be decoded. -/
def key? (k : SetKey) : Option Key :=
  match k.material with
  | .octets k => (Base64.decodeUrl? k).map .secret
  | .rsa n e => publicKey? .rsa [n, e]
  | .curve x y => publicKey? .ellipticCurve [x, y]
  | .pair x => publicKey? .edwards [x]

end SetKey

/-! ## Sets -/

namespace KeySet

/-- Reads the keys of a list in a key set, where they stand inside two other levels. -/
def decodeKey : Decoder SetKey := fun d =>
  match SetKey.ofDocument? (Json.maxDepth - 3) d with
  | some k => .ok k
  | none => .error .mismatch

/-- Reads the object around the list of keys. -/
def decode : Decoder (List SetKey) := fun d => do
  let keys ← Decoder.record ["keys"]
    (fun _ d _ => do return some (← Decoder.list decodeKey d)) none d
  Decoder.required keys

def ofText (text : String) : Except Error (List SetKey) :=
  match Decoder.ofText decode text with
  | .ok keys => .ok keys
  | .error _ => .error (.configuration "invalid JWKS document")

/-- The first key with an identifier, or the only key where none is given. -/
def select? (keys : List SetKey) : Option String → Option SetKey
  | some id => keys.find? fun k => k.id == some id
  | none => match keys with
    | [k] => some k
    | _ => none

end KeySet

end CallGuard.Token
