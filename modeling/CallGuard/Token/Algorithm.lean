import CallGuard.Sha2

/-! # Signature algorithms -/

namespace CallGuard.Token

/-- The algorithms that a token may be signed with. -/
inductive Algorithm where
  | hs256 | hs384 | hs512
  | rs256 | rs384 | rs512
  | ps256 | ps384 | ps512
  | es256 | es384
  | edDsa
deriving DecidableEq, Repr

/-- What kind of key an algorithm works with. -/
inductive Family where
  | hmac
  | rsa
  | ellipticCurve
  | edwards
deriving DecidableEq, Repr

namespace Algorithm

def name : Algorithm → String
  | hs256 => "HS256"
  | hs384 => "HS384"
  | hs512 => "HS512"
  | rs256 => "RS256"
  | rs384 => "RS384"
  | rs512 => "RS512"
  | ps256 => "PS256"
  | ps384 => "PS384"
  | ps512 => "PS512"
  | es256 => "ES256"
  | es384 => "ES384"
  | edDsa => "EdDSA"

def all : List Algorithm :=
  [hs256, hs384, hs512, rs256, rs384, rs512, ps256, ps384, ps512, es256, es384, edDsa]

def ofName? (s : String) : Option Algorithm :=
  all.find? fun a => a.name == s

def family : Algorithm → Family
  | hs256 | hs384 | hs512 => .hmac
  | rs256 | rs384 | rs512 | ps256 | ps384 | ps512 => .rsa
  | es256 | es384 => .ellipticCurve
  | edDsa => .edwards

def hash? : Algorithm → Option Sha2
  | hs256 => some .sha256
  | hs384 => some .sha384
  | hs512 => some .sha512
  | _ => none

/-- The fewest bytes that a shared secret for a keyed algorithm may have. -/
def minSecret? : Algorithm → Option Nat
  | hs256 => some 32
  | hs384 => some 48
  | hs512 => some 64
  | _ => none

end Algorithm

/-! ## Keys -/

/-- What a public key is made of: a text in PEM, or the numbers that a key set gives. -/
inductive PublicMaterial where
  | pem (text : List UInt8)
  | numbers (parts : List (List UInt8))
deriving DecidableEq, Repr

inductive Key where
  | secret (bytes : List UInt8)
  | publicKey (family : Family) (material : PublicMaterial)
deriving DecidableEq, Repr

/-- Tells whether a signature over a message is valid. -/
abbrev SignatureCheck := List UInt8 → List UInt8 → Bool

/-- The cryptography of public keys, which is not described here: how signatures of an algorithm
are checked under a key, or a text that says why the key is of no use. -/
abbrev PublicScheme := Algorithm → PublicMaterial → Except String SignatureCheck

/-- The scheme that accepts no signature. -/
def PublicScheme.closed : PublicScheme := fun _ _ => .ok fun _ _ => false

end CallGuard.Token
