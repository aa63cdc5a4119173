import CallGuard.Der
import CallGuard.Pem
import CallGuard.Token.Algorithm

/-! # Public keys

A public key is a binary object in PEM. Its label or the first known object identifier inside
tells the kind of key, and the key itself is the first string of bits or octets. -/

namespace CallGuard.Token.PublicKey

/-- Why a text holds no public key of a kind. -/
inductive Fault where
  | format
  /-- The object tells the kind of key and holds none. -/
  | noKey
deriving DecidableEq, Repr

def Fault.message : Fault → String
  | format => "InvalidKeyFormat"
  | noKey => "InvalidEcdsaKey"

/-- The family that an object identifier stands for. -/
def familyOfId? (arcs : List Nat) : Option Family :=
  if arcs = [1, 2, 840, 113549, 1, 1, 1] then some .rsa
  else if arcs = [1, 2, 840, 10045, 2, 1] then some .ellipticCurve
  else if arcs = [1, 3, 101, 112] then some .edwards
  else none

/-- The labels of objects that are an RSA key and nothing else. -/
def bareLabels : List String := ["RSA PUBLIC KEY", "RSA PRIVATE KEY"]

/-- Whether an object under a label may be used as a key of a family. A private key stands for its
public one with RSA only. -/
def admits (label : String) (family : Family) : Bool :=
  label = "PUBLIC KEY" || label = "CERTIFICATE" || (label = "PRIVATE KEY" && family = .rsa)

/-- Checks that a text holds a public key of a family. -/
def check (family : Family) (pem : List UInt8) : Except Fault Unit :=
  match Pem.read? pem with
  | none => .error .format
  | some p =>
    match Der.read? p.bytes with
    | none => .error .format
    | some blocks =>
      if bareLabels.contains p.label then
        if family = .rsa then .ok () else .error .format
      else if admits p.label family ∧ Der.findIds? familyOfId? blocks = some family then
        if Der.haveOctets blocks then .ok () else .error .noKey
      else .error .format

end CallGuard.Token.PublicKey
