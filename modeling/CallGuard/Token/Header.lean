import CallGuard.Keyed
import CallGuard.Text
import CallGuard.Token.KeySet

/-! # Token headers -/

namespace CallGuard.Token

structure Header where
  algorithm : Algorithm
  keyId : Option String
deriving DecidableEq, Repr

namespace Header

/-- The members with a meaning, each of which may be given once. -/
def knownKeys : List String :=
  ["alg", "jwk", "x5c", "crit", "typ", "cty", "jku", "kid", "x5u", "x5t", "x5t#S256", "enc", "zip",
   "url", "nonce"]

def decodeAlgorithm : Decoder Algorithm :=
  .named Algorithm.ofName?

/-- Whether the value of a member has the right form. Members without a meaning are texts. -/
def fits (key : String) (d : Document) : Bool :=
  if key = "alg" then (decodeAlgorithm d).isOk
  else if key = "jwk" then
    match d with
    | .null => true
    | d => (SetKey.ofDocument? (Json.maxDepth - 2) d).isSome
  else if key = "x5c" ∨ key = "crit" then (Decoder.optional (Decoder.list .string) d).isOk
  else if knownKeys.contains key then (Decoder.optional .string d).isOk
  else (Decoder.string d).isOk

/-- The members of an object whose keys are texts. -/
def members? : Document → Option (List (String × Document))
  | .object ms => ms.mapM fun m => m.1.map fun key => (key, m.2)
  | _ => none

def ofDocument? (d : Document) : Option Header := do
  let ms ← members? d
  let keys := ms.map Prod.fst
  if ms.all (fun m => fits m.1 m.2) && knownKeys.all (fun k => keys.count k ≤ 1) then
    let algorithm ← (decodeAlgorithm (← Keyed.get? "alg" ms)).toOption
    let keyId := ((Keyed.get? "kid" ms).bind fun d => (Decoder.string d).toOption)
    return ⟨algorithm, keyId⟩
  else none

end Header

/-! ## Parts of a token -/

/-- The three parts of a token, and the text that its signature covers. -/
structure Parts where
  header : String
  payload : String
  signature : String
  signed : String
deriving DecidableEq, Repr

/-- Splits a token at its last two dots. -/
def Parts.ofText? (token : String) : Option Parts := do
  let (signed, signature) ← Text.cutLast? '.' token
  let (header, payload) ← Text.cutLast? '.' signed
  return ⟨header, payload, signature, signed⟩

/-- The document that a part holds in base64. -/
def document? (part : String) : Option Document := do
  let bytes ← Base64.decodeUrl? part
  let text ← String.fromUTF8? ⟨bytes.toArray⟩
  match Document.read text with
  | (d, true) => some d
  | (_, false) => none

end CallGuard.Token
