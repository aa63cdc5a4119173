import CallGuard.Request

/-! # Finding the credential

An extractor reads the raw credential from a call, or finds none. -/

namespace CallGuard

abbrev Extractor := Call → Option String

namespace Extractor

/-! ## Bearer tokens -/

/-- The token after the word `bearer` and one space, in any case, at the start of a text. -/
def bearerToken? (value : String) : Option String :=
  let cs := value.toList
  if (cs.take 7).map Char.toLower = "bearer ".toList then
    Text.trimNonempty? (String.ofList (cs.drop 7))
  else none

/-- The token of the first authorization header. -/
def bearer : Extractor := fun call =>
  (call.headers.text? .authorization).bind bearerToken?

/-! ## Headers -/

def header (name : HeaderName) : Extractor := fun call =>
  call.headers.trimmed? name

/-! ## Cookies -/

/-- The name and the value of a cookie pair, which stand around its first equals sign. -/
def cookiePair? (pair : String) : Option (String × String) :=
  Text.cut? '=' (Text.trim pair)

/-- The cookie pairs of the header lines that are texts, in their order. -/
def cookiePairs (lines : List HeaderValue) : List (String × String) :=
  ((lines.filterMap HeaderValue.text?).flatMap (Text.split ';')).filterMap cookiePair?

/-- The value of the first cookie with a name whose value is not empty. -/
def cookieValue? (name : String) (call : Call) : Option String :=
  ((cookiePairs (call.headers.values .cookie)).find? fun p => p.1 == name && !p.2.isEmpty).map
    Prod.snd

/-- A cookie, or else a bearer token where that is allowed. -/
def cookie (name : String) (bearerFallback : Bool) : Extractor := fun call =>
  match cookieValue? name call with
  | some value => some value
  | none => if bearerFallback then bearer call else none

end Extractor

/-! ## Trust signals -/

/-- What a gateway shows to be believed: a header, or the address that it calls from. -/
inductive TrustSource where
  | header (name : HeaderName)
  | peerAddress
deriving DecidableEq, Repr

/-- The trust signal of a call; a mapped address is read as the one that it stands for. -/
def TrustSource.extractor : TrustSource → Extractor
  | header name => fun call => call.headers.trimmed? name
  | peerAddress => fun call => call.peer.map fun a => a.canonical.text

end CallGuard
