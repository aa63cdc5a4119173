import CallGuard.Authenticator

/-! # Sessions -/

namespace CallGuard

/-- Looks up the identity behind a session, with the headers of the call at hand. -/
abbrev SessionStore := String → Headers → Except VerifyFailure (Option Identity)

namespace Session

def kind : String := "session"

/-- Labels an identity as one of a session unless it has a label. -/
def label (i : Identity) : Identity :=
  if i.kind = Identity.unknownKind then i.withKind kind else i

/-- The verifier that asks a store. -/
def verifier (store : SessionStore) : Verifier := fun _ credential call => do
  match ← store credential call.headers with
  | none => .error (.refused (.unauthenticated "session not found"))
  | some i => return label i

/-- An authenticator that reads the session from a cookie, or else from a bearer token. -/
def authenticator (store : SessionStore) (cookie : String) : AuthenticatorConfig :=
  { verifier := verifier store, extractor := Extractor.cookie cookie true }

end Session

end CallGuard
