import CallGuard.Requirement

/-! # Errors

The errors that a caller or an operator can be shown, the failures that a credential check can
end with, and how the second become the first. -/

namespace CallGuard

/-- Why a call or a configuration is refused. -/
inductive Error where
  /-- The caller showed no usable credential, or none where an identity is needed. -/
  | unauthenticated (message : String)
  /-- The caller is known but lacks the rights that a rule demands. -/
  | permissionDenied (rule : String) (requirement : Option Requirement)
  | configuration (message : String)
  | invalidPattern (message : String)
deriving DecidableEq, Repr

/-- The status that a transport reports for an error. -/
inductive Code where
  | unauthenticated
  | permissionDenied
  | internal
deriving DecidableEq, Repr

namespace Error

/-- The full text of an error, meant for the operator. -/
def text : Error → String
  | unauthenticated message => s!"unauthenticated: {message}"
  | permissionDenied rule _ => s!"permission denied by {rule}"
  | configuration message => s!"configuration error: {message}"
  | invalidPattern message => s!"invalid method pattern: {message}"

def code : Error → Code
  | unauthenticated _ => .unauthenticated
  | permissionDenied _ _ => .permissionDenied
  | configuration _ => .internal
  | invalidPattern _ => .internal

/-- The text that may be shown to the caller: a denial names neither rule nor requirement. -/
def publicMessage : Error → String
  | unauthenticated message => message
  | permissionDenied _ _ => "access denied"
  | configuration _ => "internal error"
  | invalidPattern _ => "internal error"

end Error

/-! ## Failures -/

/-- How the check of a credential can fail. -/
inductive VerifyFailure where
  /-- An error that is meant for the caller as it is. -/
  | refused (error : Error)
  /-- A failure of some other part, known by its text only. -/
  | foreign (text : String)
  /-- The check met an instant that the clock cannot hold. -/
  | clockOverflow
deriving DecidableEq, Repr

inductive Failure where
  | error (error : Error)
  /-- Some step met an instant that the clock cannot hold. -/
  | clockOverflow
deriving DecidableEq, Repr

/-- A refusal stays as it is; the text of a foreign failure is shown only on demand. -/
def Failure.ofVerify (expose : Bool) : VerifyFailure → Failure
  | .refused e => .error e
  | .foreign text => .error (.unauthenticated (if expose then text else "invalid credential"))
  | .clockOverflow => .clockOverflow

/-- A call that needs an identity and has none is refused with this error. -/
def Error.authenticationRequired : Error := .unauthenticated "authentication required"

end CallGuard
