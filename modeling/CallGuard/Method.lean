import CallGuard.Error
import CallGuard.Text

/-! # Methods

A remote method is named by its service and its own name. Names that come from outside are
checked; the display text of a checked method reads back as the same method. -/

namespace CallGuard

structure Method where
  service : String
  name : String
deriving DecidableEq, Repr

namespace Method

/-- The text `service/name`. -/
def display (m : Method) : String :=
  m.service ++ "/" ++ m.name

/-! ## Checked names -/

inductive Part where
  | service
  | method
deriving DecidableEq, Repr

def Part.label : Part → String
  | service => "service name"
  | method => "method name"

inductive NameFault where
  | empty
  | tooLong
  | badCharacter
deriving DecidableEq, Repr

def NameFault.message (part : Part) : NameFault → String
  | empty => s!"{part.label} must not be empty"
  | tooLong => s!"{part.label} length must be <= 256"
  | badCharacter => s!"{part.label} contains invalid characters"

/-- Names consist of ASCII letters, digits, dots, underscores and hyphens. -/
def isNameChar (c : Char) : Bool :=
  Text.isAlphanumeric c || c == '.' || c == '_' || c == '-'

/-- A name without the blanks around it, which has 1 to 256 bytes. -/
def checkName (s : String) : Except NameFault String :=
  let t := Text.trim s
  if t.isEmpty then .error .empty
  else if 256 < t.utf8ByteSize then .error .tooLong
  else if t.toList.all isNameChar then .ok t
  else .error .badCharacter

def checkPart (part : Part) (s : String) : Except Error String :=
  match checkName s with
  | .ok t => .ok t
  | .error fault => .error (.configuration (fault.message part))

/-- The method with two given names; the service name is checked first. -/
def ofNames (service name : String) : Except Error Method := do
  let service ← checkPart .service service
  let name ← checkPart .method name
  return ⟨service, name⟩

/-! ## Paths -/

/-- The part of a path after one leading slash, if there is one. -/
def relative (path : String) : String :=
  match path.toList with
  | '/' :: rest => String.ofList rest
  | _ => path

/-- Reads a request path such as `/pkg.Users/Get`; the service ends at the first slash. -/
def ofPath (path : String) : Except Error Method :=
  match Text.cut? '/' (relative path) with
  | none => .error (.configuration s!"invalid rpc path: {path}")
  | some (service, name) => ofNames service name

end Method

end CallGuard
