import CallGuard.Address
import CallGuard.Header
import CallGuard.Method
import CallGuard.Uri

/-! # Requests -/

namespace CallGuard

/-- What the checks of a call get to see. -/
structure Call where
  method : Method
  headers : Headers
  peer : Option Address

/-- A call to a method. `ε` is what the transport attaches to it and `β` its body; neither
matters here. -/
structure Request (ε β : Type) where
  method : Method
  headers : Headers
  peer : Option Address
  extensions : ε
  body : β

namespace Request

variable {ε β : Type}

def ofMethod (method : Method) (extensions : ε) (body : β) : Request ε β :=
  ⟨method, .empty, none, extensions, body⟩

/-- The call that an HTTP request with a path makes. -/
def ofHttp (path : String) (headers : Headers) (extensions : ε) (body : β) :
    Except Error (Request ε β) := do
  return ⟨← Method.ofPath path, headers, none, extensions, body⟩

def call (r : Request ε β) : Call :=
  ⟨r.method, r.headers, r.peer⟩

def withHeaders (r : Request ε β) (headers : Headers) : Request ε β :=
  { r with headers := headers }

def withPeer (r : Request ε β) (peer : Address) : Request ε β :=
  { r with peer := some peer }

def withExtensions (r : Request ε β) (extensions : ε) : Request ε β :=
  { r with extensions := extensions }

end Request

end CallGuard
