import CallGuard.Error
import CallGuard.Json.Document

/-! # Typed reading of documents

Options are read straight from documents. The first fault in text order is the one reported,
because an invalid pattern is told apart from a value of the wrong shape. -/

namespace CallGuard

/-- Why a document does not fit a type. -/
inductive DecodeError where
  /-- A value has another shape than the type. -/
  | mismatch
  /-- A value has the right shape and is refused for what it says. -/
  | refused (error : Error)
deriving DecidableEq, Repr

abbrev Decoder (α : Type) := Document → Except DecodeError α

namespace Decoder

def string : Decoder String
  | .string (some s) => .ok s
  | _ => .error .mismatch

def bool : Decoder Bool
  | .bool b => .ok b
  | _ => .error .mismatch

/-- Null stands for an absent value. -/
def optional {α : Type} (inner : Decoder α) : Decoder (Option α)
  | .null => .ok none
  | d => (inner d).map some

/-- Reads the items of an array up to the first that does not fit. -/
def list {α : Type} (inner : Decoder α) : Decoder (List α)
  | .array items => items.mapM inner
  | _ => .error .mismatch

/-- Any well-formed document; its value is not used. -/
def skip : Decoder Unit := fun d =>
  if d.isWellFormed then .ok () else .error .mismatch

/-- A choice between names: the bare name, or an object with the name as its only key. In the
second form the choice reads the member's value. -/
def choice {α : Type} (bare : String → Except DecodeError α)
    (tagged : String → Document → Except DecodeError α) : Decoder α
  | .string (some name) => bare name
  | .object [(some name, d)] => tagged name d
  | .object ((some name, d) :: _ :: _) => do
    let _ ← tagged name d
    .error .mismatch
  | _ => .error .mismatch

/-- A choice between plain names, for which `{"name": null}` is a second spelling. -/
def named {α : Type} (ofName? : String → Option α) : Decoder α :=
  let pick (name : String) : Except DecodeError α :=
    match ofName? name with
    | some a => .ok a
    | none => .error .mismatch
  choice pick fun name d => do
    let a ← pick name
    match d with
    | .null => .ok a
    | _ => .error .mismatch

/-! ## Records -/

/-- Reads the members of a record in text order. `set` takes the position of a field among
`fields`; a repeated field is a fault and members with other keys are skipped. -/
def members {σ : Type} (fields : List String) (set : Nat → Document → σ → Except DecodeError σ) :
    List Nat → List (Quoted × Document) → σ → Except DecodeError σ
  | _, [], record => .ok record
  | _, (none, _) :: _, _ => .error .mismatch
  | seen, (some key, d) :: rest, record =>
    match fields.findIdx? (· == key) with
    | none => do
      skip d
      members fields set seen rest record
    | some i =>
      if seen.contains i then .error .mismatch
      else do
        let record ← set i d record
        members fields set (i :: seen) rest record

/-- Reads the fields of a record that is written as an array. -/
def positions {σ : Type} (set : Nat → Document → σ → Except DecodeError σ) :
    Nat → Nat → List Document → σ → Except DecodeError σ
  | _, _, [], record => .ok record
  | 0, _, _ :: _, _ => .error .mismatch
  | n + 1, i, d :: rest, record => do
    let record ← set i d record
    positions set n (i + 1) rest record

/-- A record is written as an object, or as an array of its fields in their order. -/
def record {σ : Type} (fields : List String) (set : Nat → Document → σ → Except DecodeError σ)
    (start : σ) : Decoder σ
  | .object ms => members fields set [] ms start
  | .array items => positions set fields.length 0 items start
  | _ => .error .mismatch

def required {α : Type} : Option α → Except DecodeError α
  | some a => .ok a
  | none => .error .mismatch

/-- Reads a whole text; a fault inside the value comes before one behind it. -/
def ofText {α : Type} (decode : Decoder α) (text : String) : Except DecodeError α := do
  let (d, complete) := Document.read text
  let a ← decode d
  if complete then .ok a else .error .mismatch

end Decoder

end CallGuard
