import CallGuard.Base64
import CallGuard.Text

/-! # PEM

A binary object as base64 between a line that begins it and one that ends it. Lines of the form
`name: value` and an empty line may stand in front of the base64. -/

namespace CallGuard

/-- The binary object in a text, under the label that its two boundary lines give it. -/
structure Pem where
  label : String
  bytes : List UInt8
deriving DecidableEq, Repr

namespace Pem

/-! ## Search -/

/-- Looks for a mark, of which `left` is still to come, and counts the bytes up to its end from
`n` on. A byte that breaks off a partial mark is passed over and cannot begin the mark anew. -/
def endOf? (mark : List UInt8) (n : Nat) : List UInt8 → List UInt8 → Option Nat
  | [], _ => some n
  | _ :: _, [] => none
  | m :: left, b :: bytes => endOf? mark (n + 1) (if b = m then left else mark) bytes

def cutAt? (mark : String) (bytes : List UInt8) : Option (List UInt8 × List UInt8) :=
  let mark := mark.toUTF8.toList
  (endOf? mark 0 mark bytes).map fun n => (bytes.take (n - mark.length), bytes.drop n)

/-! ## Parts -/

def text? (bytes : List UInt8) : Option String :=
  String.fromUTF8? ⟨bytes.toArray⟩

/-- Splits a body at its first empty line into headers and data. Without one there are no
headers. -/
def split (body : List UInt8) : List UInt8 × List UInt8 :=
  ((cutAt? "\n\n" body).or (cutAt? "\r\n\r\n" body)).getD ([], body)

/-- Whether every line of a text has a colon. -/
def areHeaders (text : String) : Bool :=
  let lines := Text.Chars.pieces (· == '\n') text.toList
  let lines := if lines.getLast? = some [] then lines.dropLast else lines
  lines.all fun line => line.contains ':'

/-- The bytes that a text stands for in base64, in which blanks do not count. -/
def data? (text : String) : Option (List UInt8) :=
  Base64.decodePadded? (String.ofList (text.toList.filter fun c => !Text.isBlank c))

/-! ## Reading -/

def read? (text : List UInt8) : Option Pem := do
  let (_, rest) ← cutAt? "-----BEGIN " text
  let (label, rest) ← cutAt? "-----" rest
  let (body, rest) ← cutAt? "-----END " (rest.dropWhile [32, 9, 10, 13].contains)
  let (endLabel, _) ← cutAt? "-----" rest
  let (headers, data) := split body
  let label ← text? label
  if label.isEmpty ∨ text? endLabel ≠ some label then none
  else
    let bytes ← data? (← text? data)
    if areHeaders (← text? headers) then return ⟨label, bytes⟩ else none

end Pem

end CallGuard
