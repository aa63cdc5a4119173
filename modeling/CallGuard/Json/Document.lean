import CallGuard.Json

/-! # JSON documents

A document is the syntax of a JSON text before it gets a meaning: members stand in text order with
repetitions, numerals are not evaluated, and a string may hold half of a surrogate pair. A text
that stops being JSON somewhere gives a document whose last part is `broken`, so that a reader
that goes through the parts in order meets its own complaints first. -/

namespace CallGuard

/-- The meaning of a string literal; none if an escape names half of a surrogate pair. -/
abbrev Quoted := Option String

inductive Document where
  | null
  | bool (b : Bool)
  | number (n : Numeral)
  | string (s : Quoted)
  | array (items : List Document)
  | object (members : List (Quoted × Document))
  /-- Here the text is not JSON. -/
  | broken
deriving Repr

namespace Document

/-! ## Blanks and numerals -/

/-- Only space, tab, line feed and carriage return may stand between the parts. -/
def isBlank (c : Char) : Bool :=
  c == ' ' || c == '\t' || c == '\n' || c == '\r'

def skipBlanks (cs : List Char) : List Char :=
  cs.dropWhile isBlank

def digits (cs : List Char) : List Nat × List Char :=
  ((cs.takeWhile Char.isDigit).map fun c => c.toNat - 48, cs.dropWhile Char.isDigit)

/-- The whole part of a numeral, which has no needless zero in front. -/
def whole? (cs : List Char) : Option (List Nat × List Char) :=
  match digits cs with
  | ([], _) => none
  | (0 :: _ :: _, _) => none
  | r => some r

/-- The part after the point, which is not empty. -/
def fraction? : List Char → Option (Option (List Nat) × List Char)
  | '.' :: cs =>
    match digits cs with
    | ([], _) => none
    | (ds, rest) => some (some ds, rest)
  | cs => some (none, cs)

/-- The digits of an exponent as a number, which are at least one. -/
def exponentDigits? (negative : Bool) (cs : List Char) : Option (Option Int × List Char) :=
  match digits cs with
  | ([], _) => none
  | (ds, rest) =>
    let n : Int := (ds.foldl (fun n d => 10 * n + d) 0 : Nat)
    some (some (if negative then -n else n), rest)

def exponent? : List Char → Option (Option Int × List Char)
  | c :: cs =>
    if c = 'e' ∨ c = 'E' then
      match cs with
      | '+' :: rest => exponentDigits? false rest
      | '-' :: rest => exponentDigits? true rest
      | rest => exponentDigits? false rest
    else some (none, c :: cs)
  | [] => some (none, [])

def numeral? (cs : List Char) : Option (Numeral × List Char) := do
  let (negative, cs) := match cs with
    | '-' :: rest => (true, rest)
    | rest => (false, rest)
  let (whole, cs) ← whole? cs
  let (fraction, cs) ← fraction? cs
  let (exponent, cs) ← exponent? cs
  return (⟨negative, whole, fraction, exponent⟩, cs)

/-! ## Strings -/

/-- A written part of a string: a character, or a 16-bit code given by four digits. -/
inductive Piece where
  | plain (c : Char)
  | code (n : Nat)
deriving DecidableEq, Repr

def hexDigit? (c : Char) : Option Nat :=
  if c.isDigit then some (c.toNat - 48)
  else if 'a' ≤ c ∧ c ≤ 'f' then some (c.toNat - 87)
  else if 'A' ≤ c ∧ c ≤ 'F' then some (c.toNat - 55)
  else none

def hexCode? (a b c d : Char) : Option Nat := do
  let a ← hexDigit? a
  let b ← hexDigit? b
  let c ← hexDigit? c
  let d ← hexDigit? d
  return ((a * 16 + b) * 16 + c) * 16 + d

/-- The character that a short escape stands for. -/
def shortEscape? (c : Char) : Option Char :=
  if c = '"' ∨ c = '\\' ∨ c = '/' then some c
  else if c = 'b' then some '\x08'
  else if c = 'f' then some '\x0c'
  else if c = 'n' then some '\n'
  else if c = 'r' then some '\r'
  else if c = 't' then some '\t'
  else none

/-- The pieces of a string up to its closing quote, and what follows it. -/
def pieces? : List Char → Option (List Piece × List Char)
  | [] => none
  | '"' :: cs => some ([], cs)
  | '\\' :: 'u' :: a :: b :: c :: d :: cs => do
    let n ← hexCode? a b c d
    let (ps, rest) ← pieces? cs
    return (.code n :: ps, rest)
  | '\\' :: c :: cs => do
    let e ← shortEscape? c
    let (ps, rest) ← pieces? cs
    return (.plain e :: ps, rest)
  | c :: cs =>
    if c.toNat < 0x20 ∨ c = '\\' then none
    else do
      let (ps, rest) ← pieces? cs
      return (.plain c :: ps, rest)

/-- The characters that pieces stand for: a high and a low surrogate make one, alone they make
none. -/
def meaning? : List Piece → Option (List Char)
  | [] => some []
  | .plain c :: ps => (meaning? ps).map (c :: ·)
  | .code n :: ps =>
    if n < 0xD800 ∨ 0xDFFF < n then (meaning? ps).map (Char.ofNat n :: ·)
    else match ps with
      | .code m :: rest =>
        if n < 0xDC00 ∧ 0xDC00 ≤ m ∧ m ≤ 0xDFFF then
          (meaning? rest).map
            (Char.ofNat (0x10000 + (n - 0xD800) * 0x400 + (m - 0xDC00)) :: ·)
        else none
      | _ => none

/-- A string literal after its opening quote. -/
def quoted? (cs : List Char) : Option (Quoted × List Char) :=
  (pieces? cs).map fun p => ((meaning? p.1).map String.ofList, p.2)

/-! ## Values -/

/-- A document and what follows it; nothing follows a broken one. -/
abbrev Reading := Document × Option (List Char)

mutual

/-- Reads a value after the blanks in front of it. -/
def readValue : Nat → List Char → Reading
  | 0, _ => (broken, none)
  | fuel + 1, cs =>
    match skipBlanks cs with
    | 'n' :: 'u' :: 'l' :: 'l' :: rest => (null, some rest)
    | 't' :: 'r' :: 'u' :: 'e' :: rest => (bool true, some rest)
    | 'f' :: 'a' :: 'l' :: 's' :: 'e' :: rest => (bool false, some rest)
    | '"' :: rest =>
      match quoted? rest with
      | some (s, rest) => (string s, some rest)
      | none => (broken, none)
    | '[' :: rest =>
      match skipBlanks rest with
      | ']' :: rest => (array [], some rest)
      | rest =>
        let (items, rest) := readItems fuel rest
        (array items, rest)
    | '\x7b' :: rest =>
      match skipBlanks rest with
      | '\x7d' :: rest => (object [], some rest)
      | rest =>
        let (members, rest) := readMembers fuel rest
        (object members, rest)
    | rest =>
      match numeral? rest with
      | some (n, rest) => (number n, some rest)
      | none => (broken, none)

def readItems : Nat → List Char → List Document × Option (List Char)
  | 0, _ => ([broken], none)
  | fuel + 1, cs =>
    match readValue fuel cs with
    | (v, none) => ([v], none)
    | (v, some rest) =>
      match skipBlanks rest with
      | ']' :: rest => ([v], some rest)
      | ',' :: rest =>
        let (items, rest) := readItems fuel rest
        (v :: items, rest)
      | _ => ([v, broken], none)

def readMembers : Nat → List Char → List (Quoted × Document) × Option (List Char)
  | 0, _ => ([(none, broken)], none)
  | fuel + 1, cs =>
    match skipBlanks cs with
    | '"' :: rest =>
      match quoted? rest with
      | none => ([(none, broken)], none)
      | some (k, rest) =>
        match skipBlanks rest with
        | ':' :: rest =>
          match readValue fuel rest with
          | (v, none) => ([(k, v)], none)
          | (v, some rest) =>
            match skipBlanks rest with
            | '\x7d' :: rest => ([(k, v)], some rest)
            | ',' :: rest =>
              let (members, rest) := readMembers fuel rest
              ((k, v) :: members, rest)
            | _ => ([(k, v), (none, broken)], none)
        | _ => ([(k, broken)], none)
    | _ => ([(none, broken)], none)

end

/-- Reads a text, and tells whether it holds one value and nothing else. -/
def read (text : String) : Document × Bool :=
  let cs := text.toList
  match readValue (2 * cs.length + 2) cs with
  | (d, none) => (d, false)
  | (d, some rest) => (d, (skipBlanks rest).isEmpty)

/-! ## Meaning -/

mutual

/-- Whether the syntax has no broken part. -/
def isWellFormed : Document → Bool
  | broken => false
  | array items => areWellFormed items
  | object members => haveWellFormed members
  | _ => true

def areWellFormed : List Document → Bool
  | [] => true
  | d :: ds => isWellFormed d && areWellFormed ds

def haveWellFormed : List (Quoted × Document) → Bool
  | [] => true
  | (_, d) :: ms => isWellFormed d && haveWellFormed ms

end

mutual

/-- The value of a document in which arrays and objects are nested at most `depth` deep. Of
members with one key the last counts. -/
def value? (depth : Nat) : Document → Option Json
  | null => some .null
  | bool b => some (.bool b)
  | number n => n.number?.map .number
  | string s => s.map .string
  | array items =>
    match depth with
    | 0 => none
    | depth + 1 => (values? depth items).map .array
  | object members =>
    match depth with
    | 0 => none
    | depth + 1 => (memberValues? depth members).map fun ms => .object (Members.ofList ms)
  | broken => none

def values? (depth : Nat) : List Document → Option (List Json)
  | [] => some []
  | d :: ds => do
    let v ← value? depth d
    let vs ← values? depth ds
    return v :: vs

def memberValues? (depth : Nat) : List (Quoted × Document) → Option (List (String × Json))
  | [] => some []
  | (key, d) :: ms => do
    let k ← key
    let v ← value? depth d
    let vs ← memberValues? depth ms
    return (k, v) :: vs

end

end Document

/-- The deepest nesting of arrays and objects that a text may have. -/
def Json.maxDepth : Nat := 127

def Json.parse? (text : String) : Option Json :=
  match Document.read text with
  | (d, true) => d.value? Json.maxDepth
  | (_, false) => none

end CallGuard
