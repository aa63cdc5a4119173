import CallGuard.Error
import CallGuard.Text

/-! # Headers

Names are lower-case tokens and values are bytes without control characters; both hold for every
header by its type. A header map is told by the list of values that each name has. -/

namespace CallGuard

/-! ## Names -/

/-- The characters of a token in lower case. -/
def HeaderName.isTokenChar (c : Char) : Bool :=
  c.isLower || c.isDigit || "!#$%&'*+-.^_`|~".toList.contains c

/-- A name is a token of 1 to 65535 characters. -/
def HeaderName.isValid (s : String) : Bool :=
  !s.isEmpty && s.length ≤ 65535 && s.toList.all HeaderName.isTokenChar

structure HeaderName where
  text : String
  valid : HeaderName.isValid text = true
deriving DecidableEq, Repr

namespace HeaderName

/-- Reads a name, in which upper-case letters count as lower-case ones. -/
def ofText? (s : String) : Option HeaderName :=
  let t := Text.lower s
  if h : isValid t = true then some ⟨t, h⟩ else none

/-- Reads a name from a configuration, where blanks around it do not count. -/
def ofConfig (s : String) : Except Error HeaderName :=
  match ofText? (Text.trim s) with
  | some n => .ok n
  | none => .error (.configuration s!"invalid header name: {s}")

def authorization : HeaderName := ⟨"authorization", by decide⟩
def cookie : HeaderName := ⟨"cookie", by decide⟩

end HeaderName

/-! ## Values -/

/-- A value holds no control character but the tab. -/
def HeaderValue.isValidByte (b : UInt8) : Bool :=
  b == 9 || (32 ≤ b && b ≠ 127)

structure HeaderValue where
  bytes : ByteArray
  valid : bytes.data.all HeaderValue.isValidByte = true

namespace HeaderValue

theorem eq_iff {v w : HeaderValue} : v.bytes.data = w.bytes.data ↔ v = w := by
  obtain ⟨⟨a⟩, ha⟩ := v
  obtain ⟨⟨b⟩, hb⟩ := w
  simp

instance : DecidableEq HeaderValue := fun _ _ =>
  decidable_of_decidable_of_iff eq_iff

def ofBytes? (bytes : ByteArray) : Option HeaderValue :=
  if h : bytes.data.all isValidByte = true then some ⟨bytes, h⟩ else none

def ofText? (s : String) : Option HeaderValue :=
  ofBytes? s.toUTF8

def text? (v : HeaderValue) : Option String :=
  String.fromUTF8? v.bytes

end HeaderValue

/-! ## Header maps -/

/-- Headers in the order in which they were added. -/
structure Headers where
  entries : List (HeaderName × HeaderValue)

namespace Headers

def empty : Headers := ⟨[]⟩

def values (h : Headers) (name : HeaderName) : List HeaderValue :=
  (h.entries.filter fun e => e.1 = name).map Prod.snd

/-- Adds a value after those that the name has. -/
def append (h : Headers) (name : HeaderName) (value : HeaderValue) : Headers :=
  ⟨h.entries ++ [(name, value)]⟩

def remove (h : Headers) (name : HeaderName) : Headers :=
  ⟨h.entries.filter fun e => e.1 ≠ name⟩

def removeAll (h : Headers) (names : List HeaderName) : Headers :=
  names.foldl remove h

/-- Gives a name one value in place of all that it has. -/
def insert (h : Headers) (name : HeaderName) (value : HeaderValue) : Headers :=
  (h.remove name).append name value

/-- The first value of a name as text; none if there is no value or it is not UTF-8. -/
def text? (h : Headers) (name : HeaderName) : Option String :=
  (h.values name).head?.bind HeaderValue.text?

/-- The first value of a name as trimmed text that is not empty. -/
def trimmed? (h : Headers) (name : HeaderName) : Option String :=
  (h.text? name).bind Text.trimNonempty?

@[simp] theorem values_empty (name : HeaderName) : empty.values name = [] := rfl

theorem values_append (h : Headers) (name other : HeaderName) (value : HeaderValue) :
    (h.append name value).values other =
      if name = other then h.values other ++ [value] else h.values other := by
  by_cases e : name = other <;> simp [append, values, e]

theorem values_remove (h : Headers) (name other : HeaderName) :
    (h.remove name).values other = if name = other then [] else h.values other := by
  by_cases e : name = other
  · subst e
    simp [remove, values, List.filter_filter]
  · simp only [remove, values, List.filter_filter, e, ↓reduceIte]
    congr 1
    apply List.filter_congr
    intro p _
    by_cases hp : p.1 = other
    · simp [hp, Ne.symm e]
    · simp [hp]

theorem values_insert (h : Headers) (name other : HeaderName) (value : HeaderValue) :
    (h.insert name value).values other = if name = other then [value] else h.values other := by
  by_cases e : name = other <;> simp [insert, values_append, values_remove, e]

end Headers

end CallGuard
