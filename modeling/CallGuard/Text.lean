/-! # Text

White space, trimming, splitting and control characters, first on lists of characters and then
on strings. -/

namespace CallGuard.Text

/-! ## Character classes -/

/-- The code points with the Unicode property White_Space, as closed ranges. -/
def blankRanges : List (Nat × Nat) :=
  [(0x9, 0xD), (0x20, 0x20), (0x85, 0x85), (0xA0, 0xA0), (0x1680, 0x1680), (0x2000, 0x200A),
   (0x2028, 0x2029), (0x202F, 0x202F), (0x205F, 0x205F), (0x3000, 0x3000)]

/-- A character is blank when it is Unicode white space. -/
def isBlank (c : Char) : Bool :=
  blankRanges.any fun r => r.1 ≤ c.toNat && c.toNat ≤ r.2

/-- The control characters are those of the general category Cc. -/
def isControl (c : Char) : Bool :=
  c.toNat < 0x20 || (0x7F ≤ c.toNat && c.toNat < 0xA0)

/-- ASCII letters and digits. -/
def isAlphanumeric (c : Char) : Bool :=
  c.isAlpha || c.isDigit

/-! ## Lists of characters -/

namespace Chars

/-- Drops the blanks at both ends. -/
def trim (cs : List Char) : List Char :=
  ((cs.dropWhile isBlank).reverse.dropWhile isBlank).reverse

/-- The pieces between separators; there is always at least one. -/
def pieces (isSeparator : Char → Bool) : List Char → List (List Char)
  | [] => [[]]
  | c :: cs =>
    if isSeparator c then [] :: pieces isSeparator cs
    else match pieces isSeparator cs with
      | [] => [[c]]
      | p :: ps => (c :: p) :: ps

/-- The maximal runs of characters that are not blank. -/
def words (cs : List Char) : List (List Char) :=
  (pieces isBlank cs).filter fun w => !w.isEmpty

/-- What stands before and after the first occurrence of a separator. -/
def cut? (separator : Char) : List Char → Option (List Char × List Char)
  | [] => none
  | c :: cs =>
    if c = separator then some ([], cs)
    else (cut? separator cs).map fun p => (c :: p.1, p.2)

/-- What stands before and after the last occurrence of a separator. -/
def cutLast? (separator : Char) (cs : List Char) : Option (List Char × List Char) :=
  (cut? separator cs.reverse).map fun p => (p.2.reverse, p.1.reverse)

/-- The value of a run of decimal digits, in which leading zeros are allowed. -/
def decimal? (cs : List Char) : Option Nat :=
  if cs.isEmpty || !cs.all Char.isDigit then none
  else some (cs.foldl (fun n c => 10 * n + (c.toNat - 48)) 0)

theorem cut?_eq_some_iff {separator : Char} {cs before rest : List Char} :
    cut? separator cs = some (before, rest) ↔
      cs = before ++ separator :: rest ∧ separator ∉ before := by
  induction cs generalizing before with
  | nil => simp [cut?]
  | cons c cs ih =>
    by_cases h : c = separator
    · subst h
      cases before <;> simp [cut?]
      intro hc _ hd
      exact absurd hc hd
    · cases before with
      | nil => simp [cut?, h]
      | cons b before =>
        simp only [cut?, h, ↓reduceIte, Option.map_eq_some_iff, Prod.mk.injEq, Prod.exists,
          List.cons.injEq, List.cons_append, List.mem_cons, not_or]
        constructor
        · rintro ⟨x, y, hxy, ⟨rfl, rfl⟩, rfl⟩
          exact ⟨⟨rfl, (ih.1 hxy).1⟩, Ne.symm h, (ih.1 hxy).2⟩
        · rintro ⟨⟨rfl, hcs⟩, -, hb⟩
          exact ⟨before, rest, ih.2 ⟨hcs, hb⟩, ⟨rfl, rfl⟩, rfl⟩

theorem pieces_ne_nil (isSeparator : Char → Bool) (cs : List Char) :
    pieces isSeparator cs ≠ [] := by
  cases cs with
  | nil => simp [pieces]
  | cons c cs =>
    simp only [pieces]
    split
    · simp
    · split <;> simp

end Chars

/-! ## Strings -/

def trim (s : String) : String :=
  String.ofList (Chars.trim s.toList)

def split (separator : Char) (s : String) : List String :=
  (Chars.pieces (· == separator) s.toList).map String.ofList

def words (s : String) : List String :=
  (Chars.words s.toList).map String.ofList

def cut? (separator : Char) (s : String) : Option (String × String) :=
  (Chars.cut? separator s.toList).map fun p => (String.ofList p.1, String.ofList p.2)

def cutLast? (separator : Char) (s : String) : Option (String × String) :=
  (Chars.cutLast? separator s.toList).map fun p => (String.ofList p.1, String.ofList p.2)

/-- Writes the ASCII letters in lower case. -/
def lower (s : String) : String :=
  String.ofList (s.toList.map Char.toLower)

/-- Keeps a text only when something is left of it after trimming. -/
def trimNonempty? (s : String) : Option String :=
  let t := trim s
  if t.isEmpty then none else some t

/-- Writes texts one after the other with a separator between them. -/
def join (separator : String) : List String → String
  | [] => ""
  | [s] => s
  | s :: rest => s ++ separator ++ join separator rest

end CallGuard.Text
