import CallGuard.Text

/-! # Request targets

A request target is a path, an authority such as `host:80`, an asterisk, or an absolute form
`scheme://authority/path`. Only its path is of interest. -/

namespace CallGuard.Uri

/-! ## Characters -/

/-- The characters of an authority and of the delimiters that end it. -/
def isAuthorityChar (c : Char) : Bool :=
  Text.isAlphanumeric c || "!#$&'()*+,-./:;=?@[]_~".toList.contains c

/-- The characters of a scheme, in which a tilde passes too. -/
def isSchemeChar (c : Char) : Bool :=
  Text.isAlphanumeric c || "+-.~".toList.contains c

/-- The characters of a path; all beyond ASCII pass. -/
def isPathChar (c : Char) : Bool :=
  0x21 ≤ c.toNat && c.toNat ≠ 0x7F && !"#<>?`".toList.contains c

/-- The characters of a query; all beyond ASCII pass. -/
def isQueryChar (c : Char) : Bool :=
  0x21 ≤ c.toNat && c.toNat ≠ 0x7F && !"\"#<>".toList.contains c

/-! ## Parts -/

/-- The path of a text that starts at a path. What follows a question mark must be a query, and
what follows a number sign is not looked at. -/
def pathOf? (cs : List Char) : Option (List Char) :=
  let path := cs.takeWhile fun c => c != '?' && c != '#'
  let query := match cs.dropWhile fun c => c != '?' && c != '#' with
    | '?' :: rest => rest.takeWhile (· != '#')
    | _ => []
  if path.all isPathChar && query.all isQueryChar then some path else none

/-- The length of a scheme in front of `://`, if there is one of at most 64 characters. -/
inductive Scheme where
  | absent
  | tooLong
  | present (length : Nat)
deriving DecidableEq, Repr

def scheme (cs : List Char) : Scheme :=
  let name := cs.takeWhile isSchemeChar
  match cs.drop name.length with
  | ':' :: '/' :: '/' :: _ =>
    if cs.length ≤ 3 then .absent
    else if 64 < name.length then .tooLong
    else .present name.length
  | _ => .absent

/-- What has been seen of an authority. User information ends at an at sign, and a bracket pair
holds a version 6 address; both hide the colons and percent signs in them. -/
structure AuthorityState where
  colons : Nat
  opened : Bool
  closed : Bool
  percent : Bool
  endsAtSign : Bool

/-- Takes one character of an authority. -/
def AuthorityState.next? (s : AuthorityState) (c : Char) : Option AuthorityState :=
  let s := { s with endsAtSign := false }
  if c = ':' then if 8 ≤ s.colons then none else some { s with colons := s.colons + 1 }
  else if c = '[' then if s.percent || s.opened then none else some { s with opened := true }
  else if c = ']' then
    if !s.opened || s.closed then none
    else some { s with closed := true, colons := 0, percent := false }
  else if c = '@' then some { s with endsAtSign := true, colons := 0, percent := false }
  else if c = '%' then some { s with percent := true }
  else if isAuthorityChar c then some s
  else none

/-- Whether a text is an authority, which may be empty. -/
def isAuthority (cs : List Char) : Bool :=
  match cs.foldlM AuthorityState.next? ⟨0, false, false, false, false⟩ with
  | none => false
  | some s => s.opened == s.closed && s.colons ≤ 1 && !s.endsAtSign && !s.percent

/-- Splits a text where its authority ends. -/
def authority (cs : List Char) : List Char × List Char :=
  let isInside := fun c => c != '/' && c != '?' && c != '#'
  (cs.takeWhile isInside, cs.dropWhile isInside)

/-! ## Targets -/

/-- The path of a target that does not start with a slash: none of its own for an authority, and
the slash for an absolute form without a path. -/
def fullPath? (cs : List Char) : Option (List Char) :=
  match scheme cs with
  | .tooLong => none
  | .absent =>
    let (a, rest) := authority cs
    if rest.isEmpty && isAuthority a then some [] else none
  | .present n =>
    let (a, rest) := authority (cs.drop (n + 3))
    if a.isEmpty || !isAuthority a then none
    else (pathOf? rest).map fun p => if p.isEmpty then ['/'] else p

/-- The path of a request target; none if the text is no target. -/
def path? (s : String) : Option String :=
  let cs := s.toList
  if cs.isEmpty || 65534 < s.utf8ByteSize then none
  else if cs = ['*'] then some s
  else match cs with
    | '/' :: _ => (pathOf? cs).map String.ofList
    | _ => (fullPath? cs).map String.ofList

end CallGuard.Uri
