import CallGuard.Json

/-! # Compact JSON text

No blanks are written; in strings only quotes, backslashes and the characters below U+0020 are
escaped. -/

namespace CallGuard.Json

/-- The four lower-case hexadecimal digits of a code below U+0020. -/
def shortHex (n : Nat) : List Char :=
  ['0', '0', (n / 16).digitChar, (n % 16).digitChar]

def escape (c : Char) : List Char :=
  if c = '"' then ['\\', '"']
  else if c = '\\' then ['\\', '\\']
  else if 0x20 ≤ c.toNat then [c]
  else if c = '\x08' then ['\\', 'b']
  else if c = '\t' then ['\\', 't']
  else if c = '\n' then ['\\', 'n']
  else if c = '\x0c' then ['\\', 'f']
  else if c = '\r' then ['\\', 'r']
  else '\\' :: 'u' :: shortHex c.toNat

def quote (s : String) : List Char :=
  '"' :: (s.toList.flatMap escape ++ ['"'])

mutual

def chars : Json → List Char
  | null => ['n', 'u', 'l', 'l']
  | bool true => ['t', 'r', 'u', 'e']
  | bool false => ['f', 'a', 'l', 's', 'e']
  | number n => n.text.toList
  | string s => quote s
  | array [] => ['[', ']']
  | array (v :: items) => '[' :: (chars v ++ itemChars items)
  | object [] => ['\x7b', '\x7d']
  | object ((k, v) :: members) => '\x7b' :: (quote k ++ ':' :: (chars v ++ memberChars members))

/-- The further items of an array and its end. -/
def itemChars : List Json → List Char
  | [] => [']']
  | v :: items => ',' :: (chars v ++ itemChars items)

/-- The further members of an object and its end. -/
def memberChars : List (String × Json) → List Char
  | [] => ['\x7d']
  | (k, v) :: members => ',' :: (quote k ++ ':' :: (chars v ++ memberChars members))

end

def text (v : Json) : String :=
  String.ofList v.chars

end CallGuard.Json
