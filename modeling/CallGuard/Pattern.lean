import CallGuard.Method

/-! # Method patterns

A pattern is `*`, `Service/*` or `Service/Method`. Beside the checked patterns there is a relation
between raw texts and methods, under which a text that is no pattern covers only what it spells. -/

namespace CallGuard

/-- A set of methods: all, those of a service, or a single one. -/
inductive Pattern where
  | all
  | ofService (service : String)
  | single (service name : String)
deriving DecidableEq, Repr

inductive PatternFault where
  | empty
  | noSlash (text : String)
  | emptySegment (text : String)
  | misplacedWildcard (text : String)
deriving DecidableEq, Repr

def PatternFault.message : PatternFault → String
  | empty => "pattern must not be empty"
  | noSlash text => text ++ ": expected `*`, `Service/*` or `Service/Method`"
  | emptySegment text => text ++ ": pattern must not have empty segments"
  | misplacedWildcard text =>
    text ++ ": wildcard is only allowed as the whole method segment"

namespace Pattern

def text : Pattern → String
  | all => "*"
  | ofService s => s ++ "/*"
  | single s n => s ++ "/" ++ n

/-! ## Reading -/

/-- Checks the two segments of the text `t`, which stand on both sides of its first slash. -/
def ofSegments (t service name : String) : Except PatternFault Pattern :=
  if service.isEmpty || name.isEmpty then .error (.emptySegment t)
  else if service.toList.contains '*' || name.toList.contains '/' then
    .error (.misplacedWildcard t)
  else if name = "*" then .ok (.ofService service)
  else if name.toList.contains '*' then .error (.misplacedWildcard t)
  else .ok (.single service name)

/-- Reads a text that has no blanks around it. -/
def ofTrimmed (t : String) : Except PatternFault Pattern :=
  if t.isEmpty then .error .empty
  else if t = "*" then .ok .all
  else match Text.cut? '/' t with
    | none => .error (.noSlash t)
    | some (service, name) => ofSegments t service name

/-- Reads a pattern; blanks around it do not count. -/
def parse (s : String) : Except Error Pattern :=
  match ofTrimmed (Text.trim s) with
  | .ok p => .ok p
  | .error fault => .error (.invalidPattern fault.message)

/-- Reads a list of patterns up to the first text that is none. -/
def parseAll (texts : List String) : Except Error (List Pattern) :=
  texts.mapM parse

/-! ## Matching -/

/-- The methods that a pattern stands for; names are compared exactly. -/
def selects : Pattern → Method → Bool
  | all, _ => true
  | ofService s, m => s == m.service
  | single s n, m => s == m.service && n == m.name

/-- Whether any of some patterns stands for a method. -/
def anySelects (ps : List Pattern) (m : Method) : Bool :=
  ps.any fun p => p.selects m

/-- A raw text covers a method when it is `*`, or what stands before its first slash is the
service and what stands after it is `*` or the method. -/
def covers (text service name : String) : Bool :=
  if text = "*" then true
  else match Text.cut? '/' text with
    | none => false
    | some (s, n) => s == service && (n == "*" || n == name)

/-- Whether any of some raw texts covers a method. -/
def anyCovers (texts : List String) (service name : String) : Bool :=
  texts.any fun t => covers t service name

end Pattern

end CallGuard
