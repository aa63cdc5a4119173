/-! # Effects -/

namespace CallGuard

inductive Effect where
  | allow
  | deny
deriving DecidableEq, Repr

namespace Effect

def word : Effect → String
  | allow => "allow"
  | deny => "deny"

/-- Reads an effect from its exact word; every other text stands for none. -/
def ofWord? (s : String) : Option Effect :=
  if s = "allow" then some allow else if s = "deny" then some deny else none

theorem ofWord?_word (e : Effect) : ofWord? e.word = some e := by
  cases e <;> rfl

end Effect

end CallGuard
