import CallGuard.Proofs.Authorizer.Verdict

/-! # Refusals

A refusal tells the caller what is missing. A known caller is denied the call and never asked for
an identity, and a requirement that a denial names is one that the caller fails. An unknown caller
is asked for an identity, unless a rule denies the method to everyone who gets to it. -/

namespace CallGuard.Authorizer

/-! ## Deciding rules -/

/-- A rule decides a call when nothing declared does and it is the first rule that speaks. -/
inductive DecidedBy (a : Authorizer) (p : Option ResolvedPolicy) (identity : Option Identity)
    (m : Method) (r : Rule) : Prop where
  | first {before after} : Silent p → a.rules = before ++ r :: after →
      (∀ s ∈ before, ¬ s.Speaks identity m) → r.Speaks identity m → DecidedBy a p identity m r

section

variable {a : Authorizer} {p : Option ResolvedPolicy} {identity : Option Identity} {m : Method}
  {r : Rule}

theorem DecidedBy.verdict (h : a.DecidedBy p identity m r) (hdeny : r.effect = .deny) :
    a.Verdict p identity m (.ok (.deny r.name none)) := by
  cases h with
  | first hp hrules hbefore hr => exact .ruleDenies hp hrules hbefore hr hdeny

/-- A rule that decides the call of an unknown caller asks for nothing. -/
theorem DecidedBy.requires_eq_none (h : a.DecidedBy p none m r) : r.requires = none := by
  cases h with
  | first hp hrules hbefore hr =>
      cases hq : r.requires with
      | none => rfl
      | some q =>
          obtain ⟨i, hi, -⟩ := hr.2 q hq
          cases hi

/-! ## Unknown callers -/

/-- Only an unknown caller is refused without a denial, and is asked for an identity then. -/
theorem Verdict.of_error {e : Error} (h : a.Verdict p identity m (.error e)) :
    identity = none ∧ e = .authenticationRequired := by
  cases h with
  | requirementAnonymous _ _ _ hi => exact ⟨hi, rfl⟩
  | policyAnonymous _ _ _ _ hi => exact ⟨hi, rfl⟩
  | defaultAnonymous _ _ _ hi => exact ⟨hi, rfl⟩

theorem Verdict.known {i : Identity} {d : Except Error Decision} (h : a.Verdict p (some i) m d) :
    d = .ok .allow ∨ ∃ rule requirement, d = .ok (.deny rule requirement) := by
  cases d with
  | error e =>
      obtain ⟨hi, -⟩ := h.of_error
      cases hi
  | ok d =>
      cases d with
      | allow => exact .inl rfl
      | deny rule requirement => exact .inr ⟨rule, requirement, rfl⟩

/-- A rule is all that can deny the call of an unknown caller, since the other stages look at the
identity before they deny anything. -/
theorem Verdict.unknown {d : Except Error Decision} (h : a.Verdict p none m d) :
    d = .ok .allow ∨ d = .error .authenticationRequired ∨
      ∃ r, a.DecidedBy p none m r ∧ r.effect = .deny ∧ d = .ok (.deny r.name none) := by
  cases d with
  | error e =>
      obtain ⟨-, rfl⟩ := h.of_error
      exact .inr (.inl rfl)
  | ok d =>
      cases h with
      | requirementUnmet _ _ _ hi => cases hi
      | policyDenies _ _ _ _ hi => cases hi
      | ruleDenies hp hrules hbefore hr hdeny =>
          exact .inr (.inr ⟨_, .first hp hrules hbefore hr, hdeny, rfl⟩)
      | hookDenies _ _ _ hi => cases hi
      | defaultDenies _ _ _ _ hi => cases hi
      | _ => exact .inl rfl

/-! ## Requirements that are named -/

/-- What a denial rests on that names a requirement. -/
inductive Explains (a : Authorizer) (p : Option ResolvedPolicy) (i : Identity) (m : Method) :
    String → Requirement → Prop where
  /-- The method is not public and asks for it. -/
  | declared {d q} : p = some d → d.isPublic = false → d.requires = some q →
      Explains a p i m "method-requires" q
  /-- Neither a rule nor a hook decides, and it is what the last rule asks for that passes the
  caller over. -/
  | passedOver {before r after q} : Silent p → (∀ s ∈ a.rules, ¬ s.Speaks (some i) m) →
      a.hook = none → a.defaultPolicy = .deny → a.rules = before ++ r :: after →
      r.PassesOver i m q → (∀ s ∈ after, ∀ t, ¬ s.PassesOver i m t) →
      Explains a p i m "default-policy" q

theorem Explains.verdict {i : Identity} {rule : String} {q : Requirement}
    (h : a.Explains p i m rule q) (hunmet : ¬ q.Met i) :
    a.Verdict p (some i) m (.ok (.deny rule (some q))) := by
  cases h with
  | declared hp hpublic hq => exact .requirementUnmet hp hpublic hq rfl hunmet
  | passedOver hp hrules hhook hdeny hsplit hr hafter =>
      exact .defaultDenies hp hrules hhook hdeny rfl (.some hsplit hr hafter)

theorem Verdict.explained {rule : String} {q : Requirement}
    (h : a.Verdict p identity m (.ok (.deny rule (some q)))) :
    ∃ i, identity = some i ∧ ¬ q.Met i ∧ a.Explains p i m rule q := by
  cases h with
  | requirementUnmet hp hpublic hq hi hunmet =>
      exact ⟨_, hi, hunmet, .declared hp hpublic hq⟩
  | defaultDenies hp hrules hhook hdeny hi hlast =>
      subst hi
      cases hlast with
      | some hsplit hr hafter =>
          exact ⟨_, rfl, hr.2.2, .passedOver hp hrules hhook hdeny hsplit hr hafter⟩

end

/-! ## The two kinds of refusals -/

/-- How the calls of a method end. -/
structure RefusalSpec (a : Authorizer) (resolver : Option Resolver) (m : Method) : Prop where
  /-- A known caller passes or is denied. -/
  known : ∀ i, (a.authorize resolver (some i) m).1 = .ok () ∨
    ∃ rule requirement,
      (a.authorize resolver (some i) m).1 = .error (.permissionDenied rule requirement)
  /-- An unknown caller passes, is asked for an identity, or is denied without a requirement. -/
  unknown : (a.authorize resolver none m).1 = .ok () ∨
    (a.authorize resolver none m).1 = .error .authenticationRequired ∨
    ∃ rule, (a.authorize resolver none m).1 = .error (.permissionDenied rule none)
  /-- Unknown callers are denied what a rule that asks for nothing denies, and nothing else. -/
  denied_iff : ∀ rule requirement,
    (a.authorize resolver none m).1 = .error (.permissionDenied rule requirement) ↔
      requirement = none ∧ ∃ r, a.DecidedBy (lookUp resolver m).1 none m r ∧
        r.requires = none ∧ r.effect = .deny ∧ r.name = rule

/-- A call passes or fails as its verdict says. -/
theorem exists_verdict_authorize (a : Authorizer) (resolver : Option Resolver)
    (identity : Option Identity) (m : Method) :
    ∃ d, a.Verdict (lookUp resolver m).1 identity m d ∧
      (a.authorize resolver identity m).1 = enforce d :=
  ⟨_, (decideWith_eq_iff _).mp rfl, rfl⟩

/-- Whatever the resolver remembers, refusals tell known callers from unknown ones, but for the
rules that deny a method to both. -/
theorem authorize_refusals (a : Authorizer) (resolver : Option Resolver) (m : Method) :
    RefusalSpec a resolver m where
  known i := by
    obtain ⟨d, hverdict, hresult⟩ := a.exists_verdict_authorize resolver (some i) m
    rw [hresult]
    rcases hverdict.known with rfl | ⟨rule, requirement, rfl⟩
    · exact .inl rfl
    · exact .inr ⟨rule, requirement, rfl⟩
  unknown := by
    obtain ⟨d, hverdict, hresult⟩ := a.exists_verdict_authorize resolver none m
    rw [hresult]
    rcases hverdict.unknown with rfl | rfl | ⟨r, -, -, rfl⟩
    · exact .inl rfl
    · exact .inr (.inl rfl)
    · exact .inr (.inr ⟨r.name, rfl⟩)
  denied_iff rule requirement := by
    constructor
    · intro hdenied
      obtain ⟨d, hverdict, hresult⟩ := a.exists_verdict_authorize resolver none m
      rw [hresult] at hdenied
      rcases hverdict.unknown with rfl | rfl | ⟨r, hr, hdeny, rfl⟩
      · cases hdenied
      · cases hdenied
      · cases hdenied
        exact ⟨rfl, r, hr, hr.requires_eq_none, hdeny, rfl⟩
    · rintro ⟨rfl, r, hr, -, hdeny, rfl⟩
      have hdecision : (a.decide resolver none m).1 = .ok (.deny r.name none) :=
        (hr.verdict hdeny).execution
      exact congrArg enforce hdecision

/-- A method that is closed to all by one rule. -/
def closedSample : Authorizer :=
  ⟨[⟨"maintenance", [.ofService "Users"], .deny, none⟩], none, .allow⟩

/-- An unknown caller is denied a call and not asked for an identity. -/
theorem authorize_denies_unknown :
    build closedSample.rules none .allow = .ok closedSample ∧
      (closedSample.authorize none none ⟨"Users", "Get"⟩).1 =
        .error (.permissionDenied "maintenance" none) :=
  ⟨rfl, rfl⟩

/-! ## Denials with their reasons -/

/-- What can be told from a denial. -/
structure DenialSpec (a : Authorizer) (resolver : Option Resolver) (identity : Option Identity)
    (m : Method) : Prop where
  /-- A denial that names a requirement is one of a known caller that fails it, and the method or
  the last rule that passed the caller over asks for it. -/
  explained : ∀ rule q, (a.decide resolver identity m).1 = .ok (.deny rule (some q)) ↔
    ∃ i, identity = some i ∧ ¬ q.Met i ∧ a.Explains (lookUp resolver m).1 i m rule q
  /-- A denial that a rule decides names the rule and no requirement. -/
  byRule : ∀ r, a.DecidedBy (lookUp resolver m).1 identity m r → r.effect = .deny →
    (a.decide resolver identity m).1 = .ok (.deny r.name none)

theorem decide_denials (a : Authorizer) (resolver : Option Resolver)
    (identity : Option Identity) (m : Method) : DenialSpec a resolver identity m where
  explained rule q := by
    constructor
    · intro hdenied
      have hverdict : a.Verdict (lookUp resolver m).1 identity m (.ok (.deny rule (some q))) :=
        (decideWith_eq_iff _).mp hdenied
      exact hverdict.explained
    · rintro ⟨i, rfl, hunmet, hexplains⟩
      exact (hexplains.verdict hunmet).execution
  byRule r hr hdeny := (hr.verdict hdeny).execution

-- of two rules that pass a caller over, the denial names what the later one asks for
example :
    let a : Authorizer := ⟨[⟨"admins", [.all], .allow, some (.ofRoles ["admin"])⟩,
      ⟨"readers", [.all], .allow, some (.ofScopes ["read"])⟩,
      ⟨"no resets", [.single "Users" "Reset"], .deny, none⟩], none, .deny⟩
    (a.decide none (some (.ofSubject "u")) ⟨"Users", "Get"⟩).1 =
        .ok (.deny "default-policy" (some (.ofScopes ["read"]))) ∧
      (a.decide none (some (.ofSubject "u")) ⟨"Users", "Reset"⟩).1 =
        .ok (.deny "no resets" none) :=
  ⟨rfl, rfl⟩

end CallGuard.Authorizer
