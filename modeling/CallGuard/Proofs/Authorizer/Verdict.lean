import CallGuard.Authorizer

/-! # Verdicts

The rules by which a call is decided, told by their conditions and not by the order in which they
are tried. For every call exactly one verdict can be derived, and it is the decision. -/

namespace CallGuard

/-! ## Requirements and rules -/

/-- A caller has one of the listed roles, if any are listed, and every listed scope. -/
def Requirement.Met (q : Requirement) (i : Identity) : Prop :=
  (q.roles = [] ∨ ∃ role ∈ q.roles, role ∈ i.roles.names) ∧
    ∀ scope ∈ q.scopes, scope ∈ i.scopes.names

theorem Requirement.isMetBy_iff (q : Requirement) (i : Identity) :
    q.isMetBy i = true ↔ q.Met i := by
  simp [isMetBy, Met, Identity.hasRole, Identity.hasScope, NameList.contains]

/-- A rule speaks on a call when it selects the method and asks for nothing, or for what a known
caller has. -/
def Rule.Speaks (r : Rule) (identity : Option Identity) (m : Method) : Prop :=
  r.selects m = true ∧ ∀ q, r.requires = some q → ∃ i, identity = some i ∧ q.Met i

theorem Rule.speaks_iff (r : Rule) (identity : Option Identity) (m : Method) :
    r.Speaks identity m ↔ r.selects m = true ∧ r.admits identity = true := by
  unfold Speaks admits
  cases r.requires with
  | none => simp
  | some q =>
      cases identity with
      | none => simp
      | some i => simp [q.isMetBy_iff]

/-- A rule that selects a method but does not speak asks for something that the caller lacks. -/
theorem Rule.exists_of_not_speaks {r : Rule} {i : Identity} {m : Method}
    (h : ¬ r.Speaks (some i) m) (hselects : r.selects m = true) :
    ∃ q, r.requires = some q ∧ ¬ q.Met i := by
  cases hq : r.requires with
  | none => exact absurd ⟨hselects, by simp [hq]⟩ h
  | some q =>
      refine ⟨q, rfl, fun hmet => h ⟨hselects, ?_⟩⟩
      intro p hp
      obtain rfl : q = p := by simpa [hq] using hp
      exact ⟨i, rfl, hmet⟩

/-- A rule passes a caller over when it selects the method and asks for what the caller lacks. -/
def Rule.PassesOver (r : Rule) (i : Identity) (m : Method) (q : Requirement) : Prop :=
  r.selects m = true ∧ r.requires = some q ∧ ¬ q.Met i

/-- The requirement of the last rule that passes a caller over, if there is one. -/
inductive LastUnmet (rules : List Rule) (i : Identity) (m : Method) : Option Requirement → Prop where
  | none : (∀ r ∈ rules, ∀ q, ¬ r.PassesOver i m q) → LastUnmet rules i m none
  | some {before r after q} : rules = before ++ r :: after → r.PassesOver i m q →
      (∀ s ∈ after, ∀ p, ¬ s.PassesOver i m p) → LastUnmet rules i m (some q)

/-- A list has a first member with a property, or no member with it. -/
theorem exists_first {α : Type} (P : α → Prop) (l : List α) :
    (∀ x ∈ l, ¬ P x) ∨ ∃ before x after, l = before ++ x :: after ∧ P x ∧ ∀ y ∈ before, ¬ P y := by
  classical
  cases h : l.find? fun x => decide (P x) with
  | none => exact .inl (by simpa using h)
  | some x =>
      obtain ⟨hx, before, after, hl, hbefore⟩ := List.find?_eq_some_iff_append.mp h
      exact .inr ⟨before, x, after, hl, by simpa using hx, by simpa using hbefore⟩

theorem exists_lastUnmet (rules : List Rule) (i : Identity) (m : Method) :
    ∃ unmet, LastUnmet rules i m unmet := by
  rcases exists_first (fun r => ∃ q, Rule.PassesOver r i m q) rules.reverse with hnone | hfirst
  · exact ⟨none, .none fun r hr q hq => hnone r (List.mem_reverse.mpr hr) ⟨q, hq⟩⟩
  · obtain ⟨before, r, after, hsplit, ⟨q, hq⟩, hbefore⟩ := hfirst
    have hrules : rules = after.reverse ++ r :: before.reverse := by
      simpa using congrArg List.reverse hsplit
    refine ⟨some q, .some hrules hq fun s hs p hp => ?_⟩
    exact hbefore s (List.mem_reverse.mp hs) ⟨p, hp⟩

namespace Authorizer

/-! ## Derivations -/

/-- The declared options leave a call to the rules. -/
def Silent (p : Option ResolvedPolicy) : Prop :=
  ∀ d, p = some d → d.isPublic = false ∧ d.requires = none ∧ d.policy = none

/-- The verdicts on a call whose declared options are `p`. Each stage asks that those before it
have nothing to say. -/
inductive Verdict (a : Authorizer) (p : Option ResolvedPolicy) (identity : Option Identity)
    (m : Method) : Except Error Decision → Prop where
  /-- A public method is open to all. -/
  | openToAll {d} : p = some d → d.isPublic = true → Verdict a p identity m (.ok .allow)
  | requirementAnonymous {d q} : p = some d → d.isPublic = false → d.requires = some q →
      identity = none →
      Verdict a p identity m (.error (.unauthenticated "authentication required"))
  | requirementMet {d q i} : p = some d → d.isPublic = false → d.requires = some q →
      identity = some i → q.Met i → Verdict a p identity m (.ok .allow)
  | requirementUnmet {d q i} : p = some d → d.isPublic = false → d.requires = some q →
      identity = some i → ¬ q.Met i →
      Verdict a p identity m (.ok (.deny "method-requires" (some q)))
  | policyAnonymous {d e} : p = some d → d.isPublic = false → d.requires = none →
      d.policy = some e → identity = none →
      Verdict a p identity m (.error (.unauthenticated "authentication required"))
  | policyAllows {d i} : p = some d → d.isPublic = false → d.requires = none →
      d.policy = some .allow → identity = some i → Verdict a p identity m (.ok .allow)
  | policyDenies {d i} : p = some d → d.isPublic = false → d.requires = none →
      d.policy = some .deny → identity = some i →
      Verdict a p identity m (.ok (.deny "method-policy" none))
  /-- The first rule that speaks decides. -/
  | ruleAllows {before r after} : Silent p → a.rules = before ++ r :: after →
      (∀ s ∈ before, ¬ s.Speaks identity m) → r.Speaks identity m → r.effect = .allow →
      Verdict a p identity m (.ok .allow)
  | ruleDenies {before r after} : Silent p → a.rules = before ++ r :: after →
      (∀ s ∈ before, ¬ s.Speaks identity m) → r.Speaks identity m → r.effect = .deny →
      Verdict a p identity m (.ok (.deny r.name none))
  /-- A hook decides about known callers only. -/
  | hookAllows {f i} : Silent p → (∀ r ∈ a.rules, ¬ r.Speaks identity m) → a.hook = some f →
      identity = some i → f i m = true → Verdict a p identity m (.ok .allow)
  | hookDenies {f i} : Silent p → (∀ r ∈ a.rules, ¬ r.Speaks identity m) → a.hook = some f →
      identity = some i → f i m = false →
      Verdict a p identity m (.ok (.deny "authorize-hook" none))
  | defaultAllows : Silent p → (∀ r ∈ a.rules, ¬ r.Speaks identity m) →
      a.hook = none ∨ identity = none → a.defaultPolicy = .allow →
      Verdict a p identity m (.ok .allow)
  | defaultAnonymous : Silent p → (∀ r ∈ a.rules, ¬ r.Speaks identity m) →
      a.defaultPolicy = .deny → identity = none →
      Verdict a p identity m (.error (.unauthenticated "authentication required"))
  | defaultDenies {i unmet} : Silent p → (∀ r ∈ a.rules, ¬ r.Speaks identity m) →
      a.hook = none → a.defaultPolicy = .deny → identity = some i →
      LastUnmet a.rules i m unmet →
      Verdict a p identity m (.ok (.deny "default-policy" unmet))

/-! ## The walk through the rules -/

section

variable {m : Method} {identity : Option Identity}

theorem walk_cons_of_speaks {r : Rule} (h : r.Speaks identity m) (unmet : Option Requirement)
    (rest : List Rule) : walk m identity unmet (r :: rest) = .ok (.ofEffect r.name r.effect) := by
  obtain ⟨hselects, hadmits⟩ := (r.speaks_iff identity m).mp h
  simp [walk, hselects, hadmits]

/-- A rule that does not speak leaves the decision to the rest. It leaves a mark only when it
selects the method of a known caller. -/
theorem walk_cons_of_not_speaks {r : Rule} (h : ¬ r.Speaks identity m)
    (unmet : Option Requirement) (rest : List Rule) :
    walk m identity unmet (r :: rest) =
      walk m identity (if r.selects m ∧ identity.isSome then r.requires else unmet) rest := by
  rw [r.speaks_iff] at h
  cases hselects : r.selects m with
  | false => simp [walk, hselects]
  | true =>
      have hadmits : r.admits identity = false := by simpa [hselects] using h
      simp [walk, hselects, hadmits]

theorem walk_append_of_not_speaks {before : List Rule} (h : ∀ s ∈ before, ¬ s.Speaks identity m)
    (unmet : Option Requirement) (rest : List Rule) :
    ∃ mark, walk m identity unmet (before ++ rest) = walk m identity mark rest := by
  induction before generalizing unmet with
  | nil => exact ⟨unmet, rfl⟩
  | cons s before ih =>
      rw [List.cons_append, walk_cons_of_not_speaks (h s List.mem_cons_self)]
      exact ih (fun t ht => h t (List.mem_cons_of_mem s ht)) _

/-- The first rule that speaks decides, whatever came before it. -/
theorem walk_of_first {before after : List Rule} {r : Rule}
    (hbefore : ∀ s ∈ before, ¬ s.Speaks identity m) (hr : r.Speaks identity m)
    (unmet : Option Requirement) :
    walk m identity unmet (before ++ r :: after) = .ok (.ofEffect r.name r.effect) := by
  obtain ⟨mark, hmark⟩ := walk_append_of_not_speaks hbefore unmet (r :: after)
  rw [hmark, walk_cons_of_speaks hr]

theorem walk_anonymous {rules : List Rule} (h : ∀ r ∈ rules, ¬ r.Speaks none m)
    (unmet : Option Requirement) : walk m none unmet rules = .error unmet := by
  induction rules with
  | nil => rfl
  | cons r rest ih =>
      rw [walk_cons_of_not_speaks (h r List.mem_cons_self)]
      simpa using ih fun s hs => h s (List.mem_cons_of_mem r hs)

theorem walk_of_not_passesOver {rules : List Rule} {i : Identity}
    (h : ∀ r ∈ rules, ¬ r.Speaks (some i) m) (hpass : ∀ r ∈ rules, ∀ q, ¬ r.PassesOver i m q)
    (unmet : Option Requirement) : walk m (some i) unmet rules = .error unmet := by
  induction rules with
  | nil => rfl
  | cons r rest ih =>
      have hr := h r List.mem_cons_self
      have hselects : r.selects m ≠ true := by
        intro hselects
        obtain ⟨q, hq, hmet⟩ := Rule.exists_of_not_speaks hr hselects
        exact hpass r List.mem_cons_self q ⟨hselects, hq, hmet⟩
      rw [walk_cons_of_not_speaks hr]
      simpa [hselects] using ih (fun s hs => h s (List.mem_cons_of_mem r hs))
        fun s hs => hpass s (List.mem_cons_of_mem r hs)

/-- When no rule speaks on the call of a known caller, the walk ends with the last requirement
that the caller failed. -/
theorem walk_of_lastUnmet {rules : List Rule} {i : Identity} {unmet : Option Requirement}
    (h : ∀ r ∈ rules, ¬ r.Speaks (some i) m) (hlast : LastUnmet rules i m unmet) :
    walk m (some i) none rules = .error unmet := by
  cases hlast with
  | none hpass => exact walk_of_not_passesOver h hpass none
  | @some before r after q hrules hr hafter =>
      subst hrules
      obtain ⟨mark, hmark⟩ := walk_append_of_not_speaks
        (fun s hs => h s (List.mem_append_left _ hs)) none (r :: after)
      have hrest : ∀ s ∈ after, ¬ s.Speaks (some i) m :=
        fun s hs => h s (List.mem_append_right before (List.mem_cons_of_mem r hs))
      rw [hmark, walk_cons_of_not_speaks (h r (by simp))]
      simpa [hr.1, hr.2.1] using walk_of_not_passesOver hrest hafter (some q)

end

/-! ## Decisions are verdicts -/

section

variable {a : Authorizer} {p : Option ResolvedPolicy} {identity : Option Identity} {m : Method}

theorem decideWith_of_silent (hp : Silent p) :
    a.decideWith p identity m = a.decideOpen identity m := by
  cases p with
  | none => rfl
  | some d =>
      obtain ⟨hpublic, hrequires, hpolicy⟩ := hp d rfl
      simp [decideWith, decideDeclared, hpublic, hrequires, hpolicy]

theorem decideOpen_anonymous (h : ∀ r ∈ a.rules, ¬ r.Speaks none m) :
    a.decideOpen none m = a.decideDefault none none := by
  rw [decideOpen, walk_anonymous h]
  simp

theorem decideOpen_hook {f : Identity → Method → Bool} {i : Identity}
    (h : ∀ r ∈ a.rules, ¬ r.Speaks (some i) m) (hf : a.hook = some f) :
    a.decideOpen (some i) m = .ok (if f i m then .allow else .deny "authorize-hook" none) := by
  obtain ⟨unmet, hlast⟩ := exists_lastUnmet a.rules i m
  rw [decideOpen, walk_of_lastUnmet h hlast]
  simp [hf]

theorem decideOpen_default {i : Identity} {unmet : Option Requirement}
    (h : ∀ r ∈ a.rules, ¬ r.Speaks (some i) m) (hf : a.hook = none)
    (hlast : LastUnmet a.rules i m unmet) :
    a.decideOpen (some i) m = a.decideDefault (some i) unmet := by
  rw [decideOpen, walk_of_lastUnmet h hlast]
  simp [hf]

/-- A verdict that can be derived is the decision. -/
theorem Verdict.execution {d : Except Error Decision} (h : a.Verdict p identity m d) :
    a.decideWith p identity m = d := by
  cases h with
  | openToAll hp hpublic => simp [decideWith, decideDeclared, hp, hpublic]
  | requirementAnonymous hp hpublic hq hi =>
      simp [decideWith, decideDeclared, withIdentity, hp, hpublic, hq, hi,
        Error.authenticationRequired]
  | requirementMet hp hpublic hq hi hmet =>
      rw [← Requirement.isMetBy_iff] at hmet
      simp [decideWith, decideDeclared, withIdentity, hp, hpublic, hq, hi, hmet]
  | requirementUnmet hp hpublic hq hi hmet =>
      rw [← Requirement.isMetBy_iff] at hmet
      simp [decideWith, decideDeclared, withIdentity, hp, hpublic, hq, hi, hmet]
  | policyAnonymous hp hpublic hq he hi =>
      simp [decideWith, decideDeclared, withIdentity, hp, hpublic, hq, he, hi,
        Error.authenticationRequired]
  | policyAllows hp hpublic hq he hi =>
      simp [decideWith, decideDeclared, withIdentity, hp, hpublic, hq, he, hi, Decision.ofEffect]
  | policyDenies hp hpublic hq he hi =>
      simp [decideWith, decideDeclared, withIdentity, hp, hpublic, hq, he, hi, Decision.ofEffect]
  | ruleAllows hp hrules hbefore hr he =>
      rw [decideWith_of_silent hp, decideOpen, hrules, walk_of_first hbefore hr]
      simp [Decision.ofEffect, he]
  | ruleDenies hp hrules hbefore hr he =>
      rw [decideWith_of_silent hp, decideOpen, hrules, walk_of_first hbefore hr]
      simp [Decision.ofEffect, he]
  | hookAllows hp hrules hhook hi hf =>
      subst hi
      rw [decideWith_of_silent hp, decideOpen_hook hrules hhook, hf]
      rfl
  | hookDenies hp hrules hhook hi hf =>
      subst hi
      rw [decideWith_of_silent hp, decideOpen_hook hrules hhook, hf]
      rfl
  | defaultAllows hp hrules hhook he =>
      rw [decideWith_of_silent hp]
      cases identity with
      | none => simp [decideOpen_anonymous hrules, decideDefault, he]
      | some i =>
          obtain ⟨unmet, hlast⟩ := exists_lastUnmet a.rules i m
          have hhook : a.hook = none := by simpa using hhook
          simp [decideOpen_default hrules hhook hlast, decideDefault, he]
  | defaultAnonymous hp hrules he hi =>
      subst hi
      rw [decideWith_of_silent hp, decideOpen_anonymous hrules]
      simp [decideDefault, withIdentity, he, Error.authenticationRequired]
  | defaultDenies hp hrules hhook he hi hlast =>
      subst hi
      rw [decideWith_of_silent hp, decideOpen_default hrules hhook hlast]
      simp [decideDefault, withIdentity, he]

/-- A verdict can be derived on every call that the declared options leave open. -/
theorem exists_verdict_of_silent (hp : Silent p) : ∃ d, a.Verdict p identity m d := by
  rcases exists_first (fun r => Rule.Speaks r identity m) a.rules with hrules | hfirst
  · cases hdefault : a.defaultPolicy with
    | allow =>
        cases identity with
        | none => exact ⟨_, .defaultAllows hp hrules (.inr rfl) hdefault⟩
        | some i =>
            cases hhook : a.hook with
            | none => exact ⟨_, .defaultAllows hp hrules (.inl hhook) hdefault⟩
            | some f =>
                cases hf : f i m with
                | true => exact ⟨_, .hookAllows hp hrules hhook rfl hf⟩
                | false => exact ⟨_, .hookDenies hp hrules hhook rfl hf⟩
    | deny =>
        cases identity with
        | none => exact ⟨_, .defaultAnonymous hp hrules hdefault rfl⟩
        | some i =>
            cases hhook : a.hook with
            | none =>
                obtain ⟨unmet, hlast⟩ := exists_lastUnmet a.rules i m
                exact ⟨_, .defaultDenies hp hrules hhook hdefault rfl hlast⟩
            | some f =>
                cases hf : f i m with
                | true => exact ⟨_, .hookAllows hp hrules hhook rfl hf⟩
                | false => exact ⟨_, .hookDenies hp hrules hhook rfl hf⟩
  · obtain ⟨before, r, after, hsplit, hr, hbefore⟩ := hfirst
    cases he : r.effect with
    | allow => exact ⟨_, .ruleAllows hp hsplit hbefore hr he⟩
    | deny => exact ⟨_, .ruleDenies hp hsplit hbefore hr he⟩

theorem exists_verdict (a : Authorizer) (p : Option ResolvedPolicy) (identity : Option Identity)
    (m : Method) : ∃ d, a.Verdict p identity m d := by
  cases p with
  | none => exact exists_verdict_of_silent (by simp [Silent])
  | some d =>
      cases hpublic : d.isPublic with
      | true => exact ⟨_, .openToAll rfl hpublic⟩
      | false =>
          cases hrequires : d.requires with
          | some q =>
              cases identity with
              | none => exact ⟨_, .requirementAnonymous rfl hpublic hrequires rfl⟩
              | some i =>
                  by_cases hmet : q.Met i
                  · exact ⟨_, .requirementMet rfl hpublic hrequires rfl hmet⟩
                  · exact ⟨_, .requirementUnmet rfl hpublic hrequires rfl hmet⟩
          | none =>
              cases hpolicy : d.policy with
              | none => exact exists_verdict_of_silent (by simp [Silent, *])
              | some e =>
                  cases identity with
                  | none => exact ⟨_, .policyAnonymous rfl hpublic hrequires hpolicy rfl⟩
                  | some i =>
                      cases e with
                      | allow => exact ⟨_, .policyAllows rfl hpublic hrequires hpolicy rfl⟩
                      | deny => exact ⟨_, .policyDenies rfl hpublic hrequires hpolicy rfl⟩

theorem decideWith_eq_iff (d : Except Error Decision) :
    a.decideWith p identity m = d ↔ a.Verdict p identity m d := by
  refine ⟨?_, Verdict.execution⟩
  rintro rfl
  obtain ⟨d, hd⟩ := exists_verdict a p identity m
  rwa [hd.execution]

end

/-- The decision on a call is the one verdict that can be derived from the options that the
resolver has for the method. -/
theorem decide_eq_iff_verdict (a : Authorizer) (resolver : Option Resolver)
    (identity : Option Identity) (m : Method) (d : Except Error Decision) :
    (a.decide resolver identity m).1 = d ↔
      a.Verdict (resolver.map fun r => (r.resolve m).1) identity m d := by
  have hlook : (lookUp resolver m).1 = resolver.map fun r => (r.resolve m).1 := by
    cases resolver with
    | none => rfl
    | some r => rfl
  rw [← hlook]
  exact decideWith_eq_iff d

end Authorizer

end CallGuard
