import CallGuard.Proofs.Authorizer.Isolation

/-! # The last word on a method

A method has the last word on each field of its options, and only on the fields that it declares.
The policy is the last field that is looked at. So a method that declares no more than to be denied
stays open to those whom its service lets in by an earlier field, and to nobody else. -/

namespace CallGuard

/-! ## Merged fields -/

/-- The option of a method denies all calls. It neither makes the method public nor asks for
anything. -/
structure MethodOption.Denies (o : MethodOption) : Prop where
  policy : o.policy = some "deny"
  isPublic : o.isPublic ≠ some true
  requires : o.requires = none

/-- A service lets a caller in whom the option of the method denies: it is public, which the method
does not contradict, or it asks for what the caller has. -/
inductive ServiceOption.LetsIn (t : ServiceOption) (o : MethodOption)
    (identity : Option Identity) : Prop where
  | isPublic : o.isPublic = none → t.isPublic = some true → LetsIn t o identity
  | requires {q i} : t.defaultRequires = some q → identity = some i → q.Met i →
      LetsIn t o identity

namespace ResolvedPolicy

/-- A service makes a method public that does not say whether it is. -/
theorem merge_isPublic_iff (o : MethodOption) (service : Option ServiceOption) :
    (merge (some o) service).isPublic = true ↔
      o.isPublic = some true ∨
        o.isPublic = none ∧ ∃ t, service = some t ∧ t.isPublic = some true := by
  cases ho : o.isPublic with
  | some b => simp [merge, ho]
  | none =>
      cases service with
      | none => simp [merge, ho]
      | some t => cases ht : t.isPublic <;> simp [merge, ho, ht]

theorem merge_policy_of_denies {o : MethodOption} (ho : o.Denies)
    (service : Option ServiceOption) : (merge (some o) service).policy = some .deny := by
  have hword : Effect.ofWord? "deny" = some .deny := Effect.ofWord?_word .deny
  simp [merge, ho.policy, hword]

theorem merge_requires_of_denies {o : MethodOption} (ho : o.Denies)
    (service : Option ServiceOption) :
    (merge (some o) service).requires = service.bind (·.defaultRequires) := by
  simp [merge, ho.requires]

end ResolvedPolicy

/-! ## Who gets in -/

namespace Authorizer

variable {a : Authorizer} {identity : Option Identity} {m : Method}

/-- Where the policy in force denies, only the fields before it let a caller in, and no rule, hook
or default does. -/
theorem decideWith_allow_iff_of_deny {d : ResolvedPolicy} (hdeny : d.policy = some .deny) :
    a.decideWith (some d) identity m = .ok .allow ↔
      d.isPublic = true ∨ ∃ q i, d.requires = some q ∧ identity = some i ∧ q.Met i := by
  have hspoken : ¬ Silent (some d) := by
    intro hsilent
    obtain ⟨-, -, hnone⟩ := hsilent d rfl
    rw [hdeny] at hnone
    cases hnone
  rw [decideWith_eq_iff]
  constructor
  · intro hverdict
    cases hverdict with
    | openToAll hp hpublic =>
        cases hp
        exact .inl hpublic
    | requirementMet hp _ hq hi hmet =>
        cases hp
        exact .inr ⟨_, _, hq, hi, hmet⟩
    | policyAllows hp _ _ hallow =>
        cases hp
        rw [hdeny] at hallow
        cases hallow
    | ruleAllows hp => exact absurd hp hspoken
    | hookAllows hp => exact absurd hp hspoken
    | defaultAllows hp => exact absurd hp hspoken
  · rintro (hpublic | ⟨q, i, hq, hi, hmet⟩)
    · exact .openToAll rfl hpublic
    · cases hpublic : d.isPublic with
      | true => exact .openToAll rfl hpublic
      | false => exact .requirementMet rfl hpublic hq hi hmet

/-- A method that denies all calls by its own option is open exactly to those whom its service lets
in, whatever the rules, the hook and the default are, and however the authorizer was used before. -/
theorem decide_allow_iff_of_denies {s : PolicySource} {o : MethodOption}
    (ho : s.methodOption m = some o) (hdenies : o.Denies) (a : Authorizer) (uses : List Use)
    (identity : Option Identity) :
    (a.decide (a.after (some (.ofSource s)) uses) identity m).1 = .ok .allow ↔
      ∃ t, s.serviceOption m.service = some t ∧ t.LetsIn o identity := by
  have hgoes : GoesBy (a.after (some (.ofSource s)) uses) (some s) :=
    (goesBy_ofSource (some s)).after a uses
  have hresolve : ((some s).getD .empty).resolve m =
      .merge (some o) (s.serviceOption m.service) := by
    rw [Option.getD_some, PolicySource.resolve, ho]
  rw [hgoes.decide_eq, hresolve,
    decideWith_allow_iff_of_deny (ResolvedPolicy.merge_policy_of_denies hdenies _),
    ResolvedPolicy.merge_isPublic_iff, ResolvedPolicy.merge_requires_of_denies hdenies]
  constructor
  · rintro ((hpublic | ⟨hopen, t, ht, hpublic⟩) | ⟨q, i, hq, hi, hmet⟩)
    · exact absurd hpublic hdenies.isPublic
    · exact ⟨t, ht, .isPublic hopen hpublic⟩
    · obtain ⟨t, ht, hq⟩ := Option.bind_eq_some_iff.mp hq
      exact ⟨t, ht, .requires hq hi hmet⟩
  · rintro ⟨t, ht, hlets⟩
    cases hlets with
    | isPublic hopen hpublic => exact .inl (.inr ⟨hopen, t, ht, hpublic⟩)
    | @requires q i hq hi hmet =>
        exact .inr ⟨q, i, Option.bind_eq_some_iff.mpr ⟨t, ht, hq⟩, hi, hmet⟩

/-! ## Denied methods of open services -/

/-- Two methods that are denied, one of a public service and one of a service for admins. -/
def deniedSample : PolicySource where
  methodOptions := [(⟨"Users", "Reset"⟩, ⟨none, some "deny", none⟩),
    (⟨"Orders", "Drop"⟩, ⟨some false, some "deny", none⟩)]
  serviceOptions := [("Users", ⟨some true, none, none⟩),
    ("Orders", ⟨some true, some "allow", some (.ofRoles ["admin"])⟩)]

def keeperSample : Authorizer := ⟨[], none, .deny⟩

/-- Not every caller of the second service gets in. -/
theorem decide_allow_iff_of_denies_sample :
    deniedSample.methodOption ⟨"Orders", "Drop"⟩ = some ⟨some false, some "deny", none⟩ ∧
      MethodOption.Denies ⟨some false, some "deny", none⟩ ∧
      (keeperSample.decide (keeperSample.after (some (.ofSource deniedSample))
          [.preload [⟨"Orders", "Drop"⟩]]) (some (.ofSubject "u")) ⟨"Orders", "Drop"⟩).1 ≠
        .ok .allow := by
  have hdenies : MethodOption.Denies ⟨some false, some "deny", none⟩ :=
    ⟨rfl, by decide, rfl⟩
  refine ⟨rfl, hdenies, ?_⟩
  rw [ne_eq, decide_allow_iff_of_denies rfl hdenies keeperSample [.preload [⟨"Orders", "Drop"⟩]]]
  rintro ⟨t, ht, hlets⟩
  obtain rfl : ServiceOption.mk (some true) (some "allow") (some (.ofRoles ["admin"])) = t :=
    Option.some.inj ht
  cases hlets with
  | isPublic hopen => cases hopen
  | requires hq hi hmet =>
      cases hq
      cases hi
      simp [Requirement.Met, Requirement.ofRoles, Identity.ofSubject, NameList.empty] at hmet

/-- A service opens methods that are denied, to everybody or to some. -/
theorem service_opens_denied_methods :
    deniedSample.methodOption ⟨"Users", "Reset"⟩ = some ⟨none, some "deny", none⟩ ∧
      (keeperSample.decide (some (.ofSource deniedSample)) none ⟨"Users", "Reset"⟩).1 =
        .ok .allow ∧
      deniedSample.methodOption ⟨"Orders", "Drop"⟩ = some ⟨some false, some "deny", none⟩ ∧
      (keeperSample.decide (some (.ofSource deniedSample))
          (some ((Identity.ofSubject "u").addRoles ["admin"])) ⟨"Orders", "Drop"⟩).1 =
        .ok .allow :=
  ⟨rfl, rfl, rfl, rfl⟩

end Authorizer

end CallGuard
