import CallGuard.Proofs.Authorizer.Verdict
import CallGuard.Proofs.Identities

/-! # Callers with more rights

A caller with more roles and scopes meets more requirements, so another rule may be the first that
speaks. As long as only rules that allow ask for anything, the new rule allows, and nobody loses
access by gaining rights. -/

namespace CallGuard

/-- The second caller has all the rights of the first. An unknown caller has none. -/
inductive RightsWithin : Option Identity → Option Identity → Prop where
  | anonymous (caller : Option Identity) : RightsWithin none caller
  | known {i j : Identity} : i.roles.names ⊆ j.roles.names → i.scopes.names ⊆ j.scopes.names →
      RightsWithin (some i) (some j)

variable {lesser greater : Option Identity} {m : Method}

/-! ## Requirements and rules -/

theorem Requirement.Met.mono {q : Requirement} {i j : Identity} (hmet : q.Met i)
    (hroles : i.roles.names ⊆ j.roles.names) (hscopes : i.scopes.names ⊆ j.scopes.names) :
    q.Met j := by
  rw [← Requirement.isMetBy_iff] at hmet ⊢
  exact Requirement.isMetBy_mono hroles hscopes hmet

/-- What is asked of a known caller is met by everyone with the rights of that caller. -/
theorem RightsWithin.exists_met (h : RightsWithin lesser greater) {q : Requirement}
    (hmet : ∃ i, lesser = some i ∧ q.Met i) : ∃ j, greater = some j ∧ q.Met j := by
  obtain ⟨i, hi, hmet⟩ := hmet
  cases h with
  | anonymous caller => cases hi
  | @known _ j hroles hscopes =>
      cases hi
      exact ⟨j, rfl, hmet.mono hroles hscopes⟩

theorem Rule.Speaks.mono {r : Rule} (hspeaks : r.Speaks lesser m)
    (h : RightsWithin lesser greater) : r.Speaks greater m := by
  refine ⟨hspeaks.1, ?_⟩
  intro q hq
  exact h.exists_met (hspeaks.2 q hq)

/-- A rule that starts to speak when a caller gains rights asks for something. -/
theorem Rule.requires_ne_none {r : Rule} (hgreater : r.Speaks greater m)
    (hlesser : ¬ r.Speaks lesser m) : r.requires ≠ none := by
  intro hnone
  refine hlesser ⟨hgreater.1, ?_⟩
  intro q hq
  rw [hnone] at hq
  cases hq

namespace Authorizer

/-- Nobody is denied a call for what they have: there is no hook to see it, and the rules that deny
ask for nothing. -/
structure DeniesBlindly (a : Authorizer) : Prop where
  hook : a.hook = none
  rules : ∀ r ∈ a.rules, r.effect = .deny → r.requires = none

section

variable {a : Authorizer} {p : Option ResolvedPolicy}

/-! ## The rule that decides -/

theorem DeniesBlindly.allows_of_speaks (ha : a.DeniesBlindly) {r : Rule} (hr : r ∈ a.rules)
    (hgreater : r.Speaks greater m) (hlesser : ¬ r.Speaks lesser m) : r.effect = .allow := by
  cases he : r.effect with
  | allow => rfl
  | deny => exact absurd (ha.rules r hr he) (Rule.requires_ne_none hgreater hlesser)

/-- Of the rules that did not speak, the first that does now allows the call. -/
theorem DeniesBlindly.verdict_of_earlier (ha : a.DeniesBlindly) (hp : Silent p)
    {before rest : List Rule} (hrules : a.rules = before ++ rest)
    (hbefore : ∀ r ∈ before, ¬ r.Speaks lesser m)
    (hspeaks : ¬ ∀ r ∈ before, ¬ r.Speaks greater m) : a.Verdict p greater m (.ok .allow) := by
  rcases exists_first (fun r => Rule.Speaks r greater m) before with hnone | hfirst
  · exact absurd hnone hspeaks
  · obtain ⟨front, r, back, hsplit, hr, hfront⟩ := hfirst
    have hmem : r ∈ before := by simp [hsplit]
    have hallow : r.effect = .allow :=
      ha.allows_of_speaks (hrules ▸ List.mem_append_left rest hmem) hr (hbefore r hmem)
    have hfirst : a.rules = front ++ r :: (back ++ rest) := by
      rw [hrules, hsplit, List.append_assoc, List.cons_append]
    exact .ruleAllows hp hfirst hfront hr hallow

/-- If a rule allows the call of a caller, it or an earlier one allows it to those with more
rights. -/
theorem DeniesBlindly.verdict_of_rule (ha : a.DeniesBlindly) (h : RightsWithin lesser greater)
    (hp : Silent p) {before after : List Rule} {r : Rule} (hrules : a.rules = before ++ r :: after)
    (hbefore : ∀ s ∈ before, ¬ s.Speaks lesser m) (hr : r.Speaks lesser m)
    (hallow : r.effect = .allow) : a.Verdict p greater m (.ok .allow) := by
  by_cases hspeaks : ∀ s ∈ before, ¬ s.Speaks greater m
  · exact .ruleAllows hp hrules hspeaks (hr.mono h) hallow
  · exact ha.verdict_of_earlier hp hrules hbefore hspeaks

/-- If no rule speaks and the default allows, gaining rights can only make a rule speak that allows
as well. -/
theorem DeniesBlindly.verdict_of_default (ha : a.DeniesBlindly) (hp : Silent p)
    (hrules : ∀ r ∈ a.rules, ¬ r.Speaks lesser m) (hallow : a.defaultPolicy = .allow) :
    a.Verdict p greater m (.ok .allow) := by
  by_cases hspeaks : ∀ r ∈ a.rules, ¬ r.Speaks greater m
  · exact .defaultAllows hp hspeaks (.inl ha.hook) hallow
  · exact ha.verdict_of_earlier hp (List.append_nil _).symm hrules hspeaks

/-! ## All stages -/

theorem DeniesBlindly.verdict_mono (ha : a.DeniesBlindly) (h : RightsWithin lesser greater)
    (hverdict : a.Verdict p lesser m (.ok .allow)) : a.Verdict p greater m (.ok .allow) := by
  cases hverdict with
  | openToAll hp hpublic => exact .openToAll hp hpublic
  | requirementMet hp hpublic hrequires hi hmet =>
      obtain ⟨j, hj, hmet⟩ := h.exists_met ⟨_, hi, hmet⟩
      exact .requirementMet hp hpublic hrequires hj hmet
  | policyAllows hp hpublic hrequires hpolicy hi =>
      cases h with
      | anonymous caller => cases hi
      | known _ _ => exact .policyAllows hp hpublic hrequires hpolicy rfl
  | ruleAllows hp hrules hbefore hr hallow =>
      exact ha.verdict_of_rule h hp hrules hbefore hr hallow
  | hookAllows hp hrules hhook hi hf =>
      rw [ha.hook] at hhook
      cases hhook
  | defaultAllows hp hrules hhook hallow => exact ha.verdict_of_default hp hrules hallow

theorem DeniesBlindly.decideWith_mono (ha : a.DeniesBlindly) (h : RightsWithin lesser greater)
    (hallow : a.decideWith p lesser m = .ok .allow) : a.decideWith p greater m = .ok .allow := by
  rw [decideWith_eq_iff] at hallow ⊢
  exact ha.verdict_mono h hallow

/-- A method has the same declared options when it is looked up again. -/
theorem lookUp_lookUp (resolver : Option Resolver) (m : Method) :
    (lookUp (lookUp resolver m).2 m).1 = (lookUp resolver m).1 := by
  cases resolver with
  | none => rfl
  | some r => exact congrArg some (r.resolve_resolve m)

end

/-- More rights never lose access. Where nobody is denied for what they have, a call that one
caller may make is open to all with the same rights or more, whether they make it in the place of
that caller or after; and what may be done without an identity may be done with any. -/
theorem decide_allow_mono {a : Authorizer} (ha : a.DeniesBlindly) (resolver : Option Resolver)
    {lesser greater : Option Identity} (h : RightsWithin lesser greater) {m : Method}
    (hallow : (a.decide resolver lesser m).1 = .ok .allow) :
    (a.decide resolver greater m).1 = .ok .allow ∧
      (a.decide (a.decide resolver lesser m).2 greater m).1 = .ok .allow := by
  have hmono : a.decideWith (lookUp resolver m).1 greater m = .ok .allow :=
    ha.decideWith_mono h hallow
  refine ⟨hmono, ?_⟩
  have hagain : (lookUp (a.decide resolver lesser m).2 m).1 = (lookUp resolver m).1 :=
    lookUp_lookUp resolver m
  rw [← hagain] at hmono
  exact hmono

/-! ## Readers and admins -/

/-- Admins may do everything, readers may do everything but reset, and all the rest is denied. -/
def tieredSample : Authorizer where
  rules := [⟨"admins", [.all], .allow, some (.ofRoles ["admin"])⟩,
    ⟨"no resets", [.single "Users" "Reset"], .deny, none⟩,
    ⟨"readers", [.all], .allow, some (.ofScopes ["read"])⟩]
  hook := none
  defaultPolicy := .deny

def readerSample : Identity :=
  (Identity.ofSubject "u").addScopes ["read"]

def adminSample : Identity :=
  ((Identity.ofSubject "v").addRoles ["admin"]).addScopes ["write", "read"]

/-- A reader is let in by the last rule, and a reader who is an admin by the first. -/
theorem decide_allow_mono_sample :
    tieredSample.DeniesBlindly ∧ RightsWithin (some readerSample) (some adminSample) ∧
      (tieredSample.decide (some (.ofSource .empty)) (some readerSample) ⟨"Users", "Get"⟩).1 =
        .ok .allow ∧
      (tieredSample.decide (some (.ofSource .empty)) (some adminSample) ⟨"Users", "Get"⟩).1 =
        .ok .allow := by
  have hblind : tieredSample.DeniesBlindly := ⟨rfl, by simp [tieredSample]⟩
  have hrights : RightsWithin (some readerSample) (some adminSample) :=
    .known (List.nil_subset _) (by decide)
  have hreader : (tieredSample.decide (some (.ofSource .empty)) (some readerSample)
      ⟨"Users", "Get"⟩).1 = .ok .allow := rfl
  exact ⟨hblind, hrights, hreader, (decide_allow_mono hblind _ hrights hreader).1⟩

-- a rule that denies and asks for a role takes access away from those who gain the role
example :
    let a : Authorizer := ⟨[⟨"no guests", [.all], .deny, some (.ofRoles ["guest"])⟩], none, .allow⟩
    (a.decide none (some (.ofSubject "u")) ⟨"Users", "Get"⟩).1 = .ok .allow ∧
      (a.decide none (some ((Identity.ofSubject "u").addRoles ["guest"])) ⟨"Users", "Get"⟩).1 =
        .ok (.deny "no guests" none) :=
  ⟨rfl, rfl⟩

end Authorizer

end CallGuard
