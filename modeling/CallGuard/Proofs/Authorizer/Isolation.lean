import CallGuard.Proofs.Authorizer.Verdict
import CallGuard.Proofs.Policy.History

/-! # Methods apart

A decision is about one method. It depends on the rules that select the method and on what is
declared for it; other rules, the options of other methods and services, and the calls that came
before make no difference. -/

namespace CallGuard

/-! ## Answers that are up to date -/

/-- All that a resolver remembers is what its source says. -/
def Resolver.IsCurrent (r : Resolver) : Prop :=
  ∀ m, (r.resolve m).1 = r.source.resolve m

namespace Resolver

theorem isCurrent_ofSource (s : PolicySource) : (ofSource s).IsCurrent :=
  fun _ => rfl

theorem IsCurrent.eq_of_get? {r : Resolver} (h : r.IsCurrent) {m : Method} {p : ResolvedPolicy}
    (hp : Keyed.get? m r.resolved = some p) : p = r.source.resolve m := by
  have hm := h m
  rwa [resolve_fst, hp] at hm

theorem IsCurrent.preload {r : Resolver} (h : r.IsCurrent) (methods : List Method) :
    (r.preload methods).IsCurrent := by
  intro m
  rw [resolve_fst, preload_source, get?_preload]
  cases hp : Keyed.get? m r.resolved with
  | some p => exact h.eq_of_get? hp
  | none => by_cases hm : m ∈ methods <;> simp [hm]

end Resolver

/-! ## What is declared for a method -/

/-- Two sources declare the same for a method when it has the same option in both, and they agree
on those fields of its service that this option leaves open. -/
structure PolicySource.DeclareAlike (m : Method) (s t : PolicySource) : Prop where
  method : s.methodOption m = t.methodOption m
  isPublic : (s.methodOption m).bind (·.isPublic) = none →
    (s.serviceOption m.service).bind (·.isPublic) = (t.serviceOption m.service).bind (·.isPublic)
  /-- A word that stands for no effect leaves the policy open. -/
  policy : ((s.methodOption m).bind (·.policy)).bind Effect.ofWord? = none →
    (s.serviceOption m.service).bind (·.defaultPolicy) =
      (t.serviceOption m.service).bind (·.defaultPolicy)
  requires : (s.methodOption m).bind (·.requires) = none →
    (s.serviceOption m.service).bind (·.defaultRequires) =
      (t.serviceOption m.service).bind (·.defaultRequires)

theorem or_congr_of_none {α : Type} {x y z : Option α} (h : x = none → y = z) :
    x.or y = x.or z := by
  cases x with
  | none => exact h rfl
  | some a => rfl

/-- Fields of the service that the method overrides do not get into force. -/
theorem PolicySource.DeclareAlike.resolve_eq {m : Method} {s t : PolicySource}
    (h : s.DeclareAlike m t) : s.resolve m = t.resolve m := by
  have hpublic := or_congr_of_none h.isPublic
  have hpolicy := or_congr_of_none fun hopen =>
    congrArg (Option.bind · Effect.ofWord?) (h.policy hopen)
  have hrequires := or_congr_of_none h.requires
  rw [resolve, resolve, ResolvedPolicy.merge, ResolvedPolicy.merge, hpublic, hpolicy, hrequires,
    h.method]

namespace Authorizer

/-! ## Earlier uses -/

/-- What can be done with an authorizer, and with the resolver behind it. -/
inductive Use where
  | decide (identity : Option Identity) (m : Method)
  | authorize (identity : Option Identity) (m : Method)
  | resolve (m : Method)
  | preload (methods : List Method)

/-- The methods that a use asks the resolver for. -/
def Use.methods : Use → List Method
  | decide _ m | authorize _ m | resolve m => [m]
  | preload methods => methods

/-- The resolver after a use, if there is one. -/
def afterUse (a : Authorizer) (r : Option Resolver) : Use → Option Resolver
  | .decide identity m => (a.decide r identity m).2
  | .authorize identity m => (a.authorize r identity m).2
  | .resolve m => r.map fun r => (r.resolve m).2
  | .preload methods => r.map fun r => r.preload methods

def after (a : Authorizer) (r : Option Resolver) (uses : List Use) : Option Resolver :=
  uses.foldl a.afterUse r

/-- A resolver, if there is one, goes by a source and is current. -/
structure GoesBy (r : Option Resolver) (s : Option PolicySource) : Prop where
  source_eq : r.map (·.source) = s
  current : ∀ r', r = some r' → r'.IsCurrent

section

variable {a b : Authorizer} {r : Option Resolver} {s : Option PolicySource}

theorem goesBy_ofSource (s : Option PolicySource) : GoesBy (s.map .ofSource) s where
  source_eq := by
    cases s <;> rfl
  current r' hr' := by
    obtain ⟨s', -, rfl⟩ := Option.map_eq_some_iff.mp hr'
    exact Resolver.isCurrent_ofSource s'

/-- However an authorizer is used, it only makes the resolver remember more. -/
theorem afterUse_eq (a : Authorizer) (r : Option Resolver) (use : Use) :
    a.afterUse r use = r.map fun r => r.preload use.methods := by
  cases r <;> cases use <;> rfl

theorem GoesBy.afterUse (h : GoesBy r s) (a : Authorizer) (use : Use) :
    GoesBy (a.afterUse r use) s := by
  rw [afterUse_eq]
  constructor
  · rw [← h.source_eq, Option.map_map]
    exact congrArg (Option.map · r) (funext fun r' => r'.preload_source use.methods)
  · intro r' hr'
    obtain ⟨r'', hr'', rfl⟩ := Option.map_eq_some_iff.mp hr'
    exact (h.current r'' hr'').preload use.methods

theorem GoesBy.after (h : GoesBy r s) (a : Authorizer) (uses : List Use) :
    GoesBy (a.after r uses) s := by
  induction uses generalizing r with
  | nil => exact h
  | cons use rest ih => exact ih (h.afterUse a use)

/-! ## The decision on one method -/

/-- An authorizer without a source decides as if nothing were declared. -/
theorem GoesBy.decide_eq (h : GoesBy r s) (a : Authorizer) (identity : Option Identity)
    (m : Method) : (a.decide r identity m).1 =
      a.decideWith (some ((s.getD .empty).resolve m)) identity m := by
  rw [← h.source_eq]
  cases r with
  | some r =>
      have hm := h.current r rfl m
      exact congrArg (fun p => a.decideWith (some p) identity m) hm
  | none =>
      have hnone : Silent none := fun _ hd => absurd hd (by simp)
      have hempty : Silent (some (PolicySource.empty.resolve m)) := by
        rintro d ⟨⟩
        exact ⟨rfl, rfl, rfl⟩
      exact (decideWith_of_silent hnone).trans (decideWith_of_silent hempty).symm

/-- Rules that do not select the method are passed without a trace. -/
theorem walk_filter (m : Method) (identity : Option Identity) (unmet : Option Requirement)
    (rules : List Rule) :
    walk m identity unmet (rules.filter fun r => r.selects m) = walk m identity unmet rules := by
  induction rules generalizing unmet with
  | nil => rfl
  | cons r rest ih =>
      by_cases h : r.selects m = true
      · rw [List.filter_cons, if_pos h, walk, walk]
        simp only [ih]
      · rw [List.filter_cons, if_neg h, ih, walk]
        simp [h]

/-- Two authorizers have the same to say on a method: their rules that select it are the same, and
so are the hook and the default. -/
structure Concur (m : Method) (a b : Authorizer) : Prop where
  rules : (a.rules.filter fun r => r.selects m) = b.rules.filter fun r => r.selects m
  hook : a.hook = b.hook
  defaultPolicy : a.defaultPolicy = b.defaultPolicy

theorem Concur.decideWith_eq {m : Method} (h : Concur m a b) (p : Option ResolvedPolicy)
    (identity : Option Identity) : a.decideWith p identity m = b.decideWith p identity m := by
  have hwalk : walk m identity none a.rules = walk m identity none b.rules := by
    rw [← walk_filter, h.rules, walk_filter]
  have hdefault (unmet : Option Requirement) :
      a.decideDefault identity unmet = b.decideDefault identity unmet := by
    rw [decideDefault, decideDefault, h.defaultPolicy]
  rw [decideWith, decideWith, decideOpen, decideOpen, hwalk, h.hook]
  simp only [hdefault]

end

/-- Methods are isolated from each other, and decisions from what happened before. Where two
authorizers concur on a method and the same is declared for it, they decide alike on every call to
it, however each of them was used before. -/
theorem decide_isolated {m : Method} {a b : Authorizer} (hconcur : Concur m a b)
    {s t : Option PolicySource} (hdeclared : (s.getD .empty).DeclareAlike m (t.getD .empty))
    (uses uses' : List Use) (identity : Option Identity) :
    (a.decide (a.after (s.map .ofSource) uses) identity m).1 =
      (b.decide (b.after (t.map .ofSource) uses') identity m).1 := by
  rw [((goesBy_ofSource s).after a uses).decide_eq, ((goesBy_ofSource t).after b uses').decide_eq,
    hdeclared.resolve_eq, hconcur.decideWith_eq]

/-! ## Two authorizers for one method -/

def readersSample : Rule :=
  ⟨"readers", [.ofService "Users"], .allow, some (.ofScopes ["read"])⟩

def ordersSample : Authorizer :=
  ⟨[⟨"no orders", [.ofService "Orders"], .deny, none⟩, readersSample], none, .deny⟩

def resetSample : Authorizer :=
  ⟨[readersSample, ⟨"no resets", [.single "Users" "Reset"], .deny, none⟩], none, .deny⟩

/-- The method is not public, whatever its service says, and its policy is no effect. -/
def publicSample : PolicySource :=
  ⟨[(⟨"Users", "Get"⟩, ⟨some false, some "maybe", none⟩)], [("Users", ⟨some true, none, none⟩)]⟩

def quietSample : PolicySource :=
  ⟨[(⟨"Orders", "List"⟩, ⟨some true, none, none⟩),
    (⟨"Users", "Get"⟩, ⟨some false, some "maybe", none⟩)], []⟩

theorem decide_isolated_sample :
    Concur ⟨"Users", "Get"⟩ ordersSample resetSample ∧
      publicSample.DeclareAlike ⟨"Users", "Get"⟩ quietSample ∧
      (ordersSample.decide (ordersSample.after (some (.ofSource publicSample))
          [.preload [⟨"Users", "List"⟩], .decide none ⟨"Users", "Get"⟩])
        (some (.ofSubject "u")) ⟨"Users", "Get"⟩).1 =
      (resetSample.decide (resetSample.after (some (.ofSource quietSample))
          [.authorize (some (.ofSubject "v")) ⟨"Orders", "List"⟩])
        (some (.ofSubject "u")) ⟨"Users", "Get"⟩).1 ∧
      (resetSample.decide (some (.ofSource quietSample)) (some (.ofSubject "u"))
        ⟨"Users", "Get"⟩).1 = .ok (.deny "default-policy" (some (.ofScopes ["read"]))) := by
  have hconcur : Concur ⟨"Users", "Get"⟩ ordersSample resetSample := ⟨rfl, rfl, rfl⟩
  have hdeclared : publicSample.DeclareAlike ⟨"Users", "Get"⟩ quietSample :=
    { method := rfl
      isPublic := fun hopen => absurd hopen (by decide)
      policy := fun _ => rfl
      requires := fun _ => rfl }
  have halike := decide_isolated (s := some publicSample) (t := some quietSample) hconcur hdeclared
    [.preload [⟨"Users", "List"⟩], .decide none ⟨"Users", "Get"⟩]
    [.authorize (some (.ofSubject "v")) ⟨"Orders", "List"⟩] (some (.ofSubject "u"))
  exact ⟨hconcur, hdeclared, halike, rfl⟩

end Authorizer

end CallGuard
