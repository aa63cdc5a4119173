import CallGuard.Policy.Resolver
import Mathlib.Data.Finset.Card
import Mathlib.Data.Finset.Dedup
import Mathlib.Data.List.TakeWhile

/-! # What a resolver remembers of its history

A resolver answers for a method as its source stood when the method was first asked for. So the
answers are told by the history alone: the options that were declared last before the first
question are in force, and nothing that happens later or elsewhere changes them. -/

namespace CallGuard

/-! ## Tables -/

namespace Keyed

variable {κ α : Type} [DecidableEq κ]

theorem nodup_keys_set {table : List (κ × α)} (h : (keys table).Nodup) (key : κ) (value : α) :
    (keys (set key value table)).Nodup := by
  have hsublist : (keys (erase key table)).Sublist (keys table) := List.filter_sublist.map Prod.fst
  have hnew : key ∉ keys (erase key table) := get?_eq_none_iff.mp (get?_erase_self key table)
  exact List.nodup_cons.mpr ⟨hnew, h.sublist hsublist⟩

end Keyed

/-! ## Questions -/

namespace Resolver

theorem resolve_fst (r : Resolver) (m : Method) :
    (r.resolve m).1 = (Keyed.get? m r.resolved).getD (r.source.resolve m) := by
  unfold resolve
  cases Keyed.get? m r.resolved <;> rfl

theorem resolve_source (r : Resolver) (m : Method) : (r.resolve m).2.source = r.source := by
  unfold resolve
  cases Keyed.get? m r.resolved <;> rfl

theorem get?_resolve (r : Resolver) (m other : Method) :
    Keyed.get? other (r.resolve m).2.resolved =
      (Keyed.get? other r.resolved).or
        (if other = m then some (r.source.resolve other) else none) := by
  unfold resolve
  by_cases h : other = m
  · subst h
    cases hk : Keyed.get? other r.resolved with
    | some p => simp [hk]
    | none => simp [Keyed.get?_set_self]
  · rw [if_neg h, Option.or_none]
    cases Keyed.get? m r.resolved with
    | some p => rfl
    | none => exact Keyed.get?_set_of_ne h _ _

theorem nodup_resolve {r : Resolver} (h : (Keyed.keys r.resolved).Nodup) (m : Method) :
    (Keyed.keys (r.resolve m).2.resolved).Nodup := by
  unfold resolve
  cases Keyed.get? m r.resolved with
  | some p => exact h
  | none => exact Keyed.nodup_keys_set h m _

theorem preload_source (r : Resolver) (methods : List Method) :
    (r.preload methods).source = r.source := by
  induction methods generalizing r with
  | nil => rfl
  | cons m rest ih => exact (ih (r.resolve m).2).trans (r.resolve_source m)

/-- Asking for some methods fills in what is not remembered yet, and nothing else. -/
theorem get?_preload (r : Resolver) (methods : List Method) (other : Method) :
    Keyed.get? other (r.preload methods).resolved =
      (Keyed.get? other r.resolved).or
        (if other ∈ methods then some (r.source.resolve other) else none) := by
  induction methods generalizing r with
  | nil => simp [preload]
  | cons m rest ih =>
      have hstep : r.preload (m :: rest) = (r.resolve m).2.preload rest := rfl
      rw [hstep, ih, get?_resolve, resolve_source, Option.or_assoc]
      by_cases hm : other = m
      · simp [hm]
      · simp [hm]

theorem nodup_preload {r : Resolver} (h : (Keyed.keys r.resolved).Nodup) (methods : List Method) :
    (Keyed.keys (r.preload methods).resolved).Nodup := by
  induction methods generalizing r with
  | nil => exact h
  | cons m rest ih => exact ih (nodup_resolve h m)

end Resolver

/-! ## Histories -/

/-- What can be done with a source and with the resolver over it. -/
inductive PolicyOperation where
  | setMethod (m : Method) (o : MethodOption)
  | setService (service : String) (o : ServiceOption)
  | methodOption (m : Method)
  | serviceOption (service : String)
  | resolve (m : Method)
  | preload (methods : List Method)
  | size

inductive PolicyAnswer where
  | done
  | methodOption (o : Option MethodOption)
  | serviceOption (o : Option ServiceOption)
  | resolved (p : ResolvedPolicy)
  | size (n : Nat)

namespace PolicyOperation

/-- The option that an operation declares for a method. -/
def declared? (m : Method) : PolicyOperation → Option MethodOption
  | setMethod other o => if other = m then some o else none
  | _ => none

/-- The option that an operation declares for a service. -/
def declaredService? (service : String) : PolicyOperation → Option ServiceOption
  | setService other o => if other = service then some o else none
  | _ => none

/-- The methods that an operation asks the resolver for. -/
def asked : PolicyOperation → List Method
  | resolve m => [m]
  | preload methods => methods
  | _ => []

/-- What is left of an operation for one method: a change of its own option or of that of its
service, or a question for it. -/
def concerning? (m : Method) : PolicyOperation → Option PolicyOperation
  | setMethod other o => if other = m then some (setMethod other o) else none
  | setService service o => if service = m.service then some (setService service o) else none
  | resolve other => if other = m then some (resolve other) else none
  | preload methods => if m ∈ methods then some (resolve m) else none
  | methodOption _ | serviceOption _ | size => none

/-- The source after an operation. -/
def change (s : PolicySource) : PolicyOperation → PolicySource
  | setMethod m o => s.setMethod m o
  | setService service o => s.setService service o
  | _ => s

theorem change_of_asked {m : Method} {op : PolicyOperation} (h : m ∈ op.asked) (s : PolicySource) :
    op.change s = s := by
  cases op with
  | setMethod other o => exact absurd h List.not_mem_nil
  | setService service o => exact absurd h List.not_mem_nil
  | _ => rfl

theorem methodOption_change (op : PolicyOperation) (s : PolicySource) (m : Method) :
    (op.change s).methodOption m = (op.declared? m).or (s.methodOption m) := by
  cases op with
  | setMethod other o =>
      by_cases h : other = m
      · simp [change, declared?, PolicySource.setMethod, PolicySource.methodOption, h,
          Keyed.get?_set_self]
      · simp [change, declared?, PolicySource.setMethod, PolicySource.methodOption, h,
          Keyed.get?_set_of_ne (Ne.symm h)]
  | _ => rfl

theorem serviceOption_change (op : PolicyOperation) (s : PolicySource) (service : String) :
    (op.change s).serviceOption service =
      (op.declaredService? service).or (s.serviceOption service) := by
  cases op with
  | setService other o =>
      by_cases h : other = service
      · simp [change, declaredService?, PolicySource.setService, PolicySource.serviceOption, h,
          Keyed.get?_set_self]
      · simp [change, declaredService?, PolicySource.setService, PolicySource.serviceOption, h,
          Keyed.get?_set_of_ne (Ne.symm h)]
  | _ => rfl

/-- What is left of an operation for a method asks for it and declares its options as the whole
does. -/
theorem concerning?_spec (m : Method) (op : PolicyOperation) :
    (op.concerning? m).all (fun op => m ∉ op.asked) = decide (m ∉ op.asked) ∧
      (op.concerning? m).bind (declared? m) = op.declared? m ∧
      (op.concerning? m).bind (declaredService? m.service) = op.declaredService? m.service := by
  cases op with
  | setMethod other o =>
      by_cases h : other = m <;> simp [concerning?, asked, declared?, declaredService?, h]
  | setService service o =>
      by_cases h : service = m.service <;>
        simp [concerning?, asked, declared?, declaredService?, h]
  | resolve other =>
      by_cases h : other = m
      · simp [concerning?, asked, declared?, declaredService?, h]
      · simp [concerning?, asked, declared?, declaredService?, h, Ne.symm h]
  | preload methods =>
      by_cases h : m ∈ methods <;> simp [concerning?, asked, declared?, declaredService?, h]
  | methodOption _ => exact ⟨rfl, rfl, rfl⟩
  | serviceOption _ => exact ⟨rfl, rfl, rfl⟩
  | size => exact ⟨rfl, rfl, rfl⟩

end PolicyOperation

namespace PolicyHistory

open PolicyOperation (declared? declaredService? concerning? concerning?_spec)

/-- The last option that is found among those that some operations declare. -/
def last? {α : Type} (option? : PolicyOperation → Option α) (past : List PolicyOperation) :
    Option α :=
  (past.filterMap option?).getLast?

/-- The option that was declared last for a method. -/
def methodOption? (past : List PolicyOperation) (m : Method) : Option MethodOption :=
  last? (declared? m) past

/-- The option that was declared last for a service. -/
def serviceOption? (past : List PolicyOperation) (service : String) : Option ServiceOption :=
  last? (declaredService? service) past

/-- What happened before a method was first asked for, which is everything if it never was. -/
def beforeAsked (past : List PolicyOperation) (m : Method) : List PolicyOperation :=
  past.takeWhile fun op => m ∉ op.asked

/-- The declarations in force for a method: those that were the last when it was first asked
for. -/
def policy (past : List PolicyOperation) (m : Method) : ResolvedPolicy :=
  .merge (methodOption? (beforeAsked past m) m) (serviceOption? (beforeAsked past m) m.service)

def asked (past : List PolicyOperation) : List Method :=
  past.flatMap PolicyOperation.asked

/-- The answer to an operation, told by what happened before. -/
def answer (past : List PolicyOperation) : PolicyOperation → PolicyAnswer
  | .setMethod _ _ | .setService _ _ | .preload _ => .done
  | .methodOption m => .methodOption (methodOption? past m)
  | .serviceOption service => .serviceOption (serviceOption? past service)
  | .resolve m => .resolved (policy past m)
  | .size => .size ((asked past).map fun m => (m.service, m.name)).toFinset.card

/-- The answers to some operations after others. -/
def answers (past : List PolicyOperation) : List PolicyOperation → List PolicyAnswer
  | [] => []
  | op :: rest => answer past op :: answers (past ++ [op]) rest

variable {past : List PolicyOperation} {op : PolicyOperation} {m : Method}

theorem last?_append {α : Type} (option? : PolicyOperation → Option α)
    (past : List PolicyOperation) (op : PolicyOperation) :
    last? option? (past ++ [op]) = (option? op).or (last? option? past) := by
  rw [last?, List.filterMap_append, List.getLast?_append]
  cases h : option? op <;> simp [h, last?]

theorem mem_asked_append_iff :
    m ∈ asked (past ++ [op]) ↔ m ∈ asked past ∨ m ∈ op.asked := by
  simp [asked]

/-- Once a method was asked for, whatever happens is too late for it. -/
theorem beforeAsked_append (h : m ∈ asked past) (more : List PolicyOperation) :
    beforeAsked (past ++ more) m = beforeAsked past m := by
  induction past with
  | nil => exact absurd h List.not_mem_nil
  | cons op past ih =>
      by_cases hop : m ∈ op.asked
      · simp [beforeAsked, hop]
      · have hrest : m ∈ asked past := by simpa [asked, hop] using h
        simpa [beforeAsked, hop] using ih hrest

theorem beforeAsked_eq_self (h : m ∉ asked past) : beforeAsked past m = past := by
  rw [beforeAsked, List.takeWhile_eq_self_iff]
  intro op hop
  have hnot : m ∉ op.asked := fun hm => h (List.mem_flatMap.mpr ⟨op, hop, hm⟩)
  simpa using hnot

theorem policy_append (h : m ∈ asked past) (more : List PolicyOperation) :
    policy (past ++ more) m = policy past m := by
  rw [policy, beforeAsked_append h, policy]

/-- A method that was not asked for yet would get what is declared now. -/
theorem policy_of_not_asked (h : m ∉ asked past) :
    policy past m = .merge (methodOption? past m) (serviceOption? past m.service) := by
  rw [policy, beforeAsked_eq_self h]

/-- The question that comes first is answered with what is declared then. -/
theorem policy_of_first (hpast : m ∉ asked past) (hop : m ∈ op.asked)
    (more : List PolicyOperation) : policy (past ++ op :: more) m =
      .merge (methodOption? past m) (serviceOption? past m.service) := by
  have hsplit : past ++ op :: more = (past ++ [op]) ++ more := by simp
  have hbefore : beforeAsked (past ++ [op]) m = past := by
    rw [beforeAsked, List.takeWhile_append_of_pos (by simpa [asked] using hpast)]
    simp [hop]
  rw [hsplit, policy_append (mem_asked_append_iff.mpr (.inr hop)), policy, hbefore]

theorem beforeAsked_concerning (past : List PolicyOperation) (m : Method) :
    beforeAsked (past.filterMap (concerning? m)) m =
      (beforeAsked past m).filterMap (concerning? m) := by
  rw [beforeAsked, List.takeWhile_filterMap]
  simp only [concerning?_spec]
  rfl

theorem last?_concerning {α : Type} {option? : PolicyOperation → Option α}
    (h : ∀ op, (concerning? m op).bind option? = option? op) (past : List PolicyOperation) :
    last? option? (past.filterMap (concerning? m)) = last? option? past := by
  rw [last?, List.filterMap_filterMap, last?]
  simp only [h]

/-- What does not concern a method is not missed. -/
theorem policy_concerning (past : List PolicyOperation) (m : Method) :
    policy (past.filterMap (concerning? m)) m = policy past m := by
  have hmethod (op : PolicyOperation) : (concerning? m op).bind (declared? m) = declared? m op :=
    (concerning?_spec m op).2.1
  have hservice (op : PolicyOperation) :
      (concerning? m op).bind (declaredService? m.service) = declaredService? m.service op :=
    (concerning?_spec m op).2.2
  rw [policy, beforeAsked_concerning, methodOption?, serviceOption?, last?_concerning hmethod,
    last?_concerning hservice]
  rfl

end PolicyHistory

/-! ## Runs -/

namespace Resolver

open PolicyHistory

def perform (r : Resolver) : PolicyOperation → PolicyAnswer × Resolver
  | .setMethod m o => (.done, { r with source := r.source.setMethod m o })
  | .setService service o => (.done, { r with source := r.source.setService service o })
  | .methodOption m => (.methodOption (r.source.methodOption m), r)
  | .serviceOption service => (.serviceOption (r.source.serviceOption service), r)
  | .resolve m => (.resolved (r.resolve m).1, (r.resolve m).2)
  | .preload methods => (.done, r.preload methods)
  | .size => (.size r.size, r)

/-- The answers to some operations, and the resolver after them. -/
def run (r : Resolver) : List PolicyOperation → List PolicyAnswer × Resolver
  | [] => ([], r)
  | op :: rest => ((r.perform op).1 :: ((r.perform op).2.run rest).1, ((r.perform op).2.run rest).2)

/-- The options in the source are those that were declared last, and the remembered answers are
those that were right when a method was first asked for. -/
structure Recalls (r : Resolver) (past : List PolicyOperation) : Prop where
  methodOption : ∀ m, r.source.methodOption m = methodOption? past m
  serviceOption : ∀ service, r.source.serviceOption service = serviceOption? past service
  resolved : ∀ m, Keyed.get? m r.resolved = if m ∈ asked past then some (policy past m) else none
  nodup : (Keyed.keys r.resolved).Nodup

theorem recalls_empty : (ofSource .empty).Recalls [] where
  methodOption _ := rfl
  serviceOption _ := rfl
  resolved _ := rfl
  nodup := List.nodup_nil

section

variable {r : Resolver} {past : List PolicyOperation}

theorem Recalls.source_resolve (h : r.Recalls past) (m : Method) :
    r.source.resolve m = .merge (methodOption? past m) (serviceOption? past m.service) := by
  rw [PolicySource.resolve, h.methodOption, h.serviceOption]

theorem Recalls.resolve_eq (h : r.Recalls past) (m : Method) :
    (r.resolve m).1 = policy past m := by
  rw [resolve_fst, h.resolved]
  by_cases hm : m ∈ asked past
  · simp [hm]
  · simp [hm, h.source_resolve, policy_of_not_asked hm]

theorem Recalls.mem_keys_iff (h : r.Recalls past) (m : Method) :
    m ∈ Keyed.keys r.resolved ↔ m ∈ asked past := by
  rw [← not_iff_not, ← Keyed.get?_eq_none_iff, h.resolved]
  by_cases hm : m ∈ asked past <;> simp [hm]

/-- A resolver remembers one answer for every method that was asked for. -/
theorem Recalls.size_eq (h : r.Recalls past) :
    r.size = ((asked past).map fun m => (m.service, m.name)).toFinset.card := by
  have hpair : Function.Injective fun m : Method => (m.service, m.name) := by
    rintro ⟨service, name⟩ ⟨service', name'⟩ heq
    simpa using heq
  have hkeys : (Keyed.keys r.resolved).toFinset = (asked past).toFinset := by
    ext m
    rw [List.mem_toFinset, List.mem_toFinset, h.mem_keys_iff]
  have himage : ((asked past).map fun m => (m.service, m.name)).toFinset =
      (asked past).toFinset.image fun m => (m.service, m.name) := by
    ext pair
    simp
  rw [himage, Finset.card_image_of_injective _ hpair, ← hkeys, List.toFinset_card_of_nodup h.nodup,
    Keyed.keys, List.length_map, size]

/-- An operation is answered as the history says. -/
theorem Recalls.perform_answer (h : r.Recalls past) (op : PolicyOperation) :
    (r.perform op).1 = answer past op := by
  cases op with
  | setMethod m o => rfl
  | setService service o => rfl
  | methodOption m => exact congrArg PolicyAnswer.methodOption (h.methodOption m)
  | serviceOption service => exact congrArg PolicyAnswer.serviceOption (h.serviceOption service)
  | resolve m => exact congrArg PolicyAnswer.resolved (h.resolve_eq m)
  | preload methods => rfl
  | size => exact congrArg PolicyAnswer.size h.size_eq

/-- Every operation changes the source and then asks for some methods, if it does either. -/
theorem perform_resolver (r : Resolver) (op : PolicyOperation) :
    (r.perform op).2 = (Resolver.mk (op.change r.source) r.resolved).preload op.asked := by
  cases op <;> rfl

theorem Recalls.perform_resolved (h : r.Recalls past) (op : PolicyOperation) (m : Method) :
    Keyed.get? m (r.perform op).2.resolved =
      if m ∈ asked (past ++ [op]) then some (policy (past ++ [op]) m) else none := by
  rw [perform_resolver, get?_preload, h.resolved]
  by_cases hpast : m ∈ asked past
  · simp [mem_asked_append_iff, hpast, policy_append hpast]
  · by_cases hop : m ∈ op.asked
    · have hpolicy : policy (past ++ [op]) m = r.source.resolve m := by
        rw [h.source_resolve, policy_of_first hpast hop]
      simp [mem_asked_append_iff, hpast, hop, hpolicy, PolicyOperation.change_of_asked hop]
    · simp [mem_asked_append_iff, hpast, hop]

theorem Recalls.perform (h : r.Recalls past) (op : PolicyOperation) :
    (r.perform op).2.Recalls (past ++ [op]) where
  methodOption m := by
    rw [perform_resolver, preload_source, op.methodOption_change, h.methodOption]
    exact (last?_append _ past op).symm
  serviceOption service := by
    rw [perform_resolver, preload_source, op.serviceOption_change, h.serviceOption]
    exact (last?_append _ past op).symm
  resolved := h.perform_resolved op
  nodup := by
    rw [perform_resolver]
    refine nodup_preload ?_ op.asked
    exact h.nodup

theorem Recalls.run (h : r.Recalls past) (ops : List PolicyOperation) :
    (r.run ops).1 = answers past ops ∧ (r.run ops).2.Recalls (past ++ ops) := by
  -- the operations done so far go over into the past one by one
  induction ops generalizing r past with
  | nil => exact ⟨rfl, by simpa [Resolver.run] using h⟩
  | cons op rest ih =>
      obtain ⟨hanswers, hrecalls⟩ := ih (h.perform op)
      refine ⟨?_, by simpa [Resolver.run] using hrecalls⟩
      rw [Resolver.run, answers, h.perform_answer, hanswers]

end

/-! ## The law of histories -/

/-- What some operations on an empty source and a new resolver come to. -/
structure HistorySpec (ops : List PolicyOperation) : Prop where
  /-- Every operation is answered as what happened before it says. -/
  answered : ((ofSource .empty).run ops).1 = answers [] ops
  /-- So is a question that comes afterwards. -/
  resolved : ∀ m, (((ofSource .empty).run ops).2.resolve m).1 = policy ops m
  /-- Nothing that happens after a method was asked for changes the answer for it. -/
  settled : ∀ m ∈ asked ops, ∀ more,
    (((ofSource .empty).run (ops ++ more)).2.resolve m).1 =
      (((ofSource .empty).run ops).2.resolve m).1
  /-- The answer is the same without all that concerns neither the method nor its service. -/
  undisturbed : ∀ m,
    (((ofSource .empty).run (ops.filterMap (PolicyOperation.concerning? m))).2.resolve m).1 =
      (((ofSource .empty).run ops).2.resolve m).1

theorem run_historySpec (ops : List PolicyOperation) : HistorySpec ops where
  answered := (recalls_empty.run ops).1
  resolved m := (recalls_empty.run ops).2.resolve_eq m
  settled m hm more := by
    rw [(recalls_empty.run (ops ++ more)).2.resolve_eq, (recalls_empty.run ops).2.resolve_eq]
    exact policy_append hm more
  undisturbed m := by
    rw [(recalls_empty.run (ops.filterMap _)).2.resolve_eq, (recalls_empty.run ops).2.resolve_eq]
    exact policy_concerning ops m

-- two methods that are displayed alike are remembered apart
example :
    Method.display ⟨"a", "b/c"⟩ = Method.display ⟨"a/b", "c"⟩ ∧
      ((ofSource .empty).run [.resolve ⟨"a", "b/c"⟩, .resolve ⟨"a/b", "c"⟩]).2.size = 2 :=
  ⟨rfl, rfl⟩

end Resolver

end CallGuard
