import CallGuard.Scope.Program
import Mathlib.Logic.Function.Iterate

/-! # Programs in turns

A program that suspends gives others their turn. When it is resumed it finds what is bound around it
then, and what it binds itself is bound for its own turns only. Run in this way, and next to any
others, a program observes what it observes when it is run in one go. -/

namespace CallGuard

variable {α β ι σ : Type}

/-! ## Turns -/

/-- What a turn comes to: an answer, or a suspension. The next turn depends on what is bound when it
begins. -/
inductive Turn (α : Type) where
  | done (answer : α)
  | suspended (next : Option Identity → Turn α)

/-- A computation in turns, by what its first turn comes to. -/
def Turns (α : Type) := Option Identity → Turn α

namespace Turn

def isDone : Turn α → Bool
  | done _ => true
  | suspended _ => false

/-- Gives a turn to what is not done. -/
def resume (b : Option Identity) : Turn α → Turn α
  | done a => done a
  | suspended next => next b

/-- Goes on in the turn in which an answer is there. -/
def andThen (f : α → Turns β) : Turn α → Turns β
  | done a => f a
  | suspended next => fun _ => suspended fun b => (next b).andThen f b

def map (f : α → β) : Turn α → Turn β
  | done a => done (f a)
  | suspended next => suspended fun b => (next b).map f

/-- Binds for every turn to come, whatever is bound around it. -/
def under (c : Option Identity) : Turn α → Turn α
  | done a => done a
  | suspended next => suspended fun _ => (next c).under c

/-- Two computations side by side, of which each has a turn in every turn until it is done. -/
def both : Turn α → Turn β → Turn (α × β)
  | done a, t => t.map (a, ·)
  | suspended next, done a => (suspended next).map (·, a)
  | suspended next, suspended next' => suspended fun b => both (next b) (next' b)

/-- The answer that is there in the end when the same is bound in every turn. -/
def answer (b : Option Identity) : Turn α → α
  | done a => a
  | suspended next => (next b).answer b

end Turn

namespace Turns

instance : Monad Turns where
  pure a := fun _ => .done a
  bind x f := fun b => (x b).andThen f b

def current : Turns (Option Identity) := fun b => .done b

def require : Turns (Except Error Identity) := do
  match ← current with
  | some i => return .ok i
  | none => return .error .authenticationRequired

def suspend : Turns Unit := fun _ => .suspended fun _ => .done ()

def within (c : Option Identity) (x : Turns α) : Turns α := fun _ => (x c).under c

def both (x : Turns α) (y : Turns β) : Turns (α × β) := fun b => (x b).both (y b)

/-- Gives a computation one turn, and tells whether it is done then. -/
def abandon (x : Turns α) : Turns Bool := fun b => .done (x b).isDone

end Turns

/-! ## Programs -/

namespace Step

mutual

/-- A step that really suspends, and parts that really run side by side. -/
def turns : Step → Turns (List Observation)
  | current => do return [.identity (← Turns.current)]
  | require => do return [.required (← Turns.require)]
  | suspend => do
      Turns.suspend
      return []
  | within binding body => do return [.list (← Turns.within binding (turnsAll body))]
  | abandon binding body => do
      return [.list [.finished (← Turns.abandon (Turns.within binding (turnsAll body)))]]
  | join parts => do return [.list (← turnsParts parts)]

def turnsAll : List Step → Turns (List Observation)
  | [] => return []
  | s :: rest => do return (← turns s) ++ (← turnsAll rest)

def turnsParts : List (List Step) → Turns (List Observation)
  | [] => return []
  | p :: rest => do
      let (os, more) ← Turns.both (turnsAll p) (turnsParts rest)
      return .list os :: more

end

end Step

/-! ## One turn -/

namespace Turn

variable {b c : Option Identity}

theorem answer_resume (t : Turn α) : (t.resume b).answer b = t.answer b := by
  cases t with
  | done a => rfl
  | suspended next => rfl

/-- What is bound around a computation with a binding of its own does not matter to its turn. -/
theorem resume_under (t : Turn α) : (t.under c).resume b = (t.resume c).under c := by
  cases t with
  | done a => rfl
  | suspended next => rfl

theorem answer_andThen (t : Turn α) (f : α → Turns β) :
    (t.andThen f b).answer b = (f (t.answer b) b).answer b := by
  induction t with
  | done a => rfl
  | suspended next ih => exact ih b

theorem answer_map (t : Turn α) (f : α → β) : (t.map f).answer b = f (t.answer b) := by
  induction t with
  | done a => rfl
  | suspended next ih => exact ih b

theorem answer_under (t : Turn α) : (t.under c).answer b = t.answer c := by
  induction t with
  | done a => rfl
  | suspended next ih => exact ih c

theorem answer_both (t : Turn α) (u : Turn β) :
    (t.both u).answer b = (t.answer b, u.answer b) := by
  -- both computations go on to their next turns together
  induction t generalizing u with
  | done a => exact answer_map u _
  | suspended next ih =>
      cases u with
      | done a => exact answer_map (suspended next) _
      | suspended next' => exact ih b (next' b)

theorem isDone_andThen {f : α → Turns β} {d : Bool} (hf : ∀ a, (f a b).isDone = d) (t : Turn α) :
    (t.andThen f b).isDone = (t.isDone && d) := by
  cases t with
  | done a => exact hf a
  | suspended next => rfl

theorem isDone_map (t : Turn α) (f : α → β) : (t.map f).isDone = t.isDone := by
  cases t with
  | done a => rfl
  | suspended next => rfl

theorem isDone_under (t : Turn α) : (t.under c).isDone = t.isDone := by
  cases t with
  | done a => rfl
  | suspended next => rfl

theorem isDone_both (t : Turn α) (u : Turn β) : (t.both u).isDone = (t.isDone && u.isDone) := by
  cases t with
  | done a => exact isDone_map u _
  | suspended next =>
      cases u with
      | done a => rfl
      | suspended next' => rfl

end Turn

namespace Turns

variable {b : Option Identity}

theorem answer_bind (x : Turns α) (f : α → Turns β) :
    ((x >>= f) b).answer b = (f ((x b).answer b) b).answer b :=
  (x b).answer_andThen f

theorem isDone_bind (x : Turns α) {f : α → Turns β} {d : Bool} (hf : ∀ a, (f a b).isDone = d) :
    ((x >>= f) b).isDone = ((x b).isDone && d) :=
  Turn.isDone_andThen hf (x b)

end Turns

/-! ## One step -/

namespace Step

mutual

/-- The first turn of a step is its last, unless it suspends. -/
theorem isDone_turns (s : Step) (b : Option Identity) : (turns s b).isDone = !suspends s := by
  cases s with
  | current => rfl
  | require =>
      cases b with
      | none => rfl
      | some i => rfl
  | suspend => rfl
  | within c body =>
      rw [turns, Turns.isDone_bind _ fun _ => rfl, Turns.within, Turn.isDone_under,
        isDone_turnsAll body c]
      exact Bool.and_true _
  | abandon c body => rfl
  | join parts =>
      rw [turns, Turns.isDone_bind _ fun _ => rfl, isDone_turnsParts parts b]
      exact Bool.and_true _

theorem isDone_turnsAll (steps : List Step) (b : Option Identity) :
    (turnsAll steps b).isDone = !anySuspends steps := by
  cases steps with
  | nil => rfl
  | cons s rest =>
      have hrest (os : List Observation) :
          ((do return os ++ (← turnsAll rest) : Turns _) b).isDone = !anySuspends rest := by
        rw [Turns.isDone_bind _ fun _ => rfl, isDone_turnsAll rest b]
        exact Bool.and_true _
      rw [turnsAll, Turns.isDone_bind _ hrest, isDone_turns s b, anySuspends, Bool.not_or]

theorem isDone_turnsParts (parts : List (List Step)) (b : Option Identity) :
    (turnsParts parts b).isDone = !anyPartSuspends parts := by
  cases parts with
  | nil => rfl
  | cons p rest =>
      rw [turnsParts, Turns.isDone_bind _ fun _ => rfl, Turns.both, Turn.isDone_both,
        isDone_turnsAll p b, isDone_turnsParts rest b, anyPartSuspends, Bool.not_or]
      exact Bool.and_true _

end

mutual

/-- In turns under one binding a step observes what it observes in one go, and in one go it leaves
everything as it was. -/
theorem run_eq_answer (s : Step) (b : Option Identity) (state : σ) :
    run s ⟨b, state⟩ = ((turns s b).answer b, ⟨b, state⟩) := by
  cases s with
  | current => rfl
  | require =>
      cases b with
      | none => rfl
      | some i => rfl
  | suspend => rfl
  | within c body =>
      rw [turns, Turns.answer_bind, Turns.within, Turn.answer_under, run, Scoped.run_bind,
        Scoped.run_within, runAll_eq_answer body c state]
      rfl
  | abandon c body =>
      rw [turns, Turns.answer_bind, Turns.abandon, Turns.within, Turn.isDone_under, isDone_turnsAll]
      rfl
  | join parts =>
      rw [turns, Turns.answer_bind, run, Scoped.run_bind, runParts_eq_answer parts b state]
      rfl

theorem runAll_eq_answer (steps : List Step) (b : Option Identity) (state : σ) :
    runAll steps ⟨b, state⟩ = ((turnsAll steps b).answer b, ⟨b, state⟩) := by
  cases steps with
  | nil => rfl
  | cons s rest =>
      rw [turnsAll, Turns.answer_bind, Turns.answer_bind, runAll, Scoped.run_bind, Scoped.run_bind,
        run_eq_answer s b state, runAll_eq_answer rest b state]
      rfl

theorem runParts_eq_answer (parts : List (List Step)) (b : Option Identity) (state : σ) :
    runParts parts ⟨b, state⟩ = ((turnsParts parts b).answer b, ⟨b, state⟩) := by
  cases parts with
  | nil => rfl
  | cons p rest =>
      rw [turnsParts, Turns.answer_bind, Turns.both, Turn.answer_both, runParts, Scoped.run_bind,
        Scoped.run_bind, runAll_eq_answer p b state, runParts_eq_answer rest b state]
      rfl

end

end Step

/-! ## Turns of many -/

namespace Turn

/-- How many turns a computation still takes when the same is bound in all of them. -/
def turnsLeft (b : Option Identity) : Turn α → Nat
  | done _ => 0
  | suspended next => (next b).turnsLeft b + 1

variable [DecidableEq ι]

/-- Gives one of many computations a turn, in which it finds what happens to be bound. -/
def takeTurn (tasks : ι → Turn α) (turn : ι × Option Identity) : ι → Turn α :=
  Function.update tasks turn.1 ((tasks turn.1).resume turn.2)

/-- Gives turns in the order of a schedule, which need not be fair. -/
def takeTurns (tasks : ι → Turn α) (schedule : List (ι × Option Identity)) : ι → Turn α :=
  schedule.foldl takeTurn tasks

variable {b : Option Identity}

/-- Among computations with bindings of their own, a turn is one under the binding of whoever has
it, and the others stay as they are. -/
theorem takeTurn_under (tasks : ι → Turn α) (owners : ι → Option Identity)
    (turn : ι × Option Identity) :
    takeTurn (fun i => (tasks i).under (owners i)) turn =
      fun i => (takeTurn tasks (turn.1, owners turn.1) i).under (owners i) := by
  funext i
  by_cases hi : i = turn.1
  · subst hi
    rw [takeTurn, takeTurn, Function.update_self, Function.update_self, resume_under]
  · rw [takeTurn, takeTurn, Function.update_of_ne hi, Function.update_of_ne hi]

/-- After any schedule it only matters how many turns a computation has had, and not which ones,
what was bound in them, and what the others did in theirs. -/
theorem takeTurns_under (tasks : ι → Turn α) (owners : ι → Option Identity)
    (schedule : List (ι × Option Identity)) (i : ι) :
    takeTurns (fun i => (tasks i).under (owners i)) schedule i =
      ((resume (owners i))^[schedule.countP (·.1 = i)] (tasks i)).under (owners i) := by
  induction schedule generalizing tasks with
  | nil => rfl
  | cons turn rest ih =>
      rw [takeTurns, List.foldl_cons, takeTurn_under]
      refine (ih _).trans ?_
      by_cases hi : turn.1 = i
      · rw [List.countP_cons_of_pos (by simpa using hi), Function.iterate_succ_apply, ← hi,
          takeTurn, Function.update_self]
      · rw [List.countP_cons_of_neg (by simpa using hi), takeTurn,
          Function.update_of_ne (Ne.symm hi)]

theorem answer_iterate_resume (n : Nat) (t : Turn α) :
    ((resume b)^[n] t).answer b = t.answer b := by
  induction n generalizing t with
  | zero => rfl
  | succ n ih => rw [Function.iterate_succ_apply, ih, answer_resume]

theorem iterate_resume_eq_done {n : Nat} {t : Turn α} (h : t.turnsLeft b ≤ n) :
    (resume b)^[n] t = done (t.answer b) := by
  induction n generalizing t with
  | zero =>
      cases t with
      | done a => rfl
      | suspended next => exact absurd h (Nat.not_succ_le_zero _)
  | succ n ih =>
      rw [Function.iterate_succ_apply]
      cases t with
      | done a => exact ih (Nat.zero_le n)
      | suspended next => exact ih (Nat.le_of_succ_le_succ h)

end Turn

namespace Step

/-- Programs that wait for their first turns, each with a binding of its own around it. -/
def waiting (owners : ι → Option Identity) (programs : ι → List Step) :
    ι → Turn (List Observation) :=
  fun i => (Turn.suspended (turnsAll (programs i))).under (owners i)

/-- Programs that take turns, in whatever order and whatever is bound in between, each observe what
they observe alone and in one go. Every program is done once it has had enough turns. -/
theorem takeTurns_waiting [DecidableEq ι] (owners : ι → Option Identity)
    (programs : ι → List Step) (schedule : List (ι × Option Identity)) (i : ι) (state : σ) :
    (∀ os, Turn.takeTurns (waiting owners programs) schedule i = .done os →
      os = (runAll (programs i) ⟨owners i, state⟩).1) ∧
    ((Turn.suspended (turnsAll (programs i))).turnsLeft (owners i) ≤
        schedule.countP (·.1 = i) →
      Turn.takeTurns (waiting owners programs) schedule i =
        .done (runAll (programs i) ⟨owners i, state⟩).1) := by
  have hanswer : (Turn.suspended (turnsAll (programs i))).answer (owners i) =
      (runAll (programs i) ⟨owners i, state⟩).1 := by
    rw [runAll_eq_answer]
    rfl
  have hrun := Turn.takeTurns_under (fun i => .suspended (turnsAll (programs i))) owners schedule i
  constructor
  · intro os hdone
    have hos := congrArg (Turn.answer (owners i)) (hrun.symm.trans hdone)
    rw [Turn.answer_under, Turn.answer_iterate_resume, hanswer] at hos
    exact hos.symm
  · intro henough
    refine hrun.trans ?_
    rw [Turn.iterate_resume_eq_done henough, hanswer]
    rfl

/-- Two callers in turn, with other things bound in between. Each looks again after a suspension and
finds itself. -/
example :
    Turn.takeTurns
        (waiting (fun first => some (.ofSubject (if first then "alice" else "bob")))
          fun _ => [.current, .suspend, .current])
        [(true, none), (false, some (.ofSubject "alice")), (true, none), (false, none)] false =
      .done [.identity (some (.ofSubject "bob")), .identity (some (.ofSubject "bob"))] :=
  rfl

end Step

end CallGuard
