import CallGuard.Proofs.Cache.Reachable

/-! # Shared caches

All handles of a cache reach its tables through one lock. An operation that fails while it holds the
lock poisons it, and from then on every operation that needs the lock fails. A new cache takes any
time to live but zero, so there is an operation that fails: to store what would go out of date after
the end of the clock. -/

namespace CallGuard

variable {α : Type}

/-! ## Operations through a handle -/

/-- What can be asked of a cache through any of its handles. -/
inductive SharedOperation (α : Type) where
  | operate (op : CacheOperation α)
  | size

inductive SharedAnswer (α : Type) where
  | found (value : Option α)
  | size (n : Nat)
deriving DecidableEq, Repr

namespace SharedOperation

/-- Without capacity, looking up and storing do not take the lock. -/
def locks (capacity : Nat) : SharedOperation α → Bool
  | operate (.get _ _) => capacity ≠ 0
  | operate (.set _ _ _) => capacity ≠ 0
  | _ => true

/-- The operation stores a value that would go out of date after the end of the clock. -/
def overruns (capacity ttl : Nat) : SharedOperation α → Bool
  | operate (.set now _ _) => capacity ≠ 0 ∧ clockEnd ≤ now + ttl
  | _ => false

theorem locks_of_capacity {capacity : Nat} (h : capacity ≠ 0) (op : SharedOperation α) :
    op.locks capacity = true := by
  cases op with
  | operate op => cases op <;> simp [locks, h]
  | size => rfl

theorem overruns_iff {capacity ttl : Nat} (op : SharedOperation α) :
    op.overruns capacity ttl = true ↔
      ∃ now key value, op = operate (.set now key value) ∧ capacity ≠ 0 ∧
        clockEnd ≤ now + ttl := by
  cases op with
  | operate op => cases op <;> simp [overruns]
  | size => simp [overruns]

end SharedOperation

/-- The counter of ticks has 64 bits. -/
def tickEnd : Nat := 2 ^ 64

/-- What an operation answers and leaves, as long as the counter and the clock go on. -/
def Cache.respond? (c : Cache α) : SharedOperation α → Option (SharedAnswer α × Cache α)
  | .operate op =>
    match c.perform op with
    | some (value, d) => if d.state.tick < tickEnd then some (.found value, d) else none
    | none => none
  | .size => some (.size c.size, c)

/-- A cache behind a lock. -/
structure SharedCache (α : Type) where
  cache : Cache α
  /-- An operation has failed under the lock. -/
  poisoned : Bool

namespace SharedCache

def ofCache (c : Cache α) : SharedCache α := ⟨c, false⟩

/-- The answer to an operation, or nothing if it fails. No operation sees the tables again that a
failed one leaves. -/
def perform (s : SharedCache α) (op : SharedOperation α) :
    Option (SharedAnswer α) × SharedCache α :=
  if s.poisoned ∧ op.locks s.cache.capacity then (none, s)
  else match s.cache.respond? op with
    | some (answer, c) => (some answer, { s with cache := c })
    | none => (none, { s with poisoned := true })

/-- The answers to some operations, and the cache after them. A failure stops nobody else. -/
def run (s : SharedCache α) :
    List (SharedOperation α) → List (Option (SharedAnswer α)) × SharedCache α
  | [] => ([], s)
  | op :: rest => ((s.perform op).1 :: ((s.perform op).2.run rest).1, ((s.perform op).2.run rest).2)

end SharedCache

/-! ## What is answered -/

namespace RecencyList

def respond (l : RecencyList α) : SharedOperation α → SharedAnswer α × RecencyList α
  | .operate op => (.found (l.perform op).1, (l.perform op).2)
  | .size => (.size l.size, l)

def responses (l : RecencyList α) : List (SharedOperation α) → List (SharedAnswer α)
  | [] => []
  | op :: rest => (l.respond op).1 :: (l.respond op).2.responses rest

theorem respond_bounds (l : RecencyList α) (op : SharedOperation α) :
    (l.respond op).2.capacity = l.capacity ∧ (l.respond op).2.ttl = l.ttl := by
  cases op with
  | operate op => exact l.perform_bounds op
  | size => exact ⟨rfl, rfl⟩

end RecencyList

namespace Cache

variable {c : Cache α} {l : RecencyList α} {op : SharedOperation α}

theorem respond?_of_overruns (h : op.overruns c.capacity c.ttl = true) : c.respond? op = none := by
  obtain ⟨now, key, value, rfl, hcapacity, hlate⟩ := op.overruns_iff.mp h
  simp [respond?, perform, set, hcapacity, hlate]

/-- The tables alone fail at nothing else. -/
theorem exists_perform (op : CacheOperation α)
    (h : (SharedOperation.operate op).overruns c.capacity c.ttl = false) :
    ∃ value d, c.perform op = some (value, d) := by
  cases op with
  | get now key => exact ⟨_, _, rfl⟩
  | set now key value =>
      have hfits : c.capacity = 0 ∨ now + c.ttl < clockEnd := by
        have hnot := of_decide_eq_false h
        omega
      rcases hfits with hzero | hclock
      · exact ⟨none, c, by simp [perform, set, hzero]⟩
      · obtain ⟨d, hd⟩ := c.exists_set_eq_some key value hclock
        exact ⟨none, d, by simp [perform, hd]⟩
  | invalidate key => exact ⟨_, _, rfl⟩
  | clear => exact ⟨_, _, rfl⟩

/-- The cache answers as the list does and takes one tick at most. -/
theorem Mirrors.respond? (h : c.Mirrors l) (hfits : op.overruns c.capacity c.ttl = false)
    (htick : c.state.tick + 1 < tickEnd) :
    ∃ d, c.respond? op = some ((l.respond op).1, d) ∧ d.Mirrors (l.respond op).2 ∧
      d.state.tick ≤ c.state.tick + 1 := by
  cases op with
  | size =>
      refine ⟨c, ?_, h, Nat.le_succ _⟩
      rw [Cache.respond?, RecencyList.respond, h.size_eq]
  | operate op =>
      obtain ⟨value, d, hd⟩ := exists_perform op hfits
      obtain ⟨-, hone⟩ := perform_frame hd
      obtain ⟨rfl, hmirrors⟩ := h.of_perform hd
      refine ⟨d, ?_, hmirrors, hone⟩
      have hcounts : d.state.tick < tickEnd := by omega
      simp [Cache.respond?, RecencyList.respond, hd, hcounts]

end Cache

/-! ## Runs -/

namespace SharedCache

/-- No operation has failed yet, and the tables mirror a list. -/
structure Follows (s : SharedCache α) (l : RecencyList α) : Prop where
  sound : s.poisoned = false
  mirrors : s.cache.Mirrors l

variable {s : SharedCache α} {l : RecencyList α} {op : SharedOperation α}

theorem Follows.overruns_eq (h : s.Follows l) (op : SharedOperation α) :
    op.overruns s.cache.capacity s.cache.ttl = op.overruns l.capacity l.ttl := by
  rw [h.mirrors.capacity, h.mirrors.ttl]

theorem Follows.perform (h : s.Follows l) (hfits : op.overruns l.capacity l.ttl = false)
    (htick : s.cache.state.tick + 1 < tickEnd) :
    ∃ t, s.perform op = (some (l.respond op).1, t) ∧ t.Follows (l.respond op).2 ∧
      t.cache.state.tick ≤ s.cache.state.tick + 1 := by
  rw [← h.overruns_eq] at hfits
  obtain ⟨d, hd, hmirrors, hone⟩ := h.mirrors.respond? hfits htick
  refine ⟨{ s with cache := d }, ?_, ⟨h.sound, hmirrors⟩, hone⟩
  simp [SharedCache.perform, h.sound, hd]

theorem Follows.perform_of_overruns (h : s.Follows l)
    (hover : op.overruns l.capacity l.ttl = true) :
    s.perform op = (none, { s with poisoned := true }) := by
  rw [← h.overruns_eq] at hover
  simp [SharedCache.perform, h.sound, Cache.respond?_of_overruns hover]

theorem run_of_poisoned (hpoisoned : s.poisoned = true) (hcapacity : s.cache.capacity ≠ 0)
    (ops : List (SharedOperation α)) : s.run ops = (List.replicate ops.length none, s) := by
  induction ops with
  | nil => rfl
  | cons op rest ih =>
      have hfails : s.perform op = (none, s) :=
        if_pos ⟨hpoisoned, op.locks_of_capacity hcapacity⟩
      simp [run, hfails, ih, List.replicate_succ]

/-- The first operation that stores beyond the end of the clock fails, and all that come after
it. -/
theorem Follows.run (h : s.Follows l) {ops : List (SharedOperation α)}
    (hticks : s.cache.state.tick + ops.length < tickEnd) :
    (s.run ops).1 =
        (l.responses (ops.takeWhile fun op => !op.overruns l.capacity l.ttl)).map some ++
          List.replicate (ops.dropWhile fun op => !op.overruns l.capacity l.ttl).length none ∧
      (s.run ops).2.poisoned = ops.any fun op => op.overruns l.capacity l.ttl := by
  -- the list goes along with the cache up to the first failure, where the lock decides the rest
  induction ops generalizing s l with
  | nil => exact ⟨rfl, h.sound⟩
  | cons op rest ih =>
      rw [List.length_cons] at hticks
      cases hop : op.overruns l.capacity l.ttl with
      | true =>
          have hfails := h.perform_of_overruns hop
          have hcapacity : s.cache.capacity ≠ 0 := by
            obtain ⟨-, -, -, -, hcapacity, -⟩ := op.overruns_iff.mp hop
            rwa [h.mirrors.capacity]
          have hrest := run_of_poisoned (s := { s with poisoned := true }) rfl hcapacity rest
          simp [SharedCache.run, hfails, hrest, hop, RecencyList.responses, List.replicate_succ]
      | false =>
          obtain ⟨t, ht, hfollows, hone⟩ := h.perform hop (by omega)
          obtain ⟨hcapacity, httl⟩ := l.respond_bounds op
          have hleft : t.cache.state.tick + rest.length < tickEnd := by omega
          obtain ⟨hrest, hpoisoned⟩ := ih hfollows hleft
          rw [hcapacity, httl] at hrest hpoisoned
          simp [SharedCache.run, ht, hrest, hpoisoned, hop, RecencyList.responses]

/-! ## New caches -/

/-- Of fewer than `2 ^ 64` operations on a new cache none fails, unless one stores a value that would
go out of date after the end of the clock. Up to that one all are answered as by the list of last
uses. From there on all fail, and the lock is poisoned. -/
theorem run_new_fails {capacity ttl : Nat} {c : Cache α} (hnew : Cache.new capacity ttl = .ok c)
    {ops : List (SharedOperation α)} (hcount : ops.length < tickEnd) :
    (none ∈ ((ofCache c).run ops).1 ↔ ∃ op ∈ ops, op.overruns capacity ttl = true) ∧
      ((ofCache c).run ops).1 =
        ((RecencyList.new capacity ttl).responses
            (ops.takeWhile fun op => !op.overruns capacity ttl)).map some ++
          List.replicate (ops.dropWhile fun op => !op.overruns capacity ttl).length none ∧
      ((ofCache c).run ops).2.poisoned = ops.any fun op => op.overruns capacity ttl := by
  have hfollows : (ofCache c).Follows (.new capacity ttl) := ⟨rfl, Cache.mirrors_of_new hnew⟩
  have hticks : (ofCache c).cache.state.tick + ops.length < tickEnd := by
    simpa [Cache.eq_of_new hnew, ofCache, CacheState.empty] using hcount
  obtain ⟨hanswers, hpoisoned⟩ := hfollows.run hticks
  refine ⟨?_, hanswers, hpoisoned⟩
  rw [hanswers]
  simp [List.mem_replicate, RecencyList.new]

/-- The first value goes out of date just before the end of the clock, and the second after it. -/
def lastingSample : List (SharedOperation Nat) :=
  [.operate (.set 5 "a" 1), .operate (.get 6 "a"), .operate (.set 10 "b" 2), .size]

theorem run_new_fails_sample :
    Cache.new 1 (clockEnd - 10) = .ok (⟨1, clockEnd - 10, .empty⟩ : Cache Nat) ∧
      lastingSample.length < tickEnd ∧
      ((ofCache (⟨1, clockEnd - 10, .empty⟩ : Cache Nat)).run lastingSample).1 =
        [some (.found none), some (.found (some 1)), none, none] := by
  have hnew : Cache.new 1 (clockEnd - 10) = .ok (⟨1, clockEnd - 10, .empty⟩ : Cache Nat) := rfl
  have hcount : lastingSample.length < tickEnd := by decide
  obtain ⟨-, hanswers, -⟩ := run_new_fails hnew hcount
  exact ⟨hnew, hcount, hanswers⟩

/-- A time to live of `2 ^ 64 - 1` seconds is accepted, and then the first value that is stored
poisons the cache. -/
theorem accepted_ttl_poisons :
    Cache.new 1 ((2 ^ 64 - 1) * 1000) = .ok (⟨1, (2 ^ 64 - 1) * 1000, .empty⟩ : Cache Nat) ∧
      ((ofCache (⟨1, (2 ^ 64 - 1) * 1000, .empty⟩ : Cache Nat)).run
        [.operate (.set 0 "a" 1), .operate (.get 0 "a"), .size]).1 = [none, none, none] :=
  ⟨rfl, rfl⟩

end SharedCache

end CallGuard
