import CallGuard.Error

/-! # Chains of checks

A configuration is read by checks that run one after the other. What a chain accepts, each of its
checks has accepted. -/

namespace CallGuard.Checks

variable {ε α β : Type}

/-- A chain succeeds when its first check does and the rest succeeds on the answer. -/
theorem bind_eq_ok_iff {x : Except ε α} {f : α → Except ε β} {b : β} :
    x >>= f = .ok b ↔ ∃ a, x = .ok a ∧ f a = .ok b := by
  cases x with
  | error e => simp [bind, Except.bind]
  | ok a => simp [bind, Except.bind]

theorem exists_eq_ok_of_toBool {x : Except ε α} (h : x.toBool = true) : ∃ a, x = .ok a := by
  cases x with
  | error e => cases h
  | ok a => exact ⟨a, rfl⟩

/-- A chain that refuses some inputs at once succeeds on the others only. -/
theorem refusal_eq_ok_iff {p : Prop} [Decidable p] {e : ε} {f : α → Except ε β}
    {x : Except ε β} {b : β} :
    (if p then throw e >>= f else x) = .ok b ↔ ¬ p ∧ x = .ok b := by
  by_cases h : p
  · simp [h, throw, throwThe, MonadExceptOf.throw, bind, Except.bind]
  · simp [h]

theorem requirement_eq_ok_iff {p : Prop} [Decidable p] {e : ε} :
    (if p then throw e else pure () : Except ε Unit) = .ok () ↔ ¬ p := by
  by_cases h : p
  · simp [h, throw, throwThe, MonadExceptOf.throw]
  · simp [h, pure, Except.pure]

/-- What a list of checks hands out are the answers of its checks. -/
theorem mem_iff_of_mapM {check : α → Except ε β} {texts : List α} {answers : List β}
    (h : texts.mapM check = .ok answers) (b : β) :
    b ∈ answers ↔ ∃ a ∈ texts, check a = .ok b := by
  induction texts generalizing answers with
  | nil =>
      obtain rfl : [] = answers := by simpa [pure, Except.pure] using h
      simp
  | cons a texts ih =>
      rw [List.mapM_cons] at h
      obtain ⟨c, hc, h⟩ := bind_eq_ok_iff.mp h
      obtain ⟨rest, hrest, h⟩ := bind_eq_ok_iff.mp h
      obtain rfl : c :: rest = answers := by simpa [pure, Except.pure] using h
      simp only [List.mem_cons, ih hrest, exists_eq_or_imp, hc, Except.ok.injEq]
      exact or_congr_left eq_comm

end CallGuard.Checks
