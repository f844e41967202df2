import Mathlib.Tactic.Common

/-! # Results that may fail

Peeling a successful `Except` computation apart, one bind at a time.
-/

namespace Rv64Vm.Lib

variable {ε α β : Type} {x : Except ε α} {b : β}

theorem bind_eq_ok {f : α → Except ε β} : (x >>= f) = .ok b ↔ ∃ a, x = .ok a ∧ f a = .ok b := by
  cases x with
  | error e => simp [bind, Except.bind]
  | ok a => simp [bind, Except.bind]

theorem map_eq_ok {f : α → β} : x.map f = .ok b ↔ ∃ a, x = .ok a ∧ f a = b := by
  cases x with
  | error e => simp [Except.map]
  | ok a => simp [Except.map]

theorem pure_eq_ok {a b : α} : (pure a : Except ε α) = .ok b ↔ a = b := by
  simp [pure, Except.pure]

/-- A step that gives up with a result of its own, or goes on. -/
theorem bind_guard_eq_ok {good : α → Bool} {f : α → β} {g : α → Except ε β} :
    (x >>= fun a => if !good a then pure (f a) else g a) = .ok b ↔
      ∃ a, x = .ok a ∧ (good a = false ∧ f a = b ∨ good a = true ∧ g a = .ok b) := by
  rw [bind_eq_ok]
  refine exists_congr fun a => and_congr_right fun _ => ?_
  cases good a <;> simp [pure, Except.pure]

/-- A last step with two results. -/
theorem bind_ite_eq_ok {good : α → Bool} {f g : α → β} :
    (x >>= fun a => if good a then pure (f a) else pure (g a)) = .ok b ↔
      ∃ a, x = .ok a ∧ (good a = true ∧ f a = b ∨ good a = false ∧ g a = b) := by
  rw [bind_eq_ok]
  refine exists_congr fun a => and_congr_right fun _ => ?_
  cases good a <;> simp [pure, Except.pure]

theorem toOption_map_eq_some {f : α → β} : x.toOption.map f = some b ↔ ∃ a, x = .ok a ∧ f a = b := by
  cases x <;> simp [Except.toOption]

end Rv64Vm.Lib
