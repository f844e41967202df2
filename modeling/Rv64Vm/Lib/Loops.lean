import Mathlib.Tactic.Common

/-! # While loops that may fail

`loop` runs `while(cond) body` for a bounded number of passes. `Passes` is the loop without
the bound: the states before and after each pass, in order. A loop whose measure falls in
every pass is its passes, whatever larger bound it is given.
-/

namespace Rv64Vm.Lib

variable {ε σ : Type}

def loop (cond : σ → Bool) (body : σ → Except ε σ) : Nat → σ → Except ε σ
  | 0, s => .ok s
  | bound + 1, s => if cond s then (body s) >>= loop cond body bound else .ok s

/-- The passes of the loop from `s`, each with its states, and the state it ends in. -/
inductive Passes (cond : σ → Bool) (body : σ → Except ε σ) : σ → List (σ × σ) → σ → Prop
  | done {s : σ} (stop : cond s = false) : Passes cond body s [] s
  | pass {s t u : σ} {rest : List (σ × σ)} (go : cond s = true) (ran : body s = .ok t)
      (later : Passes cond body t rest u) : Passes cond body s ((s, t) :: rest) u

variable {cond : σ → Bool} {body : σ → Except ε σ}

theorem Passes.stopped {s u : σ} {l : List (σ × σ)} (passes : Passes cond body s l u) : cond u = false := by
  induction passes with
  | done stop => exact stop
  | pass _ _ _ ih => exact ih

/-- Each pass starts where the condition holds, and is a run of the body. -/
theorem Passes.each {s u : σ} {l : List (σ × σ)} (passes : Passes cond body s l u) :
    ∀ p ∈ l, cond p.1 = true ∧ body p.1 = .ok p.2 := by
  induction passes with
  | done => exact nofun
  | pass go ran _ ih => exact List.forall_mem_cons.mpr ⟨⟨go, ran⟩, ih⟩

section Measure

variable {μ : σ → Nat} (positive : ∀ s, cond s = true ↔ μ s ≠ 0)
  (falls : ∀ s t, cond s = true → body s = .ok t → μ t + 1 = μ s)

include positive falls

/-- As many passes as the measure says are enough. -/
theorem passes_of_loop {bound : Nat} {s u : σ} (enough : μ s ≤ bound) (ran : loop cond body bound s = .ok u) :
    ∃ l, Passes cond body s l u ∧ l.length = μ s := by
  induction bound generalizing s with
  | zero =>
    obtain rfl : s = u := Except.ok.inj ran
    have zero : μ s = 0 := by omega
    have stop : cond s = false := by
      cases go : cond s with
      | false => rfl
      | true => exact absurd zero ((positive s).mp go)
    exact ⟨[], .done stop, zero.symm⟩
  | succ bound ih =>
    cases go : cond s with
    | false =>
      simp only [loop, go, Bool.false_eq_true, if_false, Except.ok.injEq] at ran
      subst ran
      have zero : μ s = 0 := by
        by_contra nonzero
        rw [(positive s).mpr nonzero] at go
        cases go
      exact ⟨[], .done go, zero.symm⟩
    | true =>
      cases step : body s with
      | error e => simp [loop, go, step, bind, Except.bind] at ran
      | ok t =>
        simp only [loop, go, if_true, step, bind, Except.bind] at ran
        have less := falls s t go step
        obtain ⟨l, passes, length⟩ := ih (by omega) ran
        exact ⟨(s, t) :: l, .pass go step passes, by rw [List.length_cons, length, less]⟩

end Measure

end Rv64Vm.Lib
