import Mathlib.Tactic.Common

/-! # Runs of a partial step function

`run` folds a partial step function over a list of actions. `Along` is the
condition "every step of the run meets `P` in the state it is taken from"; the
invariant rule for conditional runs is proved once here, and its exact form, in
which the condition is also necessary.
-/

namespace Rv64Vm.Lib

variable {σ α : Type}

/-- Fold the actions; `none` when some step has no successor. -/
def run (step : σ → α → Option σ) : σ → List α → Option σ
  | s, [] => some s
  | s, a :: rest => (step s a).bind (fun next => run step next rest)

/-- Every step of the run meets `P`, judged in the state it is taken from. -/
def Along (step : σ → α → Option σ) (P : σ → α → Prop) : σ → List α → Prop
  | _, [] => True
  | s, a :: rest => P s a ∧ ∀ next, step s a = some next → Along step P next rest

/-- The same for a condition that may also look at the actions to come. -/
def AlongRest (step : σ → α → Option σ) (P : σ → α → List α → Prop) : σ → List α → Prop
  | _, [] => True
  | s, a :: rest => P s a rest ∧ ∀ next, step s a = some next → AlongRest step P next rest

variable {step : σ → α → Option σ} {P Q : σ → α → Prop} {I : σ → Prop}

theorem run_cons (s : σ) (a : α) (rest : List α) :
    run step s (a :: rest) = (step s a).bind (fun next => run step next rest) := rfl

theorem run_cons_eq_some {s final : σ} {a : α} {rest : List α} :
    run step s (a :: rest) = some final ↔
      ∃ next, step s a = some next ∧ run step next rest = some final := by
  rw [run_cons, Option.bind_eq_some_iff]

theorem run_append (s : σ) (first second : List α) :
    run step s (first ++ second) = (run step s first).bind (fun mid => run step mid second) := by
  induction first generalizing s with
  | nil => rfl
  | cons a rest ih =>
    cases taken : step s a with
    | none => rw [List.cons_append, run_cons, run_cons, taken, Option.bind_none, Option.bind_none, Option.bind_none]
    | some next => rw [List.cons_append, run_cons, run_cons, taken, Option.bind_some, Option.bind_some, ih]

variable {actions : List α}

/-- An invariant of every step that meets `P` holds at the end of every run
    whose steps all meet `P`. -/
theorem run_invariant (stable : ∀ s a next, P s a → step s a = some next → I s → I next)
    {s final : σ} (along : Along step P s actions)
    (start : I s) (ran : run step s actions = some final) : I final := by
  induction actions generalizing s with
  | nil =>
    cases ran
    exact start
  | cons a rest ih =>
    obtain ⟨next, taken, ranRest⟩ := run_cons_eq_some.mp ran
    exact ih (along.2 next taken) (stable s a next along.1 taken start) ranRest

theorem along_true (s : σ) (actions : List α) : Along step (fun _ _ => True) s actions := by
  induction actions generalizing s with
  | nil => trivial
  | cons a rest ih => exact ⟨trivial, fun next _ => ih next⟩

/-- The unconditional form: every step preserves the invariant. -/
theorem run_invariant_of_step (stable : ∀ s a next, step s a = some next → I s → I next)
    {s final : σ} (start : I s) (ran : run step s actions = some final) :
    I final :=
  run_invariant (fun s a next _ => stable s a next) (along_true s actions) start ran

/-- Every step of the run has a successor, and `I` holds in every state on the way. -/
def Holds (step : σ → α → Option σ) (I : σ → Prop) : σ → List α → Prop
  | s, [] => I s
  | s, a :: rest => I s ∧ ∃ next, step s a = some next ∧ Holds step I next rest

theorem Holds.start {s : σ} (holds : Holds step I s actions) : I s := by
  cases actions with
  | nil => exact holds
  | cons => exact holds.1

/-- Where `P` is exactly what a step from `J` needs to reach `I`, and enough to keep `J`, a run from `J` keeps `I`
    throughout exactly if all its steps meet `P`. -/
theorem holds_iff_along_tracked {J : σ → Prop}
    (law : ∀ s a, J s → ((∃ next, step s a = some next ∧ I next) ↔ P s a))
    (keeps : ∀ s a next, J s → P s a → step s a = some next → J next)
    {s : σ} (actions : List α) (start : I s) (tracked : J s) : Holds step I s actions ↔ Along step P s actions := by
  induction actions generalizing s with
  | nil => exact ⟨fun _ => trivial, fun _ => start⟩
  | cons a rest ih =>
    constructor
    · rintro ⟨-, next, taken, later⟩
      have meets := (law s a tracked).mp ⟨next, taken, later.start⟩
      refine ⟨meets, fun other taken' => ?_⟩
      obtain rfl := Option.some.inj (taken.symm.trans taken')
      exact (ih later.start (keeps s a next tracked meets taken)).mp later
    · rintro ⟨meets, later⟩
      obtain ⟨next, taken, kept⟩ := (law s a tracked).mpr meets
      exact ⟨start, next, taken, (ih kept (keeps s a next tracked meets taken)).mpr (later next taken)⟩

/-- Where `P` is exactly what a step needs to keep `I`, a run keeps `I` throughout
    exactly if all its steps meet `P`. -/
theorem holds_iff_along (law : ∀ s a, I s → ((∃ next, step s a = some next ∧ I next) ↔ P s a))
    {s : σ} (actions : List α) (start : I s) : Holds step I s actions ↔ Along step P s actions := by
  apply holds_iff_along_tracked law _ actions start start
  intro s a next here meets taken
  obtain ⟨next', taken', kept⟩ := (law s a here).mpr meets
  exact Option.some.inj (taken'.symm.trans taken) ▸ kept

/-- The same for a run that is known to have all its steps: only steps that are taken count. -/
theorem holds_iff_along_of_run (law : ∀ s a next, I s → step s a = some next → (I next ↔ P s a)) {s final : σ}
    (start : I s) (ran : run step s actions = some final) :
    Holds step I s actions ↔ Along step P s actions := by
  induction actions generalizing s with
  | nil => exact ⟨fun _ => trivial, fun _ => start⟩
  | cons a rest ih =>
    obtain ⟨next, taken, ranRest⟩ := run_cons_eq_some.mp ran
    have exactly := law s a next start taken
    constructor
    · rintro ⟨-, next', taken', later⟩
      obtain rfl := Option.some.inj (taken.symm.trans taken')
      have here : I next := later.start
      refine ⟨exactly.mp here, fun other taken'' => ?_⟩
      obtain rfl := Option.some.inj (taken.symm.trans taken'')
      exact (ih here ranRest).mp later
    · rintro ⟨allowed, later⟩
      have here := exactly.mpr allowed
      exact ⟨start, next, taken, (ih here ranRest).mpr (later next taken)⟩

theorem along_congr {s : σ} (same : ∀ a ∈ actions, ∀ s, P s a ↔ Q s a) :
    Along step P s actions ↔ Along step Q s actions := by
  induction actions generalizing s with
  | nil => exact Iff.rfl
  | cons a rest ih =>
    have first := same a List.mem_cons_self s
    have later (next : σ) := @ih next fun b mem => same b (.tail _ mem)
    simp only [Along, first, later]

/-- Two conditions agree along a run that keeps `I` under either of them, if they agree at each step from `I`. -/
theorem along_iff_of_run (law : ∀ s a next, I s → step s a = some next → (P s a ↔ Q s a) ∧ (Q s a → I next))
    {s final : σ} (start : I s) (ran : run step s actions = some final) :
    Along step P s actions ↔ Along step Q s actions := by
  induction actions generalizing s with
  | nil => exact Iff.rfl
  | cons a rest ih =>
    obtain ⟨next, taken, ranRest⟩ := run_cons_eq_some.mp ran
    obtain ⟨same, kept⟩ := law s a next start taken
    have later (holds : Q s a) : (∀ t, step s a = some t → Along step P t rest) ↔
        ∀ t, step s a = some t → Along step Q t rest := by
      simp only [taken, Option.some.injEq, forall_eq']
      exact ih (kept holds) ranRest
    constructor
    · intro along
      have here := same.mp along.1
      exact ⟨here, (later here).mp along.2⟩
    · intro along
      exact ⟨same.mpr along.1, (later along.1).mpr along.2⟩

/-- Two conditions agree along every run from an invariant under which they agree at each step. -/
theorem along_iff_of_invariant (law : ∀ s a, I s → (P s a ↔ Q s a))
    (keeps : ∀ s a next, I s → step s a = some next → I next) {s : σ} (actions : List α) (start : I s) :
    Along step P s actions ↔ Along step Q s actions := by
  induction actions generalizing s with
  | nil => exact Iff.rfl
  | cons a rest ih =>
    exact and_congr (law s a start) (forall_congr' fun next => imp_congr_right fun taken =>
      ih (keeps s a next start taken))

/-- A run whose steps all meet `P` has all its steps and keeps `I` throughout, if `P` is enough for that at
    each of its actions. -/
theorem Along.holds {s : σ} (along : Along step P s actions)
    (goes : ∀ a ∈ actions, ∀ s, P s a → I s → ∃ next, step s a = some next ∧ I next) (start : I s) :
    Holds step I s actions := by
  induction actions generalizing s with
  | nil => exact start
  | cons a rest ih =>
    obtain ⟨next, taken, kept⟩ := goes a List.mem_cons_self s along.1 start
    exact ⟨start, next, taken, ih (along.2 next taken) (fun b mem => goes b (.tail _ mem)) kept⟩

end Rv64Vm.Lib
