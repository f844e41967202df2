import Mathlib.Data.Fintype.EquivFin
import Mathlib.Order.Interval.Finset.Nat
import Mathlib.Tactic.Common

/-! # Loops that may not end

A pass of an unbounded loop goes on or ends the loop; `iterate` runs a bounded number of passes, and
`Returns` says that some number is enough. A `walk` follows a partial function. A loop that follows a
walk returns exactly if the walk stops, and a walk stops exactly if it comes to finitely many positions,
and to none of them twice. A loop that also writes the store that it reads follows its walk as long as
it writes nothing that it has still to read.
-/

namespace Rv64Vm.Lib

/-- What a pass of a loop does. -/
inductive Turn (σ : Type) where
  | again (s : σ)
  | done (s : σ)

/-- The state in which the loop ends, if that takes fewer passes than the bound. -/
def iterate {σ : Type} (body : σ → Turn σ) : Nat → σ → Option σ
  | 0, _ => none
  | bound + 1, s =>
    match body s with
    | .again t => iterate body bound t
    | .done t => some t

def walk {π : Type} (next : π → Option π) : Nat → π → Option π
  | 0, p => some p
  | n + 1, p => (next p).bind (walk next n)

section Loops

variable {σ : Type} {body : σ → Turn σ} {s t : σ}

/-- The loop ends. -/
def Returns (body : σ → Turn σ) (s : σ) : Prop := ∃ bound, (iterate body bound s).isSome = true

theorem returns_done (ends : body s = .done t) : Returns body s := by
  refine ⟨1, ?_⟩
  rw [iterate, ends]
  rfl

theorem returns_again (goes : body s = .again t) : Returns body s ↔ Returns body t := by
  constructor
  · rintro ⟨bound, ends⟩
    cases bound with
    | zero => cases ends
    | succ bound =>
      rw [iterate, goes] at ends
      exact ⟨bound, ends⟩
  · rintro ⟨bound, ends⟩
    refine ⟨bound + 1, ?_⟩
    rw [iterate, goes]
    exact ends

/-- A pass that changes nothing is made over and over. -/
theorem not_returns_of_fixed (fixed : body s = .again s) : ¬ Returns body s := by
  rintro ⟨bound, ends⟩
  induction bound with
  | zero => cases ends
  | succ bound ih =>
    rw [iterate, fixed] at ends
    exact ih ends

end Loops

section Walks

variable {π : Type} {next : π → Option π} {p q : π}

/-- The walk comes to an end. -/
def Stops (next : π → Option π) (p : π) : Prop := ∃ n, walk next n p = none

/-- The walk comes to `q`. -/
def Visits (next : π → Option π) (p q : π) : Prop := ∃ n, walk next n p = some q

/-- The walk comes to no position twice. -/
def NeverTwice (next : π → Option π) (p : π) : Prop :=
  ∀ m n q, walk next m p = some q → walk next n p = some q → m = n

theorem walk_add (m n : Nat) (p : π) : walk next (m + n) p = (walk next m p).bind (walk next n) := by
  induction m generalizing p with
  | zero => rw [Nat.zero_add]; rfl
  | succ m ih =>
    rw [Nat.succ_add, walk, walk, Option.bind_assoc]
    exact congrArg _ (funext ih)

theorem stops_none (ends : next p = none) : Stops next p := ⟨1, by rw [walk, ends]; rfl⟩

/-- From a position that comes again after `k + 1` steps the walk does not stop. -/
theorem not_stops_of_cycle {k : Nat} (cycle : walk next (k + 1) p = some p) : ¬ Stops next p := by
  rintro ⟨n, ends⟩
  induction n using Nat.strong_induction_on with
  | _ n ih =>
    cases le : decide (k + 1 ≤ n) with
    | true =>
      have split : n = (k + 1) + (n - (k + 1)) := by
        have := of_decide_eq_true le
        omega
      rw [split, walk_add, cycle, Option.bind_some] at ends
      exact ih _ (by omega) ends
    | false =>
      have split : k + 1 = n + (k + 1 - n) := by
        have := of_decide_eq_false le
        omega
      rw [split, walk_add, ends] at cycle
      cases cycle

theorem Visits.stops (visits : Visits next p q) : Stops next p ↔ Stops next q := by
  obtain ⟨m, here⟩ := visits
  constructor
  · rintro ⟨n, ends⟩
    refine ⟨n, ?_⟩
    have longer : walk next (n + m) p = none := by rw [walk_add, ends]; rfl
    rw [Nat.add_comm, walk_add, here] at longer
    exact longer
  · rintro ⟨n, ends⟩
    refine ⟨m + n, ?_⟩
    rw [walk_add, here]
    exact ends

theorem stops_some (goes : next p = some q) : Stops next p ↔ Stops next q := by
  have visits : Visits next p q := ⟨1, by rw [walk, goes]; rfl⟩
  exact visits.stops

theorem Stops.neverTwice (stops : Stops next p) : NeverTwice next p := by
  intro m n q first second
  by_contra differ
  have earlier {m n : Nat} (first : walk next m p = some q) (second : walk next n p = some q) (lt : m < n) : False := by
    have cycle : walk next ((n - m - 1) + 1) q = some q := by
      have split : n = m + ((n - m - 1) + 1) := by omega
      rw [split, walk_add, first] at second
      exact second
    exact not_stops_of_cycle cycle ((Visits.stops ⟨m, first⟩).mp stops)
  rcases Nat.lt_or_gt_of_ne differ with lt | gt
  · exact earlier first second lt
  · exact earlier second first gt

theorem Stops.finite (stops : Stops next p) : {q | Visits next p q}.Finite := by
  obtain ⟨n, ends⟩ := stops
  apply ((Set.finite_Iio n).image fun m => (walk next m p).getD p).subset
  rintro q ⟨m, here⟩
  refine ⟨m, ?_, by dsimp only; rw [here]; rfl⟩
  apply Nat.lt_of_not_le
  intro le
  rw [← Nat.add_sub_of_le le, walk_add, ends] at here
  cases here

/-- A walk stops exactly if it comes to finitely many positions, and to none twice. -/
theorem stops_iff_finite (p : π) : Stops next p ↔ NeverTwice next p ∧ {q | Visits next p q}.Finite := by
  constructor
  · exact fun stops => ⟨stops.neverTwice, stops.finite⟩
  · rintro ⟨once, finite⟩
    by_contra endless
    have position (n : Nat) : ∃ q, walk next n p = some q :=
      Option.ne_none_iff_exists'.mp fun ends => endless ⟨n, ends⟩
    choose stage here using position
    have injective : Function.Injective stage := fun m n same => once m n (stage m) (here m) (same ▸ here n)
    have visited (n : Nat) : stage n ∈ {q | Visits next p q} := ⟨n, here n⟩
    exact Set.infinite_of_injective_forall_mem injective visited finite

theorem stops_iff_neverTwice [Finite π] (p : π) : Stops next p ↔ NeverTwice next p :=
  (stops_iff_finite p).trans (and_iff_left (Set.toFinite _))

/-- The pass of a loop that follows a walk to its end. -/
def follow (next : π → Option π) (p : π) : Turn π :=
  match next p with
  | some q => .again q
  | none => .done p

/-- The loop ends at the end of the walk. -/
theorem iterate_follow {bound : Nat} (ended : iterate (follow next) bound p = some q) : next q = none := by
  induction bound generalizing p with
  | zero => cases ended
  | succ bound ih =>
    rw [iterate, follow] at ended
    cases goes : next p with
    | none =>
      rw [goes] at ended
      obtain rfl := Option.some.inj ended
      exact goes
    | some r =>
      rw [goes] at ended
      exact ih ended

theorem Visits.end_eq {bound : Nat} {r : π} (visits : Visits next p q) (last : next q = none)
    (ended : iterate (follow next) bound p = some r) : r = q := by
  induction bound generalizing p with
  | zero => cases ended
  | succ bound ih =>
    obtain ⟨n, there⟩ := visits
    rw [iterate, follow] at ended
    cases n with
    | zero =>
      obtain rfl := Option.some.inj there
      rw [last] at ended
      exact (Option.some.inj ended).symm
    | succ n =>
      obtain ⟨p', goes, there⟩ := Option.bind_eq_some_iff.mp there
      rw [goes] at ended
      exact ih ⟨n, there⟩ ended

/-- Some number falls along every walk. -/
def Ranked (next : π → Option π) : Prop := ∃ rank : π → Nat, ∀ p q, next p = some q → rank q < rank p

/-- A ranked walk within `s` ends after at most as many passes as `s` has members. -/
theorem Ranked.iterate_follow {s : Finset π} (ranked : Ranked next) (inside : ∀ p q, next p = some q → q ∈ s)
    (start : p ∈ s) : ∃ q ∈ s, iterate (follow next) s.card p = some q := by
  obtain ⟨rank, falls⟩ := ranked
  have below (bound : Nat) : ∀ p ∈ s, (s.filter (rank · ≤ rank p)).card ≤ bound →
      ∃ q ∈ s, iterate (follow next) bound p = some q := by
    induction bound with
    | zero =>
      intro p here room
      have none := Finset.card_eq_zero.mp (Nat.le_zero.mp room)
      exact absurd (none ▸ Finset.mem_filter.mpr ⟨here, Nat.le_refl _⟩) (Finset.notMem_empty p)
    | succ bound ih =>
      intro p here room
      rw [iterate, follow]
      cases goes : next p with
      | none => exact ⟨p, here, rfl⟩
      | some q =>
        have lower := falls p q goes
        refine ih q (inside p q goes) (Nat.le_of_lt_succ (Nat.lt_of_lt_of_le (Finset.card_lt_card ?_) room))
        refine ⟨fun r mem => ?_, fun all => ?_⟩
        · rw [Finset.mem_filter] at mem ⊢
          exact ⟨mem.1, by omega⟩
        · have self := (Finset.mem_filter.mp (all (Finset.mem_filter.mpr ⟨here, Nat.le_refl _⟩))).2
          omega
  exact below s.card p start (Finset.card_filter_le ..)

/-- The end of a walk may be linked to a position whose walk does not come there. -/
theorem Ranked.link [DecidableEq π] {c : π} (ranked : Ranked next) (apart : ¬ Visits next q c) :
    Ranked (Function.update next c (some q)) := by
  classical
  obtain ⟨rank, falls⟩ := ranked
  refine ⟨fun p => if Visits next p c then rank p + rank q + 1 else rank p, fun p r goes => ?_⟩
  rw [Function.update_apply] at goes
  dsimp only
  split at goes
  case isTrue same =>
    obtain rfl := Option.some.inj goes
    rw [if_neg apart, same, if_pos ⟨0, rfl⟩]
    omega
  case isFalse other =>
    have lower := falls p r goes
    have both : Visits next p c ↔ Visits next r c := by
      constructor
      · rintro ⟨n, there⟩
        cases n with
        | zero => exact absurd (Option.some.inj there) other
        | succ n =>
          rw [walk, goes] at there
          exact ⟨n, there⟩
      · rintro ⟨n, there⟩
        exact ⟨n + 1, by rw [walk, goes]; exact there⟩
    rw [both]
    split <;> omega

end Walks

/-- A loop whose passes follow a walk, as long as `I` holds, returns exactly if the walk stops. -/
theorem returns_iff_stops {σ π : Type} {body : σ → Turn σ} {next : π → Option π} {stage : σ → π} {I : σ → Prop}
    (goes : ∀ s t, I s → body s = .again t → I t ∧ next (stage s) = some (stage t))
    (ends : ∀ s t, I s → body s = .done t → next (stage s) = none) {s : σ} (start : I s) :
    Returns body s ↔ Stops next (stage s) := by
  constructor
  · rintro ⟨bound, ended⟩
    induction bound generalizing s with
    | zero => cases ended
    | succ bound ih =>
      cases ran : body s with
      | done t => exact stops_none (ends s t start ran)
      | again t =>
        obtain ⟨kept, here⟩ := goes s t start ran
        rw [iterate, ran] at ended
        exact (stops_some here).mpr (ih kept ended)
  · rintro ⟨n, ended⟩
    induction n generalizing s with
    | zero => cases ended
    | succ n ih =>
      cases ran : body s with
      | done t => exact returns_done ran
      | again t =>
        obtain ⟨kept, here⟩ := goes s t start ran
        rw [walk, here] at ended
        exact (returns_again ran).mpr (ih kept ended)

/-! ## Plans -/

/-- What each position of a walk reads and may write of a store; `ς` is what the walk has met before, `ρ` a part of the
    store. -/
structure Plan (π ς ρ : Type) where
  next : π → Option π
  /-- What passing a position may make of what was met before. -/
  step : π → ς → ς → Prop
  reads : π → ς → ρ → Prop
  writes : π → ς → ρ → Prop
  /-- What a position asks of its own writes. -/
  needs : π → ς → Prop

namespace Plan

variable {π ς ρ σ M : Type} {plan : Plan π ς ρ} {off : ρ → ρ → Prop} {p q : π} {x y : ς}

inductive Reaches (plan : Plan π ς ρ) : π → ς → π → ς → Prop
  | here (p : π) (x : ς) : Reaches plan p x p x
  | pass {p q r : π} {x y z : ς} (goes : plan.next p = some q) (step : plan.step p x y) (rest : Reaches plan q y r z) :
      Reaches plan p x r z

/-- Nothing is written that is still to be read, and each position has what it needs. -/
structure Undisturbed (plan : Plan π ς ρ) (off : ρ → ρ → Prop) (p₀ : π) (x₀ : ς) : Prop where
  writes : ∀ {p q r x y z w part}, plan.Reaches p₀ x₀ p x → plan.next p = some q → plan.step p x y →
    plan.Reaches q y r z → plan.reads r z part → plan.writes p x w → off w part
  needs : ∀ {p x}, plan.Reaches p₀ x₀ p x → plan.needs p x

theorem Undisturbed.pass (undisturbed : plan.Undisturbed off p x) (goes : plan.next p = some q)
    (step : plan.step p x y) :
    plan.Undisturbed off q y :=
  ⟨fun reaches => undisturbed.writes (.pass goes step reaches),
    fun reaches => undisturbed.needs (.pass goes step reaches)⟩

theorem undisturbed_of_step (goes : plan.next p = some q) (ends : plan.next q = none)
    (writes : ∀ y w part, plan.step p x y → plan.reads q y part → plan.writes p x w → off w part)
    (needs : plan.needs p x) (needs' : ∀ y, plan.step p x y → plan.needs q y) : plan.Undisturbed off p x where
  writes reaches goes' step rest reads written := by
    cases reaches with
    | here =>
      obtain rfl := Option.some.inj (goes.symm.trans goes')
      cases rest with
      | here => exact writes _ _ _ step reads written
      | pass more => exact nomatch ends.symm.trans more
    | pass first _ later =>
      obtain rfl := Option.some.inj (goes.symm.trans first)
      cases later with
      | here => exact nomatch ends.symm.trans goes'
      | pass more => exact nomatch ends.symm.trans more
  needs reaches := by
    cases reaches with
    | here => exact needs
    | pass first step later =>
      obtain rfl := Option.some.inj (goes.symm.trans first)
      cases later with
      | here => exact needs' _ step
      | pass more => exact nomatch ends.symm.trans more

/-- The passes of a loop do what the plan says, where the store is as it was in the beginning. -/
def Follows (plan : Plan π ς ρ) (off : ρ → ρ → Prop) (same : M → M → ρ → Prop) (m : M) (good : σ → Prop)
    (pos : σ → π) (met : σ → ς) (store : σ → M) (body : σ → Turn σ) : Prop :=
  ∀ s, good s → (∀ part, plan.reads (pos s) (met s) part → same m (store s) part) → plan.needs (pos s) (met s) →
    match body s with
    | .again t => good t ∧ plan.next (pos s) = some (pos t) ∧ plan.step (pos s) (met s) (met t) ∧
        ∀ part, (∀ w, plan.writes (pos s) (met s) w → off w part) → same (store s) (store t) part
    | .done _ => plan.next (pos s) = none

/-- An undisturbed loop returns exactly if the walk stops. -/
theorem Follows.returns_iff {same : M → M → ρ → Prop} {m : M} {good : σ → Prop} {pos : σ → π} {met : σ → ς}
    {store : σ → M}
    {body : σ → Turn σ} (follows : plan.Follows off same m good pos met store body)
    (trans : ∀ {a b c part}, same a b part → same b c part → same a c part) {s : σ} (start : good s)
    (begins : ∀ part, same m (store s) part) (undisturbed : plan.Undisturbed off (pos s) (met s)) :
    Returns body s ↔ Stops plan.next (pos s) := by
  let I (s : σ) : Prop := good s ∧ plan.Undisturbed off (pos s) (met s) ∧
    ∀ r z part, plan.Reaches (pos s) (met s) r z → plan.reads r z part → same m (store s) part
  refine returns_iff_stops (I := I) ?_ ?_ ⟨start, undisturbed, fun _ _ part _ _ => begins part⟩
  · rintro s t ⟨held, undisturbed, kept⟩ ran
    have turn := follows s held (fun part => kept _ _ part (.here ..)) (undisturbed.needs (.here ..))
    rw [ran] at turn
    obtain ⟨held', goes, step, rest⟩ := turn
    refine ⟨⟨held', undisturbed.pass goes step, fun r z part reaches reads => ?_⟩, goes⟩
    exact trans (kept r z part (.pass goes step reaches) reads)
      (rest part fun w writes => undisturbed.writes (.here ..) goes step reaches reads writes)
  · rintro s t ⟨held, undisturbed, kept⟩ ran
    have turn := follows s held (fun part => kept _ _ part (.here ..)) (undisturbed.needs (.here ..))
    rwa [ran] at turn

end Plan

end Rv64Vm.Lib
