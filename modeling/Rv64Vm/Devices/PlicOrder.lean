import Rv64Vm.Devices.PlicGateway
import Mathlib.Order.Bounds.Basic

/-! # The order of service

Of the sources that may interrupt a context, `find_highest_pending_enabled` selects one of
the highest priority, and of several the one with the smallest number. Claims without
anything between them serve the sources in that order.
-/

namespace Rv64Vm

open Lib

namespace Plic

variable {p q : Plic} {ctx s t : Nat}

/-- `s` is served before `t`. -/
def Ahead (p : Plic) (s t : Nat) : Prop := p.priority t < p.priority s ∨ (p.priority t = p.priority s ∧ s < t)

/-- The sources that may interrupt the context and that no other exceeds. -/
def Top (p : Plic) (ctx : Nat) : Set Nat :=
  {s | p.Eligible ctx s ∧ ∀ t, p.Eligible ctx t → p.priority t ≤ p.priority s}

/-- What `k` claims on a context return. -/
def claims (ctx : Nat) : Nat → Plic → List Nat
  | 0, _ => []
  | k + 1, p => (p.claimInterrupt ctx).1 :: claims ctx k (p.claimInterrupt ctx).2

theorem ahead_of_rank_le (le : p.rank t ≤ p.rank s) (other : t ≠ s) : p.Ahead s t := by
  rcases rank_le_iff.mp le with less | ⟨equal, before⟩
  · exact .inl less
  · exact .inr ⟨equal, lt_of_le_of_ne before other.symm⟩

theorem findHighest_eq_zero_iff : p.findHighestPendingEnabled ctx = 0 ↔ ¬ p.HasEligible ctx := by
  rw [← findHighest_ne_zero_iff, not_not]

/-- What the scan finds is the smallest of the top sources. -/
theorem findHighest_isLeast (found : p.findHighestPendingEnabled ctx ≠ 0) :
    IsLeast (p.Top ctx) (p.findHighestPendingEnabled ctx) := by
  rcases p.findHighest_rank ctx with ⟨zero, -⟩ | ⟨eligible, top⟩
  · exact absurd zero found
  · refine ⟨⟨eligible, fun t other => priority_le_of_rank_le (top t other)⟩, fun t best => ?_⟩
    rcases rank_le_iff.mp (top t best.1) with less | ⟨-, before⟩
    · exact absurd (best.2 _ eligible) less.not_ge
    · exact before

/-! ## Claims -/

/-- The source that a claim returns, if there is one. -/
def served (ctx : Nat) (p : Plic) : Option Nat :=
  if p.findHighestPendingEnabled ctx = 0 then none else some (p.findHighestPendingEnabled ctx)

theorem served_eq_none : served ctx p = none ↔ p.findHighestPendingEnabled ctx = 0 := by
  simp [served]

theorem served_eq_some : served ctx p = some s ↔ p.findHighestPendingEnabled ctx = s ∧ s ≠ 0 := by
  unfold served
  split
  case isTrue zero =>
    constructor
    · intro none
      cases none
    · intro both
      exact absurd (both.1.symm.trans zero) both.2
  case isFalse found =>
    rw [Option.some.injEq]
    exact ⟨fun same => ⟨same, same ▸ found⟩, fun both => both.1⟩

theorem claimInterrupt_idle (zero : p.findHighestPendingEnabled ctx = 0) : p.claimInterrupt ctx = (0, p) := by
  simp [claimInterrupt, zero]

theorem claimInterrupt_found (found : p.findHighestPendingEnabled ctx = s) (positive : s ≠ 0) :
    p.claimInterrupt ctx = (s, (p.withPending s false).updateContext ctx) := by
  simp [claimInterrupt, found, positive]

theorem claimInterrupt_fst (p : Plic) (ctx : Nat) : (p.claimInterrupt ctx).1 = (served ctx p).getD 0 := by
  unfold claimInterrupt served
  by_cases zero : p.findHighestPendingEnabled ctx = 0
  · simp [zero]
  · simp [zero]

theorem claimInterrupt_priority (p : Plic) (ctx : Nat) : (p.claimInterrupt ctx).2.priority = p.priority := by
  by_cases zero : p.findHighestPendingEnabled ctx = 0
  · rw [claimInterrupt_idle zero]
  · rw [claimInterrupt_found rfl zero]
    funext s
    unfold priority
    rw [(updateContext_same _ ctx).priorities]
    rfl

theorem eligible_withPending_false : (p.withPending s false).Eligible ctx t ↔ p.Eligible ctx t ∧ t ≠ s := by
  have pending : (p.withPending s false).Pending t ↔ p.Pending t ∧ t ≠ s := by
    rw [pending_withPending]
    by_cases same : t = s
    · simp [same]
    · simp [same]
  constructor
  · intro e
    obtain ⟨before, other⟩ := pending.mp e.pending
    exact ⟨⟨e.positive, e.inRange, before, e.enabled, e.above⟩, other⟩
  · intro both
    have e := both.1
    exact ⟨e.positive, e.inRange, pending.mpr ⟨e.pending, both.2⟩, e.enabled, e.above⟩

/-- Claims drain the eligible sources. -/
theorem claims_drain (ctx : Nat) :
    Drains (served ctx) (fun p => (p.claimInterrupt ctx).2) (fun p => p.Eligible ctx) Ahead where
  empty p none s eligible := findHighest_eq_zero_iff.mp (served_eq_none.mp none) ⟨s, eligible⟩
  first p s some := by
    obtain ⟨found, positive⟩ := served_eq_some.mp some
    rcases p.findHighest_rank ctx with ⟨zero, -⟩ | ⟨eligible, top⟩
    · exact absurd (found.symm.trans zero) positive
    · rw [found] at eligible top
      exact ⟨eligible, fun t other differs => ahead_of_rank_le (top t other) differs⟩
  popped p s some t := by
    obtain ⟨found, positive⟩ := served_eq_some.mp some
    rw [claimInterrupt_found found positive, (updateContext_same _ ctx).eligible_iff]
    exact eligible_withPending_false
  idle p none := by rw [claimInterrupt_idle (served_eq_none.mp none)]
  order p := by
    unfold Ahead
    rw [claimInterrupt_priority]

theorem claims_eq_drain (p : Plic) (ctx k : Nat) :
    claims ctx k p = (drain (served ctx) (fun p => (p.claimInterrupt ctx).2) k p).map (Option.getD · 0) := by
  induction k generalizing p with
  | zero => rfl
  | succ k ih => rw [claims, drain, ih, claimInterrupt_fst, List.map_cons]

theorem eligible_finite (p : Plic) (ctx : Nat) : {s | p.Eligible ctx s}.Finite :=
  (Set.finite_le_nat p.maxSources.toNat).subset fun _ eligible => eligible.inRange

/-- Claims return the eligible sources in the order of service, and then 0. -/
theorem claims_eq_queue (p : Plic) (ctx : Nat) :
    ∃ order, Queue (fun p => p.Eligible ctx) Ahead p order ∧
      ∀ k, claims ctx k p = order.take k ++ List.replicate (k - order.length) 0 := by
  obtain ⟨order, queue, drained⟩ := (claims_drain ctx).queue p (p.eligible_finite ctx)
  refine ⟨order, queue, fun k => ?_⟩
  rw [claims_eq_drain, drained, List.map_append, List.map_map, List.map_replicate]
  simp [Function.comp_def]

/-- The scan selects the smallest number among the eligible sources of the highest priority,
    and 0 exactly if no source is eligible; claims in a row serve every eligible source
    once, by falling priority and rising number, and then return 0. -/
theorem arbitration (p : Plic) (ctx : Nat) :
    (p.findHighestPendingEnabled ctx = 0 ↔ ¬ p.HasEligible ctx) ∧
      (p.findHighestPendingEnabled ctx = 0 ∨ IsLeast (p.Top ctx) (p.findHighestPendingEnabled ctx)) ∧
      ∃ order : List Nat, (∀ s, s ∈ order ↔ p.Eligible ctx s) ∧ order.Pairwise p.Ahead ∧
        ∀ k, claims ctx k p = order.take k ++ List.replicate (k - order.length) 0 := by
  refine ⟨findHighest_eq_zero_iff, ?_, ?_⟩
  · by_cases zero : p.findHighestPendingEnabled ctx = 0
    · exact .inl zero
    · exact .inr (findHighest_isLeast zero)
  · obtain ⟨order, queue, returned⟩ := p.claims_eq_queue ctx
    exact ⟨order, queue.mem, queue.sorted, returned⟩

end Plic

end Rv64Vm
