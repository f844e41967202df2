import Mathlib.Tactic.Common
import Mathlib.Algebra.BigOperators.Group.Finset.Basic

/-! # Saturating counters

A counter that sticks at a cap on the way up and is decremented on the way down. Once the number
of things counted has been at `peak`, the counter misses `peak - cap` of them for good.
-/

namespace Rv64Vm.Lib

/-- What a counter with the given cap shows for `n` things, `peak` of which were there at one time. -/
def tally (cap peak n : Nat) : Nat := n - (peak - cap)

variable {cap peak n : Nat}

theorem tally_pred : tally cap peak n - 1 = tally cap peak (n - 1) := by
  unfold tally
  omega

theorem tally_zero : tally cap peak 0 = 0 := Nat.zero_sub _

/-- Counting one more, as long as the counter has not yet lost track. -/
theorem tally_succ (within : peak - cap ≤ n) (below : n ≤ peak) :
    (if tally cap peak n ≠ cap then tally cap peak n + 1 else tally cap peak n) =
      tally cap (max peak (n + 1)) (n + 1) := by
  unfold tally
  split <;> omega

theorem tally_max_of_le (below : n ≤ peak) : tally cap (max peak n) n = tally cap peak n := by
  rw [max_eq_left below]

/-- The counter tells that something is left unless the number fell by the cap. -/
theorem tally_max_ne_zero_iff (pos : 0 < cap) (positive : 0 < n) : tally cap (max peak n) n ≠ 0 ↔ peak < n + cap := by
  unfold tally
  omega

theorem sum_replace {N j : Nat} {f g : Nat → Nat} (mem : j < N) (same : ∀ i, i ≠ j → g i = f i) :
    ∑ i ∈ Finset.range N, g i + f j = ∑ i ∈ Finset.range N, f i + g j := by
  have inside : j ∈ Finset.range N := Finset.mem_range.mpr mem
  have rest : ∑ i ∈ (Finset.range N).erase j, g i = ∑ i ∈ (Finset.range N).erase j, f i :=
    Finset.sum_congr rfl fun i away => same i (Finset.ne_of_mem_erase away)
  rw [← Finset.add_sum_erase _ f inside, ← Finset.add_sum_erase _ g inside, rest]
  omega

end Rv64Vm.Lib
