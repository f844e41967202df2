import Mathlib.Tactic.Common

/-! # Even addresses -/

namespace Rv64Vm.Lib

variable {a b : BitVec 64}

/-- The address is a multiple of 2. -/
def Halfword (a : BitVec 64) : Prop := a.toNat % 2 = 0

instance (a : BitVec 64) : Decidable (Halfword a) := inferInstanceAs (Decidable (_ = _))

theorem halfword_iff_bit : Halfword a ↔ a.getLsbD 0 = false := by
  rw [Halfword, BitVec.getLsbD, Nat.testBit_zero, decide_eq_false_iff_not]
  omega

theorem halfword_of_mod (even : ¬ a % 2 ≠ 0) : Halfword a := by
  have value := congrArg BitVec.toNat (not_not.mp even)
  exact value

theorem Halfword.add (left : Halfword a) (right : Halfword b) : Halfword (a + b) := by
  rw [Halfword, BitVec.toNat_add]
  rw [Halfword] at left right
  omega

theorem halfword_and_not_one (a : BitVec 64) : Halfword (a &&& ~~~1) := by
  rw [halfword_iff_bit]
  simp

theorem halfword_and_not_three (a : BitVec 64) : Halfword (a &&& ~~~3) := by
  rw [halfword_iff_bit]
  simp

end Rv64Vm.Lib
