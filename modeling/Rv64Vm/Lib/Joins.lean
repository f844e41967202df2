import Mathlib.Tactic.Common

/-! # Maps between bit vectors that keep disjunction

Fields, shifts, masks and concatenations of a word all commute with `|||`. Two such
maps are equal as soon as they agree on zero and on the words of one bit, so that an
immediate that is scattered over an encoding is checked on a handful of words.
-/

namespace Rv64Vm.Lib

def Joins {n m : Nat} (f : BitVec n → BitVec m) : Prop := ∀ a b, f (a ||| b) = f a ||| f b

namespace Joins

variable {n m k l : Nat} {f g : BitVec n → BitVec m}

theorem id : Joins fun x : BitVec n => x := fun _ _ => rfl

theorem const (v : BitVec m) : Joins fun _ : BitVec n => v := fun _ _ => BitVec.or_self.symm

theorem or (hf : Joins f) (hg : Joins g) : Joins fun x => f x ||| g x := by
  intro a b
  dsimp only
  rw [hf, hg]
  ac_rfl

theorem and (hf : Joins f) (v : BitVec m) : Joins fun x => f x &&& v := by
  intro a b
  dsimp only
  rw [hf]
  apply BitVec.eq_of_getLsbD_eq
  intro i _
  simp only [BitVec.getLsbD_and, BitVec.getLsbD_or]
  exact Bool.and_or_distrib_right ..

theorem setWidth (hf : Joins f) (k : Nat) : Joins fun x => (f x).setWidth k := by
  intro a b
  dsimp only
  rw [hf, BitVec.setWidth_or]

theorem extract (hf : Joins f) (s k : Nat) : Joins fun x => (f x).extractLsb' s k := by
  intro a b
  dsimp only
  rw [hf, BitVec.extractLsb'_or]

theorem field (s k : Nat) : Joins fun x : BitVec n => x.extractLsb' s k := Joins.id.extract s k

theorem shiftLeft (hf : Joins f) (s : Nat) : Joins fun x => f x <<< s := by
  intro a b
  dsimp only
  rw [hf, BitVec.shiftLeft_or_distrib]

theorem shiftRight (hf : Joins f) (s : Nat) : Joins fun x => f x >>> s := by
  intro a b
  dsimp only
  rw [hf, BitVec.ushiftRight_or_distrib]

theorem sshiftRight (hf : Joins f) (s : Nat) : Joins fun x => (f x).sshiftRight s := by
  intro a b
  dsimp only
  rw [hf, BitVec.sshiftRight_or_distrib]

theorem signExtend (hf : Joins f) (k : Nat) : Joins fun x => (f x).signExtend k := by
  intro a b
  dsimp only
  rw [hf]
  apply BitVec.eq_of_getLsbD_eq
  intro i _
  simp only [BitVec.getLsbD_signExtend, BitVec.getLsbD_or, BitVec.msb_or]
  grind

theorem append {g : BitVec n → BitVec k} (hf : Joins f) (hg : Joins g) : Joins fun x => f x ++ g x := by
  intro a b
  dsimp only
  rw [hf, hg]
  apply BitVec.eq_of_getLsbD_eq
  intro i _
  simp only [BitVec.getLsbD_append, BitVec.getLsbD_or]
  split <;> rfl

end Joins

/-- The low `j + 1` bits are the low `j` bits and perhaps one more. -/
theorem low_bits_succ {n : Nat} (x : BitVec n) (j : Nat) :
    (x.setWidth (j + 1)).setWidth n =
      (x.setWidth j).setWidth n ||| (if x.getLsbD j then BitVec.twoPow n j else 0) := by
  apply BitVec.eq_of_getLsbD_eq
  intro i inside
  rw [BitVec.getLsbD_or]
  split <;> simp only [BitVec.getLsbD_setWidth, BitVec.getLsbD_twoPow, inside] <;> grind

/-- Maps that keep disjunction are equal if they agree on zero and on single bits. -/
theorem Joins.ext {n m : Nat} {f g : BitVec n → BitVec m} (hf : Joins f) (hg : Joins g) (zero : f 0 = g 0)
    (bits : ∀ j < n, f (BitVec.twoPow n j) = g (BitVec.twoPow n j)) (x : BitVec n) : f x = g x := by
  have low (j : Nat) (le : j ≤ n) : f ((x.setWidth j).setWidth n) = g ((x.setWidth j).setWidth n) := by
    induction j with
    | zero =>
      have nothing : (x.setWidth 0).setWidth n = 0 := by
        apply BitVec.eq_of_toNat_eq
        simp [Nat.mod_one]
      rw [nothing, zero]
    | succ j ih =>
      rw [low_bits_succ, hf, hg, ih (by omega)]
      congr 1
      split
      · exact bits j (by omega)
      · exact zero
  have whole : (x.setWidth n).setWidth n = x := by rw [BitVec.setWidth_eq, BitVec.setWidth_eq]
  rw [← whole]
  exact low n (Nat.le_refl n)

end Rv64Vm.Lib
