import Mathlib.Data.Nat.Bitwise
import Mathlib.Tactic.Common

/-! # Low-bit masks of bit vectors

`lowMask w b` is the C idiom `(1 << b) - 1` at width `w`. The lemmas turn the
masking and joining of addresses into division and remainder by powers of two.
-/

namespace Rv64Vm.Lib

variable {w : Nat}

/-- `(1 << b) - 1` at width `w`. -/
def lowMask (w b : Nat) : BitVec w := (1#w <<< b) - 1#w

theorem toNat_lowMask {b : Nat} (small : b < w) : (lowMask w b).toNat = 2 ^ b - 1 := by
  have bound : 2 ^ b < 2 ^ w := Nat.pow_lt_pow_right (by decide) small
  have pos : 0 < 2 ^ b := Nat.two_pow_pos b
  have one : 1 % 2 ^ w = 1 := Nat.mod_eq_of_lt (Nat.one_lt_two_pow (by omega))
  simp only [lowMask, BitVec.toNat_sub, BitVec.toNat_shiftLeft, BitVec.toNat_ofNat, one,
    Nat.shiftLeft_eq, Nat.one_mul, Nat.mod_eq_of_lt bound]
  have sum : 2 ^ w - 1 + 2 ^ b = (2 ^ b - 1) + 2 ^ w := by omega
  rw [sum, Nat.add_mod_right, Nat.mod_eq_of_lt (by omega)]

theorem getLsbD_lowMask {b : Nat} (small : b < w) (k : Nat) : (lowMask w b).getLsbD k = decide (k < b) := by
  rw [BitVec.getLsbD, toNat_lowMask small, Nat.testBit_two_pow_sub_one]

theorem toNat_and_lowMask {b : Nat} (small : b < w) (x : BitVec w) : (x &&& lowMask w b).toNat = x.toNat % 2 ^ b := by
  rw [BitVec.toNat_and, toNat_lowMask small, Nat.and_two_pow_sub_one_eq_mod]

/-- Two words agree above the mask exactly when their shifts agree. -/
theorem and_not_lowMask_eq_iff {b : Nat} (small : b < w) (x y : BitVec w) :
    x &&& ~~~(lowMask w b) = y &&& ~~~(lowMask w b) ↔ x >>> b = y >>> b := by
  constructor
  · intro same
    apply BitVec.eq_of_getLsbD_eq
    intro k hk
    have bit := congrArg (fun z => z.getLsbD (b + k)) same
    by_cases inside : b + k < w
    · simp only [BitVec.getLsbD_and, BitVec.getLsbD_not, getLsbD_lowMask small, inside,
        Nat.not_lt.mpr (Nat.le_add_right b k), decide_true, decide_false, Bool.not_false,
        Bool.and_true] at bit
      simpa only [BitVec.getLsbD_ushiftRight] using bit
    · simp [BitVec.getLsbD_ushiftRight, BitVec.getLsbD_of_ge _ _ (Nat.le_of_not_lt inside)]
  · intro same
    apply BitVec.eq_of_getLsbD_eq
    intro k hk
    by_cases low : k < b
    · simp [getLsbD_lowMask small, low]
    · have bit := congrArg (fun z => z.getLsbD (k - b)) same
      have back : b + (k - b) = k := by omega
      simp only [BitVec.getLsbD_ushiftRight, back] at bit
      simp [getLsbD_lowMask small, low, bit]

/-- Agreement above a mask is inherited by every larger shift. -/
theorem ushiftRight_eq_of_le {b k : Nat} {x y : BitVec w} (le : b ≤ k) (same : x >>> b = y >>> b) :
    x >>> k = y >>> k := by
  have split : k = b + (k - b) := by omega
  rw [split, BitVec.shiftRight_add, BitVec.shiftRight_add, same]

/-- Masking off and on again is the identity. -/
theorem and_not_or_and (x m : BitVec w) : (x &&& ~~~m) ||| (x &&& m) = x := by
  apply BitVec.eq_of_getLsbD_eq
  intro k hk
  simp only [BitVec.getLsbD_or, BitVec.getLsbD_and, BitVec.getLsbD_not, hk, decide_true, Bool.true_and]
  cases x.getLsbD k <;> cases m.getLsbD k <;> rfl

/-- The high part of a join with an aligned base is the base. -/
theorem or_and_not_of_aligned {base x m : BitVec w} (aligned : base &&& m = 0) :
    (base ||| (x &&& m)) &&& ~~~m = base := by
  apply BitVec.eq_of_getLsbD_eq
  intro k hk
  have bit := congrArg (fun z => z.getLsbD k) aligned
  simp only [BitVec.getLsbD_and] at bit
  simp only [BitVec.getLsbD_or, BitVec.getLsbD_and, BitVec.getLsbD_not, hk, decide_true, Bool.true_and]
  cases hb : base.getLsbD k <;> cases hx : x.getLsbD k <;> cases hm : m.getLsbD k <;> simp_all

/-- Joining an aligned base with an offset is addition. -/
theorem toNat_or_and_lowMask {b : Nat} (small : b < w) (base x : BitVec w)
    (aligned : base.toNat % 2 ^ b = 0) :
    (base ||| (x &&& lowMask w b)).toNat = base.toNat + x.toNat % 2 ^ b := by
  rw [BitVec.toNat_or, toNat_and_lowMask small]
  have whole : base.toNat = 2 ^ b * (base.toNat / 2 ^ b) := by
    rw [Nat.mul_div_cancel' (Nat.dvd_of_mod_eq_zero aligned)]
  rw [whole, ← Nat.two_pow_add_eq_or_of_lt (Nat.mod_lt _ (Nat.two_pow_pos b))]

theorem toNat_ofNat_of_lt {x : Nat} (small : x < 2 ^ w) : (BitVec.ofNat w x).toNat = x := by
  rw [BitVec.toNat_ofNat, Nat.mod_eq_of_lt small]

theorem toNat_add_ofNat {x : BitVec w} {i : Nat} (fits : x.toNat + i < 2 ^ w) :
    (x + BitVec.ofNat w i).toNat = x.toNat + i := by
  have step : (BitVec.ofNat w i).toNat = i := toNat_ofNat_of_lt (by omega)
  rw [BitVec.toNat_add_of_lt (by rwa [step]), step]

theorem toNat_add_ofNat_sub (x : BitVec w) {i : Nat} (small : i < 2 ^ w) : (x + BitVec.ofNat w i - x).toNat = i := by
  rw [BitVec.add_comm, BitVec.add_sub_cancel, toNat_ofNat_of_lt small]

/-- Adding inside an aligned window of `2 ^ p` carries into no higher bit. -/
theorem add_mod_of_fits {y i p b : Nat} (le : p ≤ b) (fits : y % 2 ^ p + i < 2 ^ p) :
    (y + i) % 2 ^ b = y % 2 ^ b + i := by
  obtain ⟨s, rfl⟩ := Nat.exists_eq_add_of_le le
  have whole : y % 2 ^ (p + s) = y % 2 ^ p + 2 ^ p * (y / 2 ^ p % 2 ^ s) := by
    rw [Nat.pow_add, Nat.mod_mul]
  have top : 2 ^ p * (y / 2 ^ p % 2 ^ s + 1) ≤ 2 ^ p * 2 ^ s :=
    Nat.mul_le_mul_left _ (Nat.mod_lt _ (Nat.two_pow_pos s))
  have small : y % 2 ^ (p + s) + i < 2 ^ (p + s) := by
    rw [whole, Nat.pow_add]
    rw [Nat.mul_add] at top
    omega
  rw [Nat.add_mod, Nat.mod_eq_of_lt (a := i) (by omega), Nat.mod_eq_of_lt small]

theorem toNat_add_of_fits {p i : Nat} {x : BitVec w} (le : p ≤ w) (fits : x.toNat % 2 ^ p + i < 2 ^ p) :
    (x + BitVec.ofNat w i).toNat = x.toNat + i := by
  have whole := add_mod_of_fits le fits
  rw [Nat.mod_eq_of_lt x.isLt] at whole
  have small : i % 2 ^ w = i := by
    apply Nat.mod_eq_of_lt
    have := Nat.pow_le_pow_right (n := 2) (by decide) le
    omega
  rw [BitVec.toNat_add, BitVec.toNat_ofNat, small, whole]

theorem add_ushiftRight_of_fits {p i : Nat} {x : BitVec w} (le : p ≤ w)
    (fits : x.toNat % 2 ^ p + i < 2 ^ p) : (x + BitVec.ofNat w i) >>> p = x >>> p := by
  apply BitVec.eq_of_toNat_eq
  rw [BitVec.toNat_ushiftRight, BitVec.toNat_ushiftRight, toNat_add_of_fits le fits,
    Nat.shiftRight_eq_div_pow, Nat.shiftRight_eq_div_pow]
  have parts := Nat.div_add_mod x.toNat (2 ^ p)
  have sum : x.toNat + i = (x.toNat % 2 ^ p + i) + 2 ^ p * (x.toNat / 2 ^ p) := by omega
  rw [sum, Nat.add_mul_div_left _ _ (Nat.two_pow_pos p), Nat.div_eq_of_lt fits, Nat.zero_add]

/-- A join with an aligned base keeps the low bits. -/
theorem or_and_lowMask_mod {p b : Nat} {base x : BitVec w} (le : p ≤ b) (small : b < w)
    (aligned : base &&& lowMask w b = 0) : (base ||| (x &&& lowMask w b)).toNat % 2 ^ p = x.toNat % 2 ^ p := by
  have base0 : base.toNat % 2 ^ b = 0 := by
    rw [← toNat_and_lowMask small, aligned]
    rfl
  rw [toNat_or_and_lowMask small base x base0]
  obtain ⟨s, rfl⟩ := Nat.exists_eq_add_of_le le
  have zero : base.toNat % 2 ^ p = 0 := by
    rw [Nat.pow_add] at base0
    exact Nat.mod_eq_zero_of_dvd (Nat.dvd_trans (Nat.dvd_mul_right _ _) (Nat.dvd_of_mod_eq_zero base0))
  rw [Nat.add_mod, zero, Nat.zero_add, Nat.mod_mod, Nat.pow_add, Nat.mod_mul_right_mod]

/-- Moving inside the window moves a join with an aligned base by as much. -/
theorem or_and_lowMask_add {p b i : Nat} {base x : BitVec w} (le : p ≤ b) (small : b < w)
    (aligned : base &&& lowMask w b = 0) (fits : x.toNat % 2 ^ p + i < 2 ^ p) :
    base ||| ((x + BitVec.ofNat w i) &&& lowMask w b) =
      (base ||| (x &&& lowMask w b)) + BitVec.ofNat w i := by
  have base0 : base.toNat % 2 ^ b = 0 := by
    rw [← toNat_and_lowMask small, aligned]
    rfl
  have moved : (x + BitVec.ofNat w i).toNat % 2 ^ b = x.toNat % 2 ^ b + i := by
    rw [toNat_add_of_fits (by omega) fits, add_mod_of_fits le fits]
  have within : (base ||| (x &&& lowMask w b)).toNat % 2 ^ p + i < 2 ^ p := by
    rw [or_and_lowMask_mod le small aligned]
    exact fits
  apply BitVec.eq_of_toNat_eq
  rw [toNat_or_and_lowMask small base _ base0, moved, toNat_add_of_fits (by omega) within,
    toNat_or_and_lowMask small base x base0, Nat.add_assoc]

end Rv64Vm.Lib
