import Mathlib

/-! # Words as polynomials over GF(2)

The bits of a word are the coefficients of a polynomial over the field with two
elements. Exclusive or is addition, and the bits of a product are sums along the
antidiagonals. A loop that adds up one word for each set bit of another is a sum
over the positions, bit by bit.
-/

namespace Rv64Vm.Lib

open Polynomial

/-! ## Bits as elements of GF(2) -/

/-- A bit as an element of the field with two elements. -/
def bitZ (b : Bool) : ZMod 2 := if b then 1 else 0

theorem bitZ_xor (a b : Bool) : bitZ (a ^^ b) = bitZ a + bitZ b := by
  revert a b
  decide

theorem bitZ_and (a b : Bool) : bitZ (a && b) = bitZ a * bitZ b := by
  revert a b
  decide

theorem bitZ_injective {a b : Bool} (same : bitZ a = bitZ b) : a = b := by
  revert a b
  decide

/-! ## Polynomials -/

variable {w v : Nat}

/-- The polynomial whose coefficients are the bits of a word. -/
noncomputable def poly (x : BitVec w) : (ZMod 2)[X] := ∑ i ∈ Finset.range w, C (bitZ (x.getLsbD i)) * X ^ i

theorem coeff_poly (x : BitVec w) (n : Nat) : (poly x).coeff n = bitZ (x.getLsbD n) := by
  simp only [poly, finsetSum_coeff, coeff_C_mul_X_pow]
  by_cases inside : n < w
  · rw [Finset.sum_ite_eq (Finset.range w) n, if_pos (Finset.mem_range.mpr inside)]
  · rw [BitVec.getLsbD_of_ge _ _ (Nat.le_of_not_lt inside)]
    apply Finset.sum_eq_zero
    intro i mem
    have := Finset.mem_range.mp mem
    exact if_neg (by omega)

theorem poly_injective {x y : BitVec w} (same : poly x = poly y) : x = y := by
  apply BitVec.eq_of_getLsbD_eq
  intro i _
  apply bitZ_injective
  rw [← coeff_poly, ← coeff_poly, same]

theorem poly_xor (x y : BitVec w) : poly (x ^^^ y) = poly x + poly y := by
  ext n
  rw [coeff_add, coeff_poly, coeff_poly, coeff_poly, BitVec.getLsbD_xor, bitZ_xor]

/-- A coefficient of a product, as a sum over the positions of the second factor. -/
theorem coeff_poly_mul (a : BitVec w) (b : BitVec v) (n : Nat) :
    (poly a * poly b).coeff n =
      ∑ i ∈ Finset.range v, bitZ (b.getLsbD i && (decide (i ≤ n) && a.getLsbD (n - i))) := by
  have flipped : (poly a * poly b).coeff n =
      ∑ i ∈ Finset.range (n + 1), bitZ (b.getLsbD i && (decide (i ≤ n) && a.getLsbD (n - i))) := by
    rw [mul_comm, coeff_mul, Finset.Nat.sum_antidiagonal_eq_sum_range_succ_mk]
    apply Finset.sum_congr rfl
    intro i mem
    have le : i ≤ n := Nat.lt_succ_iff.mp (Finset.mem_range.mp mem)
    rw [coeff_poly, coeff_poly, bitZ_and, decide_eq_true le, Bool.true_and]
  rw [flipped]
  -- Positions past either end add nothing.
  have left := Finset.sum_subset (Finset.range_mono (Nat.le_max_left (n + 1) v))
    (f := fun i => bitZ (b.getLsbD i && (decide (i ≤ n) && a.getLsbD (n - i)))) ?_
  · have right := Finset.sum_subset (Finset.range_mono (Nat.le_max_right (n + 1) v))
      (f := fun i => bitZ (b.getLsbD i && (decide (i ≤ n) && a.getLsbD (n - i)))) ?_
    · exact left.trans right.symm
    · intro i _ outside
      have high : v ≤ i := Nat.le_of_not_lt fun low => outside (Finset.mem_range.mpr low)
      rw [BitVec.getLsbD_of_ge _ _ high, Bool.false_and]
      rfl
  · intro i _ outside
    have high : ¬ i ≤ n := fun low => outside (Finset.mem_range.mpr (Nat.lt_succ_of_le low))
    rw [decide_eq_false high, Bool.false_and, Bool.and_false]
    rfl

/-! ## Loops of exclusive ors -/

theorem sum_map_range' {M : Type} [AddCommMonoid M] (f : Nat → M) (start n : Nat) :
    ((List.range' start n).map f).sum = ∑ i ∈ Finset.range n, f (start + i) := by
  induction n generalizing start with
  | zero => rfl
  | succ n ih =>
    rw [List.range'_succ, List.map_cons, List.sum_cons, ih, Finset.sum_range_succ', add_comm]
    simp only [Nat.add_assoc, Nat.add_comm 1, Nat.add_zero]

/-- Bit `j` of a word to which `term i` is added for every set bit `i` of `b`. -/
theorem bitZ_foldl_xor (term : Nat → BitVec w) (b : BitVec v) (is : List Nat) (start : BitVec w) (j : Nat) :
    bitZ ((is.foldl (fun out i => if b.getLsbD i then out ^^^ term i else out) start).getLsbD j) =
      bitZ (start.getLsbD j) + (is.map fun i => bitZ (b.getLsbD i && (term i).getLsbD j)).sum := by
  induction is generalizing start with
  | nil => rw [List.foldl_nil, List.map_nil, List.sum_nil, add_zero]
  | cons i is ih =>
    rw [List.foldl_cons, ih, List.map_cons, List.sum_cons, ← add_assoc]
    congr 1
    cases b.getLsbD i with
    | true => rw [if_pos rfl, BitVec.getLsbD_xor, bitZ_xor, Bool.true_and]
    | false => rw [if_neg Bool.false_ne_true, Bool.false_and]; exact (add_zero _).symm

end Rv64Vm.Lib
