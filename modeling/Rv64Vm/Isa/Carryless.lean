import Rv64Vm.Isa.Bitmanip
import Rv64Vm.Lib.Carryless

/-! # Carry-less multiplication

The three loops of Zbc compute the low half, the high half and the middle of one
polynomial product over GF(2). Each loop runs over the bits of the second operand
only; that the operands can be exchanged comes from the product.
-/

namespace Rv64Vm

open Lib

/-- The value `CLMUL` writes. -/
def clmul (a b : Word) : Word := clmulLoop (fun i => a <<< i) b 0 64

/-- The value `CLMULH` writes. -/
def clmulh (a b : Word) : Word := clmulLoop (fun i => a >>> (64 - i)) b 1 63

/-- The value `CLMULR` writes. -/
def clmulr (a b : Word) : Word := clmulLoop (fun i => a >>> (63 - i)) b 0 64

/-- `CLMULH * 2^64 + CLMUL` -/
def carrylessProduct (a b : Word) : BitVec 128 := clmulh a b ++ clmul a b

section Bits

variable (a b : Word) {j : Nat}

theorem bitZ_clmulLoop (term : Nat → Word) (start n j : Nat) :
    bitZ ((clmulLoop term b start n).getLsbD j) =
      ∑ i ∈ Finset.range n, bitZ (b.getLsbD (start + i) && (term (start + i)).getLsbD j) := by
  rw [clmulLoop, bitZ_foldl_xor, sum_map_range', BitVec.ofNat_eq_ofNat, BitVec.getLsbD_zero]
  exact zero_add _

/-- `CLMUL` is the product from bit 0 on. -/
theorem bitZ_clmul (inside : j < 64) : bitZ ((clmul a b).getLsbD j) = (poly a * poly b).coeff j := by
  rw [clmul, bitZ_clmulLoop, coeff_poly_mul]
  apply Finset.sum_congr rfl
  intro i _
  rw [Nat.zero_add, BitVec.getLsbD_shiftLeft]
  by_cases low : j < i
  · simp [low, Nat.not_le.mpr low]
  · simp [inside, low, Nat.le_of_not_lt low]

/-- `CLMULR` is the product from bit 63 on. -/
theorem bitZ_clmulr : bitZ ((clmulr a b).getLsbD j) = (poly a * poly b).coeff (63 + j) := by
  rw [clmulr, bitZ_clmulLoop, coeff_poly_mul]
  apply Finset.sum_congr rfl
  intro i mem
  have inside := Finset.mem_range.mp mem
  rw [Nat.zero_add, BitVec.getLsbD_ushiftRight, decide_eq_true (show i ≤ 63 + j by omega), Bool.true_and,
    show 63 - i + j = 63 + j - i by omega]

/-- `CLMULH` is the product from bit 64 on; the pass for bit 0 would add nothing. -/
theorem bitZ_clmulh : bitZ ((clmulh a b).getLsbD j) = (poly a * poly b).coeff (64 + j) := by
  rw [clmulh, bitZ_clmulLoop, coeff_poly_mul, Finset.sum_range_succ' _ 63]
  have first : bitZ (b.getLsbD 0 && (decide (0 ≤ 64 + j) && a.getLsbD (64 + j - 0))) = 0 := by
    rw [BitVec.getLsbD_of_ge a _ (by omega), Bool.and_false, Bool.and_false]
    rfl
  rw [first, add_zero]
  apply Finset.sum_congr rfl
  intro i mem
  have inside := Finset.mem_range.mp mem
  rw [BitVec.getLsbD_ushiftRight, decide_eq_true (show i + 1 ≤ 64 + j by omega), Bool.true_and, Nat.add_comm 1 i,
    show 64 - (i + 1) + j = 64 + j - (i + 1) by omega]

theorem poly_carrylessProduct : poly (carrylessProduct a b) = poly a * poly b := by
  ext n
  rw [coeff_poly, carrylessProduct, BitVec.getLsbD_append]
  by_cases low : n < 64
  · rw [if_pos low, bitZ_clmul a b low]
  · rw [if_neg low, bitZ_clmulh, show 64 + (n - 64) = n by omega]

theorem clmulr_eq : clmulr a b = (carrylessProduct a b).extractLsb' 63 64 := by
  apply BitVec.eq_of_getLsbD_eq
  intro j inside
  apply bitZ_injective
  rw [bitZ_clmulr, ← poly_carrylessProduct, coeff_poly, BitVec.getLsbD_extractLsb', decide_eq_true inside,
    Bool.true_and]

theorem toNat_carrylessProduct : (carrylessProduct a b).toNat = (clmulh a b).toNat * 2 ^ 64 + (clmul a b).toNat := by
  rw [carrylessProduct, BitVec.toNat_append, Nat.shiftLeft_eq, Nat.mul_comm,
    Nat.two_pow_add_eq_or_of_lt (clmul a b).isLt]

end Bits

/-! ## The laws of the product -/

section Laws

variable (a b c : Word)

theorem carrylessProduct_comm : carrylessProduct a b = carrylessProduct b a := by
  apply poly_injective
  rw [poly_carrylessProduct, poly_carrylessProduct, mul_comm]

theorem carrylessProduct_xor : carrylessProduct (a ^^^ b) c = carrylessProduct a c ^^^ carrylessProduct b c := by
  apply poly_injective
  rw [poly_xor, poly_carrylessProduct, poly_carrylessProduct, poly_carrylessProduct, poly_xor, add_mul]

theorem clmul_eq : clmul a b = (carrylessProduct a b).extractLsb' 0 64 := by
  apply BitVec.eq_of_getLsbD_eq
  intro j inside
  rw [BitVec.getLsbD_extractLsb', decide_eq_true inside, Bool.true_and, Nat.zero_add, carrylessProduct,
    BitVec.getLsbD_append, if_pos inside]

theorem clmulh_eq : clmulh a b = (carrylessProduct a b).extractLsb' 64 64 := by
  apply BitVec.eq_of_getLsbD_eq
  intro j inside
  rw [BitVec.getLsbD_extractLsb', decide_eq_true inside, Bool.true_and, carrylessProduct, BitVec.getLsbD_append,
    if_neg (by omega), Nat.add_sub_cancel_left]

theorem extractLsb'_xor (x y : BitVec 128) (start : Nat) :
    (x ^^^ y).extractLsb' start 64 = x.extractLsb' start 64 ^^^ y.extractLsb' start 64 := by
  apply BitVec.eq_of_getLsbD_eq
  intro j inside
  simp [inside]

end Laws

/-- An operation on words that can exchange its operands and distributes over exclusive or
    in both of them. -/
structure Bilinear (f : Word → Word → Word) : Prop where
  comm : ∀ a b, f a b = f b a
  xor_left : ∀ a b c, f (a ^^^ b) c = f a c ^^^ f b c
  xor_right : ∀ a b c, f a (b ^^^ c) = f a b ^^^ f a c

/-- A window of the product. -/
theorem bilinear_of_window {f : Word → Word → Word} (start : Nat)
    (window : ∀ a b, f a b = (carrylessProduct a b).extractLsb' start 64) : Bilinear f := by
  have comm : ∀ a b, f a b = f b a := by
    intro a b
    rw [window, window, carrylessProduct_comm]
  have left : ∀ a b c, f (a ^^^ b) c = f a c ^^^ f b c := by
    intro a b c
    rw [window, window, window, carrylessProduct_xor, extractLsb'_xor]
  refine ⟨comm, left, ?_⟩
  intro a b c
  rw [comm, left, comm b, comm c]

/-- The handlers of Zbc write the two halves and the middle of the product of the operands'
    polynomials over GF(2), and all three operations are commutative and distribute over
    exclusive or. -/
theorem carryless_multiplication :
    (∀ bus core i,
      execCLMUL bus core i = .ok ⟨{}, core.setGpr i.rd (clmul (core.gpr i.rs1) (core.gpr i.rs2))⟩ ∧
      execCLMULH bus core i = .ok ⟨{}, core.setGpr i.rd (clmulh (core.gpr i.rs1) (core.gpr i.rs2))⟩ ∧
      execCLMULR bus core i = .ok ⟨{}, core.setGpr i.rd (clmulr (core.gpr i.rs1) (core.gpr i.rs2))⟩) ∧
    (∀ a b,
      (carrylessProduct a b).toNat = (clmulh a b).toNat * 2 ^ 64 + (clmul a b).toNat ∧
      poly (carrylessProduct a b) = poly a * poly b ∧
      clmulr a b = (carrylessProduct a b).extractLsb' 63 64) ∧
    Bilinear clmul ∧ Bilinear clmulh ∧ Bilinear clmulr := by
  refine ⟨fun _ _ _ => ⟨rfl, rfl, rfl⟩, ?_, bilinear_of_window 0 clmul_eq, bilinear_of_window 64 clmulh_eq,
    bilinear_of_window 63 clmulr_eq⟩
  intro a b
  exact ⟨toNat_carrylessProduct a b, poly_carrylessProduct a b, clmulr_eq a b⟩

end Rv64Vm
