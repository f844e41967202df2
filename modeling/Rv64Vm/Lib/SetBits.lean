import Mathlib.Data.Nat.Bitwise
import Mathlib.Tactic.Common

/-! # Walking the set bits of a word

The loop `while(x) { f(countr_zero(x)); x &= x - 1; }` visits the set bits from the
lowest to the highest, each once.
-/

namespace Rv64Vm.Lib

variable {w : Nat} {σ : Type}

def countrZero (x : BitVec w) : Nat := ((List.range w).find? x.getLsbD).getD w

/-- `x & (x - 1)` -/
def clearLowest (x : BitVec w) : BitVec w := x &&& (x - 1#w)

/-- The loop; each pass clears a bit, so `w` of them are enough. -/
def forSetBits (f : σ → Nat → σ) : Nat → BitVec w → σ → σ
  | 0, _, s => s
  | passes + 1, x, s => if x = 0#w then s else forSetBits f passes (clearLowest x) (f s (countrZero x))

/-- Bit `i` is the lowest that is set. -/
structure LowestAt (x : BitVec w) (i : Nat) : Prop where
  set : x.getLsbD i = true
  clear : ∀ j < i, x.getLsbD j = false

namespace LowestAt

variable {x : BitVec w} {i : Nat}

theorem lt (lowest : LowestAt x i) : i < w := BitVec.lt_of_getLsbD lowest.set

theorem countrZero_eq (lowest : LowestAt x i) : countrZero x = i := by
  have found : (List.range w).find? x.getLsbD = some i := by
    rw [List.find?_range_eq_some]
    refine ⟨lowest.set, List.mem_range.mpr lowest.lt, fun j below => ?_⟩
    simp [lowest.clear j below]
  rw [countrZero, found, Option.getD_some]

/-- The word is an odd multiple of the bit. -/
theorem toNat_eq (lowest : LowestAt x i) : ∃ q, x.toNat = 2 ^ i * (2 * q + 1) := by
  have low : x.toNat % 2 ^ i = 0 := by
    apply Nat.zero_of_testBit_eq_false
    intro j
    rw [Nat.testBit_mod_two_pow]
    by_cases below : j < i
    · rw [BitVec.testBit_toNat, lowest.clear j below, Bool.and_false]
    · simp [below]
  have odd : x.toNat / 2 ^ i % 2 = 1 := by
    have bit := lowest.set
    rw [← BitVec.testBit_toNat, Nat.testBit_eq_decide_div_mod_eq, decide_eq_true_eq] at bit
    exact bit
  refine ⟨x.toNat / 2 ^ i / 2, ?_⟩
  have whole := Nat.div_add_mod x.toNat (2 ^ i)
  have half := Nat.div_add_mod (x.toNat / 2 ^ i) 2
  rw [odd] at half
  rw [half]
  omega

theorem getLsbD_clearLowest (lowest : LowestAt x i) (j : Nat) :
    (clearLowest x).getLsbD j = (x.getLsbD j && decide (j ≠ i)) := by
  obtain ⟨q, value⟩ := lowest.toNat_eq
  have power : 0 < 2 ^ i := Nat.two_pow_pos i
  have one : (1#w).toNat = 1 := by
    have wide := lowest.lt
    rw [BitVec.toNat_ofNat, Nat.mod_eq_of_lt]
    exact Nat.one_lt_two_pow (by omega)
  have positive : 1 ≤ x.toNat := by
    rw [value]
    exact Nat.mul_pos power (by omega)
  -- below the bit the predecessor has all ones, above it is the same
  have before : (x - 1#w).toNat = 2 ^ i * (2 * q) + (2 ^ i - 1) := by
    rw [BitVec.toNat_sub_of_le (by rw [BitVec.le_def, one]; exact positive), one, value, Nat.mul_add]
    omega
  have itself : x.toNat = 2 ^ i * (2 * q + 1) + 0 := value
  rw [clearLowest, BitVec.getLsbD_and, ← BitVec.testBit_toNat, ← BitVec.testBit_toNat, before, itself,
    Nat.testBit_two_pow_mul_add _ power, Nat.testBit_two_pow_mul_add _ (by omega)]
  rcases Nat.lt_trichotomy j i with below | rfl | above
  · simp [below]
  · simp
  · obtain ⟨k, rfl⟩ : ∃ k, j = i + (k + 1) := ⟨j - i - 1, by omega⟩
    have low : (2 * q + 1) / 2 = q := by omega
    have past : ¬ i + (k + 1) < i := by omega
    simp [Nat.testBit_succ, past, low]

end LowestAt

theorem forSetBits_zero (f : σ → Nat → σ) (passes : Nat) (s : σ) : forSetBits f passes (0#w) s = s := by
  cases passes with
  | zero => rfl
  | succ passes => rw [forSetBits, if_pos rfl]

theorem forSetBits_from (f : σ → Nat → σ) (d i passes : Nat) (x : BitVec w) (s : σ) (covers : i + d = w)
    (clear : ∀ j < i, x.getLsbD j = false) (enough : d ≤ passes) :
    forSetBits f passes x s = ((List.range' i d).filter x.getLsbD).foldl f s := by
  induction d generalizing i passes x s with
  | zero =>
    have none : x = 0#w := by
      apply BitVec.eq_of_getLsbD_eq
      intro j inside
      rw [clear j (by omega), BitVec.getLsbD_zero]
    rw [none, forSetBits_zero]
    rfl
  | succ d ih =>
    rw [List.range'_succ]
    cases bit : x.getLsbD i with
    | false =>
      rw [List.filter_cons_of_neg (by simp [bit])]
      refine ih (i + 1) passes x s (by omega) (fun j below => ?_) (by omega)
      rcases Nat.lt_succ_iff_lt_or_eq.mp below with lower | rfl
      · exact clear j lower
      · exact bit
    | true =>
      have lowest : LowestAt x i := ⟨bit, clear⟩
      have nonzero : x ≠ 0#w := by
        rintro rfl
        rw [BitVec.getLsbD_zero] at bit
        cases bit
      obtain ⟨rest, rfl⟩ : ∃ rest, passes = rest + 1 := ⟨passes - 1, by omega⟩
      rw [List.filter_cons_of_pos bit, List.foldl_cons, forSetBits, if_neg nonzero, lowest.countrZero_eq]
      rw [ih (i + 1) rest (clearLowest x) (f s i) (by omega) (fun j below => ?_) (by omega)]
      · congr 1
        apply List.filter_congr
        intro j inside
        have ne : j ≠ i := by
          have := (List.mem_range'_1.mp inside).1
          omega
        rw [lowest.getLsbD_clearLowest]
        simp [ne]
      · rw [lowest.getLsbD_clearLowest]
        rcases Nat.lt_succ_iff_lt_or_eq.mp below with lower | rfl
        · rw [clear j lower, Bool.false_and]
        · simp

/-- The loop is a fold over the set bits, in ascending order. -/
theorem forSetBits_eq_foldl (f : σ → Nat → σ) (x : BitVec w) (s : σ) :
    forSetBits f w x s = ((List.range w).filter x.getLsbD).foldl f s := by
  rw [List.range_eq_range']
  exact forSetBits_from f w 0 w x s (by omega) (fun _ below => absurd below (Nat.not_lt_zero _)) le_rfl

end Rv64Vm.Lib
