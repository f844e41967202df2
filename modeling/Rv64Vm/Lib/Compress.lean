import Mathlib.Data.Nat.Bits
import Mathlib.Data.Nat.Count
import Rv64Vm.Lib.Pext

/-! # Parallel-suffix compression

The bits of a word under a mask are gathered at its low end in rounds: a set bit of the mask with `z` clear bits
below it moves down by `2 ^ i` in round `i` exactly if bit `i` of `z` is set. The rounds find that bit as the parity of
the bits of a third word up to the position, and halve their number each time.
-/

namespace Rv64Vm.Lib

variable {w : Nat} (x : BitVec w)

/-- Set bits below position `n`. -/
def setBelow (n : Nat) : Nat := Nat.count (fun j => x.getLsbD j = true) n

/-- Clear bits below position `n`. -/
def clearBelow (n : Nat) : Nat := Nat.count (fun j => x.getLsbD j = false) n

theorem setBelow_zero : setBelow x 0 = 0 := Nat.count_zero _

theorem setBelow_succ (n : Nat) : setBelow x (n + 1) = setBelow x n + (x.getLsbD n).toNat := by
  unfold setBelow
  rw [Nat.count_succ]
  cases x.getLsbD n <;> rfl

theorem clearBelow_succ (n : Nat) : clearBelow x (n + 1) = clearBelow x n + (!x.getLsbD n).toNat := by
  unfold clearBelow
  rw [Nat.count_succ]
  cases x.getLsbD n <;> rfl

theorem setBelow_add_clearBelow (n : Nat) : setBelow x n + clearBelow x n = n := by
  induction n with
  | zero => rw [setBelow_zero, clearBelow, Nat.count_zero]
  | succ n ih =>
    rw [setBelow_succ, clearBelow_succ]
    cases x.getLsbD n with
    | false => exact congrArg (· + 1) ih
    | true => exact (Nat.add_right_comm ..).trans (congrArg (· + 1) ih)

/-- A position has at most `k` more clear bits below it than the position `k` lower. -/
theorem clearBelow_add_le (n k : Nat) : clearBelow x (n + k) ≤ clearBelow x n + k := by
  unfold clearBelow
  rw [Nat.count_add]
  exact Nat.add_le_add_left (Nat.count_le _) _

theorem clearBelow_mono {n n' : Nat} (le : n ≤ n') : clearBelow x n ≤ clearBelow x n' :=
  Nat.count_monotone _ le

/-! ## Prefix parities -/

/-- `x ^= x << 1; x ^= x << 2; x ^= x << 4; …`, `k` steps. -/
def prefixXor (x : BitVec w) : Nat → BitVec w
  | 0 => x
  | k + 1 => prefixXor x k ^^^ (prefixXor x k <<< 2 ^ k)

/-- After `k` steps a bit is the parity of the `2 ^ k` bits up to it. -/
theorem getLsbD_prefixXor (k : Nat) {q : Nat} (inside : q < w) :
    (prefixXor x k).getLsbD q = ((setBelow x (q + 1)).bodd ^^ (setBelow x (q + 1 - 2 ^ k)).bodd) := by
  induction k generalizing q with
  | zero =>
    rw [prefixXor, Nat.pow_zero, Nat.add_sub_cancel, setBelow_succ, Nat.bodd_add]
    cases x.getLsbD q <;> cases (setBelow x q).bodd <;> rfl
  | succ k ih =>
    rw [prefixXor, BitVec.getLsbD_xor, BitVec.getLsbD_shiftLeft, ih inside, decide_eq_true inside]
    have positive := Nat.two_pow_pos k
    have power : 2 ^ (k + 1) = 2 ^ k + 2 ^ k := by rw [Nat.pow_succ, Nat.mul_two]
    by_cases low : q < 2 ^ k
    · rw [decide_eq_true low, show q + 1 - 2 ^ k = 0 by omega, show q + 1 - 2 ^ (k + 1) = 0 by omega]
      simp only [Bool.true_and, Bool.not_true, Bool.false_and, Bool.xor_false]
    · rw [decide_eq_false low, ih (q := q - 2 ^ k) (by omega), show q - 2 ^ k + 1 = q + 1 - 2 ^ k by omega,
        show q + 1 - 2 ^ k - 2 ^ k = q + 1 - 2 ^ (k + 1) by omega]
      simp only [Bool.true_and, Bool.not_false, Bool.xor_assoc, ← Bool.xor_assoc (setBelow x (q + 1 - 2 ^ k)).bodd,
        Bool.xor_self, Bool.false_xor]

theorem getLsbD_prefixXor_full {k : Nat} (enough : w ≤ 2 ^ k) {q : Nat} (inside : q < w) :
    (prefixXor x k).getLsbD q = (setBelow x (q + 1)).bodd := by
  rw [getLsbD_prefixXor x k inside, Nat.sub_eq_zero_of_le (by omega), setBelow_zero]
  exact Bool.xor_false _

/-- Clearing the bits of odd rank halves their number. -/
theorem setBelow_and_not_prefixXor {k : Nat} (enough : w ≤ 2 ^ k) {n : Nat} (le : n ≤ w) :
    setBelow (x &&& ~~~prefixXor x k) n = setBelow x n / 2 := by
  induction n with
  | zero => rw [setBelow_zero, setBelow_zero]
  | succ n ih =>
    have parity := Nat.mod_two_of_bodd (setBelow x (n + 1))
    rw [setBelow_succ, ih (by omega), BitVec.getLsbD_and, BitVec.getLsbD_not, decide_eq_true (Nat.lt_of_succ_le le),
      getLsbD_prefixXor_full x enough (Nat.lt_of_succ_le le)]
    rw [setBelow_succ] at parity ⊢
    cases bit : x.getLsbD n with
    | false => exact Nat.add_zero _
    | true =>
      rw [bit] at parity
      simp only [Bool.toNat_true, Bool.true_and] at parity ⊢
      cases odd : (setBelow x n + 1).bodd with
      | false =>
        rw [odd] at parity
        simp only [Bool.not_false, Bool.toNat_true, Bool.toNat_false] at parity ⊢
        omega
      | true =>
        rw [odd] at parity
        simp only [Bool.not_true, Bool.toNat_true, Bool.toNat_false] at parity ⊢
        omega

/-! ## Rounds -/

/-- The word, the mask and the positions still to be counted. -/
structure Compressing (w : Nat) where
  x : BitVec w
  m : BitVec w
  marks : BitVec w

/-- Round `i`, with parities of `k` steps. -/
def Compressing.round (k : Nat) (s : Compressing w) (i : Nat) : Compressing w :=
  let mp := prefixXor s.marks k
  let mv := mp &&& s.m
  let t := s.x &&& mv
  ⟨(s.x ^^^ t) ||| (t >>> 2 ^ i), (s.m ^^^ mv) ||| (mv >>> 2 ^ i), s.marks &&& ~~~mp⟩

def Compressing.rounds (k : Nat) (s : Compressing w) : Nat → Compressing w
  | 0 => s
  | i + 1 => (s.rounds k i).round k i

/-- Where the bit of the mask at `p` is after `i` rounds. -/
def moved (mask : BitVec w) (i p : Nat) : Nat := p - clearBelow mask p % 2 ^ i

/-- The set bits of `y` are those of `orig` where they are after `i` rounds. -/
def Carries (mask orig : BitVec w) (i : Nat) (y : BitVec w) : Prop :=
  ∀ q, y.getLsbD q = true ↔ ∃ p, orig.getLsbD p = true ∧ moved mask i p = q

theorem moved_le (mask : BitVec w) (i p : Nat) : moved mask i p ≤ p := Nat.sub_le ..

/-- A bit has as many multiples of `2 ^ i` of clear bits below it where it has moved as where it came from. -/
theorem clearBelow_moved_div (mask : BitVec w) (i p : Nat) :
    clearBelow mask (moved mask i p) / 2 ^ i = clearBelow mask p / 2 ^ i := by
  have below : clearBelow mask p ≤ p := Nat.count_le _
  have less := Nat.mod_le (clearBelow mask p) (2 ^ i)
  have split := Nat.div_add_mod' (clearBelow mask p) (2 ^ i)
  have near := clearBelow_add_le mask (moved mask i p) (clearBelow mask p % 2 ^ i)
  rw [show moved mask i p + clearBelow mask p % 2 ^ i = p from Nat.sub_add_cancel (by omega)] at near
  apply Nat.le_antisymm (Nat.div_le_div_right (clearBelow_mono mask (moved_le mask i p)))
  rw [Nat.le_div_iff_mul_le (Nat.two_pow_pos i)]
  omega

theorem moved_succ (mask : BitVec w) (i p : Nat) :
    moved mask i p = moved mask (i + 1) p + 2 ^ i * (clearBelow mask p / 2 ^ i).bodd.toNat := by
  have below : clearBelow mask p ≤ p := Nat.count_le _
  have less := Nat.mod_le (clearBelow mask p) (2 ^ (i + 1))
  have more := Nat.mod_pow_succ (x := clearBelow mask p) (b := 2) (k := i)
  rw [Nat.mod_two_of_bodd] at more
  unfold moved
  omega

/-- One round for one word: bits move where the parity is odd. -/
theorem Carries.step {mask orig y y' : BitVec w} {i : Nat} (carries : Carries mask orig i y)
    {mp : BitVec w} (parity : ∀ q, q < w → mp.getLsbD q = (clearBelow mask q / 2 ^ i).bodd)
    (next : ∀ q, y'.getLsbD q = (y.getLsbD q && !mp.getLsbD q || y.getLsbD (2 ^ i + q) && mp.getLsbD (2 ^ i + q))) :
    Carries mask orig (i + 1) y' := by
  have here {p : Nat} (set : orig.getLsbD p = true) :
      mp.getLsbD (moved mask i p) = (clearBelow mask p / 2 ^ i).bodd := by
    have inside := BitVec.lt_of_getLsbD set
    rw [parity _ (Nat.lt_of_le_of_lt (moved_le mask i p) inside), clearBelow_moved_div]
  intro q
  rw [next, Bool.or_eq_true, Bool.and_eq_true, Bool.and_eq_true, carries, carries]
  constructor
  · rintro (⟨⟨p, set, rfl⟩, even⟩ | ⟨⟨p, set, place⟩, odd⟩)
    · refine ⟨p, set, ?_⟩
      rw [here set, Bool.not_eq_true'] at even
      rw [moved_succ mask i p, even]
      rfl
    · refine ⟨p, set, ?_⟩
      rw [← place, here set] at odd
      rw [moved_succ mask i p, odd, Bool.toNat_true] at place
      omega
  · rintro ⟨p, set, place⟩
    have before := moved_succ mask i p
    cases odd : (clearBelow mask p / 2 ^ i).bodd with
    | false =>
      rw [odd, place] at before
      refine .inl ⟨⟨p, set, before⟩, ?_⟩
      rw [← show moved mask i p = q from before, here set, odd]
      rfl
    | true =>
      rw [odd, place, Bool.toNat_true, Nat.mul_one, Nat.add_comm] at before
      refine .inr ⟨⟨p, set, before⟩, ?_⟩
      rw [← before, here set, odd]

/-- What holds after `i` rounds. -/
structure Compressing.After (val mask : BitVec w) (i : Nat) (s : Compressing w) : Prop where
  counts : ∀ q, q < w → setBelow s.marks (q + 1) = clearBelow mask q / 2 ^ i
  masks : Carries mask mask i s.m
  vals : Carries mask (val &&& mask) i s.x

namespace Compressing

/-- The state the loop starts from. -/
def start (val mask : BitVec w) : Compressing w := ⟨val &&& mask, mask, ~~~mask <<< 1⟩

theorem carries_zero (mask orig : BitVec w) : Carries mask orig 0 orig := by
  intro q
  have still (p : Nat) : moved mask 0 p = p := by rw [moved, Nat.pow_zero, Nat.mod_one, Nat.sub_zero]
  simp only [still, exists_eq_right]

theorem after_start (val mask : BitVec w) : After val mask 0 (start val mask) where
  counts q inside := by
    rw [Nat.pow_zero, Nat.div_one, start]
    induction q with
    | zero =>
      rw [setBelow_succ, setBelow_zero, clearBelow, Nat.count_zero, BitVec.getLsbD_shiftLeft]
      simp only [Nat.zero_lt_one, decide_true, Bool.not_true, Bool.and_false, Bool.false_and, Bool.toNat_false]
    | succ q ih =>
      rw [setBelow_succ, ih (by omega), clearBelow_succ, BitVec.getLsbD_shiftLeft, BitVec.getLsbD_not,
        decide_eq_true inside, Nat.add_sub_cancel, decide_eq_true (show q < w by omega),
        decide_eq_false (show ¬ q + 1 < 1 by omega)]
      rfl
  masks := carries_zero _ _
  vals := carries_zero _ _

theorem After.round {val mask : BitVec w} {k i : Nat} {s : Compressing w} (after : After val mask i s)
    (enough : w ≤ 2 ^ k) : After val mask (i + 1) (s.round k i) := by
  have parity (q : Nat) (inside : q < w) : (prefixXor s.marks k).getLsbD q = (clearBelow mask q / 2 ^ i).bodd := by
    rw [getLsbD_prefixXor_full s.marks enough inside, after.counts q inside]
  -- the word has bits only where the mask has
  have within (q : Nat) (set : s.x.getLsbD q = true) : s.m.getLsbD q = true := by
    obtain ⟨p, both, place⟩ := (after.vals q).mp set
    rw [BitVec.getLsbD_and, Bool.and_eq_true] at both
    exact (after.masks q).mpr ⟨p, both.2, place⟩
  have picks (q : Nat) : (s.x.getLsbD q && (prefixXor s.marks k).getLsbD q && s.m.getLsbD q) =
      (s.x.getLsbD q && (prefixXor s.marks k).getLsbD q) := by
    cases set : s.x.getLsbD q with
    | false => rfl
    | true => rw [within q set, Bool.and_true]
  refine ⟨fun q inside => ?_, after.masks.step parity fun q => ?_, after.vals.step parity fun q => ?_⟩
  · rw [Compressing.round, setBelow_and_not_prefixXor s.marks enough inside, after.counts q inside,
      Nat.div_div_eq_div_mul,
      ← Nat.pow_succ]
  · simp only [Compressing.round, BitVec.getLsbD_or, BitVec.getLsbD_xor, BitVec.getLsbD_and, BitVec.getLsbD_ushiftRight]
    cases s.m.getLsbD q <;> cases (prefixXor s.marks k).getLsbD q <;> cases s.m.getLsbD (2 ^ i + q) <;>
      cases (prefixXor s.marks k).getLsbD (2 ^ i + q) <;> rfl
  · simp only [Compressing.round, BitVec.getLsbD_or, BitVec.getLsbD_xor, BitVec.getLsbD_and, BitVec.getLsbD_ushiftRight,
      ← Bool.and_assoc, picks]
    cases s.x.getLsbD q <;> cases (prefixXor s.marks k).getLsbD q <;> rfl

theorem after_rounds (val mask : BitVec w) {k : Nat} (enough : w ≤ 2 ^ k) (i : Nat) :
    After val mask i ((start val mask).rounds k i) := by
  induction i with
  | zero => exact after_start val mask
  | succ i ih => exact ih.round enough

/-- After enough rounds every bit under the mask is at its rank. -/
theorem getLsbD_rounds (val mask : BitVec w) {k : Nat} (enough : w ≤ 2 ^ k) (q : Nat) :
    ((start val mask).rounds k k).x.getLsbD q = true ↔
      ∃ p, val.getLsbD p = true ∧ mask.getLsbD p = true ∧ setBelow mask p = q := by
  rw [(after_rounds val mask enough k).vals q]
  refine exists_congr fun p => ?_
  rw [BitVec.getLsbD_and, Bool.and_eq_true, and_assoc]
  refine and_congr_right fun _ => and_congr_right fun set => ?_
  have inside := BitVec.lt_of_getLsbD set
  have both := setBelow_add_clearBelow mask p
  rw [moved, Nat.mod_eq_of_lt (by omega), Nat.sub_eq_of_eq_add both.symm]

end Compressing

/-! ## Extraction -/

/-- The set bits of a number below `n`. -/
def rank (m n : Nat) : Nat := Nat.count (fun j => m.testBit j = true) n

theorem rank_succ (m n : Nat) : rank m (n + 1) = rank (m / 2) n + m % 2 := by
  unfold rank
  rw [Nat.count_succ']
  simp only [Nat.testBit_succ, Nat.testBit_zero, decide_eq_true_eq]
  rcases Nat.mod_two_eq_zero_or_one m with even | odd
  · rw [even, if_neg Nat.zero_ne_one]
  · rw [odd, if_pos rfl]

theorem popcount_eq_rank (n m : Nat) : popcount n m = rank m n := by
  induction n generalizing m with
  | zero => exact (Nat.count_zero _).symm
  | succ n ih => rw [popcount, rank_succ, ih]

/-- `pext` puts the bit at `p` where its rank says. -/
theorem testBit_pext (n v m j : Nat) : (pext n v m).testBit j = true ↔
    ∃ p, p < n ∧ v.testBit p = true ∧ m.testBit p = true ∧ rank m p = j := by
  induction n generalizing v m j with
  | zero =>
    rw [pext, Nat.zero_testBit]
    apply iff_of_false Bool.false_ne_true
    rintro ⟨p, inside, -⟩
    exact Nat.not_lt_zero p inside
  | succ n ih =>
    have zero : rank m 0 = 0 := Nat.count_zero _
    -- the lowest bit, and the others as bits of the halves
    have split : (∃ p, p < n + 1 ∧ v.testBit p = true ∧ m.testBit p = true ∧ rank m p = j) ↔
        (v % 2 = 1 ∧ m % 2 = 1 ∧ 0 = j) ∨
          ∃ p, p < n ∧ (v / 2).testBit p = true ∧ (m / 2).testBit p = true ∧ rank (m / 2) p + m % 2 = j := by
      rw [← Nat.or_exists_add_one]
      simp only [Nat.zero_lt_succ, Nat.testBit_zero, decide_eq_true_eq, zero, true_and, Nat.testBit_succ, rank_succ,
        Nat.add_lt_add_iff_right]
    rw [split, pext]
    by_cases odd : m % 2 = 1
    · rw [if_pos odd, odd]
      cases j with
      | zero =>
        simp only [Nat.testBit_zero, decide_eq_true_eq, Nat.add_eq_zero_iff, Nat.one_ne_zero, and_false, exists_false,
          or_false, and_true]
        omega
      | succ j =>
        rw [Nat.testBit_succ, show (2 * pext n (v / 2) (m / 2) + v % 2) / 2 = pext n (v / 2) (m / 2) by omega, ih]
        simp only [Nat.add_right_cancel_iff, (Nat.succ_ne_zero j).symm, and_false, false_or]
    · rw [if_neg odd, ih, show m % 2 = 0 by omega]
      simp only [Nat.zero_ne_one, false_and, and_false, false_or, Nat.add_zero]

end Rv64Vm.Lib
