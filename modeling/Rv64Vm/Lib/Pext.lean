import Mathlib.Data.Nat.Bitwise
import Mathlib.Tactic.Common

/-! # Bit extraction and submask enumeration

`pext` gathers the bits under a mask, lowest first. The C idiom
`sub = (sub - d) & d` steps through the submasks of `d`; in terms of `pext` it is
counting, so the loop that starts at 0 and ends when it is back at 0 visits every
submask.
-/

namespace Rv64Vm.Lib

/-- Gather the low `n` bits of `v` that are set in `m`. -/
def pext : Nat → Nat → Nat → Nat
  | 0, _, _ => 0
  | n + 1, v, m => if m % 2 = 1 then 2 * pext n (v / 2) (m / 2) + v % 2 else pext n (v / 2) (m / 2)

/-- Set bits among the low `n`. -/
def popcount : Nat → Nat → Nat
  | 0, _ => 0
  | n + 1, m => popcount n (m / 2) + m % 2

theorem pext_lt (n v m : Nat) : pext n v m < 2 ^ popcount n m := by
  induction n generalizing v m with
  | zero => exact Nat.one_pos
  | succ n ih =>
    have below := ih (v / 2) (m / 2)
    rw [pext, popcount]
    split
    case isTrue odd =>
      rw [odd, Nat.pow_succ]
      omega
    case isFalse even =>
      rw [show m % 2 = 0 by omega, Nat.add_zero]
      exact below

theorem and_mod_two (x m : Nat) : (x &&& m) % 2 = if m % 2 = 1 then x % 2 else 0 := by
  have bit : (x &&& m) % 2 = (x % 2) &&& (m % 2) := Nat.and_mod_two_pow (n := 1)
  rcases Nat.mod_two_eq_zero_or_one x with hx | hx <;>
    rcases Nat.mod_two_eq_zero_or_one m with hm | hm <;> simp [bit, hx, hm]

/-- Agreement under a mask, bit by bit. -/
theorem and_eq_and_iff (a b m : Nat) :
    a &&& m = b &&& m ↔ a / 2 &&& m / 2 = b / 2 &&& m / 2 ∧ (m % 2 = 1 → a % 2 = b % 2) := by
  constructor
  · intro same
    refine ⟨by rw [← Nat.and_div_two, ← Nat.and_div_two, same], fun odd => ?_⟩
    have low := congrArg (· % 2) same
    simpa [and_mod_two, odd] using low
  · rintro ⟨high, low⟩
    have halves : (a &&& m) / 2 = (b &&& m) / 2 := by rw [Nat.and_div_two, Nat.and_div_two, high]
    have parities : (a &&& m) % 2 = (b &&& m) % 2 := by
      rw [and_mod_two, and_mod_two]
      split
      case isTrue odd => exact low odd
      case isFalse => rfl
    omega

/-- `pext` distinguishes exactly what the mask does. -/
theorem pext_eq_iff {n a b m : Nat} (ha : a < 2 ^ n) (hb : b < 2 ^ n) :
    pext n a m = pext n b m ↔ a &&& m = b &&& m := by
  induction n generalizing a b m with
  | zero =>
    obtain rfl : a = 0 := by simpa using ha
    obtain rfl : b = 0 := by simpa using hb
    simp
  | succ n ih =>
    rw [Nat.pow_succ] at ha hb
    have half := ih (a := a / 2) (b := b / 2) (m := m / 2) (by omega) (by omega)
    rw [and_eq_and_iff, ← half, pext, pext]
    by_cases odd : m % 2 = 1
    · simp only [odd, if_true, true_implies]
      omega
    · simp [odd]

theorem pext_zero (n m : Nat) : pext n 0 m = 0 := by
  induction n generalizing m with
  | zero => rfl
  | succ n ih =>
    rw [pext, Nat.zero_div, ih]
    split <;> rfl

/-! ## The step from one submask to the next -/

/-- `(sub - d) & d` at width `n`. -/
def nextSub (n s d : Nat) : Nat := (s + (2 ^ n - d)) % 2 ^ n &&& d

theorem nextSub_submask (n s d : Nat) : nextSub n s d &&& d = nextSub n s d := by
  rw [nextSub, Nat.and_assoc, Nat.and_self]

theorem nextSub_lt {n s d : Nat} (hd : d < 2 ^ n) : nextSub n s d < 2 ^ n :=
  Nat.and_lt_two_pow _ hd

/-- Below the lowest bit of `d` nothing changes. -/
theorem sub_one_and {n s d : Nat} (sub : s &&& d = s) (hd : d < 2 ^ n) : (s + (2 ^ n - d - 1)) % 2 ^ n &&& d = s := by
  have le : s ≤ d := sub ▸ Nat.and_le_right
  have small : s + (2 ^ n - d - 1) < 2 ^ n := by omega
  rw [Nat.mod_eq_of_lt small]
  -- `s` and the complement of `d` do not overlap, so their sum is their join
  have complement : (BitVec.ofNat n s + ~~~BitVec.ofNat n d) &&& BitVec.ofNat n d = BitVec.ofNat n s := by
    have inside : BitVec.ofNat n s &&& BitVec.ofNat n d = BitVec.ofNat n s := by
      apply BitVec.eq_of_toNat_eq
      simp only [BitVec.toNat_and, BitVec.toNat_ofNat]
      rw [Nat.mod_eq_of_lt (by omega), Nat.mod_eq_of_lt hd, sub]
    have apart : BitVec.ofNat n s &&& ~~~BitVec.ofNat n d = 0#n := by
      rw [← inside, BitVec.and_assoc, BitVec.and_not_self]
      exact BitVec.and_zero
    rw [BitVec.add_eq_or_of_and_eq_zero _ _ apart, BitVec.and_comm, BitVec.and_or_distrib_left,
      BitVec.and_not_self, BitVec.and_comm, inside]
    exact BitVec.or_zero
  have value := congrArg BitVec.toNat complement
  simp only [BitVec.toNat_and, BitVec.toNat_add, BitVec.toNat_not, BitVec.toNat_ofNat] at value
  rw [Nat.mod_eq_of_lt hd, Nat.mod_eq_of_lt (a := s) (by omega)] at value
  have flip : s + (2 ^ n - 1 - d) = s + (2 ^ n - d - 1) := by omega
  rwa [flip, Nat.mod_eq_of_lt small] at value

/-- In terms of `pext`, the step counts. -/
theorem pext_nextSub {n s d : Nat} (sub : s &&& d = s) (hd : d < 2 ^ n) :
    pext n (nextSub n s d) d = (pext n s d + 1) % 2 ^ popcount n d := by
  induction n generalizing s d with
  | zero => simp [pext, popcount]
  | succ n ih =>
    have power : 2 ^ (n + 1) = 2 * 2 ^ n := by rw [Nat.pow_succ, Nat.mul_comm]
    have halfD : d / 2 < 2 ^ n := by omega
    have halfSub : s / 2 &&& d / 2 = s / 2 := by rw [← Nat.and_div_two, sub]
    have le : s / 2 ≤ d / 2 := halfSub ▸ Nat.and_le_right
    have step := ih halfSub halfD
    have below := pext_lt n (s / 2) (d / 2)
    have parity := and_mod_two s d
    rw [sub] at parity
    have high : nextSub (n + 1) s d / 2 = (s + (2 ^ (n + 1) - d)) % 2 ^ (n + 1) / 2 &&& d / 2 :=
      Nat.and_div_two
    have low : nextSub (n + 1) s d % 2 =
        if d % 2 = 1 then (s + (2 ^ (n + 1) - d)) % 2 ^ (n + 1) % 2 else 0 := and_mod_two _ _
    rw [power] at high low
    rw [pext, pext, popcount]
    rcases Nat.mod_two_eq_zero_or_one d with even | odd
    case inl =>
      -- the lowest bit of `d` is clear: the step is that of the upper bits
      rw [even] at parity
      have shifted : (s + (2 * 2 ^ n - d)) % (2 * 2 ^ n) / 2 = (s / 2 + (2 ^ n - d / 2)) % 2 ^ n := by
        rw [Nat.mod_mul_right_div_self]
        congr 1
        omega
      rw [if_neg (by omega), if_neg (by omega), high, shifted, even, Nat.add_zero]
      exact step
    case inr =>
      rw [odd, if_pos rfl] at parity
      rw [if_pos odd] at low
      rw [if_pos odd, if_pos odd, high, low, odd, Nat.pow_succ, Nat.mul_comm (2 ^ _) 2]
      rcases Nat.mod_two_eq_zero_or_one s with clear | set
      case inl =>
        -- the lowest bit becomes set and nothing carries
        have shifted : (s + (2 * 2 ^ n - d)) % (2 * 2 ^ n) / 2 =
            (s / 2 + (2 ^ n - d / 2 - 1)) % 2 ^ n := by
          rw [Nat.mod_mul_right_div_self]
          congr 1
          omega
        have lowest : (s + (2 * 2 ^ n - d)) % (2 * 2 ^ n) % 2 = 1 := by
          rw [Nat.mod_mul_right_mod]
          omega
        rw [shifted, lowest, sub_one_and halfSub halfD, clear, Nat.mod_eq_of_lt (by omega)]
      case inr =>
        -- the lowest bit is cleared and carries into the upper ones
        have shifted : (s + (2 * 2 ^ n - d)) % (2 * 2 ^ n) / 2 =
            (s / 2 + (2 ^ n - d / 2)) % 2 ^ n := by
          rw [Nat.mod_mul_right_div_self]
          congr 1
          omega
        have lowest : (s + (2 * 2 ^ n - d)) % (2 * 2 ^ n) % 2 = 0 := by
          rw [Nat.mod_mul_right_mod]
          omega
        rw [nextSub] at step
        rw [shifted, lowest, step, set, Nat.add_zero, ← Nat.mul_mod_mul_left]
        rfl

/-! ## The loop over all submasks -/

section Loop

variable {α : Type*}

/-- `do body(sub) while ((sub = (sub - d) & d) != 0)`, at most `fuel` rounds. -/
def forSubmasks (n d : Nat) (body : Nat → α → α) : Nat → Nat → α → α
  | 0, _, acc => acc
  | fuel + 1, sub, acc =>
    if nextSub n sub d = 0 then body sub acc
    else forSubmasks n d body fuel (nextSub n sub d) (body sub acc)

end Loop

section Table

variable {ι β : Type*} [DecidableEq ι] {n d : Nat} {idx : Nat → ι} (put : β → β)

/-- From the submask `s` on, every submask that is not below `s` gets its slot updated
once, and no other slot is touched. -/
theorem forSubmasks_from (hd : d < 2 ^ n)
    (inj : ∀ x y, x &&& d = x → y &&& d = y → idx x = idx y → x = y)
    {fuel s : Nat} (sub : s &&& d = s) (enough : 2 ^ popcount n d ≤ pext n s d + fuel) (acc : ι → β) :
    let result := forSubmasks n d (fun x acc => Function.update acc (idx x) (put (acc (idx x)))) fuel s acc
    (∀ x, x &&& d = x → pext n s d ≤ pext n x d → result (idx x) = put (acc (idx x))) ∧
      ∀ i, (∀ x, x &&& d = x → pext n s d ≤ pext n x d → idx x ≠ i) → result i = acc i := by
  induction fuel generalizing s acc with
  | zero => exact absurd (pext_lt n s d) (by omega)
  | succ fuel ih =>
    have bounded : ∀ {x}, x &&& d = x → x < 2 ^ n := fun {x} inside =>
      lt_of_le_of_lt (inside ▸ Nat.and_le_right) hd
    have unique : ∀ {x}, x &&& d = x → pext n x d = pext n s d → x = s := by
      intro x inside rank
      have same := (pext_eq_iff (bounded inside) (bounded sub)).mp rank
      rwa [inside, sub] at same
    have count := pext_nextSub sub hd
    have below := pext_lt n s d
    have inside := nextSub_submask n s d
    intro result
    by_cases last : nextSub n s d = 0
    · -- the count is back at 0, so `s` was the last submask
      have top : pext n s d + 1 = 2 ^ popcount n d := by
        rw [last, pext_zero] at count
        by_contra more
        rw [Nat.mod_eq_of_lt (by omega)] at count
        omega
      have only : ∀ {x}, x &&& d = x → pext n s d ≤ pext n x d → x = s := by
        intro x subX rank
        have := pext_lt n x d
        exact unique subX (by omega)
      have value : result = Function.update acc (idx s) (put (acc (idx s))) := if_pos last
      refine ⟨fun x subX rank => ?_, fun i untouched => ?_⟩
      · rw [value, only subX rank, Function.update_self]
      · rw [value, Function.update_of_ne (untouched s sub le_rfl).symm]
    · have rank : pext n (nextSub n s d) d = pext n s d + 1 := by
        rw [count]
        apply Nat.mod_eq_of_lt
        by_contra full
        have wrapped : pext n (nextSub n s d) d = pext n 0 d := by
          rw [count, pext_zero, show pext n s d + 1 = 2 ^ popcount n d by omega, Nat.mod_self]
        have same := (pext_eq_iff (nextSub_lt hd) (Nat.two_pow_pos n)).mp wrapped
        rw [inside, Nat.zero_and] at same
        exact last same
      have value : result = forSubmasks n d _ fuel (nextSub n s d)
          (Function.update acc (idx s) (put (acc (idx s)))) := if_neg last
      obtain ⟨visited, untouched⟩ := ih inside (by omega)
        (Function.update acc (idx s) (put (acc (idx s))))
      rw [← value, rank] at visited untouched
      refine ⟨fun x subX rankX => ?_, fun i free => ?_⟩
      · by_cases here : x = s
        · subst here
          rw [untouched _ fun y subY later same => ?_, Function.update_self]
          rw [inj y x subY subX same] at later
          omega
        · have later : pext n s d + 1 ≤ pext n x d := by
            have differ : pext n x d ≠ pext n s d := fun same => here (unique subX same)
            omega
          rw [visited x subX later, Function.update_of_ne fun same => here (inj x s subX sub same)]
      · rw [untouched i fun y subY later => free y subY (by omega),
          Function.update_of_ne (free s sub le_rfl).symm]

/-- Started at 0, the loop updates the slot of every submask once and no other slot. -/
theorem forSubmasks_apply (hd : d < 2 ^ n)
    (inj : ∀ x y, x &&& d = x → y &&& d = y → idx x = idx y → x = y)
    {fuel : Nat} (enough : 2 ^ popcount n d ≤ fuel) (acc : ι → β) :
    let result := forSubmasks n d (fun x acc => Function.update acc (idx x) (put (acc (idx x)))) fuel 0 acc
    (∀ x, x &&& d = x → result (idx x) = put (acc (idx x))) ∧
      ∀ i, (∀ x, x &&& d = x → idx x ≠ i) → result i = acc i := by
  have start : 2 ^ popcount n d ≤ pext n 0 d + fuel := by rwa [pext_zero, Nat.zero_add]
  obtain ⟨visited, untouched⟩ := forSubmasks_from put hd inj (Nat.zero_and d) start acc
  simp only [pext_zero] at visited untouched
  exact ⟨fun x inside => visited x inside (Nat.zero_le _),
    fun i free => untouched i fun x inside _ => free x inside⟩

end Table

end Rv64Vm.Lib
