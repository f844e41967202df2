import Mathlib.Logic.Function.Basic
import Mathlib.Tactic.Common

/-! # Little-endian bytes of bit vectors

Byte arrays are functions from offsets. `loadLE` assembles the first `n` bytes
of such a function, `storeLE` overwrites a window with the bytes of a word, and
the two laws at the end say that they are inverse on equal windows and
independent on disjoint ones.
-/

namespace Rv64Vm.Lib

variable {w n i k v off : Nat}

abbrev Byte := BitVec 8

/-- Byte `i` of a bit vector, least significant first. -/
def byteAt {w : Nat} (x : BitVec w) (i : Nat) : Byte := x.extractLsb' (8 * i) 8

/-- The word whose byte `i` is `f i` for `i < n`; all other bytes are zero. -/
def loadLE (w : Nat) (f : Nat → Byte) : Nat → BitVec w
  | 0 => 0
  | n + 1 => loadLE w f n ||| ((f n).setWidth w <<< (8 * n))

/-- Overwrite the `n` bytes from `off` on with the low bytes of `x`. -/
def storeLE {w : Nat} (f : Nat → Byte) (off n : Nat) (x : BitVec w) : Nat → Byte :=
  fun i => if off ≤ i ∧ i < off + n then byteAt x (i - off) else f i

theorem getLsbD_loadLE (w : Nat) (f : Nat → Byte) (n b : Nat) (inside : b < w) :
    (loadLE w f n).getLsbD b = (decide (b < 8 * n) && (f (b / 8)).getLsbD (b % 8)) := by
  induction n with
  | zero => simp [loadLE]
  | succ n ih =>
    simp only [loadLE, BitVec.getLsbD_or, ih, BitVec.getLsbD_shiftLeft, BitVec.getLsbD_setWidth]
    by_cases lt : b < 8 * n
    · have : b < 8 * (n + 1) := by omega
      simp [lt, this]
    · by_cases lt' : b < 8 * (n + 1)
      · have quot : b / 8 = n := by omega
        have rem : b % 8 = b - 8 * n := by omega
        have : b - 8 * n < w := by omega
        simp [lt, lt', inside, quot, rem, this]
      · have big : 8 ≤ b - 8 * n := by omega
        simp [lt, lt', BitVec.getLsbD_of_ge _ _ big]

/-- A bit vector is determined by its bytes. -/
theorem eq_of_byteAt {x y : BitVec w} (width : w ≤ 8 * n) (same : ∀ i < n, byteAt x i = byteAt y i) : x = y := by
  apply BitVec.eq_of_getLsbD_eq
  intro b hb
  have inside : b / 8 < n := by omega
  have small : b % 8 < 8 := Nat.mod_lt _ (by decide)
  have bit := congrArg (fun z => z.getLsbD (b % 8)) (same (b / 8) inside)
  simpa [byteAt, BitVec.getLsbD_extractLsb', small, Nat.div_add_mod] using bit

theorem byteAt_loadLE (f : Nat → Byte) (inside : i < n) (width : 8 * n ≤ w) : byteAt (loadLE w f n) i = f i := by
  apply BitVec.eq_of_getLsbD_eq
  intro b hb
  have hw : 8 * i + b < w := by omega
  have lt : 8 * i + b < 8 * n := by omega
  have quot : (8 * i + b) / 8 = i := by omega
  have rem : (8 * i + b) % 8 = b := by omega
  simp [byteAt, hb, getLsbD_loadLE _ _ _ _ hw, lt, quot, rem]

theorem byteAt_loadLE_of_ge (f : Nat → Byte) (outside : n ≤ i) : byteAt (loadLE w f n) i = 0 := by
  apply BitVec.eq_of_getLsbD_eq
  intro b hb
  by_cases inside : 8 * i + b < w
  · have gt : ¬ 8 * i + b < 8 * n := by omega
    simp [byteAt, hb, getLsbD_loadLE _ _ _ _ inside, gt]
  · simp [byteAt, BitVec.getLsbD_of_ge _ _ (Nat.le_of_not_lt inside)]

theorem byteAt_zero (w i : Nat) : byteAt (0 : BitVec w) i = 0 := by
  apply BitVec.eq_of_getLsbD_eq
  intro b hb
  simp [byteAt]

theorem byteAt_ushiftRight (x : BitVec w) (k i : Nat) : byteAt (x >>> (8 * k)) i = byteAt x (k + i) := by
  apply BitVec.eq_of_getLsbD_eq
  intro b hb
  have place : 8 * k + (8 * i + b) = 8 * (k + i) + b := by omega
  simp [byteAt, BitVec.getLsbD_ushiftRight, place]

/-- Bytes of two words joined at byte `k`. -/
theorem byteAt_or_shiftLeft {low high : BitVec w} (inside : 8 * i + 8 ≤ w) (small : ∀ j, k ≤ j → byteAt low j = 0) :
    byteAt (low ||| (high <<< (8 * k))) i = if i < k then byteAt low i else byteAt high (i - k) := by
  apply BitVec.eq_of_getLsbD_eq
  intro b hb
  have fits : 8 * i + b < w := by omega
  split
  case isTrue lt =>
    have below : 8 * i + b < 8 * k := by omega
    simp [byteAt, hb, BitVec.getLsbD_shiftLeft, below]
  case isFalse ge =>
    have above : ¬ 8 * i + b < 8 * k := by omega
    have place : 8 * (i - k) + b = 8 * i + b - 8 * k := by omega
    have clear := congrArg (fun z => z.getLsbD b) (small i (by omega))
    simp only [byteAt, BitVec.getLsbD_extractLsb', hb, decide_true, Bool.true_and] at clear
    simp only [byteAt, BitVec.getLsbD_extractLsb', BitVec.getLsbD_or, BitVec.getLsbD_shiftLeft, hb,
      fits, above, place, clear, decide_true, decide_false, Bool.not_false, Bool.true_and]
    simp

theorem byteAt_setWidth (x : BitVec w) (inside : 8 * i + 8 ≤ v) : byteAt (x.setWidth v) i = byteAt x i := by
  apply BitVec.eq_of_getLsbD_eq
  intro b hb
  have fits : 8 * i + b < v := by omega
  simp [byteAt, hb, fits]

/-- Two words agree on their low `n` bytes. -/
theorem setWidth_eq_iff_bytes {x y : BitVec w} :
    x.setWidth (8 * n) = y.setWidth (8 * n) ↔ ∀ i < n, byteAt x i = byteAt y i := by
  constructor
  · intro same i hi
    rw [← byteAt_setWidth x (v := 8 * n) (by omega), same, byteAt_setWidth y (by omega)]
  · intro same
    apply eq_of_byteAt (n := n) (Nat.le_refl _)
    intro i hi
    rw [byteAt_setWidth x (by omega), byteAt_setWidth y (by omega), same i hi]

/-- Two windows with the same bytes load the same word. -/
theorem loadLE_congr {f g : Nat → Byte} (same : ∀ i < n, f i = g i) : loadLE w f n = loadLE w g n := by
  induction n with
  | zero => rfl
  | succ n ih =>
    simp only [loadLE, ih (fun i hi => same i (by omega)), same n (by omega)]

variable (f : Nat → Byte)

theorem storeLE_inside (x : BitVec w) (inside : i < n) : storeLE f off n x (off + i) = byteAt x i := by
  have window : off ≤ off + i ∧ off + i < off + n := by omega
  simp [storeLE, window]

theorem storeLE_outside (x : BitVec w) (outside : i < off ∨ off + n ≤ i) : storeLE f off n x i = f i := by
  have window : ¬(off ≤ i ∧ i < off + n) := by omega
  simp [storeLE, window]

/-- Loading back the window just stored returns the stored word. -/
theorem loadLE_storeLE_same (off : Nat) (x : BitVec w)
    (width : w = 8 * n) : loadLE w (fun i => storeLE f off n x (off + i)) n = x := by
  apply eq_of_byteAt (Nat.le_of_eq width)
  intro i hi
  rw [byteAt_loadLE _ hi (Nat.le_of_eq width.symm), storeLE_inside f x hi]

/-- Storing back the word that a window holds changes nothing. -/
theorem storeLE_loadLE_same (off : Nat) (width : 8 * n ≤ w) :
    storeLE f off n (loadLE w (fun i => f (off + i)) n) = f := by
  funext i
  by_cases window : off ≤ i ∧ i < off + n
  · have back : off + (i - off) = i := by omega
    simp only [storeLE, window, and_self, if_true]
    rw [byteAt_loadLE _ (by omega) width, back]
  · simp [storeLE, window]

/-- A store leaves every disjoint window unchanged. -/
theorem loadLE_storeLE_disjoint (off at' : Nat) (x : BitVec v)
    (disjoint : at' + k ≤ off ∨ off + n ≤ at') :
    loadLE w (fun i => storeLE f off n x (at' + i)) k = loadLE w (fun i => f (at' + i)) k := by
  apply loadLE_congr
  intro i hi
  exact storeLE_outside f x (by omega)

end Rv64Vm.Lib
