import Rv64Vm.Devices.Clint

/-! # Conversion between frequencies

`timer_convert_freq` and `timer_clocksource` convert a count of one frequency into one of another by quotient and
remainder, so that no product is wider than 64 bits. Nothing of the fraction is lost by that.
-/

namespace Rv64Vm

def timerConvertFreq (clk srcFreq dstFreq : Word) : Word :=
  let clkDiv := clk / srcFreq
  let clkRem := clk - clkDiv * srcFreq
  clkDiv * dstFreq + clkRem * dstFreq / srcFreq

/-- The frequencies are positive, a remainder can be multiplied, and the result is a 64-bit number. -/
structure Convertible (clk srcFreq dstFreq : Word) : Prop where
  src : 0 < srcFreq.toNat
  dst : 0 < dstFreq.toNat
  rem : (srcFreq.toNat - 1) * dstFreq.toNat < 2 ^ 64
  fits : clk.toNat * dstFreq.toNat / srcFreq.toNat < 2 ^ 64

/-- What the conversion is for. -/
def converted (clk srcFreq dstFreq : Word) : Nat := clk.toNat * dstFreq.toNat / srcFreq.toNat

theorem div_mul_add_mod_mul_div (n f : Nat) {b : Nat} (positive : 0 < b) : n / b * f + n % b * f / b = n * f / b := by
  have split : n * f = b * (n / b * f) + n % b * f := by
    rw [← Nat.mul_assoc, ← Nat.add_mul, Nat.div_add_mod]
  rw [split, Nat.mul_add_div positive]

theorem toNat_sub_div_mul (n b : Word) : (n - n / b * b).toNat = n.toNat % b.toNat := by
  have whole := Nat.div_mul_le_self n.toNat b.toNat
  have product : (n / b * b).toNat = n.toNat / b.toNat * b.toNat := by
    rw [BitVec.toNat_mul, BitVec.toNat_udiv, Nat.mod_eq_of_lt (Nat.lt_of_le_of_lt whole n.isLt)]
  rw [BitVec.toNat_sub_of_le (BitVec.le_def.mpr (product ▸ whole)), product, Nat.mod_eq_sub_div_mul]

theorem converted_mono {clk clk' : Word} (le : clk ≤ clk') (srcFreq dstFreq : Word) :
    converted clk srcFreq dstFreq ≤ converted clk' srcFreq dstFreq :=
  Nat.div_le_div_right (Nat.mul_le_mul_right _ (BitVec.le_def.mp le))

namespace Convertible

variable {clk clk' srcFreq dstFreq : Word}

theorem of_le (ok : Convertible clk' srcFreq dstFreq) (le : clk ≤ clk') : Convertible clk srcFreq dstFreq :=
  ⟨ok.src, ok.dst, ok.rem, Nat.lt_of_le_of_lt (converted_mono le srcFreq dstFreq) ok.fits⟩

/-- No step of the conversion leaves the 64 bits. -/
theorem bounds (ok : Convertible clk srcFreq dstFreq) :
    clk.toNat / srcFreq.toNat * dstFreq.toNat < 2 ^ 64 ∧ clk.toNat % srcFreq.toNat * dstFreq.toNat < 2 ^ 64 := by
  have split := div_mul_add_mod_mul_div clk.toNat dstFreq.toNat ok.src
  have less := Nat.mod_lt clk.toNat ok.src
  refine ⟨Nat.lt_of_le_of_lt ((Nat.le_add_right ..).trans_eq split) ok.fits, ?_⟩
  exact Nat.lt_of_le_of_lt (Nat.mul_le_mul_right _ (Nat.le_sub_one_of_lt less)) ok.rem

theorem timerConvertFreq_toNat (ok : Convertible clk srcFreq dstFreq) :
    (timerConvertFreq clk srcFreq dstFreq).toNat = converted clk srcFreq dstFreq := by
  obtain ⟨quotient, remainder⟩ := ok.bounds
  have split := div_mul_add_mod_mul_div clk.toNat dstFreq.toNat ok.src
  have fits := ok.fits
  unfold timerConvertFreq converted
  dsimp only
  rw [BitVec.toNat_add, BitVec.toNat_mul, BitVec.toNat_udiv, BitVec.toNat_udiv, BitVec.toNat_mul,
    toNat_sub_div_mul, Nat.mod_eq_of_lt quotient, Nat.mod_eq_of_lt remainder, split, Nat.mod_eq_of_lt fits]

end Convertible

/-- The clock source is the conversion from nanoseconds. -/
theorem timerClocksource_eq (freq ns : Word) : timerClocksource freq ns = timerConvertFreq ns 1000000000 freq := by
  have modulo : ns % 1000000000 = ns - ns / 1000000000 * 1000000000 := by
    apply BitVec.eq_of_toNat_eq
    rw [toNat_sub_div_mul, BitVec.toNat_umod]
  rw [timerClocksource, timerConvertFreq, modulo]

/-- What a timer counts between two readings of the clock. -/
def Timer.elapsed (t : Timer) (ns ns' : Word) : Nat := converted ns' 1000000000 t.freq - converted ns 1000000000 t.freq

theorem Timer.get_later (t : Timer) {ns ns' : Word} (later : ns ≤ ns') (ok : Convertible ns' 1000000000 t.freq)
    (room : (t.get ns).toNat + t.elapsed ns ns' < 2 ^ 64) :
    (t.get ns').toNat = (t.get ns).toNat + t.elapsed ns ns' := by
  have first := (ok.of_le later).timerConvertFreq_toNat
  have second := ok.timerConvertFreq_toNat
  have grows := converted_mono later 1000000000 t.freq
  rw [← timerClocksource_eq] at first second
  unfold Timer.elapsed at room ⊢
  rw [← first, ← second] at room grows ⊢
  unfold Timer.get at room ⊢
  rw [BitVec.toNat_sub] at room ⊢
  rw [BitVec.toNat_sub]
  have narrow := (timerClocksource t.freq ns').isLt
  have begins := t.begin.isLt
  omega

/-- The conversions are exact and monotone, and a timer that is not set does not go back. -/
theorem frequency_conversion :
    (∀ clk srcFreq dstFreq, Convertible clk srcFreq dstFreq →
      (timerConvertFreq clk srcFreq dstFreq).toNat = clk.toNat * dstFreq.toNat / srcFreq.toNat ∧
      clk.toNat / srcFreq.toNat * dstFreq.toNat < 2 ^ 64 ∧ clk.toNat % srcFreq.toNat * dstFreq.toNat < 2 ^ 64 ∧
      ∀ clk₀ ≤ clk, timerConvertFreq clk₀ srcFreq dstFreq ≤ timerConvertFreq clk srcFreq dstFreq) ∧
    (∀ ns freq, Convertible ns 1000000000 freq →
      (timerClocksource freq ns).toNat = ns.toNat * freq.toNat / 1000000000 ∧
      ∀ ns₀ ≤ ns, timerClocksource freq ns₀ ≤ timerClocksource freq ns) ∧
    ∀ (t : Timer) ns ns', ns ≤ ns' → Convertible ns' 1000000000 t.freq →
      (t.get ns).toNat + t.elapsed ns ns' < 2 ^ 64 → t.get ns ≤ t.get ns' := by
  have grows {clk srcFreq dstFreq : Word} (ok : Convertible clk srcFreq dstFreq) {clk₀ : Word} (le : clk₀ ≤ clk) :
      timerConvertFreq clk₀ srcFreq dstFreq ≤ timerConvertFreq clk srcFreq dstFreq := by
    rw [BitVec.le_def, (ok.of_le le).timerConvertFreq_toNat, ok.timerConvertFreq_toNat]
    exact converted_mono le srcFreq dstFreq
  refine ⟨fun clk srcFreq dstFreq ok => ?_, fun ns freq ok => ?_, fun t ns ns' later ok room => ?_⟩
  · exact ⟨ok.timerConvertFreq_toNat, ok.bounds.1, ok.bounds.2, fun _ le => grows ok le⟩
  · simp only [timerClocksource_eq]
    exact ⟨ok.timerConvertFreq_toNat, fun _ le => grows ok le⟩
  · rw [BitVec.le_def, t.get_later later ok room]
    exact Nat.le_add_right ..

/-- Ten megahertz from three and a half seconds of nanoseconds. -/
theorem converts_seconds : (timerConvertFreq 3500000000 1000000000 10000000).toNat = 35000000 ∧
    (timerClocksource 10000000 3500000000).toNat = 35000000 ∧
    (Timer.mk 5 10000000).get 1000000000 ≤ (Timer.mk 5 10000000).get 3500000000 := by
  have ok : Convertible 3500000000 1000000000 10000000 := by
    constructor <;> decide
  obtain ⟨exactly, source, timer⟩ := frequency_conversion
  exact ⟨(exactly _ _ _ ok).1, (source _ _ ok).1, timer ⟨5, 10000000⟩ _ _ (by decide) ok (by decide)⟩

end Rv64Vm
