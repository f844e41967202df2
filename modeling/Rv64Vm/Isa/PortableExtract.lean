import Rv64Vm.Isa.Decoder
import Rv64Vm.Lib.Compress

/-! # Bit extraction without the host instruction

`pext_u32` for hosts that have no such instruction. It is the instruction, so the decoder is the same on all of them.
-/

namespace Rv64Vm

open Lib

/-- The loop body of `pext_u32`. -/
def pextRound (s : Compressing 32) (i : Nat) : Compressing 32 :=
  let mp := s.marks ^^^ (s.marks <<< 1)
  let mp := mp ^^^ (mp <<< 2)
  let mp := mp ^^^ (mp <<< 4)
  let mp := mp ^^^ (mp <<< 8)
  let mp := mp ^^^ (mp <<< 16)
  let mv := mp &&& s.m
  let m := (s.m ^^^ mv) ||| (mv >>> (1 <<< i))
  let t := s.x &&& mv
  let x := (s.x ^^^ t) ||| (t >>> (1 <<< i))
  ⟨x, m, s.marks &&& ~~~mp⟩

/-- `pext_u32` on AArch64. -/
def pextU32Portable (val mask : Inst) : Inst :=
  ((List.range 5).foldl pextRound ⟨val &&& mask, mask, ~~~mask <<< 1⟩).x

theorem pextRound_eq (s : Compressing 32) (i : Nat) : pextRound s i = s.round 5 i := by
  simp only [pextRound, Compressing.round, prefixXor, Nat.one_shiftLeft]
  rfl

theorem pextU32Portable_eq (val mask : Inst) :
    pextU32Portable val mask = ((Compressing.start val mask).rounds 5 5).x := by
  simp only [pextU32Portable, List.range_succ, List.range_zero, List.nil_append, List.cons_append, List.foldl_cons,
    List.foldl_nil, pextRound_eq]
  rfl

theorem getLsbD_pextU32Portable (val mask : Inst) (q : Nat) : (pextU32Portable val mask).getLsbD q = true ↔
    ∃ p, val.getLsbD p = true ∧ mask.getLsbD p = true ∧ setBelow mask p = q := by
  rw [pextU32Portable_eq, Compressing.getLsbD_rounds val mask (by decide)]

theorem pextU32Portable_toNat (val mask : Inst) : (pextU32Portable val mask).toNat = pextU32 val mask := by
  apply Nat.eq_of_testBit_eq
  intro j
  rw [Bool.eq_iff_iff, BitVec.testBit_toNat, getLsbD_pextU32Portable, pextU32, testBit_pext]
  constructor
  · rintro ⟨p, bit, set, place⟩
    exact ⟨p, BitVec.lt_of_getLsbD bit, bit, set, place⟩
  · rintro ⟨p, -, bit, set, place⟩
    exact ⟨p, bit, set, place⟩

/-- The portable extraction puts each bit under the mask at its rank and clears the rest; it is the host's instruction,
    and it tells words apart exactly where the mask does. -/
theorem portable_extraction (val mask : Inst) :
    (∀ p, mask.getLsbD p = true → (pextU32Portable val mask).getLsbD (setBelow mask p) = val.getLsbD p) ∧
    (∀ i, popcount 32 mask.toNat ≤ i → (pextU32Portable val mask).getLsbD i = false) ∧
    (pextU32Portable val mask).toNat = pextU32 val mask ∧
    ∀ other, pextU32Portable val mask = pextU32Portable other mask ↔ val &&& mask = other &&& mask := by
  refine ⟨fun p set => ?_, fun i beyond => ?_, pextU32Portable_toNat val mask, fun other => ?_⟩
  · rw [Bool.eq_iff_iff, getLsbD_pextU32Portable]
    constructor
    · rintro ⟨r, bit, set', same⟩
      rwa [Nat.count_injective set' set same] at bit
    · intro bit
      exact ⟨p, bit, set, rfl⟩
  · rw [← Bool.not_eq_true, getLsbD_pextU32Portable]
    rintro ⟨p, -, set, rfl⟩
    have more := setBelow_succ mask p
    rw [set, Bool.toNat_true] at more
    have below : setBelow mask (p + 1) ≤ rank mask.toNat 32 := Nat.count_monotone _ (BitVec.lt_of_getLsbD set)
    rw [popcount_eq_rank] at beyond
    omega
  · rw [← BitVec.toNat_inj, pextU32Portable_toNat, pextU32Portable_toNat, ← BitVec.toNat_inj, BitVec.toNat_and,
      BitVec.toNat_and]
    exact pext_eq_iff val.isLt other.isLt

/-- Bits 4 and 6 under the mask `0x50`. -/
theorem extracts_two_bits : (pextU32Portable 0x40 0x50).getLsbD (setBelow 0x50#32 6) = true ∧
    (pextU32Portable 0x40 0x50).getLsbD 2 = false := by
  obtain ⟨placed, cleared, -⟩ := portable_extraction 0x40 0x50
  exact ⟨placed 6 (by decide), cleared 2 (by decide)⟩

end Rv64Vm
