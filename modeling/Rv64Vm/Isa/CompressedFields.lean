import Rv64Vm.Isa.Compressed
import Rv64Vm.Isa.Rv64c

/-! # The compressed fields as the decoder reads them

The decoders of `decode.hpp` and the register fields of the compressed handlers, on the
word that the fetch makes of a 16-bit encoding, are the fields of the architecture.
-/

namespace Rv64Vm

open Lib

namespace Rvc

variable (c : BitVec 16)

/-- The word that the fetch passes to the decoder. -/
def fetched : Inst := c.setWidth 32

theorem joins_fetched : Joins fetched := Joins.id.setWidth 32

theorem dRd_fetched : dRd (fetched c) = rd c := by
  apply BitVec.eq_of_getLsbD_eq
  intro i inside
  simp only [dRd, fetched, rd, BitVec.getLsbD_extractLsb', BitVec.getLsbD_setWidth]
  grind

theorem dCRs2_fetched : dCRs2 (fetched c) = rs2 c := by
  apply BitVec.eq_of_getLsbD_eq
  intro i inside
  simp only [dCRs2, fetched, rs2, BitVec.getLsbD_extractLsb', BitVec.getLsbD_setWidth]
  grind

theorem compactReg_eq (r : BitVec 3) : compactReg r = 0b01#2 ++ r := by
  revert r
  decide

theorem lowC_fetched (imm : Option (Inst → Word)) : (InstructionData.ofInst (fetched c) imm).lowC = rs2Short c := by
  show compactReg ((fetched c).extractLsb' 2 3) = _
  rw [compactReg_eq, rs2Short]
  rfl

theorem rdC_fetched (imm : Option (Inst → Word)) : (InstructionData.ofInst (fetched c) imm).rdC = rs1Short c := by
  have short (r : BitVec 5) : 8 + (r &&& 0x7) = 0b01#2 ++ r.extractLsb' 0 3 := by
    revert r
    decide
  show 8 + (dRd (fetched c) &&& 0x7) = _
  rw [short, dRd_fetched, rs1Short]
  congr 1
  apply BitVec.eq_of_getLsbD_eq
  intro i inside
  simp only [rd, BitVec.getLsbD_extractLsb']
  grind

theorem highC_fetched (imm : Option (Inst → Word)) : (InstructionData.ofInst (fetched c) imm).highC = rs1Short c := by
  show compactReg ((fetched c).extractLsb' 7 3) = _
  rw [compactReg_eq, rs1Short]
  rfl

/-- Part of a word, moved to its place. -/
theorem joins_part (a : Nat) (m : Inst) (b : Nat) : Joins fun c => ((fetched c) >>> a &&& m) <<< b :=
  ((joins_fetched.shiftRight a).and m).shiftLeft b

theorem joins_masked (a : Nat) (m : Inst) : Joins fun c => (fetched c) >>> a &&& m :=
  (joins_fetched.shiftRight a).and m

theorem joins_sext {f : BitVec 16 → Inst} (hf : Joins f) (bits : Nat) : Joins fun c => sext (f c) bits :=
  ((hf.shiftLeft _).sshiftRight _).signExtend 64

theorem joins_immCi : Joins immCi := (Joins.field 12 1).append (.field 2 5)

theorem joins_arith : Joins fun c => dCUimmArith (fetched c) :=
  ((joins_masked 2 0x1f).or (joins_part 12 1 5)).setWidth 64

theorem dCNzimm_fetched : dCNzimm (fetched c) = ((immCi c).signExtend 12).signExtend 64 := by
  have code : Joins fun c => dCNzimm (fetched c) := joins_sext ((joins_masked 2 0x1f).or (joins_part 12 1 5)) 6
  exact code.ext ((joins_immCi.signExtend 12).signExtend 64) rfl (by decide) c

theorem dCUimmArith_fetched : dCUimmArith (fetched c) = (immCi c).setWidth 64 :=
  joins_arith.ext (joins_immCi.setWidth 64) rfl (by decide) c

/-- `C.ANDI` extends the sign of what the decoder has read without one. -/
theorem andi_fetched : sext (low ((immCi c).setWidth 64)) 6 = ((immCi c).signExtend 12).signExtend 64 := by
  have code : Joins fun c => sext (low ((immCi c).setWidth 64)) 6 :=
    joins_sext ((joins_immCi.setWidth 64).setWidth 32) 6
  exact code.ext ((joins_immCi.signExtend 12).signExtend 64) rfl (by decide) c

theorem lui_fetched : dCNzimm (fetched c) <<< 12 = ((immCi c).signExtend 20 ++ 0#12).signExtend 64 := by
  have code : Joins fun c => dCNzimm (fetched c) <<< 12 :=
    (joins_sext ((joins_masked 2 0x1f).or (joins_part 12 1 5)) 6).shiftLeft 12
  exact code.ext (((joins_immCi.signExtend 20).append (.const _)).signExtend 64) rfl (by decide) c

theorem dCUimm_fetched : dCUimm (fetched c) = ((immAddi4spn c).setWidth 12).signExtend 64 := by
  have code : Joins fun c => dCUimm (fetched c) :=
    ((((joins_masked 1 _).or (joins_masked 7 _)).or (joins_masked 2 _)).or (joins_masked 4 _)).setWidth 64
  have spec : Joins immAddi4spn :=
    ((((Joins.field 7 4).append (.field 11 2)).append (.field 5 1)).append
      (.field 6 1)).append (.const _)
  exact code.ext ((spec.setWidth 12).signExtend 64) rfl (by decide) c

theorem addi16sp_fetched : sext (low (dCNzimm9 (fetched c))) 10 = ((immAddi16sp c).signExtend 12).signExtend 64 := by
  have parts : Joins fun c => dCNzimm9 (fetched c) :=
    joins_sext ((((((joins_part 6 1 4).or (joins_part 2 1 5)).or (joins_part 5 1 6)).or (joins_part 3 1 7)).or
      (joins_part 4 1 8)).or (joins_part 12 1 9)) 10
  have code : Joins fun c => sext (low (dCNzimm9 (fetched c))) 10 := joins_sext (parts.setWidth 32) 10
  have spec : Joins immAddi16sp :=
    (((((Joins.field 12 1).append (.field 3 2)).append (.field 5 1)).append
      (.field 2 1)).append (.field 6 1)).append (.const _)
  exact code.ext ((spec.signExtend 12).signExtend 64) rfl (by decide) c

theorem offsetW_fetched : dCUimmCl (fetched c) = ((offsetW c).setWidth 12).signExtend 64 := by
  have code : Joins fun c => dCUimmCl (fetched c) :=
    (((joins_part 6 _ 2).or (joins_part 10 7 3)).or (joins_part 5 _ 6)).setWidth 64
  have spec : Joins offsetW :=
    (((Joins.field 5 1).append (.field 10 3)).append (.field 6 1)).append (.const _)
  exact code.ext ((spec.setWidth 12).signExtend 64) rfl (by decide) c

theorem offsetD_fetched : dCUimmCl1 (fetched c) = ((offsetD c).setWidth 12).signExtend 64 := by
  have code : Joins fun c => dCUimmCl1 (fetched c) :=
    (((joins_part 6 _ 7).or (joins_part 10 7 3)).or (joins_part 5 _ 6)).setWidth 64
  have spec : Joins offsetD := ((Joins.field 5 2).append (.field 10 3)).append (.const _)
  exact code.ext ((spec.setWidth 12).signExtend 64) rfl (by decide) c

theorem offsetLwsp_fetched : dCUimmLwsp (fetched c) = ((offsetLwsp c).setWidth 12).signExtend 64 := by
  have code : Joins fun c => dCUimmLwsp (fetched c) :=
    (((joins_part 4 7 2).or (joins_part 12 1 5)).or (joins_part 2 3 6)).setWidth 64
  have spec : Joins offsetLwsp :=
    (((Joins.field 2 2).append (.field 12 1)).append (.field 4 3)).append (.const _)
  exact code.ext ((spec.setWidth 12).signExtend 64) rfl (by decide) c

theorem offsetLdsp_fetched : dCUimmLdsp (fetched c) = ((offsetLdsp c).setWidth 12).signExtend 64 := by
  have code : Joins fun c => dCUimmLdsp (fetched c) :=
    ((((joins_part 5 3 3).or (joins_part 12 1 5)).or (joins_part 2 3 6)).or (joins_part 4 1 8)).setWidth 64
  have spec : Joins offsetLdsp :=
    (((Joins.field 2 3).append (.field 12 1)).append (.field 5 2)).append (.const _)
  exact code.ext ((spec.setWidth 12).signExtend 64) rfl (by decide) c

theorem offsetSwsp_fetched : dCUimmSwsp (fetched c) = ((offsetSwsp c).setWidth 12).signExtend 64 := by
  have code : Joins fun c => dCUimmSwsp (fetched c) :=
    (((joins_part 9 0xf 2).or (joins_part 7 1 6)).or (joins_part 8 1 7)).setWidth 64
  have spec : Joins offsetSwsp := ((Joins.field 7 2).append (.field 9 4)).append (.const _)
  exact code.ext ((spec.setWidth 12).signExtend 64) rfl (by decide) c

theorem offsetSdsp_fetched : dCUimmSdsp (fetched c) = ((offsetSdsp c).setWidth 12).signExtend 64 := by
  have code : Joins fun c => dCUimmSdsp (fetched c) :=
    ((((joins_part 10 7 3).or (joins_part 7 1 6)).or (joins_part 8 1 7)).or (joins_part 9 1 8)).setWidth 64
  have spec : Joins offsetSdsp := ((Joins.field 7 3).append (.field 10 3)).append (.const _)
  exact code.ext ((spec.setWidth 12).signExtend 64) rfl (by decide) c

theorem offsetJ_fetched : sextW (low (dCJImm (fetched c))) = ((offsetJ c).signExtend 21).signExtend 64 := by
  have parts : Joins fun c => dCJImm (fetched c) :=
    joins_sext (((((((((joins_part 3 7 1).or (joins_part 11 1 4)).or (joins_part 2 1 5)).or (joins_part 7 1 6)).or
      (joins_part 6 1 7)).or (joins_part 9 1 8)).or (joins_part 10 1 9)).or (joins_part 8 1 10)).or
      (joins_part 12 1 11)) 12
  have code : Joins fun c => sextW (low (dCJImm (fetched c))) := (parts.setWidth 32).signExtend 64
  have spec : Joins offsetJ :=
    (((((((((Joins.field 12 1).append (.field 8 1)).append (.field 9 2)).append
      (.field 6 1)).append (.field 7 1)).append (.field 2 1)).append
      (.field 11 1)).append (.field 3 3))).append (.const _)
  exact code.ext ((spec.signExtend 21).signExtend 64) rfl (by decide) c

theorem offsetB_fetched : sextW (low (dCBImm (fetched c))) = ((offsetB c).signExtend 13).signExtend 64 := by
  have parts : Joins fun c => dCBImm (fetched c) :=
    joins_sext (((((joins_part 3 3 1).or (joins_part 10 3 3)).or (joins_part 2 1 5)).or (joins_part 5 3 6)).or
      (joins_part 12 1 8)) 9
  have code : Joins fun c => sextW (low (dCBImm (fetched c))) := (parts.setWidth 32).signExtend 64
  have spec : Joins offsetB :=
    (((((Joins.field 12 1).append (.field 5 2)).append (.field 2 1)).append
      (.field 10 2)).append (.field 3 2)).append (.const _)
  exact code.ext ((spec.signExtend 13).signExtend 64) rfl (by decide) c

end Rvc

end Rv64Vm
