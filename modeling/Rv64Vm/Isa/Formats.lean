import Rv64Vm.Isa.Data
import Rv64Vm.Lib.Joins

/-! # The instruction formats

The 32-bit formats of the architecture as words put together from their fields, and what
the field extractors and immediate decoders read from such a word.
-/

namespace Rv64Vm

open Lib

/-! ## Putting words together -/

section Build

variable (rd rs1 rs2 : BitVec 5) (f3 : BitVec 3) (f7 op : BitVec 7)

def rType : Inst := f7 ++ rs2 ++ rs1 ++ f3 ++ rd ++ op

def iType (imm : BitVec 12) : Inst := imm ++ rs1 ++ f3 ++ rd ++ op

def sType (imm : BitVec 12) : Inst :=
  imm.extractLsb' 5 7 ++ rs2 ++ rs1 ++ f3 ++ imm.extractLsb' 0 5 ++ op

def bType (imm : BitVec 13) : Inst :=
  imm.extractLsb' 12 1 ++ imm.extractLsb' 5 6 ++ rs2 ++ rs1 ++ f3 ++ imm.extractLsb' 1 4 ++
    imm.extractLsb' 11 1 ++ op

def uType (imm : BitVec 20) : Inst := imm ++ rd ++ op

def jType (imm : BitVec 21) : Inst :=
  imm.extractLsb' 20 1 ++ imm.extractLsb' 1 10 ++ imm.extractLsb' 11 1 ++ imm.extractLsb' 12 8 ++ rd ++ op

end Build

def opcode (w : Inst) : BitVec 7 := w.extractLsb' 0 7
def funct3 (w : Inst) : BitVec 3 := w.extractLsb' 12 3
def funct7 (w : Inst) : BitVec 7 := w.extractLsb' 25 7

theorem and_opcode (w : Inst) : w &&& 0x7F = 0#25 ++ opcode w := by
  have spec : Joins fun w : Inst => (0#25 ++ w.extractLsb' 0 7 : Inst) := (Joins.const _).append (.field 0 7)
  exact (Joins.id.and _).ext spec rfl (by decide) w

theorem and_funct3 (w : Inst) : w &&& 0x707F = 0#17 ++ funct3 w ++ 0#5 ++ opcode w := by
  have spec : Joins fun w : Inst => (0#17 ++ w.extractLsb' 12 3 ++ 0#5 ++ w.extractLsb' 0 7 : Inst) :=
    (((Joins.const _).append (.field 12 3)).append (.const _)).append (.field 0 7)
  exact (Joins.id.and _).ext spec rfl (by decide) w

theorem and_funct7 (w : Inst) : w &&& 0xFE00707F = funct7 w ++ 0#10 ++ funct3 w ++ 0#5 ++ opcode w := by
  have spec : Joins fun w : Inst =>
      (w.extractLsb' 25 7 ++ 0#10 ++ w.extractLsb' 12 3 ++ 0#5 ++ w.extractLsb' 0 7 : Inst) :=
    ((((Joins.field 25 7).append (.const _)).append (.field 12 3)).append (.const _)).append
      (.field 0 7)
  exact (Joins.id.and _).ext spec rfl (by decide) w

theorem and_funct6 (w : Inst) : w &&& 0xFC00707F = w.extractLsb' 26 6 ++ 0#11 ++ funct3 w ++ 0#5 ++ opcode w := by
  have spec : Joins fun w : Inst =>
      (w.extractLsb' 26 6 ++ 0#11 ++ w.extractLsb' 12 3 ++ 0#5 ++ w.extractLsb' 0 7 : Inst) :=
    ((((Joins.field 26 6).append (.const _)).append (.field 12 3)).append (.const _)).append
      (.field 0 7)
  exact (Joins.id.and _).ext spec rfl (by decide) w

/-! ## The immediates of a word -/

section Immediates

variable (w : Inst)

theorem immI_eq : immI w = (w.extractLsb' 20 12).signExtend 64 := by
  have code : Joins immI := (((Joins.id.shiftRight 20).shiftLeft 20).sshiftRight 20).signExtend 64
  have spec : Joins fun w : Inst => (w.extractLsb' 20 12).signExtend 64 := (Joins.field 20 12).signExtend 64
  exact code.ext spec rfl (by decide) w

theorem immS_eq : immS w = (w.extractLsb' 25 7 ++ w.extractLsb' 7 5).signExtend 64 := by
  have code : Joins immS :=
    (((((Joins.id.shiftRight 7).and _).or ((Joins.id.shiftRight 20).and _)).shiftLeft 20).sshiftRight 20).signExtend 64
  have spec : Joins fun w : Inst => (w.extractLsb' 25 7 ++ w.extractLsb' 7 5).signExtend 64 :=
    ((Joins.field 25 7).append (.field 7 5)).signExtend 64
  exact code.ext spec rfl (by decide) w

theorem immU_eq : immU w = (w.extractLsb' 12 20 ++ 0#12).signExtend 64 := by
  have code : Joins immU := (Joins.id.and _).signExtend 64
  have spec : Joins fun w : Inst => (w.extractLsb' 12 20 ++ 0#12).signExtend 64 :=
    ((Joins.field 12 20).append (.const _)).signExtend 64
  exact code.ext spec rfl (by decide) w

/-- A field that `get_bits` reads, moved to its place. -/
theorem joins_field (hi lo place : Nat) : Joins fun w => getBits w hi lo <<< place :=
  ((Joins.id.shiftRight lo).and _).shiftLeft place

theorem immB_eq : immB w =
    (w.extractLsb' 31 1 ++ w.extractLsb' 7 1 ++ w.extractLsb' 25 6 ++ w.extractLsb' 8 4 ++ 0#1).signExtend 64 := by
  have code : Joins immB :=
    (((((joins_field 11 8 1).or (joins_field 30 25 5)).or (joins_field 7 7 11)).or (joins_field 31 31 12)).shiftLeft 19
      |>.sshiftRight 19).signExtend 64
  have spec : Joins fun w : Inst => (w.extractLsb' 31 1 ++ w.extractLsb' 7 1 ++ w.extractLsb' 25 6 ++
      w.extractLsb' 8 4 ++ 0#1).signExtend 64 :=
    (((((Joins.field 31 1).append (.field 7 1)).append (.field 25 6)).append
      (.field 8 4)).append (.const _)).signExtend 64
  exact code.ext spec rfl (by decide) w

theorem immJ_eq : immJ w =
    (w.extractLsb' 31 1 ++ w.extractLsb' 12 8 ++ w.extractLsb' 20 1 ++ w.extractLsb' 21 10 ++ 0#1).signExtend 64 := by
  have code : Joins immJ :=
    (((((joins_field 30 21 1).or (joins_field 20 20 11)).or (joins_field 19 12 12)).or
      (joins_field 31 31 20)).shiftLeft 11
      |>.sshiftRight 11).signExtend 64
  have spec : Joins fun w : Inst => (w.extractLsb' 31 1 ++ w.extractLsb' 12 8 ++ w.extractLsb' 20 1 ++
      w.extractLsb' 21 10 ++ 0#1).signExtend 64 :=
    (((((Joins.field 31 1).append (.field 12 8)).append (.field 20 1)).append
      (.field 21 10)).append (.const _)).signExtend 64
  exact code.ext spec rfl (by decide) w

end Immediates

/-! ## Reading a word that was put together -/

theorem extract_eq {n k start : Nat} {x : BitVec n} {y : BitVec k}
    (same : ∀ i < k, x.getLsbD (start + i) = y.getLsbD i) : x.extractLsb' start k = y := by
  apply BitVec.eq_of_getLsbD_eq
  intro i inside
  rw [BitVec.getLsbD_extractLsb', decide_eq_true inside, Bool.true_and, same i inside]

section Read

variable (rd rs1 rs2 : BitVec 5) (f3 : BitVec 3) (f7 op : BitVec 7) (imm : BitVec 12)

@[simp] theorem funct7_rType : funct7 (rType rd rs1 rs2 f3 f7 op) = f7 :=
  extract_eq fun i inside => by simp only [rType, BitVec.getLsbD_append]; grind

@[simp] theorem funct3_rType : funct3 (rType rd rs1 rs2 f3 f7 op) = f3 :=
  extract_eq fun i inside => by simp only [rType, BitVec.getLsbD_append]; grind

@[simp] theorem funct3_iType : funct3 (iType rd rs1 f3 op imm) = f3 :=
  extract_eq fun i inside => by simp only [iType, BitVec.getLsbD_append]; grind

@[simp] theorem funct3_sType : funct3 (sType rs1 rs2 f3 op imm) = f3 :=
  extract_eq fun i inside => by simp only [sType, BitVec.getLsbD_append]; grind

@[simp] theorem funct3_bType (imm : BitVec 13) : funct3 (bType rs1 rs2 f3 op imm) = f3 :=
  extract_eq fun i inside => by simp only [bType, BitVec.getLsbD_append]; grind

@[simp] theorem opcode_rType : opcode (rType rd rs1 rs2 f3 f7 op) = op :=
  extract_eq fun i inside => by simp only [rType, BitVec.getLsbD_append]; grind

@[simp] theorem opcode_iType : opcode (iType rd rs1 f3 op imm) = op :=
  extract_eq fun i inside => by simp only [iType, BitVec.getLsbD_append]; grind

@[simp] theorem opcode_sType : opcode (sType rs1 rs2 f3 op imm) = op :=
  extract_eq fun i inside => by simp only [sType, BitVec.getLsbD_append]; grind

@[simp] theorem opcode_bType (imm : BitVec 13) : opcode (bType rs1 rs2 f3 op imm) = op :=
  extract_eq fun i inside => by simp only [bType, BitVec.getLsbD_append]; grind

@[simp] theorem opcode_uType (imm : BitVec 20) : opcode (uType rd op imm) = op :=
  extract_eq fun i inside => by simp only [uType, BitVec.getLsbD_append]; grind

@[simp] theorem opcode_jType (imm : BitVec 21) : opcode (jType rd op imm) = op :=
  extract_eq fun i inside => by simp only [jType, BitVec.getLsbD_append]; grind

@[simp] theorem dRd_rType : dRd (rType rd rs1 rs2 f3 f7 op) = rd :=
  extract_eq fun i inside => by simp only [rType, BitVec.getLsbD_append]; grind

@[simp] theorem dRs1_rType : dRs1 (rType rd rs1 rs2 f3 f7 op) = rs1 :=
  extract_eq fun i inside => by simp only [rType, BitVec.getLsbD_append]; grind

@[simp] theorem dRs2_rType : dRs2 (rType rd rs1 rs2 f3 f7 op) = rs2 :=
  extract_eq fun i inside => by simp only [rType, BitVec.getLsbD_append]; grind

@[simp] theorem dRd_iType : dRd (iType rd rs1 f3 op imm) = rd :=
  extract_eq fun i inside => by simp only [iType, BitVec.getLsbD_append]; grind

@[simp] theorem dRs1_iType : dRs1 (iType rd rs1 f3 op imm) = rs1 :=
  extract_eq fun i inside => by simp only [iType, BitVec.getLsbD_append]; grind

@[simp] theorem dRs1_sType : dRs1 (sType rs1 rs2 f3 op imm) = rs1 :=
  extract_eq fun i inside => by simp only [sType, BitVec.getLsbD_append]; grind

@[simp] theorem dRs2_sType : dRs2 (sType rs1 rs2 f3 op imm) = rs2 :=
  extract_eq fun i inside => by simp only [sType, BitVec.getLsbD_append]; grind

@[simp] theorem dRs1_bType (imm : BitVec 13) : dRs1 (bType rs1 rs2 f3 op imm) = rs1 :=
  extract_eq fun i inside => by simp only [bType, BitVec.getLsbD_append]; grind

@[simp] theorem dRs2_bType (imm : BitVec 13) : dRs2 (bType rs1 rs2 f3 op imm) = rs2 :=
  extract_eq fun i inside => by simp only [bType, BitVec.getLsbD_append]; grind

@[simp] theorem dRd_uType (imm : BitVec 20) : dRd (uType rd op imm) = rd :=
  extract_eq fun i inside => by simp only [uType, BitVec.getLsbD_append]; grind

@[simp] theorem dRd_jType (imm : BitVec 21) : dRd (jType rd op imm) = rd :=
  extract_eq fun i inside => by simp only [jType, BitVec.getLsbD_append]; grind

@[simp] theorem immI_iType : immI (iType rd rs1 f3 op imm) = imm.signExtend 64 := by
  rw [immI_eq]
  congr 1
  exact extract_eq fun i inside => by simp only [iType, BitVec.getLsbD_append]; grind

@[simp] theorem immS_sType : immS (sType rs1 rs2 f3 op imm) = imm.signExtend 64 := by
  rw [immS_eq]
  congr 1
  apply BitVec.eq_of_getLsbD_eq
  intro i inside
  simp only [sType, BitVec.getLsbD_extractLsb', BitVec.getLsbD_append]
  grind

@[simp] theorem immB_bType (imm : BitVec 13) (even : imm.getLsbD 0 = false) :
    immB (bType rs1 rs2 f3 op imm) = imm.signExtend 64 := by
  rw [immB_eq]
  congr 1
  apply BitVec.eq_of_getLsbD_eq
  intro i inside
  simp only [bType, BitVec.getLsbD_extractLsb', BitVec.getLsbD_append]
  grind

@[simp] theorem immJ_jType (imm : BitVec 21) (even : imm.getLsbD 0 = false) :
    immJ (jType rd op imm) = imm.signExtend 64 := by
  rw [immJ_eq]
  congr 1
  apply BitVec.eq_of_getLsbD_eq
  intro i inside
  simp only [jType, BitVec.getLsbD_extractLsb', BitVec.getLsbD_append]
  grind

@[simp] theorem immU_uType (imm : BitVec 20) : immU (uType rd op imm) = (imm ++ 0#12).signExtend 64 := by
  rw [immU_eq]
  congr 2
  exact extract_eq fun i inside => by simp only [uType, BitVec.getLsbD_append]; grind

/-- The shifts by an immediate keep six bits of it for the operation. -/
theorem funct6_iType (f6 sh : BitVec 6) : (iType rd rs1 f3 op (f6 ++ sh)).extractLsb' 26 6 = f6 :=
  extract_eq fun i inside => by simp only [iType, BitVec.getLsbD_append]; grind

theorem shamt64_iType (f6 sh : BitVec 6) : shamt64 (iType rd rs1 f3 op (f6 ++ sh)) = sh.setWidth 64 := by
  have low : Joins fun x : BitVec 12 => x.signExtend 64 &&& 0x3f := (Joins.id.signExtend 64).and _
  have cut (x : BitVec 12) : x.signExtend 64 &&& 0x3f = (x.extractLsb' 0 6).setWidth 64 :=
    low.ext ((Joins.field 0 6).setWidth 64) rfl (by decide) x
  rw [shamt64, immI_iType, cut]
  congr 1
  exact extract_eq fun i inside => by simp only [BitVec.getLsbD_append]; grind

theorem rType_and : rType rd rs1 rs2 f3 f7 op &&& 0xFE00707F = f7 ++ 0#10 ++ f3 ++ 0#5 ++ op := by
  rw [and_funct7, funct7_rType, funct3_rType, opcode_rType]

theorem iType_and : iType rd rs1 f3 op imm &&& 0x707F = 0#17 ++ f3 ++ 0#5 ++ op := by
  rw [and_funct3, funct3_iType, opcode_iType]

theorem iType_and_shift (f6 sh : BitVec 6) :
    iType rd rs1 f3 op (f6 ++ sh) &&& 0xFC00707F = f6 ++ 0#11 ++ f3 ++ 0#5 ++ op := by
  rw [and_funct6, funct6_iType, funct3_iType, opcode_iType]

theorem sType_and : sType rs1 rs2 f3 op imm &&& 0x707F = 0#17 ++ f3 ++ 0#5 ++ op := by
  rw [and_funct3, funct3_sType, opcode_sType]

theorem bType_and (imm : BitVec 13) : bType rs1 rs2 f3 op imm &&& 0x707F = 0#17 ++ f3 ++ 0#5 ++ op := by
  rw [and_funct3, funct3_bType, opcode_bType]

theorem uType_and (imm : BitVec 20) : uType rd op imm &&& 0x7F = 0#25 ++ op := by rw [and_opcode, opcode_uType]

theorem jType_and (imm : BitVec 21) : jType rd op imm &&& 0x7F = 0#25 ++ op := by rw [and_opcode, opcode_jType]

end Read

end Rv64Vm
