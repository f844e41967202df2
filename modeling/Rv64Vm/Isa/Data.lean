import Rv64Vm.Core.Csr
import Rv64Vm.Core.Mmio

/-! # Decoded instructions

The field extractors and immediate decoders of `decode.hpp`, the record they
fill, and what a handler is. Register fields are five bits wide, as `GPR` is
indexed by them.
-/

namespace Rv64Vm

/-- `(int32_t)(val << shift) >> shift`, widened as the callers' `uint64_t`. -/
def sext (val : Inst) (bits : Nat) : Word :=
  ((val <<< (32 - bits)).sshiftRight (32 - bits)).signExtend 64

def getBits (inst : Inst) (hi lo : Nat) : Inst := (inst >>> lo) &&& BitVec.ofNat 32 (2 ^ (hi - lo + 1) - 1)

section Fields

variable (inst : Inst)

def dRd : BitVec 5 := inst.extractLsb' 7 5
def dRs1 : BitVec 5 := inst.extractLsb' 15 5
def dRs2 : BitVec 5 := inst.extractLsb' 20 5
def dRs3 : BitVec 5 := inst.extractLsb' 27 5
def dRm : BitVec 3 := inst.extractLsb' 12 3

def immZicsr : Word := (inst >>> 20).setWidth 64

def immI : Word := sext (inst >>> 20) 12

def immS : Word := sext (((inst >>> 7) &&& 0x1f) ||| ((inst >>> 20) &&& 0xfe0)) 12

def immB : Word :=
  sext ((getBits inst 11 8 <<< 1) ||| (getBits inst 30 25 <<< 5) ||| (getBits inst 7 7 <<< 11) |||
    (getBits inst 31 31 <<< 12)) 13

def immU : Word := (inst &&& 0xFFFFF000).signExtend 64

def immJ : Word :=
  sext ((getBits inst 30 21 <<< 1) ||| (getBits inst 20 20 <<< 11) ||| (getBits inst 19 12 <<< 12) |||
    (getBits inst 31 31 <<< 20)) 21

def shamt : Word := immI inst &&& 0x1f
def shamt64 : Word := immI inst &&& 0x3f

/-! Compressed encodings; a three-bit register field names `x8` to `x15`. -/

def dCRd : BitVec 3 := inst.extractLsb' 2 3
def dCRs1 : BitVec 3 := inst.extractLsb' 7 3
def dCRs2 : BitVec 5 := inst.extractLsb' 2 5

def dCUimm : Word :=
  (((inst >>> 1) &&& 0x3c0) ||| ((inst >>> 7) &&& 0x30) ||| ((inst >>> 2) &&& 0x8) |||
    ((inst >>> 4) &&& 0x4)).setWidth 64

def dCUimmCl : Word :=
  ((getBits inst 6 6 <<< 2) ||| (((inst >>> 10) &&& 0x7) <<< 3) ||| (getBits inst 5 5 <<< 6)).setWidth 64

def dCUimmCl1 : Word :=
  ((getBits inst 6 6 <<< 7) ||| (((inst >>> 10) &&& 0x7) <<< 3) ||| (getBits inst 5 5 <<< 6)).setWidth 64

def dCNzimm : Word := sext (((inst >>> 2) &&& 0x1f) ||| (((inst >>> 12) &&& 0x1) <<< 5)) 6

def dCUimmArith : Word := (((inst >>> 2) &&& 0x1f) ||| (((inst >>> 12) &&& 0x1) <<< 5)).setWidth 64

def dCNzimm9 : Word :=
  sext (((inst >>> 6 &&& 1) <<< 4) ||| ((inst >>> 2 &&& 1) <<< 5) ||| ((inst >>> 5 &&& 1) <<< 6) |||
    ((inst >>> 3 &&& 1) <<< 7) ||| ((inst >>> 4 &&& 1) <<< 8) ||| ((inst >>> 12 &&& 1) <<< 9)) 10

def dCJImm : Word :=
  sext (((inst >>> 3 &&& 7) <<< 1) ||| ((inst >>> 11 &&& 1) <<< 4) ||| ((inst >>> 2 &&& 1) <<< 5) |||
    ((inst >>> 7 &&& 1) <<< 6) ||| ((inst >>> 6 &&& 1) <<< 7) ||| ((inst >>> 9 &&& 1) <<< 8) |||
    ((inst >>> 10 &&& 1) <<< 9) ||| ((inst >>> 8 &&& 1) <<< 10) ||| ((inst >>> 12 &&& 1) <<< 11)) 12

def dCBImm : Word :=
  sext (((inst >>> 3 &&& 0x3) <<< 1) ||| ((inst >>> 10 &&& 0x3) <<< 3) ||| ((inst >>> 2 &&& 0x1) <<< 5) |||
    ((inst >>> 5 &&& 0x3) <<< 6) ||| ((inst >>> 12 &&& 0x1) <<< 8)) 9

def dCUimmLwsp : Word :=
  (((inst >>> 4 &&& 0x7) <<< 2) ||| ((inst >>> 12 &&& 0x1) <<< 5) ||| ((inst >>> 2 &&& 0x3) <<< 6)).setWidth 64

def dCUimmLdsp : Word :=
  (((inst >>> 5 &&& 0x3) <<< 3) ||| ((inst >>> 12 &&& 0x1) <<< 5) ||| ((inst >>> 2 &&& 0x3) <<< 6) |||
    ((inst >>> 4 &&& 0x1) <<< 8)).setWidth 64

def dCUimmSwsp : Word :=
  (((inst >>> 9 &&& 0xf) <<< 2) ||| ((inst >>> 7 &&& 0x1) <<< 6) ||| ((inst >>> 8 &&& 0x1) <<< 7)).setWidth 64

def dCUimmSdsp : Word :=
  (((inst >>> 10 &&& 0x7) <<< 3) ||| ((inst >>> 7 &&& 0x1) <<< 6) ||| ((inst >>> 8 &&& 0x1) <<< 7) |||
    ((inst >>> 9 &&& 0x1) <<< 8)).setWidth 64

end Fields

/-- `8 + r` for a three-bit register field. -/
def compactReg (r : BitVec 3) : BitVec 5 := 8 + r.setWidth 5

/-- The operands `decode_inst_slow` fills in. -/
def InstructionData.ofInst (inst : Inst) (immDecode : Option (Inst → Word)) : InstructionData where
  rs3 := dRs3 inst
  rm := dRm inst
  rs1 := dRs1 inst
  rs2 := dRs2 inst
  rd := dRd inst
  inst := inst
  imm := immDecode.elim 0 (· inst)
  size := if inst &&& 0x3 ≠ 3 then 2 else 4

namespace InstructionData

variable (inst : Inst) (immDecode : Option (Inst → Word))

@[simp] theorem ofInst_rd : (ofInst inst immDecode).rd = dRd inst := rfl
@[simp] theorem ofInst_rs1 : (ofInst inst immDecode).rs1 = dRs1 inst := rfl
@[simp] theorem ofInst_rs2 : (ofInst inst immDecode).rs2 = dRs2 inst := rfl
@[simp] theorem ofInst_inst : (ofInst inst immDecode).inst = inst := rfl
@[simp] theorem ofInst_imm (f : Inst → Word) : (ofInst inst (some f)).imm = f inst := rfl

end InstructionData

/-- What a handler returns, with the machine it leaves. -/
structure Executed where
  ret : ExecReturn
  core : Core

abbrev Handler := Bus → Core → InstructionData → Except HostError Executed

namespace Core

def gpr (c : Core) (r : BitVec 5) : Word := c.hart.gpr r

def setGpr (c : Core) (r : BitVec 5) (v : Word) : Core :=
  c.mapHart fun h => { h with gpr := Function.update h.gpr r v }

def setPc (c : Core) (pc : Word) : Core := c.mapHart fun h => { h with pc := pc }

/-- `h.GPR[0] = 0` -/
def clearX0 (c : Core) : Core := c.setGpr 0 0

end Core

end Rv64Vm
