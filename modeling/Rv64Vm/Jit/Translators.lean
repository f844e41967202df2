import Rv64Vm.Isa.Data
import Rv64Vm.Jit.Exits

/-! # Instruction translators

The `jit_*` functions of the RV64I, RV64M and RV64C translators. The Boolean of
the result says whether the block may continue.
-/

namespace Rv64Vm.Jit

open Lib X86

abbrev JitFunc := Emitter → InstructionData → Option (Emitter × Bool)

/-- `return !em.eof()` -/
def keep (em : Emitter) : Emitter × Bool := (em, !em.eof)

/-! ## RV64I -/

def aluR (op : AluOp) (w : Bool) : JitFunc := fun em d =>
  if d.rd = 0 then some (keep em) else (em.emitRTo d.rd d.rs1 d.rs2 op w).map keep

def aluI (op : AluOp) (w : Bool) : JitFunc := fun em d =>
  if d.rd = 0 then some (keep em) else (em.emitITo d.rd d.rs1 d.imm op w).map keep

def aluU (op : AluOp) : JitFunc := fun em d =>
  if d.rd = 0 then some (keep em) else (em.emitUTo d.rd (imm32 d.imm) op).map keep

def ld (width : Nat) (sign : Bool) : JitFunc := fun em d =>
  (em.emitLoad d.rd d.rs1 d.imm width sign).map keep

def st (width : Nat) : JitFunc := fun em d => (em.emitStore d.rs1 d.imm d.rs2 width).map keep

def branch (cc : Cond) : JitFunc := fun em d =>
  em.emitCondExit d.rs1 d.rs2 cc d.imm em.instrBytes 4 em.instrIndex true

def jitADD : JitFunc := aluR .add false
def jitADDW : JitFunc := aluR .add true
def jitSUB : JitFunc := aluR .sub false
def jitSUBW : JitFunc := aluR .sub true
def jitXOR : JitFunc := aluR .xor false
def jitOR : JitFunc := aluR .or false
def jitAND : JitFunc := aluR .and false
def jitSLL : JitFunc := aluR .sll false
def jitSLLW : JitFunc := aluR .sll true
def jitSRL : JitFunc := aluR .srl false
def jitSRLW : JitFunc := aluR .srl true
def jitSRA : JitFunc := aluR .sra false
def jitSRAW : JitFunc := aluR .sra true
def jitSLT : JitFunc := aluR .slt false
def jitSLTU : JitFunc := aluR .sltu false

def jitADDI : JitFunc := aluI .add false
def jitADDIW : JitFunc := aluI .add true
def jitXORI : JitFunc := aluI .xor false
def jitORI : JitFunc := aluI .or false
def jitANDI : JitFunc := aluI .and false
def jitSLLI : JitFunc := aluI .sll false
def jitSLLIW : JitFunc := aluI .sll true
def jitSRLI : JitFunc := aluI .srl false
def jitSRLIW : JitFunc := aluI .srl true
def jitSRAI : JitFunc := aluI .sra false
def jitSRAIW : JitFunc := aluI .sra true
def jitSLTI : JitFunc := aluI .slt false
def jitSLTIU : JitFunc := aluI .sltu false
def jitLUI : JitFunc := aluU .lui
def jitAUIPC : JitFunc := aluU .auipc

def jitLB : JitFunc := ld 1 true
def jitLBU : JitFunc := ld 1 false
def jitLH : JitFunc := ld 2 true
def jitLHU : JitFunc := ld 2 false
def jitLW : JitFunc := ld 4 true
def jitLWU : JitFunc := ld 4 false
def jitLD : JitFunc := ld 8 true

def jitSB : JitFunc := st 1
def jitSH : JitFunc := st 2
def jitSW : JitFunc := st 4
def jitSD : JitFunc := st 8

def jitBEQ : JitFunc := branch .e
def jitBNE : JitFunc := branch .ne
def jitBLT : JitFunc := branch .l
def jitBGE : JitFunc := branch .ge
def jitBLTU : JitFunc := branch .b
def jitBGEU : JitFunc := branch .ae

/-- `emit_jump`, after which the block ends. -/
def jump (em : Emitter) (linkRd srcRs1 : GuestReg) (imm : Word) (size : Nat)
    (checkAlign fromRs1 : Bool) : Option (Emitter × Bool) :=
  (em.emitJump linkRd srcRs1 imm em.instrBytes size em.instrIndex checkAlign fromRs1).map (·, false)

def jitJAL : JitFunc := fun em d => jump em d.rd 0 d.imm 4 true false
def jitJALR : JitFunc := fun em d => jump em d.rd d.rs1 d.imm 4 false true

/-! ## RV64M -/

def mOp (op : MOp) (w : Bool) : JitFunc := fun em d =>
  if d.rd = 0 then some (keep em) else (em.emitMRTo d.rd d.rs1 d.rs2 op w).map keep

def jitMUL : JitFunc := mOp .mul false
def jitMULW : JitFunc := mOp .mul true
def jitMULH : JitFunc := mOp .mulh false
def jitMULHU : JitFunc := mOp .mulhu false
def jitMULHSU : JitFunc := mOp .mulhsu false
def jitDIV : JitFunc := mOp .div false
def jitDIVU : JitFunc := mOp .divu false
def jitDIVW : JitFunc := mOp .div true
def jitDIVUW : JitFunc := mOp .divu true
def jitREM : JitFunc := mOp .rem false
def jitREMU : JitFunc := mOp .remu false
def jitREMW : JitFunc := mOp .rem true
def jitREMUW : JitFunc := mOp .remu true

/-! ## RV64C -/

/-- `8 + d_c_rs1(d.inst)` and `8 + d_c_rd(d.inst)` -/
def highReg (d : InstructionData) : GuestReg := compactReg (dCRs1 d.inst)
def lowReg (d : InstructionData) : GuestReg := compactReg (dCRd d.inst)

def jitCNOP : JitFunc := fun em _ => some (keep em)

def jitCADDI4SPN : JitFunc := fun em d => (em.emitITo (lowReg d) 2 d.imm .add false).map keep

def jitCADDI : JitFunc := fun em d =>
  if d.rd = 0 then some (keep em) else (em.emitITo d.rd d.rd d.imm .add false).map keep

def jitCADDIW : JitFunc := fun em d =>
  if d.rd = 0 then some (keep em) else (em.emitITo d.rd d.rd d.imm .add true).map keep

def jitCLI : JitFunc := fun em d =>
  if d.rd = 0 then some (keep em) else (em.emitITo d.rd 0 d.imm .add false).map keep

def jitCLUIADDI16SP : JitFunc := fun em d =>
  if d.rd = 2 then
    (em.emitITo 2 2 (sext ((dCNzimm9 d.inst).setWidth 32) 10) .add false).map keep
  else if d.rd ≠ 0 then (em.emitITo d.rd 0 (d.imm <<< 12) .add false).map keep
  else some (keep em)

def jitCSLLI : JitFunc := fun em d =>
  if d.rd = 0 then some (keep em) else (em.emitITo d.rd d.rd d.imm .sll false).map keep

def cShift (op : AluOp) : JitFunc := fun em d =>
  (em.emitITo (highReg d) (highReg d) d.imm op false).map keep

def jitCSRLI : JitFunc := cShift .srl
def jitCSRAI : JitFunc := cShift .sra

def jitCANDI : JitFunc := fun em d =>
  (em.emitITo (highReg d) (highReg d) (sext (d.imm.setWidth 32) 6) .and false).map keep

def cAlu (op : AluOp) (w : Bool) : JitFunc := fun em d =>
  (em.emitRTo (highReg d) (highReg d) (lowReg d) op w).map keep

def jitCSUB : JitFunc := cAlu .sub false
def jitCXOR : JitFunc := cAlu .xor false
def jitCOR : JitFunc := cAlu .or false
def jitCAND : JitFunc := cAlu .and false
def jitCSUBW : JitFunc := cAlu .sub true
def jitCADDW : JitFunc := cAlu .add true

def jitCMV : JitFunc := fun em d =>
  if d.rd = 0 then some (keep em) else (em.emitRTo d.rd 0 (dCRs2 d.inst) .add false).map keep

def jitCADD : JitFunc := fun em d =>
  if d.rd = 0 then some (keep em) else (em.emitRTo d.rd d.rd (dCRs2 d.inst) .add false).map keep

def cLd (width : Nat) (sign : Bool) : JitFunc := fun em d =>
  (em.emitLoad (lowReg d) (highReg d) d.imm width sign).map keep

def cSt (width : Nat) : JitFunc := fun em d =>
  (em.emitStore (highReg d) d.imm (lowReg d) width).map keep

def jitCLW : JitFunc := cLd 4 true
def jitCLD : JitFunc := cLd 8 true
def jitCSW : JitFunc := cSt 4
def jitCSD : JitFunc := cSt 8

def cLdSp (width : Nat) (sign : Bool) : JitFunc := fun em d =>
  (em.emitLoad d.rd 2 d.imm width sign).map keep

def cStSp (width : Nat) : JitFunc := fun em d => (em.emitStore 2 d.imm (dCRs2 d.inst) width).map keep

def jitCLWSP : JitFunc := cLdSp 4 true
def jitCLDSP : JitFunc := cLdSp 8 true
def jitCSWSP : JitFunc := cStSp 4
def jitCSDSP : JitFunc := cStSp 8

def branchZero (cc : Cond) : JitFunc := fun em d =>
  em.emitCondExitZero (highReg d) cc d.imm em.instrBytes em.instrIndex

def jitCJ : JitFunc := fun em d => jump em 0 0 d.imm 2 false false
def jitCBEQZ : JitFunc := branchZero .e
def jitCBNEZ : JitFunc := branchZero .ne
def jitCJR : JitFunc := fun em d => jump em 0 d.rd 0 2 false true
def jitCJALR : JitFunc := fun em d => jump em 1 d.rd 0 2 false true

end Rv64Vm.Jit
