import Rv64Vm.Isa.Rv64f

/-! # RV64C handlers

Register fields of three bits name `x8` to `x15`; every handler steps `pc` by 2.
-/

namespace Rv64Vm

/-- `{ true, false, 2, 0, 0 }` -/
def retired2 : ExecReturn := { increasePc := 2 }

/-- Write one register and step by 2. -/
def writeC (rd : BitVec 5) (v : Word) (c : Core) : Except HostError Executed :=
  .ok ⟨retired2, c.setGpr rd v⟩

/-- `rd'` in bits 9..7: `8 + (inst.rd & 0x7)`. -/
def InstructionData.rdC (i : InstructionData) : BitVec 5 := 8 + (i.rd &&& 0x7)

/-- `8 + d_c_rd(inst)`, the register in bits 4..2. -/
def InstructionData.lowC (i : InstructionData) : BitVec 5 := compactReg (dCRd i.inst)

/-- `8 + d_c_rs1(inst)`, the register in bits 9..7. -/
def InstructionData.highC (i : InstructionData) : BitVec 5 := compactReg (dCRs1 i.inst)

def execCADDI4SPN : Handler := fun _ c i => writeC i.lowC (c.gpr 2 + i.imm) c

def execCLW : Handler := fun bus c i => loadTo 4 true 2 i.lowC i.highC i.imm bus c
def execCLD : Handler := fun bus c i => loadTo 8 false 2 i.lowC i.highC i.imm bus c
def execCSW : Handler := fun bus c i => storeFrom 4 2 i.highC i.lowC i.imm bus c
def execCSD : Handler := fun bus c i => storeFrom 8 2 i.highC i.lowC i.imm bus c

def execCFLD : Handler := fun bus c i => fpLoadTo 8 id 2 i.lowC i.highC i.imm bus c
def execCFSD : Handler := fun bus c i => fpStoreFrom 8 2 i.highC i.lowC i.imm bus c

def execCNOP : Handler := fun _ c _ => .ok ⟨retired2, c⟩

def execCADDI : Handler := fun _ c i => writeC i.rd (c.gpr i.rd + i.imm) c
def execCADDIW : Handler := fun _ c i => writeC i.rd (sextW (low (c.gpr i.rd + i.imm))) c
def execCLI : Handler := fun _ c i => writeC i.rd i.imm c

-- rd = 2 is C.ADDI16SP, whose immediate is not the decoded one
def execCLUIADDI16SP : Handler := fun _ c i =>
  if i.rd = 2 then writeC 2 (c.gpr 2 + sext (low (dCNzimm9 i.inst)) 10) c
  else writeC i.rd (i.imm <<< 12) c

/-- Indexes with the whole `rd` field; from 24 on that leaves the register file. -/
def execCSRLI : Handler := fun _ c i =>
  if i.rd.toNat < 24 then writeC (8 + i.rd) (c.gpr (8 + i.rd) >>> i.imm) c
  else .error .undefinedBehaviour

def execCSRAI : Handler := fun _ c i => writeC i.rdC ((c.gpr i.rdC).sshiftRight' i.imm) c
def execCANDI : Handler := fun _ c i => writeC i.rdC (c.gpr i.rdC &&& sext (low i.imm) 6) c

def aluC (f : Word → Word → Word) : Handler := fun _ c i =>
  writeC i.rdC (f (c.gpr i.rdC) (c.gpr i.lowC)) c

def execCSUB : Handler := aluC (· - ·)
def execCXOR : Handler := aluC (· ^^^ ·)
def execCOR : Handler := aluC (· ||| ·)
def execCAND : Handler := aluC (· &&& ·)
def execCSUBW : Handler := aluC fun a b => sextW (low (a - b))
def execCADDW : Handler := aluC fun a b => sextW (low (a + b))

/-- `hart.pc += (int32_t)inst.imm` -/
def jumpC (c : Core) (i : InstructionData) : Executed := ⟨jumped, c.setPc (c.hart.pc + sextW (low i.imm))⟩

def execCJ : Handler := fun _ c i => .ok (jumpC c i)

def branchC (taken : Word → Bool) : Handler := fun _ c i =>
  if taken (c.gpr i.rdC) then .ok (jumpC c i) else .ok ⟨retired2, c⟩

def execCBEQZ : Handler := branchC (· == 0)
def execCBNEZ : Handler := branchC (· != 0)

def execCSLLI : Handler := fun _ c i => writeC i.rd (c.gpr i.rd <<< i.imm) c

def execCLWSP : Handler := fun bus c i => loadTo 4 true 2 i.rd 2 i.imm bus c
def execCLDSP : Handler := fun bus c i => loadTo 8 false 2 i.rd 2 i.imm bus c
def execCSWSP : Handler := fun bus c i => storeFrom 4 2 2 (dCRs2 i.inst) i.imm bus c
def execCSDSP : Handler := fun bus c i => storeFrom 8 2 2 (dCRs2 i.inst) i.imm bus c

def execCFLDSP : Handler := fun bus c i => fpLoadTo 8 id 2 i.rd 2 i.imm bus c
def execCFSDSP : Handler := fun bus c i => fpStoreFrom 8 2 2 (dCRs2 i.inst) i.imm bus c

def execCJR : Handler := fun _ c i => .ok ⟨jumped, c.setPc (c.gpr i.rd &&& ~~~1)⟩

def execCMV : Handler := fun _ c i => writeC i.rd (c.gpr (dCRs2 i.inst)) c

def execCEBREAK : Handler := fun _ c _ => .ok ⟨⟨false, true, 0, excBreakpoint, c.hart.pc⟩, c⟩

-- the target is read before x1 is written
def execCJALR : Handler := fun _ c i => .ok (linkTo c 1 (c.gpr i.rd &&& ~~~1) (c.hart.pc + 2))

def execCADD : Handler := fun _ c i => writeC i.rd (c.gpr i.rd + c.gpr (dCRs2 i.inst)) c

end Rv64Vm
