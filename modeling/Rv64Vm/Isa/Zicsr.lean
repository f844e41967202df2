import Rv64Vm.Isa.Rv64i

/-! # Zicsr handlers

`csr_accessible` and `counter_enabled` guard all six. They read and write the
register through `csr_read` and `csr_write`, which may trap on their own and
return to the handler.
-/

namespace Rv64Vm

namespace Csr

def scounteren : BitVec 12 := 0x106
def mcounteren : BitVec 12 := 0x306
def scountovf : BitVec 12 := 0xDA0
def sstateen0 : BitVec 12 := 0x10C
def sstateen3 : BitVec 12 := 0x10F
def mstateen0 : BitVec 12 := 0x30C
def mstateen3 : BitVec 12 := 0x30F
def mtopi : BitVec 12 := 0xFB0
def tselect : BitVec 12 := 0x7A0
def tdata1 : BitVec 12 := 0x7A1
def tdata3 : BitVec 12 := 0x7A3
def mcyclecfg : BitVec 12 := 0x321

end Csr

def compatibleMode (csrLevel curMode : PrivilegeMode) : Bool :=
  match csrLevel with
  | .machine => curMode == .machine
  | .supervisor => curMode == .machine || curMode == .supervisor
  | .user => curMode == .machine || curMode == .supervisor || curMode == .user
  | .hypervisor => true

/-- The level that `csr_accessible` gives an address. -/
def csrLevel (csr : BitVec 12) : PrivilegeMode :=
  if csr ≤ 0x0FF then .user
  else if csr ≤ 0x1FF then .supervisor
  else if csr ≤ 0x2FF then .hypervisor
  else if csr ≤ 0x3FF then .machine
  else if 0xB00 ≤ csr ∧ csr ≤ 0xBFF then .machine
  else if 0xC00 ≤ csr ∧ csr ≤ 0xCFF then .user
  else if 0xF00 ≤ csr then .machine
  else .user

/-- The addresses listed as unimplemented. -/
def csrUnimplemented (csr : BitVec 12) : Bool :=
  csr == Csr.scountovf || (Csr.sstateen0 ≤ csr && csr ≤ Csr.sstateen3) ||
    (Csr.mstateen0 ≤ csr && csr ≤ Csr.mstateen3) || csr == Csr.mtopi || csr == Csr.tselect ||
    (Csr.tdata1 ≤ csr && csr ≤ Csr.tdata3) || csr == Csr.mcyclecfg || csr == Csr.minstret

-- `0xF15f` in the list is no 12-bit address
def csrReadOnly (csr : BitVec 12) : Bool :=
  csr == 0xF11 || csr == 0xF12 || csr == 0xF13 || csr == 0xF14 || (0xC00 ≤ csr && csr ≤ 0xC1F)

def csrAccessible (csr : BitVec 12) (mode : PrivilegeMode) (write : Bool) : Bool :=
  if !compatibleMode (csrLevel csr) mode then false
  else if csrUnimplemented csr then false
  else if csrReadOnly csr then !write
  else true

def counterEnabled (csr : BitVec 12) (h : Hart) : Bool :=
  if csr < 0xC00 ∨ 0xC1F < csr then true
  else
    let bit := (csr - 0xC00).toNat
    match h.mode with
    | .machine => true
    | .supervisor => (h.csrs Csr.mcounteren).getLsbD bit
    | .user => (h.csrs Csr.mcounteren).getLsbD bit && (h.csrs Csr.scounteren).getLsbD bit
    | .hypervisor => true

def Status.tvm (status : Word) : Bool := status.getLsbD 20

/-- The three tests in front of every access. -/
def csrAllowed (h : Hart) (csr : BitVec 12) (write : Bool) : Bool :=
  !(h.mode == .supervisor && Status.tvm h.status && csr == Csr.satp) && counterEnabled csr h &&
    csrAccessible csr h.mode write

/-- The CSR address: the twelve bits of `imm`. -/
def InstructionData.csr (i : InstructionData) : BitVec 12 := i.imm.setWidth 12

/-- The zero-extended `rs1` field. -/
def InstructionData.uimm (i : InstructionData) : Word := i.rs1.setWidth 64

/-- `{ false, false, 0, EXC_ILLEGAL_INSTRUCTION, inst.inst }` -/
def illegal (c : Core) (i : InstructionData) : Executed :=
  ⟨⟨false, false, 0, excIllegalInstruction, i.inst.setWidth 64⟩, c⟩

/-- `csr_read` on the hart of a core. -/
def Core.csrRead (c : Core) (csr : BitVec 12) : Word × Core :=
  let (v, h) := Rv64Vm.csrRead c.hart csr
  (v, { c with hart := h })

def execCSRRW : Handler := fun _ c i =>
  if !csrAllowed c.hart i.csr true then .ok (illegal c i)
  else
    let (init, c) := c.csrRead i.csr
    let c := csrWrite c i.csr (c.gpr i.rs1)
    .ok ⟨{}, if i.rd ≠ 0 then c.setGpr i.rd init else c⟩

/-- The read-modify-write forms; `mask` comes from `rs1` or its field. -/
def csrModify (mask : Core → InstructionData → Word) (f : Word → Word → Word) : Handler := fun _ c i =>
  if !csrAllowed c.hart i.csr (i.rs1 ≠ 0) then .ok (illegal c i)
  else
    let (init, c) := c.csrRead i.csr
    let c := if i.rs1 ≠ 0 then csrWrite c i.csr (f init (mask c i)) else c
    .ok ⟨{}, c.setGpr i.rd init⟩

def maskReg (c : Core) (i : InstructionData) : Word := c.gpr i.rs1
def maskImm (_ : Core) (i : InstructionData) : Word := i.uimm

def execCSRRS : Handler := csrModify maskReg (· ||| ·)
def execCSRRC : Handler := csrModify maskReg fun init mask => init &&& ~~~mask
def execCSRRSI : Handler := csrModify maskImm (· ||| ·)
def execCSRRCI : Handler := csrModify maskImm fun init mask => init &&& ~~~mask

-- checked as a write only if the field is not 0, but always written
def execCSRRWI : Handler := fun _ c i =>
  if !csrAllowed c.hart i.csr (i.rs1 ≠ 0) then .ok (illegal c i)
  else
    let c :=
      if i.rd ≠ 0 then
        let (v, c) := c.csrRead i.csr
        c.setGpr i.rd v
      else c
    .ok ⟨{}, csrWrite c i.csr i.uimm⟩

end Rv64Vm
