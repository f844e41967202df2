import Rv64Vm.Isa.Data

/-! # RV64I handlers

Handlers that differ only in an operation, a width or a condition are one
definition applied to it. The compressed handlers share the memory accesses.
-/

namespace Rv64Vm

def excInstAddrMisaligned : Nat := 0
def excBreakpoint : Nat := 3
def excEnvCallFromU : Nat := 8
def excEnvCallFromS : Nat := 9
def excEnvCallFromM : Nat := 11

/-- `(uint32_t)x` -/
def low (x : Word) : BitVec 32 := x.setWidth 32

/-- `(int64_t)(int32_t)x` -/
def sextW (x : BitVec 32) : Word := x.signExtend 64

def flag (b : Bool) : Word := if b then 1 else 0

/-! ## Register and immediate operations -/

def aluR (f : Word → Word → Word) : Handler := fun _ c i =>
  .ok ⟨{}, c.setGpr i.rd (f (c.gpr i.rs1) (c.gpr i.rs2))⟩

def aluI (f : Word → Word → Word) : Handler := fun _ c i =>
  .ok ⟨{}, c.setGpr i.rd (f (c.gpr i.rs1) i.imm)⟩

def execADDW : Handler := aluR fun a b => sextW (low a + low b)
def execSUBW : Handler := aluR fun a b => sextW (low a - low b)
def execSLLW : Handler := aluR fun a b => sextW (low a <<< (low b &&& 0x1F))
def execSRLW : Handler := aluR fun a b => sextW (low a >>> (low b &&& 0x1F))
def execSRAW : Handler := aluR fun a b => sextW ((low a).sshiftRight' (low b &&& 0x1F))

def execADDIW : Handler := aluI fun a imm => sextW (low ((low a).setWidth 64 + imm))
def execSLLIW : Handler := aluI fun a imm => sextW (low a <<< imm)
def execSRLIW : Handler := aluI fun a imm => sextW (low a >>> imm)
def execSRAIW : Handler := aluI fun a imm => sextW ((low a).sshiftRight' imm)

def execADD : Handler := aluR (· + ·)
def execSUB : Handler := aluR (· - ·)
def execXOR : Handler := aluR (· ^^^ ·)
def execOR : Handler := aluR (· ||| ·)
def execAND : Handler := aluR (· &&& ·)
def execSLL : Handler := aluR fun a b => a <<< (b &&& 0x3f)
def execSRL : Handler := aluR fun a b => a >>> (b &&& 0x3f)
def execSRA : Handler := aluR fun a b => a.sshiftRight' (b &&& 0x3f)
def execSLT : Handler := aluR fun a b => flag (a.slt b)
def execSLTU : Handler := aluR fun a b => flag (a.ult b)

def execADDI : Handler := aluI (· + ·)
def execXORI : Handler := aluI (· ^^^ ·)
def execORI : Handler := aluI (· ||| ·)
def execANDI : Handler := aluI (· &&& ·)
def execSLLI : Handler := aluI fun a imm => a <<< imm
def execSRLI : Handler := aluI fun a imm => a >>> imm
def execSRAI : Handler := aluI fun a imm => a.sshiftRight' imm
def execSLTI : Handler := aluI fun a imm => flag (a.slt imm)
def execSLTIU : Handler := aluI fun a imm => flag (a.ult imm)

def execLUI : Handler := fun _ c i => .ok ⟨{}, c.setGpr i.rd i.imm⟩
def execAUIPC : Handler := fun _ c i => .ok ⟨{}, c.setGpr i.rd (c.hart.pc + i.imm)⟩

/-! ## Loads and stores -/

/-- The `n`-byte variable a load reads into, converted to the register. -/
def widen (n : Nat) (signed : Bool) (v : Word) : Word :=
  if signed then (v.setWidth (8 * n)).signExtend 64 else (v.setWidth (8 * n)).setWidth 64

/-- A load's handler with its registers; `size` is the encoding's length. -/
def loadTo (n : Nat) (signed : Bool) (size : Word) (rd rs1 : BitVec 5) (imm : Word) (bus : Bus)
    (c : Core) : Except HostError Executed := do
  let a ← mmioRead bus c (c.gpr rs1 + imm) n
  let ret : ExecReturn := ⟨a.ret.isSuccess, false, size, a.ret.excCode, a.ret.tval⟩
  if a.ret.isSuccess then return ⟨ret, a.core.setGpr rd (widen n signed a.val)⟩
  else return ⟨ret, a.core⟩

def storeFrom (n : Nat) (size : Word) (rs1 rs2 : BitVec 5) (imm : Word) (bus : Bus) (c : Core) :
    Except HostError Executed := do
  let a ← mmioWrite bus c (c.gpr rs1 + imm) n (c.gpr rs2)
  return ⟨⟨a.ret.isSuccess, false, size, a.ret.excCode, a.ret.tval⟩, a.core⟩

def load (n : Nat) (signed : Bool) : Handler := fun bus c i =>
  loadTo n signed 4 i.rd i.rs1 i.imm bus c

def store (n : Nat) : Handler := fun bus c i => storeFrom n 4 i.rs1 i.rs2 i.imm bus c

def execLB : Handler := load 1 true
def execLH : Handler := load 2 true
def execLW : Handler := load 4 true
def execLD : Handler := load 8 false
def execLBU : Handler := load 1 false
def execLHU : Handler := load 2 false
def execLWU : Handler := load 4 false

def execSB : Handler := store 1
def execSH : Handler := store 2
def execSW : Handler := store 4
def execSD : Handler := store 8

/-! ## Control transfer -/

/-- `{ true, true, 0, 0, 0 }` -/
def jumped : ExecReturn := ⟨true, true, 0, 0, 0⟩

def branchIf (taken : Word → Word → Bool) : Handler := fun _ c i =>
  if taken (c.gpr i.rs1) (c.gpr i.rs2) then
    let target := c.hart.pc + i.imm
    if target % 2 ≠ 0 then .ok ⟨⟨false, false, 0, excInstAddrMisaligned, target⟩, c⟩
    else .ok ⟨jumped, c.setPc target⟩
  else .ok ⟨{}, c⟩

def execBEQ : Handler := branchIf fun a b => a == b
def execBNE : Handler := branchIf fun a b => a != b
def execBLT : Handler := branchIf fun a b => a.slt b
def execBGE : Handler := branchIf fun a b => !a.slt b
def execBLTU : Handler := branchIf fun a b => a.ult b
def execBGEU : Handler := branchIf fun a b => !a.ult b

/-- Set `pc` and then the link register. -/
def linkTo (c : Core) (rd : BitVec 5) (target link : Word) : Executed :=
  ⟨jumped, (c.setPc target).setGpr rd link⟩

def execJAL : Handler := fun _ c i =>
  let target := c.hart.pc + i.imm
  if target % 2 ≠ 0 then .ok ⟨⟨false, true, 0, excInstAddrMisaligned, target⟩, c⟩
  else .ok (linkTo c i.rd target (c.hart.pc + 4))

def execJALR : Handler := fun _ c i =>
  let target := (c.gpr i.rs1 + i.imm) &&& ~~~1
  if target % 2 ≠ 0 then .ok ⟨⟨false, true, 0, excInstAddrMisaligned, target⟩, c⟩
  else .ok (linkTo c i.rd target (c.hart.pc + 4))

def execECALL : Handler := fun _ c _ =>
  match c.hart.mode with
  | .machine => .ok ⟨⟨false, true, 0, excEnvCallFromM, 0⟩, c⟩
  | .supervisor => .ok ⟨⟨false, true, 0, excEnvCallFromS, 0⟩, c⟩
  | .user => .ok ⟨⟨false, true, 0, excEnvCallFromU, 0⟩, c⟩
  | .hypervisor => .ok ⟨{}, c⟩

def execEBREAK : Handler := fun _ c _ => .ok ⟨⟨false, true, 0, excBreakpoint, c.hart.pc⟩, c⟩

def execFENCE : Handler := fun _ c _ => .ok ⟨{}, c⟩

end Rv64Vm
