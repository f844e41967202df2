import Rv64Vm.Isa.Manual
import Rv64Vm.Mmio.Whole

/-! # RV64I in the manual

The integer instructions by their formats, their encodings, and what each of them does
to the registers, the program counter and memory. An access is an address, a width and a
value; it moves all of its bytes, or it traps.
-/

namespace Rv64Vm.Rv64i

/-- Two source registers. -/
inductive Register where
  | add | addw | sub | subw | xor | or | and | sll | sllw | srl | srlw | sra | sraw | slt | sltu
  deriving DecidableEq, Repr

/-- A source register and a 12-bit immediate. -/
inductive Immediate where
  | addi | addiw | xori | ori | andi | slti | sltiu
  deriving DecidableEq, Repr

inductive Shift where
  | slli | srli | srai
  deriving DecidableEq, Repr

inductive ShiftW where
  | slliw | srliw | sraiw
  deriving DecidableEq, Repr

inductive Load where
  | lb | lh | lw | ld | lbu | lhu | lwu
  deriving DecidableEq, Repr

inductive Store where
  | sb | sh | sw | sd
  deriving DecidableEq, Repr

inductive Branch where
  | beq | bne | blt | bge | bltu | bgeu
  deriving DecidableEq, Repr

inductive Instr where
  | register (op : Register)
  | immediate (op : Immediate)
  | shift (op : Shift)
  | shiftW (op : ShiftW)
  /-- A 32-bit shift with the reserved bit above its amount set. -/
  | reserved (op : ShiftW)
  | load (op : Load)
  | store (op : Store)
  | branch (op : Branch)
  | lui | auipc | jal | jalr
  deriving DecidableEq, Repr

/-! ## Encodings -/

section Encodings

open Encoding

def Register.encoding : Register → Encoding
  | .add => withFunct7 opReg 0b000 0b0000000
  | .addw => withFunct7 opReg32 0b000 0b0000000
  | .sub => withFunct7 opReg 0b000 0b0100000
  | .subw => withFunct7 opReg32 0b000 0b0100000
  | .xor => withFunct7 opReg 0b100 0b0000000
  | .or => withFunct7 opReg 0b110 0b0000000
  | .and => withFunct7 opReg 0b111 0b0000000
  | .sll => withFunct7 opReg 0b001 0b0000000
  | .sllw => withFunct7 opReg32 0b001 0b0000000
  | .srl => withFunct7 opReg 0b101 0b0000000
  | .srlw => withFunct7 opReg32 0b101 0b0000000
  | .sra => withFunct7 opReg 0b101 0b0100000
  | .sraw => withFunct7 opReg32 0b101 0b0100000
  | .slt => withFunct7 opReg 0b010 0b0000000
  | .sltu => withFunct7 opReg 0b011 0b0000000

def Immediate.encoding : Immediate → Encoding
  | .addi => minor opImm 0b000
  | .addiw => minor opImm32 0b000
  | .xori => minor opImm 0b100
  | .ori => minor opImm 0b110
  | .andi => minor opImm 0b111
  | .slti => minor opImm 0b010
  | .sltiu => minor opImm 0b011

def Shift.encoding : Shift → Encoding
  | .slli => withFunct6 opImm 0b001 0b000000
  | .srli => withFunct6 opImm 0b101 0b000000
  | .srai => withFunct6 opImm 0b101 0b010000

/-- `reserved` is the bit above the five of the amount. -/
def ShiftW.encoding (reserved : BitVec 1) : ShiftW → Encoding
  | .slliw => withFunct7 opImm32 0b001 (0b000000#6 ++ reserved)
  | .srliw => withFunct7 opImm32 0b101 (0b000000#6 ++ reserved)
  | .sraiw => withFunct7 opImm32 0b101 (0b010000#6 ++ reserved)

def Load.encoding : Load → Encoding
  | .lb => minor 0b0000011 0b000
  | .lh => minor 0b0000011 0b001
  | .lw => minor 0b0000011 0b010
  | .ld => minor 0b0000011 0b011
  | .lbu => minor 0b0000011 0b100
  | .lhu => minor 0b0000011 0b101
  | .lwu => minor 0b0000011 0b110

def Store.encoding : Store → Encoding
  | .sb => minor 0b0100011 0b000
  | .sh => minor 0b0100011 0b001
  | .sw => minor 0b0100011 0b010
  | .sd => minor 0b0100011 0b011

def Branch.encoding : Branch → Encoding
  | .beq => minor 0b1100011 0b000
  | .bne => minor 0b1100011 0b001
  | .blt => minor 0b1100011 0b100
  | .bge => minor 0b1100011 0b101
  | .bltu => minor 0b1100011 0b110
  | .bgeu => minor 0b1100011 0b111

def Instr.encoding : Instr → Encoding
  | .register op => op.encoding
  | .immediate op => op.encoding
  | .shift op => op.encoding
  | .shiftW op => op.encoding 0
  | .reserved op => op.encoding 1
  | .load op => op.encoding
  | .store op => op.encoding
  | .branch op => op.encoding
  | .lui => major 0b0110111
  | .auipc => major 0b0010111
  | .jal => major 0b1101111
  | .jalr => minor 0b1100111 0b000

end Encodings

/-! ## Immediates -/

section Immediates

variable (w : Inst)

def iImm : Word := (w.extractLsb' 20 12).signExtend 64
def sImm : Word := (w.extractLsb' 25 7 ++ w.extractLsb' 7 5).signExtend 64
def bImm : Word :=
  (w.extractLsb' 31 1 ++ w.extractLsb' 7 1 ++ w.extractLsb' 25 6 ++ w.extractLsb' 8 4 ++ 0#1).signExtend 64
def uImm : Word := (w.extractLsb' 12 20 ++ 0#12).signExtend 64
def jImm : Word :=
  (w.extractLsb' 31 1 ++ w.extractLsb' 12 8 ++ w.extractLsb' 20 1 ++ w.extractLsb' 21 10 ++ 0#1).signExtend 64

end Immediates

/-! ## Values -/

/-- The 32-bit result of a `W` instruction. -/
def word32 (x : BitVec 32) : Word := x.signExtend 64

def Register.value (a b : Word) : Register → Word
  | .add => a + b
  | .addw => word32 (a.extractLsb' 0 32 + b.extractLsb' 0 32)
  | .sub => a - b
  | .subw => word32 (a.extractLsb' 0 32 - b.extractLsb' 0 32)
  | .xor => a ^^^ b
  | .or => a ||| b
  | .and => a &&& b
  | .sll => a <<< shiftAmount b
  | .sllw => word32 (a.extractLsb' 0 32 <<< shiftAmountW b)
  | .srl => a >>> shiftAmount b
  | .srlw => word32 (a.extractLsb' 0 32 >>> shiftAmountW b)
  | .sra => a.sshiftRight (shiftAmount b)
  | .sraw => word32 ((a.extractLsb' 0 32).sshiftRight (shiftAmountW b))
  | .slt => if a.toInt < b.toInt then 1 else 0
  | .sltu => if a.toNat < b.toNat then 1 else 0

def Immediate.value (a imm : Word) : Immediate → Word
  | .addi => a + imm
  | .addiw => word32 ((a + imm).extractLsb' 0 32)
  | .xori => a ^^^ imm
  | .ori => a ||| imm
  | .andi => a &&& imm
  | .slti => if a.toInt < imm.toInt then 1 else 0
  | .sltiu => if a.toNat < imm.toNat then 1 else 0

def Shift.value (a : Word) (n : Nat) : Shift → Word
  | .slli => a <<< n
  | .srli => a >>> n
  | .srai => a.sshiftRight n

def ShiftW.value (a : Word) (n : Nat) : ShiftW → Word
  | .slliw => word32 (a.extractLsb' 0 32 <<< n)
  | .srliw => word32 (a.extractLsb' 0 32 >>> n)
  | .sraiw => word32 ((a.extractLsb' 0 32).sshiftRight n)

def Load.bytes : Load → Nat
  | .lb | .lbu => 1
  | .lh | .lhu => 2
  | .lw | .lwu => 4
  | .ld => 8

def Load.signed : Load → Bool
  | .lb | .lh | .lw | .ld => true
  | .lbu | .lhu | .lwu => false

/-- What a load makes of the bytes it reads. -/
def Load.value (v : Word) (op : Load) : Word :=
  let read := v.extractLsb' 0 (8 * op.bytes)
  if op.signed then read.signExtend 64 else read.setWidth 64

def Store.bytes : Store → Nat
  | .sb => 1
  | .sh => 2
  | .sw => 4
  | .sd => 8

def Branch.taken (a b : Word) : Branch → Bool
  | .beq => decide (a = b)
  | .bne => decide (a ≠ b)
  | .blt => decide (a.toInt < b.toInt)
  | .bge => decide (b.toInt ≤ a.toInt)
  | .bltu => decide (a.toNat < b.toNat)
  | .bgeu => decide (b.toNat ≤ a.toNat)

/-! ## Effects -/

/-- What an instruction does. -/
inductive Effect where
  /-- Write a register and go on with the next instruction. -/
  | write (rd : BitVec 5) (v : Word)
  /-- Read `n` bytes at `addr` and write what `value` makes of them. -/
  | load (rd : BitVec 5) (addr : Word) (n : Nat) (value : Word → Word)
  | store (addr : Word) (n : Nat) (v : Word)
  /-- Go to `target`; no instruction can start at an odd address. -/
  | goto (target : Word)
  | next
  | link (rd : BitVec 5) (v target : Word)
  | illegal (w : Inst)

/-- The effect of a word of `i`, with `x` the registers and `pc` its address. -/
def Instr.effect (x : BitVec 5 → Word) (pc : Word) (w : Inst) : Instr → Effect
  | .register op => .write (dRd w) (op.value (x (dRs1 w)) (x (dRs2 w)))
  | .immediate op => .write (dRd w) (op.value (x (dRs1 w)) (iImm w))
  | .shift op => .write (dRd w) (op.value (x (dRs1 w)) (w.extractLsb' 20 6).toNat)
  | .shiftW op => .write (dRd w) (op.value (x (dRs1 w)) (w.extractLsb' 20 5).toNat)
  | .reserved _ => .illegal w
  | .load op => .load (dRd w) (x (dRs1 w) + iImm w) op.bytes op.value
  | .store op => .store (x (dRs1 w) + sImm w) op.bytes (x (dRs2 w))
  | .branch op => if op.taken (x (dRs1 w)) (x (dRs2 w)) then .goto (pc + bImm w) else .next
  | .lui => .write (dRd w) (uImm w)
  | .auipc => .write (dRd w) (pc + uImm w)
  | .jal => .link (dRd w) (pc + 4) (pc + jImm w)
  | .jalr => .link (dRd w) (pc + 4) ((x (dRs1 w) + iImm w) &&& ~~~1)

/-- How an instruction ends. -/
inductive Step where
  | retired (c : Core)
  | trapped (cause : Nat) (tval : Word) (c : Core)

/-- The registers as an instruction reads them. -/
def registers (c : Core) (r : BitVec 5) : Word := if r = 0 then 0 else c.gpr r

/-- A write to `x0` has no effect. -/
def writeRegister (c : Core) (rd : BitVec 5) (v : Word) : Core := if rd = 0 then c else c.setGpr rd v

def jumpTo (c : Core) (target : Word) : Step :=
  if target % 2 ≠ 0 then .trapped excInstAddrMisaligned target c else .retired (c.setPc target)

/-- What answers the accesses of a program. -/
structure Memory where
  read : Core → Word → Nat → Except HostError Access
  write : Core → Word → Nat → Word → Except HostError Access

/-- The memory of the manual. -/
def bytewise (bus : Bus) : Memory := ⟨wholeRead bus, wholeWrite bus⟩

/-- The memory of the machine. -/
def machine (bus : Bus) : Memory := ⟨mmioRead bus, mmioWrite bus⟩

/-- Carrying an effect out at `c`. -/
def Effect.apply (memory : Memory) (c : Core) : Effect → Except HostError Step
  | .write rd v => .ok (.retired ((writeRegister c rd v).setPc (c.hart.pc + 4)))
  | .load rd addr n value => do
      let a ← memory.read c addr n
      if a.ret.isSuccess then return .retired ((writeRegister a.core rd (value a.val)).setPc (a.core.hart.pc + 4))
      else return .trapped a.ret.excCode a.ret.tval a.core
  | .store addr n v => do
      let a ← memory.write c addr n v
      if a.ret.isSuccess then return .retired (a.core.setPc (a.core.hart.pc + 4))
      else return .trapped a.ret.excCode a.ret.tval a.core
  | .goto target => .ok (jumpTo c target)
  | .next => .ok (.retired (c.setPc (c.hart.pc + 4)))
  | .link rd v target =>
    match jumpTo c target with
    | .retired c => .ok (.retired (writeRegister c rd v))
    | trapped => .ok trapped
  | .illegal w => .ok (.trapped excIllegalInstruction (w.setWidth 64) c)

section Apply

variable (memory : Memory) (c : Core)

theorem Effect.apply_load (rd : BitVec 5) (addr : Word) (n : Nat) (value : Word → Word) :
    (Effect.load rd addr n value).apply memory c = memory.read c addr n >>= fun a =>
      if a.ret.isSuccess then pure (.retired ((writeRegister a.core rd (value a.val)).setPc (a.core.hart.pc + 4)))
      else pure (.trapped a.ret.excCode a.ret.tval a.core) := rfl

theorem Effect.apply_store (addr : Word) (n : Nat) (v : Word) :
    (Effect.store addr n v).apply memory c = memory.write c addr n v >>= fun a =>
      if a.ret.isSuccess then pure (.retired (a.core.setPc (a.core.hart.pc + 4)))
      else pure (.trapped a.ret.excCode a.ret.tval a.core) := rfl

theorem Effect.apply_goto (target : Word) : (Effect.goto target).apply memory c = .ok (jumpTo c target) := rfl

end Apply

/-! ## Runs of a word

The interpreter loops keep `x0` at 0 by clearing it before each instruction, so two
states that differ in it only are the same to the program.
-/

def Step.clearX0 : Step → Step
  | .retired c => .retired (c.clearX0)
  | .trapped cause tval c => .trapped cause tval (c.clearX0)

/-- What the interpreter makes of a handler's result. -/
def outcome (e : Executed) : Step :=
  if e.ret.isSuccess then .retired (e.core.setPc (e.core.hart.pc + e.ret.increasePc))
  else .trapped e.ret.cause e.ret.tval e.core

/-- Decoding a word and running its handler. -/
def runWord (bus : Bus) (c : Core) (w : Inst) : Except HostError Step :=
  (execWord bus c.clearX0 w).map fun e => (outcome e).clearX0

def Instr.runOn (memory : Memory) (c : Core) (w : Inst) (i : Instr) : Except HostError Step :=
  ((i.effect (registers c) c.hart.pc w).apply memory c.clearX0).map Step.clearX0

/-- Running a word as the manual has it. -/
def Instr.run (bus : Bus) (c : Core) (w : Inst) (i : Instr) : Except HostError Step := i.runOn (bytewise bus) c w

end Rv64Vm.Rv64i
