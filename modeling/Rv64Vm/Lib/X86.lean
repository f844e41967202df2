import Mathlib.Algebra.Group.Int.Defs
import Mathlib.Algebra.Group.Nat.Defs
import Mathlib.Logic.Function.Basic
import Mathlib.Tactic.Common

/-! # A fragment of x86-64 for generated code

Straight-line code with forward jumps, over an arbitrary memory `μ`. A code
sequence is a list of instructions and label marks; a jump leaves the list in the
mode `seeking`, which skips items up to its label, so running a sequence is a
fold and running a concatenation is running its parts one after the other.

Memory is reached only through the two partial functions of `Memory`; a failing
access, an undefined flag that is read, and a divide error all end in `stuck`.
The stack holds the words pushed by the code itself.
-/

namespace Rv64Vm.Lib.X86

abbrev Quad := BitVec 64

inductive Reg where
  | rax | rcx | rdx | rbx | rsp | rbp | rsi | rdi
  | r8 | r9 | r10 | r11 | r12 | r13 | r14 | r15
  deriving DecidableEq, Repr

structure Flags where
  zf : Bool
  sf : Bool
  cf : Bool
  ovf : Bool
  deriving DecidableEq, Repr

/-- The conditions of `jcc` and `setcc`, named as their mnemonics. -/
inductive Cond where
  | b | ae | e | ne | s | ns | l | ge
  deriving DecidableEq, Repr

def Cond.eval : Cond → Flags → Bool
  | .b, f => f.cf
  | .ae, f => !f.cf
  | .e, f => f.zf
  | .ne, f => !f.zf
  | .s, f => f.sf
  | .ns, f => !f.sf
  | .l, f => f.sf != f.ovf
  | .ge, f => f.sf == f.ovf

/-- Flipping the low bit of the condition code. -/
def Cond.invert : Cond → Cond
  | .b => .ae
  | .ae => .b
  | .e => .ne
  | .ne => .e
  | .s => .ns
  | .ns => .s
  | .l => .ge
  | .ge => .l

inductive Arith where
  | add | or | and | sub | xor | cmp
  deriving DecidableEq, Repr

inductive Shift where
  | shl | shr | sar
  deriving DecidableEq, Repr

/-- How a narrow memory operand is widened to 64 bits. -/
inductive Extend where
  | zero | sign
  deriving DecidableEq, Repr

abbrev Label := Nat

/-- Instructions, with `bytes` the width of a memory operand and `short` the rel8
    form of a jump. Immediates and displacements are already sign-extended;
    `movImm` is the imm32 form, `movAbs` the imm64 form. -/
inductive Instr where
  | mov (dst src : Reg)
  | mov32 (dst src : Reg)
  | movsxd (dst src : Reg)
  | movzx8 (dst src : Reg)
  | movImm (dst : Reg) (imm : Quad)
  | movAbs (dst : Reg) (imm : Quad)
  | load (bytes : Nat) (ext : Extend) (dst base : Reg) (disp : Quad)
  | store (bytes : Nat) (base : Reg) (disp : Quad) (src : Reg)
  | lea (dst base : Reg) (disp : Quad)
  | leaData (dst : Reg) (symbol : Nat)
  | push (r : Reg)
  | pop (r : Reg)
  | arith (op : Arith) (dst src : Reg)
  | arithImm (op : Arith) (dst : Reg) (imm : Quad)
  | arithImm32 (op : Arith) (dst : Reg) (imm : BitVec 32)
  | arithMem (op : Arith) (dst base : Reg) (disp : Quad)
  | subMemImm (base : Reg) (disp : Quad) (imm : Quad)
  | cmpMem16 (base : Reg) (disp : Quad) (src : Reg)
  | test (a b : Reg)
  | testImm (a : Reg) (imm : Quad)
  | testMem8 (base : Reg) (disp : Quad) (imm : BitVec 8)
  | neg (dst : Reg)
  | neg32 (dst : Reg)
  | shift (op : Shift) (dst : Reg) (count : Nat)
  | shift32 (op : Shift) (dst : Reg) (count : Nat)
  | shiftCl (op : Shift) (dst : Reg)
  | shiftCl32 (op : Shift) (dst : Reg)
  | setcc (cc : Cond) (dst : Reg)
  | mul (src : Reg)
  | imul (src : Reg)
  | imulRR (dst src : Reg)
  | imulRR32 (dst src : Reg)
  | div (src : Reg)
  | div32 (src : Reg)
  | idiv (src : Reg)
  | idiv32 (src : Reg)
  | cqo
  | cdq
  | jcc (short : Bool) (cc : Cond) (target : Label)
  | jmp (short : Bool) (target : Label)
  | jmpReg (r : Reg)
  | ret
  | mark (l : Label)
  deriving DecidableEq, Repr

structure Memory (μ : Type) where
  load : μ → Nat → Quad → Option Quad
  store : μ → Nat → Quad → Quad → Option μ

structure State (μ : Type) where
  regs : Reg → Quad
  flags : Option Flags
  stack : List Quad
  mem : μ

/-- How control leaves the sequence: through a register, or by returning. -/
inductive Exit where
  | jump (target : Quad)
  | ret
  deriving DecidableEq, Repr

inductive Mode where
  | running
  | seeking (l : Label)
  | left (e : Exit)
  | stuck
  deriving DecidableEq, Repr

structure Config (μ : Type) where
  mode : Mode
  state : State μ

/-- What the code is run against: the memory and the addresses of its data symbols. -/
structure Env (μ : Type) where
  memory : Memory μ
  symbol : Nat → Quad

/-! ## Values and flags -/

section Values

variable {w : Nat}

def logicFlags (r : BitVec w) : Flags := ⟨r == 0, r.msb, false, false⟩

def subFlags (a b : BitVec w) : Flags :=
  ⟨a == b, (a - b).msb, a.ult b, a.msb != b.msb && (a - b).msb != a.msb⟩

def addFlags (a b : BitVec w) : Flags :=
  ⟨a + b == 0, (a + b).msb, (a + b).ult a, a.msb == b.msb && (a + b).msb != a.msb⟩

def Arith.value : Arith → BitVec w → BitVec w → BitVec w
  | .add, a, b => a + b
  | .or, a, b => a ||| b
  | .and, a, b => a &&& b
  | .sub, a, b => a - b
  | .xor, a, b => a ^^^ b
  -- a comparison only sets flags
  | .cmp, a, _ => a

def Arith.flags : Arith → BitVec w → BitVec w → Flags
  | .add, a, b => addFlags a b
  | .sub, a, b | .cmp, a, b => subFlags a b
  | .or, a, b => logicFlags (a ||| b)
  | .and, a, b => logicFlags (a &&& b)
  | .xor, a, b => logicFlags (a ^^^ b)

def Shift.value : Shift → BitVec w → Nat → BitVec w
  | .shl, a, n => a <<< n
  | .shr, a, n => a >>> n
  | .sar, a, n => a.sshiftRight n

def Extend.value (bytes : Nat) : Extend → Quad → Quad
  | .zero, v => v
  | .sign, v => (v.setWidth (8 * bytes)).signExtend 64

/-- Quotient and remainder of an unsigned double-width division; `none` is `#DE`. -/
def divide (hi lo d : BitVec w) : Option (BitVec w × BitVec w) :=
  let n := hi.toNat * 2 ^ w + lo.toNat
  if d = 0 ∨ 2 ^ w ≤ n / d.toNat then none
  else some (BitVec.ofNat w (n / d.toNat), BitVec.ofNat w (n % d.toNat))

/-- The signed form, truncating towards zero. -/
def divideSigned (hi lo d : BitVec w) : Option (BitVec w × BitVec w) :=
  let n := hi.toInt * 2 ^ w + lo.toNat
  let q := n.tdiv d.toInt
  if d = 0 ∨ q < -(2 ^ (w - 1)) ∨ 2 ^ (w - 1) ≤ q then none
  else some (BitVec.ofInt w q, BitVec.ofInt w (n.tmod d.toInt))

end Values

/-! ## Execution -/

section Execution

variable {μ : Type}

namespace State

variable (s : State μ)

def setReg (r : Reg) (v : Quad) : State μ :=
  { s with regs := Function.update s.regs r v }

/-- Writing a 32-bit register clears the upper half. -/
def setReg32 (r : Reg) (v : BitVec 32) : State μ := s.setReg r (v.setWidth 64)

def setFlags (f : Flags) : State μ := { s with flags := some f }

/-- The instruction leaves some flag undefined. -/
def dropFlags : State μ := { s with flags := none }

def setMem (m : μ) : State μ := { s with mem := m }

def low (r : Reg) : BitVec 32 := (s.regs r).setWidth 32

end State

def run (s : State μ) : Option (Config μ) := some ⟨.running, s⟩

/-- One instruction, executed. -/
def Instr.exec (E : Env μ) (s : State μ) : Instr → Option (Config μ)
  | .mov d r => run (s.setReg d (s.regs r))
  | .mov32 d r => run (s.setReg32 d (s.low r))
  | .movsxd d r => run (s.setReg d ((s.low r).signExtend 64))
  | .movzx8 d r => run (s.setReg d (((s.regs r).setWidth 8).setWidth 64))
  | .movImm d imm | .movAbs d imm => run (s.setReg d imm)
  | .load bytes ext d base disp =>
    (E.memory.load s.mem bytes (s.regs base + disp)).bind fun v =>
      run (s.setReg d (ext.value bytes v))
  | .store bytes base disp r =>
    (E.memory.store s.mem bytes (s.regs base + disp) (s.regs r)).bind fun m => run (s.setMem m)
  | .lea d base disp => run (s.setReg d (s.regs base + disp))
  | .leaData d symbol => run (s.setReg d (E.symbol symbol))
  | .push r => run { s.setReg .rsp (s.regs .rsp - 8) with stack := s.regs r :: s.stack }
  | .pop r =>
    match s.stack with
    | [] => none
    | v :: rest => run { (s.setReg .rsp (s.regs .rsp + 8)).setReg r v with stack := rest }
  | .arith op d r =>
    run ((s.setReg d (op.value (s.regs d) (s.regs r))).setFlags (op.flags (s.regs d) (s.regs r)))
  | .arithImm op d imm =>
    run ((s.setReg d (op.value (s.regs d) imm)).setFlags (op.flags (s.regs d) imm))
  | .arithImm32 op d imm =>
    -- a 32-bit comparison writes nothing, so the upper half stays
    if op = .cmp then run (s.setFlags (op.flags (s.low d) imm))
    else run ((s.setReg32 d (op.value (s.low d) imm)).setFlags (op.flags (s.low d) imm))
  | .arithMem op d base disp =>
    (E.memory.load s.mem 8 (s.regs base + disp)).bind fun v =>
      run ((s.setReg d (op.value (s.regs d) v)).setFlags (op.flags (s.regs d) v))
  | .subMemImm base disp imm =>
    (E.memory.load s.mem 8 (s.regs base + disp)).bind fun v =>
      (E.memory.store s.mem 8 (s.regs base + disp) (v - imm)).bind fun m =>
        run ((s.setMem m).setFlags (subFlags v imm))
  | .cmpMem16 base disp r =>
    (E.memory.load s.mem 2 (s.regs base + disp)).bind fun v =>
      run (s.setFlags (subFlags (v.setWidth 16) ((s.regs r).setWidth 16)))
  | .test a b => run (s.setFlags (logicFlags (s.regs a &&& s.regs b)))
  | .testImm a imm => run (s.setFlags (logicFlags (s.regs a &&& imm)))
  | .testMem8 base disp imm =>
    (E.memory.load s.mem 1 (s.regs base + disp)).bind fun v =>
      run (s.setFlags (logicFlags (v.setWidth 8 &&& imm)))
  | .neg d => run ((s.setReg d (-s.regs d)).setFlags (subFlags 0 (s.regs d)))
  | .neg32 d => run ((s.setReg32 d (-s.low d)).setFlags (subFlags 0 (s.low d)))
  -- the count is taken modulo the operand size, and a zero count keeps the flags
  | .shift op d n => run (s.setReg d (op.value (s.regs d) (n % 64))).dropFlags
  | .shift32 op d n => run (s.setReg32 d (op.value (s.low d) (n % 32))).dropFlags
  | .shiftCl op d => run (s.setReg d (op.value (s.regs d) ((s.regs .rcx).toNat % 64))).dropFlags
  | .shiftCl32 op d =>
    run (s.setReg32 d (op.value (s.low d) ((s.regs .rcx).toNat % 32))).dropFlags
  | .setcc cc d =>
    s.flags.bind fun f =>
      -- only the low byte of the register is written
      run (s.setReg d (s.regs d &&& ~~~255#64 ||| if cc.eval f then 1#64 else 0#64))
  | .mul r =>
    let p := (s.regs .rax).setWidth 128 * (s.regs r).setWidth 128
    run ((s.setReg .rax (p.setWidth 64)).setReg .rdx (p.extractLsb' 64 64)).dropFlags
  | .imul r =>
    let p := (s.regs .rax).signExtend 128 * (s.regs r).signExtend 128
    run ((s.setReg .rax (p.setWidth 64)).setReg .rdx (p.extractLsb' 64 64)).dropFlags
  | .imulRR d r => run (s.setReg d (s.regs d * s.regs r)).dropFlags
  | .imulRR32 d r => run (s.setReg32 d (s.low d * s.low r)).dropFlags
  | .div r =>
    (divide (s.regs .rdx) (s.regs .rax) (s.regs r)).bind fun (q, m) =>
      run ((s.setReg .rax q).setReg .rdx m).dropFlags
  | .div32 r =>
    (divide (s.low .rdx) (s.low .rax) (s.low r)).bind fun (q, m) =>
      run ((s.setReg32 .rax q).setReg32 .rdx m).dropFlags
  | .idiv r =>
    (divideSigned (s.regs .rdx) (s.regs .rax) (s.regs r)).bind fun (q, m) =>
      run ((s.setReg .rax q).setReg .rdx m).dropFlags
  | .idiv32 r =>
    (divideSigned (s.low .rdx) (s.low .rax) (s.low r)).bind fun (q, m) =>
      run ((s.setReg32 .rax q).setReg32 .rdx m).dropFlags
  | .cqo => run (s.setReg .rdx (if (s.regs .rax).msb then -1 else 0))
  | .cdq => run (s.setReg32 .rdx (if (s.low .rax).msb then -1 else 0))
  | .jcc _ cc target =>
    s.flags.bind fun f => some ⟨if cc.eval f then .seeking target else .running, s⟩
  | .jmp _ target => some ⟨.seeking target, s⟩
  | .jmpReg r => some ⟨.left (.jump (s.regs r)), s⟩
  | .ret => some ⟨.left .ret, s⟩
  | .mark _ => run s

/-- One item of the sequence. -/
def Config.step (E : Env μ) (c : Config μ) (i : Instr) : Config μ :=
  match c.mode with
  | .running => (i.exec E c.state).getD { c with mode := .stuck }
  | .seeking l => if i = .mark l then { c with mode := .running } else c
  | .left _ | .stuck => c

/-- Run a sequence from its first item on. -/
def exec (E : Env μ) (code : List Instr) (c : Config μ) : Config μ := code.foldl (Config.step E) c

end Execution

end Rv64Vm.Lib.X86
