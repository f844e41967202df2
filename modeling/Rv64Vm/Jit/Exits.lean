import Rv64Vm.Jit.Templates
import Rv64Vm.Jit.TlbCheck

/-! # Memory operations, exits and stubs

The remaining parts of `JIT_Emitter`: loads and stores around the inline TLB
check, the ways out of a block, and the stubs appended after its last
instruction. Patching several sites to one position is placing their marks there.
-/

namespace Rv64Vm.Jit

open Lib X86

/-- `RVJIT_MAX_INSTRUCTIONS` -/
def maxInstructions : Nat := 128

/-- The policy that is baked into a block. -/
structure Policy where
  effMode : Nat
  mxr : Bool
  sum : Bool

/-- Reload `exit_pc`'s base: the pc at which the block was entered. -/
def loadEntry (d : Reg) (delta : Word) : List Instr :=
  [.load 8 .zero d regCtx (BitVec.ofNat 64 ctxOffEntry), .arithImm .add d (imm32 delta)]

/-- The code of `emit_chain_tail`, with RAX the exit pc and its five jumps from `n` on. -/
def chainTailCode (n : Label) (dataIdx count : Nat) : List Instr :=
  [.store 8 regCtx (BitVec.ofNat 64 ctxOffExit) .rax,
    .store 8 regCtx (BitVec.ofNat 64 ctxOffEntry) .rax,
    .subMemImm regCtx (BitVec.ofNat 64 ctxOffChainBudget) (BitVec.ofNat 64 count),
    .jcc false .s n,
    .leaData .r15 dataIdx,
    .load 8 .zero .r11 .r15 0, .test .r11 .r11, .jcc false .e (n + 1),
    .arithMem .cmp .rax .r15 8, .jcc false .ne (n + 2),
    .load 8 .zero .rdx regCtx (BitVec.ofNat 64 ctxOffChainEpoch),
    .arithMem .cmp .rdx .r15 16, .jcc false .ne (n + 3),
    .load 8 .zero .r10 regCtx (BitVec.ofNat 64 ctxOffChainMode),
    .arithMem .cmp .r10 .r15 24, .jcc false .ne (n + 4),
    .jmpReg .r11]

def superblockMax : Nat := maxExits - 2

namespace Emitter

variable (em : Emitter)

/-- `emit_chain_tail`; more exits than slots is a trap. -/
def emitChainTail (count : Nat) : Option Emitter :=
  if em.exits.length < maxExits then
    let n := em.sites
    let link : ExitLink := ⟨n, [n + 1, n + 2, n + 3, n + 4]⟩
    some { em.emitSites 5 (chainTailCode n em.exits.length count) with exits := em.exits ++ [link] }
  else none

def emitBlockExitRax (count : Nat) : Option Emitter := em.flushAll.emitChainTail count

def emitBlockExit (delta count : Nat) : Option Emitter :=
  (em.flushAll.emit (loadEntry .rax (BitVec.ofNat 64 delta))).emitChainTail count

/-- `test_imm(RAX, 1)` and the jump to the miss stub. -/
def emitAlignCheck (checkAlign : Bool) (instr : Nat) : Emitter :=
  if checkAlign then (em.emit [.testImm .rax 1]).missJump .ne instr else em

/-- What `emit_cond_exit` and `emit_cond_exit_zero` do once the flags are set. -/
def emitTaken (cc : Cond) (imm : Word) (off size countBefore : Nat) (checkAlign : Bool) :
    Option (Emitter × Bool) := do
  let target := BitVec.ofNat 64 off + imm
  if em.nSuper < superblockMax ∧ em.eof = false then
    -- the fall-through stays inline, the taken side is a chain exit
    let (em, skip) := em.jcc false cc.invert
    let em := (em.emit (loadEntry .rax target)).emitAlignCheck checkAlign countBefore
    let em ← em.emitChainTail (countBefore + 1)
    let em := em.patch skip
    return ({ em with nSuper := em.nSuper + 1 }, true)
  else
    let (em, takenRel) := em.jcc false cc
    let em ← em.emitBlockExit (off + size) (countBefore + 1)
    let em := em.patch takenRel
    let em := (em.emit (loadEntry .rax target)).emitAlignCheck checkAlign countBefore
    let em ← em.emitBlockExitRax (countBefore + 1)
    return ({ em with exited := true }, false)

def emitCondExit (rs1 rs2 : GuestReg) (cc : Cond) (imm : Word)
    (off size countBefore : Nat) (checkAlign : Bool) : Option (Emitter × Bool) := do
  let (em, S1) ← em.hregForRead rs1 none
  let (em, S2) ← if rs2 = rs1 then some (em, S1) else em.hregForRead rs2 (some rs1)
  let em := em.flushAll.emit [.arith .cmp S1 S2]
  em.emitTaken cc imm off size countBefore checkAlign

def emitCondExitZero (rs : GuestReg) (cc : Cond) (imm : Word) (off countBefore : Nat) :
    Option (Emitter × Bool) := do
  let (em, S) ← em.hregForRead rs none
  let em := em.flushAll.emit [.test S S]
  em.emitTaken cc imm off 2 countBefore false

/-- The target of `emit_jump` to RAX: a register, or relative to the entry. -/
def emitTarget (srcRs1 : GuestReg) (imm : Word) (off : Nat) (fromRs1 : Bool) : Option Emitter :=
  if fromRs1 then
    (em.hregForRead srcRs1 none).map fun (em, S1) =>
      em.emit ([.mov .rax S1] ++ (if imm = 0 then [] else [.arithImm .add .rax (imm32 imm)]) ++
        [.arithImm .and .rax (-2)])
  else some (em.emit (loadEntry .rax (BitVec.ofNat 64 off + imm)))

def emitJump (linkRd srcRs1 : GuestReg) (imm : Word) (off size countBefore : Nat)
    (checkAlign fromRs1 : Bool) : Option Emitter := do
  let em ← em.flushAll.emitTarget srcRs1 imm off fromRs1
  let em := em.emitAlignCheck checkAlign countBefore
  let em ←
    if linkRd = 0 then some em
    else do
      let (em, D) ← em.hregForWrite linkRd (some srcRs1) none
      some ((em.emit (loadEntry D (BitVec.ofNat 64 (off + size)))).markDirty linkRd)
  let em ← em.emitBlockExitRax (countBefore + 1)
  return { em with exited := true }

/-! ## Loads and stores -/

/-- The load at the host address in `D`. -/
def loadCode (D : Reg) (width : Nat) (signExtend : Bool) : List Instr :=
  [.load width (if signExtend then .sign else .zero) D D 0]

def emitLoad (rd rs1 : GuestReg) (imm : Word) (width : Nat) (signExtend : Bool) :
    Option Emitter := do
  let instr := em.instrIndex
  if rd = 0 then
    -- the access is checked for its faults and then discarded
    let (em, S1) ← em.hregForRead rs1 none
    let (em, s) ← em.freeSlot (some rs1) none
    let em := (em.emit [.lea (hostPool s) S1 (imm32 imm)]).emitTlbChecks (hostPool s) width false instr
    return em.releaseSlot s
  else
    let (em, S1) ← em.hregForRead rs1 none
    let em := em.flushGuest rd
    let (em, D) ← em.hregForWrite rd (some rs1) none
    let em := (em.emit [.lea D S1 (imm32 imm)]).emitTlbChecks D width false instr
    return (em.emit (loadCode D width signExtend)).markDirty rd

def emitStore (rs1 : GuestReg) (imm : Word) (rs2 : GuestReg) (width : Nat) :
    Option Emitter := do
  let instr := em.instrIndex
  let (em, V) ← em.hregForRead rs2 none
  let (em, S1) ← em.hregForRead rs1 (some rs2)
  let (em, s) ← em.freeSlot (some rs1) (some rs2)
  let em := (em.emit [.lea (hostPool s) S1 (imm32 imm)]).emitTlbChecks (hostPool s) width true instr
  return (em.emit [.store width (hostPool s) 0 V]).releaseSlot s

end Emitter

/-! ## The account of a tail -/

/-- A tail leaves the context as `left` has it, and goes on to its guards unless the budget is used up. -/
theorem chainTail_accounts (L : Layout) (n : Label) (exit count : Nat) {s : State HostMem}
    (ctx : s.regs regCtx = L.ctx) :
    ∃ t, exec L.env (chainTailCode n exit count) ⟨.running, s⟩ = exec L.env ((chainTailCode n exit count).drop 4)
        ⟨if (s.mem.ctx.chainBudget - BitVec.ofNat 64 count).msb then .seeking n else .running, t⟩ ∧
      t.regs = s.regs ∧ t.mem = s.mem.setCtx (s.mem.ctx.left (s.regs .rax) count) := by
  let first := s.mem.setCtx { s.mem.ctx with exitPc := s.regs .rax }
  let second := first.setCtx { first.ctx with entryPc := s.regs .rax }
  let third := second.setCtx { second.ctx with chainBudget := s.mem.ctx.chainBudget - BitVec.ofNat 64 count }
  have exits : L.env.memory.store s.mem 8 (s.regs regCtx + BitVec.ofNat 64 ctxOffExit) (s.regs .rax) = some first := by
    rw [ctx]
    exact store_ctx L _ _ _ _ (by decide)
  have enters : L.env.memory.store first 8 (s.regs regCtx + BitVec.ofNat 64 ctxOffEntry)
      (s.regs .rax) = some second := by
    rw [ctx]
    exact store_ctx L _ _ _ _ (by decide)
  have budget : L.env.memory.load second 8 (s.regs regCtx + BitVec.ofNat 64 ctxOffChainBudget) =
      some s.mem.ctx.chainBudget := by
    rw [ctx]
    exact load_ctx L _ _ _ (by decide)
  have charged : L.env.memory.store second 8 (s.regs regCtx + BitVec.ofNat 64 ctxOffChainBudget)
      (s.mem.ctx.chainBudget - BitVec.ofNat 64 count) = some third := by
    rw [ctx]
    exact store_ctx L _ _ _ _ (by decide)
  let t := (((s.setMem first).setMem second).setMem third).setFlags
    (subFlags s.mem.ctx.chainBudget (BitVec.ofNat 64 count))
  have passes : Passes L.env ((chainTailCode n exit count).take 3) s t := by
    refine .cons (t := s.setMem first) (congrArg (Option.bind · _) exits)
      (.cons (t := (s.setMem first).setMem second) (congrArg (Option.bind · _) enters) (.cons (t := t) ?_ (.nil t)))
    exact (congrArg (Option.bind · _) budget).trans (congrArg (Option.bind · _) charged)
  refine ⟨t, ?_, rfl, rfl⟩
  rw [show chainTailCode n exit count = (chainTailCode n exit count).take 3 ++ [.jcc false .s n] ++
    (chainTailCode n exit count).drop 4 from rfl, exec_append, exec_jcc passes rfl false .s n]
  rfl

end Rv64Vm.Jit
