import Rv64Vm.Exec.Tick

/-! # Blocks of the interpreter

`Block`, `BlockCache`, `compile_block` and `run_block`. A pointer to a block is the index
of its slot: a slot is overwritten in place when another block is built in it.
-/

namespace Rv64Vm

/-! ## Where a block ends -/

/-- Opcodes that write `rd` whatever it is. -/
def writesReg (inst : Inst) : Bool :=
  inst &&& 0x7F = 0x13 || inst &&& 0x7F = 0x33 || inst &&& 0x7F = 0x37 || inst &&& 0x7F = 0x17 ||
    inst &&& 0x7F = 0x6F || inst &&& 0x7F = 0x67 || inst &&& 0x7F = 0x03

def isBlockEnd (inst : Inst) : Bool :=
  if inst &&& 0x7F = 0x63 || inst &&& 0x7F = 0x6F || inst &&& 0x7F = 0x67 || inst &&& 0x7F = 0x73 ||
    inst &&& 0x7F = 0x0F then true
  else if inst &&& 0x3 ≠ 0x3 then
    if inst &&& 0x3 = 0x1 then
      let f3 := (inst >>> 13) &&& 0x7
      f3 = 0x5 || f3 = 0x1 || f3 = 0x6 || f3 = 0x7
    else inst &&& 0x7F = 0x02 && inst &&& 0xE003 = 0x8002
  else false

/-! ## The cache -/

def blockMaxInsts : Nat := 16

/-- `BlockInstr`; `inst` is an index of the table. -/
structure BlockInstr where
  inst : Option Nat
  data : InstructionData
  increasePc : Word
  deriving DecidableEq, Repr

/-- `Block`; `instrs` are its first `count` entries. -/
structure Block where
  startPhys : Word := 0
  gen : Nat := 0
  smc : Nat := 0
  lastInst : Inst := 0
  instrs : List BlockInstr := []

structure BlockCache where
  generation : Nat := 1
  slots : Nat → Block := fun _ => {}

namespace BlockCache

/-- `CACHE_SIZE - 1` -/
def indexMask : Word := 0x7FFF

def clear (bc : BlockCache) : BlockCache := { bc with generation := bc.generation + 1 }

/-- What `lookup` compares. -/
def Valid (bc : BlockCache) (smcEpoch : Nat) (physPc : Word) (slot : Nat) : Prop :=
  (bc.slots slot).startPhys = physPc ∧ (bc.slots slot).gen = bc.generation ∧ (bc.slots slot).smc = smcEpoch

instance (bc : BlockCache) (smcEpoch : Nat) (physPc : Word) (slot : Nat) : Decidable (bc.Valid smcEpoch physPc slot) :=
  inferInstanceAs (Decidable (_ ∧ _))

/-- The slot that `lookup` searches. -/
def lookupSlot (physPc : Word) : Nat := ((physPc >>> 1) &&& indexMask).toNat

def lookup (bc : BlockCache) (smcEpoch : Nat) (physPc : Word) : Option Nat :=
  if bc.Valid smcEpoch physPc (lookupSlot physPc) then some (lookupSlot physPc) else none

/-- The slot that `compile_block` builds in. -/
def buildSlot (startPhys : Word) : Nat := ((startPhys >>> 2) &&& indexMask).toNat

def put (bc : BlockCache) (slot : Nat) (b : Block) : BlockCache := { bc with slots := Function.update bc.slots slot b }

end BlockCache

/-! ## `compile_block` -/

/-- An instruction that would leave a value in `x0` for the rest of the block. -/
def poisonsX0 (inst : Inst) : Bool := inst &&& 0x3 = 0x3 && writesReg inst && (inst >>> 7) &&& 0x1F = 0

/-- The decode loop, with `n` instructions still to come at most. -/
def collectInstrs (c : Core) (pcVa : Word) : Nat → Except HostError (Core × List BlockInstr)
  | 0 => .ok (c, [])
  | n + 1 => do
      let f ← fetchInstruction c pcVa
      let inst := f.cache.data.inst
      if !f.ret.isSuccess || f.cache.pc = 0 || poisonsX0 inst then return (f.core, [])
      else
        let bi : BlockInstr := ⟨f.cache.inst, f.cache.data, if inst &&& 0x3 = 0x3 then 4 else 2⟩
        if isBlockEnd inst then return (f.core, [bi])
        else
          let (c, rest) ← collectInstrs f.core (pcVa + bi.increasePc) n
          return (c, bi :: rest)

/-- The pages that are marked: those of the block if each instruction had four bytes, and of the
    byte after them. -/
def blockPages (startPhys : Word) (n : Nat) : List Word :=
  let p0 := startPhys &&& ~~~0xFFF
  let p1 := (startPhys + BitVec.ofNat 64 n * 4) &&& ~~~0xFFF
  if p0 = p1 then [p0] else if p0 < p1 then [p0, p1] else []

/-- `mark_page_executed` and `note_exec`. -/
def Core.markExecuted (c : Core) (page : Word) : Core :=
  { c with smc := c.smc.markPageExecuted page, hart := { c.hart with tlb := c.hart.tlb.noteExec page } }

structure Compiled where
  core : Core
  cache : BlockCache
  /-- The block's slot, or the null pointer. -/
  block : Option Nat

def compileBlock (c : Core) (bc : BlockCache) (startPhys : Word) : Except HostError Compiled := do
  let slot := BlockCache.buildSlot startPhys
  let (c, instrs) ← collectInstrs c c.hart.pc blockMaxInsts
  match instrs.getLast? with
  | none => return ⟨c, bc.put slot { bc.slots slot with gen := 0, startPhys := startPhys }, none⟩
  | some last =>
    let b : Block := ⟨startPhys, bc.generation, c.smc.smcEpoch, last.data.inst, instrs⟩
    return ⟨(blockPages startPhys instrs.length).foldl Core.markExecuted c, bc.put slot b, some slot⟩

/-! ## `run_block` -/

/-- The results of `run_block`; `fault` is the cause and `tval` of the instruction that failed. -/
structure BlockRun where
  core : Core
  executed : Nat
  fault : Option (Nat × Word)

/-- `ci.inst->func(h, ci.data)` -/
def BlockInstr.exec (bus : Bus) (c : Core) (i : BlockInstr) : Except HostError Executed :=
  singleInst bus c { inst := i.inst, data := i.data }

/-- The loop, after `n` instructions. The last one is executed behind the loop, and leaves `x0` as
    it is. -/
def runInstrs (bus : Bus) (c : Core) (n : Nat) : List BlockInstr → Except HostError BlockRun
  | [] => .error .undefinedBehaviour
  | i :: rest => do
      let out ← i.exec bus c
      if !out.ret.isSuccess then return ⟨out.core, n, some (out.ret.cause, out.ret.tval)⟩
      else
        let c := out.core.setPc (out.core.hart.pc + out.ret.increasePc)
        if rest = [] then return ⟨c, n + 1, none⟩ else runInstrs bus c.clearX0 (n + 1) rest

def runBlock (bus : Bus) (c : Core) (b : Block) : Except HostError BlockRun := runInstrs bus c.clearX0 0 b.instrs

end Rv64Vm
