import Rv64Vm.Isa.Decoder

/-! # One tick of the interpreter

`fetchInstruction`, the interrupt checks and `tick`. A fetch goes through the MMU
and reads RAM directly; a 32-bit instruction that leaves its page is read in two
halves, each with its own translation.
-/

namespace Rv64Vm

/-- What the fetch has read before the decoder sees it. -/
structure FetchedWord where
  ret : MemoryReturn
  physPc : Word := 0
  inst : Inst := 0
  core : Core

/-- `phys < 0x80000000 || phys > 0x80000000 + memsize - 2` -/
def outsideRam (memsize phys : Word) : Bool := phys < dramBase || phys > dramBase + memsize - 2

/-- Read `direct_ram`, whose offsets start at `0x80000000`. -/
def fetchRam (m : MemoryMap) (phys : Word) (n : Nat) : Except HostError Inst :=
  match m.getRamDirect with
  | none => .error .undefinedBehaviour
  | some ram => (ram.read (phys - dramBase).toNat n).map (·.setWidth 32)

/-- `fetchInstruction` up to the call of the decoder. -/
def fetchWord (c : Core) (va : Word) : Except HostError FetchedWord := do
  let t ← translate c .exec va
  if !t.ret.isSuccess then return { ret := t.ret, core := t.core }
  else if outsideRam c.hart.memsize t.pa then
    return { ret := ⟨false, excInstAccessFault, va⟩, physPc := t.pa, core := t.core }
  else
    let lo ← fetchRam t.core.mmap t.pa 2
    if lo &&& 0x3 ≠ 0x3 then return { ret := {}, physPc := t.pa, inst := lo, core := t.core }
    else if va &&& 0xFFF ≤ 0xFFC then
      let inst ← fetchRam t.core.mmap t.pa 4
      return { ret := {}, physPc := t.pa, inst := inst, core := t.core }
    else
      let t₂ ← translate t.core .exec (va + 2)
      if !t₂.ret.isSuccess then return { ret := t₂.ret, physPc := t.pa, core := t₂.core }
      else if outsideRam c.hart.memsize t₂.pa then
        return { ret := ⟨false, excInstAccessFault, va + 2⟩, physPc := t.pa, core := t₂.core }
      else
        let hi ← fetchRam t₂.core.mmap t₂.pa 2
        return { ret := {}, physPc := t.pa, inst := lo ||| (hi <<< 16), core := t₂.core }

structure Fetched where
  ret : MemoryReturn
  physPc : Word
  /-- `out_cache`; meaningless after a failure. -/
  cache : InstructionCache := {}
  core : Core

def fetchInstruction (c : Core) (va : Word) : Except HostError Fetched := do
  let w ← fetchWord c va
  if !w.ret.isSuccess then return { ret := w.ret, physPc := w.physPc, core := w.core }
  else
    let (entry, decoder) := decodeInst w.core.smc.smcEpoch w.core.decoder w.physPc w.inst
    let core := { w.core with decoder := decoder }
    if entry.pc = 0 then
      return { ret := ⟨false, excIllegalInstruction, w.inst.setWidth 64⟩, physPc := w.physPc, core := core }
    else return { ret := {}, physPc := w.physPc, cache := entry, core := core }

/-- The fetch on a host with a limit. -/
def fetchInstructionWithin (limit : Nat) (c : Core) (va : Word) : Except HostError Fetched :=
  hosted limit c.hart.tlb (·.core.hart.tlb) (fetchInstruction c va)

/-- `Hart::single_inst`; an entry without an instruction is a null pointer. -/
def singleInst (bus : Bus) (c : Core) (cache : InstructionCache) : Except HostError Executed :=
  match cache.inst.bind (instructions[·]?) with
  | some inst => inst.func bus c cache.data
  | none => .error .undefinedBehaviour

namespace Hart

/-- `ip.raw & ie.raw` -/
def pendingAll (h : Hart) : Word := (h.ip &&& h.ie).setWidth 64

def seMaskWord : Word := seMask.setWidth 64

def intLocalPending (h : Hart) : Bool :=
  let mideleg := h.csrs Csr.mideleg
  if h.pendingAll = 0 then false
  else if h.pendingAll &&& ~~~mideleg ≠ 0 then true
  else h.mode.toNat ≤ PrivilegeMode.supervisor.toNat ∧ h.pendingAll &&& seMaskWord &&& mideleg ≠ 0

/-- `63 - __builtin_clzll(pending)` -/
def highestIrq (pending : Word) : Nat := Nat.log2 pending.toNat

/-- The interrupt that `check_ints` takes. -/
def pickInt (h : Hart) : Option Nat :=
  let mideleg := h.csrs Csr.mideleg
  let mGlobal := if h.mode = .machine then h.status.getLsbD 3 else h.mode.toNat < PrivilegeMode.machine.toNat
  let sGlobal :=
    if h.mode = .supervisor then h.status.getLsbD 1 else h.mode.toNat < PrivilegeMode.supervisor.toNat
  let pendingM := h.pendingAll &&& ~~~mideleg
  let pendingS := h.pendingAll &&& seMaskWord &&& mideleg
  if h.pendingAll = 0 then none
  else if mGlobal ∧ pendingM ≠ 0 then some (highestIrq pendingM)
  else if sGlobal ∧ pendingS ≠ 0 then some (highestIrq pendingS)
  else none

def checkInts (h : Hart) : Hart :=
  match h.pickInt with
  | some irq => h.trap irq 0 true
  | none => h

/-- `tick` before the fetch: `x0` is cleared, the cycle counted, and every so often
    the interrupts are looked at. -/
def beginTick (h : Hart) : Hart :=
  let h := { h with gpr := Function.update h.gpr 0 0, cycle := h.cycle + 1 }
  if h.instret &&& 0x2FFF = 0 ∧ h.ip &&& h.ie ≠ 0 then h.checkInts else h

end Hart

/-- `tick` after the handler: trap, or count the instruction and step `pc`. -/
def finish (out : Executed) : Core :=
  if !out.ret.isSuccess then out.core.mapHart (·.trap out.ret.cause out.ret.tval false)
  else out.core.mapHart fun h => { h with instret := h.instret + 1, pc := h.pc + out.ret.increasePc }

/-- `tick` from the fetch on. -/
def executeOne (bus : Bus) (c : Core) : Except HostError Core := do
  let f ← fetchInstruction c c.hart.pc
  if !f.ret.isSuccess then return f.core.mapHart (·.trap f.ret.excCode f.ret.tval false)
  else return finish (← singleInst bus f.core f.cache)

def tick (bus : Bus) (c : Core) : Except HostError Core :=
  let c := c.mapHart Hart.beginTick
  if c.hart.wfi then .ok (if c.hart.intLocalPending then c.mapHart ({ · with wfi := false }) else c)
  else executeOne bus c

/-- The word that `tick` gets to execute. -/
def executedWord (c : Core) : Option Inst :=
  let c := c.mapHart Hart.beginTick
  if c.hart.wfi then none
  else
    match fetchInstruction c c.hart.pc with
    | .ok f => if f.ret.isSuccess then some f.cache.data.inst else none
    | .error _ => none

end Rv64Vm
