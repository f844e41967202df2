import Rv64Vm.Exec.Blocks
import Rv64Vm.Jit.Runner

/-! # `run_blocks`

The loop that runs a hart: compiled code where there is some, blocks of the interpreter
otherwise, and single ticks where no block can be formed. The code cache behind
`JIT_Context` and the machine code itself are an engine, `chained` the one that follows
the blocks; what the loop does with them, its memo and its accounting are here.
-/

namespace Rv64Vm

open Jit

/-! ## The engine -/

/-- `jit::JITExec`; the null function is 0. -/
structure JITExec where
  fn : Word := 0
  chainFn : Word := 0
  deriving DecidableEq, Repr

/-- `JIT_Context`, and the call of a compiled function. -/
structure JitEngine (J : Type) where
  lookup : J → Core → (physPc : Word) → Policy → JITExec × J
  hotTick : J → Core → (physPc : Word) → Bool × J
  salvage : J → Core → (physPc : Word) → Policy → Option (JITExec × J × Core)
  compile : J → Core → (vaPc physPc : Word) → Except HostError (JITExec × J × Core)
  isGiveup : J → (physPc : Word) → Bool
  /-- `jj.fn(&hctx)`, with the chain jump cache of the context -/
  call : J → JITExec → (Nat → ChainEntry) → Runner → Except HostError (J × Runner)
  /-- `jit_entries()` -/
  tlbEntries : Word

/-! ## The memo -/

/-- What the ways of the dispatch memo are compared by. -/
structure MemoKey where
  va : Word := 0
  gen : Nat := 0
  smc : Nat := 0
  asid : BitVec 16 := 0
  mode : Nat := 0
  deriving DecidableEq, Repr

structure DispatchHot where
  key : MemoKey := {}
  phys : Word := 0
  seen : Bool := false
  interp : Bool := false
  lru : BitVec 8 := 0
  exec : JITExec := {}
  block : Option Nat := none
  blockGen : Nat := 0

def memoWays : Nat := 8

/-- The first way of the bucket. -/
def MemoKey.bucket (k : MemoKey) : Nat :=
  let hash := (k.va >>> 1) * 2654435761 + (BitVec.ofNat 32 k.gen).setWidth 64 + (BitVec.ofNat 32 k.smc).setWidth 64
  (hash &&& 4095).toNat * memoWays

def MemoKey.ways (k : MemoKey) : List Nat := (List.range memoWays).map (k.bucket + ·)

/-- The way that is replaced: a free one, or the one with the least `lru`. -/
def victimWay (dhot : Nat → DispatchHot) (k : MemoKey) : Nat :=
  match k.ways.find? fun i => !(dhot i).seen with
  | some i => i
  | none =>
    (k.ways.foldl (fun (best : Nat × BitVec 8) i => if (dhot i).lru < best.2 then (i, (dhot i).lru) else best)
      (k.bucket, 0xFF)).1

/-! ## The hart -/

/-- `chain_key`, without `mode_key`, which nothing reads. -/
structure ChainKey where
  gen : Nat := 0
  smc : Nat := 0
  asid : BitVec 32 := 0xFFFFFFFF
  deriving DecidableEq, Repr

/-- What the loop does that the source does not count: it looks at the interrupts, or some
    instructions retire, the last ones of a block that then faults. -/
inductive RunEvent where
  | polled
  | retired (n : Nat)
  | faulted (n : Nat)
  deriving DecidableEq, Repr

/-- A hart with all that `run_blocks` keeps for it. -/
structure HartRun (J : Type) where
  core : Core
  hctx : HartContext
  chainCache : Nat → ChainEntry
  dhot : Nat → DispatchHot
  chainKey : ChainKey
  /-- `g_dhot_tick` -/
  dhotTick : Nat
  jctx : Option J
  cache : BlockCache
  /-- What the loop has done, the latest first. -/
  log : List RunEvent

section Run

variable {J : Type}

/-- The engine of a machine that is started without one. -/
def JitEngine.absent : JitEngine J where
  lookup j _ _ _ := ({}, j)
  hotTick j _ _ := (false, j)
  salvage _ _ _ _ := none
  compile j c _ _ := .ok ({}, j, c)
  isGiveup _ _ := true
  call j _ _ runner := .ok (j, runner)
  tlbEntries := 0

/-- The engine with calls that run chains of blocks. -/
def JitEngine.chained (E : JitEngine CodeCache) : JitEngine CodeCache :=
  { E with call := fun k jj cache r => runChain cache k jj.chainFn r }

namespace HartRun

variable (r : HartRun J)

/-- A hart that has no compiled code and has run nothing yet. -/
def fresh (c : Core) (cache : BlockCache) : HartRun J where
  core := c
  hctx := ⟨0, 0, 0, 0, 0, 0, 0, 0, 0⟩
  chainCache := fun _ => ⟨0, 0, 0, 0⟩
  dhot := fun _ => {}
  chainKey := {}
  dhotTick := 0
  jctx := none
  cache := cache
  log := []

def mapHart (f : Hart → Hart) : HartRun J := { r with core := r.core.mapHart f }

def note (e : RunEvent) : HartRun J := { r with log := e :: r.log }

def trap (cause : Nat) (tval : Word) : HartRun J := r.mapHart (·.trap cause tval false)

/-- `(ip.raw & ie.raw) != 0 && check_ints()`, and whether an interrupt is taken. -/
def poll : HartRun J × Bool :=
  let h := r.core.hart
  ((r.note .polled).mapHart fun h => if h.ip &&& h.ie ≠ 0 then h.checkInts else h,
    h.ip &&& h.ie ≠ 0 && h.pickInt.isSome)

/-- Count what has been executed. -/
def retire (executed : Word) : HartRun J :=
  r.mapHart fun h => { h with instret := h.instret + executed, cycle := h.cycle + executed }

def setWay (i : Nat) (d : DispatchHot) : HartRun J := { r with dhot := Function.update r.dhot i d }

def policy (c : Core) : Policy where
  effMode := (c.hart.getEffectiveMode .store).toNat
  mxr := Status.mxr c.hart.status
  sum := Status.sum c.hart.status

def memoKey : MemoKey where
  va := r.core.hart.pc
  gen := r.core.hart.tlb.generation
  smc := r.core.smc.smcEpoch
  asid := Satp.asid r.core.hart.satp
  mode := (r.core.hart.getEffectiveMode .exec).toNat

/-- The way with the key, or one installed for it. -/
def touchWay : Nat × HartRun J :=
  let k := r.memoKey
  let lru := BitVec.ofNat 8 r.dhotTick
  let found := k.ways.find? fun i => (r.dhot i).seen && (r.dhot i).key = k
  let i := found.getD (victimWay r.dhot k)
  let d := if found.isSome then r.dhot i
    else { r.dhot i with key := k, seen := true, exec := {}, interp := false, block := none }
  (i, { r.setWay i { d with lru := lru } with dhotTick := r.dhotTick + 1 })

/-! ## Compiled code -/

variable (E : JitEngine J)

/-- `lookup`, and from its threshold on `salvage` or `compile`. -/
def obtainCode (j : J) (c : Core) (phys : Word) : Except HostError (JITExec × J × Core) :=
  let (jj, j) := E.lookup j c phys (policy c)
  if jj.fn ≠ 0 then .ok (jj, j, c)
  else
    let (hot, j) := E.hotTick j c phys
    if hot then
      match E.salvage j c phys (policy c) with
      | some found => .ok found
      | none => E.compile j c c.hart.pc phys
    else .ok ({}, j, c)

/-- The physical pc and the compiled function, from the way `i` or looked up and remembered there.
    `none` stands for the exception of a fetch that does not translate. -/
def resolve (j : J) (i : Nat) (r : HartRun J) : Except HostError (HartRun J × Option (Word × JITExec)) :=
  let d := r.dhot i
  if d.exec.fn ≠ 0 then .ok (r, some (d.phys, d.exec))
  else if d.interp then .ok (r, some (d.phys, {}))
  else do
    let t ← translate r.core .exec r.core.hart.pc
    if !t.ret.isSuccess then return ({ r with core := t.core }.trap t.ret.excCode t.ret.tval, none)
    else
      let (jj, j, c) ← obtainCode E j t.core t.pa
      let interp := jj.fn = 0 && E.isGiveup j t.pa
      let r := { r with core := c, jctx := some j }
      return (r.setWay i { d with phys := t.pa, exec := jj, interp := d.interp || interp }, some (t.pa, jj))

/-- The context and the chain jump cache before a call. -/
def prepare (jj : JITExec) (r : HartRun J) : HartRun J :=
  let h := r.core.hart
  let key : ChainKey := ⟨h.tlb.generation, r.core.smc.smcEpoch, (Satp.asid h.satp).setWidth 32⟩
  let epoch := if key ≠ r.chainKey then r.hctx.chainEpoch + 1 else r.hctx.chainEpoch
  { r with
    chainKey := key
    hctx := { r.hctx with
      tlbEntries := E.tlbEntries
      tlbGen := BitVec.ofNat 64 h.tlb.generation
      satpAsid := Satp.asid h.satp
      chainEpoch := epoch
      chainBudget := chainCadence
      chainMode := modeKey h
      entryPc := h.pc }
    chainCache := Function.update r.chainCache (chainCacheIndex h.pc (modeKey h)) ⟨jj.chainFn, h.pc, epoch, modeKey h⟩ }

/-- The call, with its accounting. -/
def enter (j : J) (jj : JITExec) (r : HartRun J) : Except HostError (HartRun J × Word) := do
  let r := r.prepare E jj
  let (j, after) ← E.call j jj r.chainCache ⟨r.core, r.hctx⟩
  let executed := chainCadence - after.hctx.chainBudget
  let r := { r with
    core := after.core.mapHart ({ · with pc := after.hctx.exitPc }), hctx := after.hctx
    jctx := some j }
  return (r.retire executed, executed)

/-- What the compiled part of an iteration comes to. -/
inductive Dispatched (J : Type) where
  /-- An exception has been taken. -/
  | trapped (r : HartRun J)
  /-- Compiled code has retired instructions, from `prev` on. -/
  | executed (r : HartRun J) (prev : Word) (n : Word)
  /-- The interpreter is next, at a physical pc if it is known. -/
  | interpret (r : HartRun J) (phys : Option Word) (memoWay : Option Nat)

def dispatchCompiled (r : HartRun J) : Except HostError (Dispatched J) :=
  match r.jctx with
  | none => .ok (.interpret r none none)
  | some j =>
    if r.core.hart.pc &&& 1 = 0 then do
      let (i, r) := r.touchWay
      let (r, found) ← r.resolve E j i
      match found with
      | none => return .trapped r
      | some (phys, jj) =>
        if jj.fn = 0 then return .interpret r (some phys) (some i)
        else
          let prev := r.core.hart.instret
          let (r, n) ← r.enter E (r.jctx.getD j) jj
          if n ≠ 0 then return .executed (r.note (.retired n.toNat)) prev n
          else return .interpret r (some phys) (some i)
    else .ok (.interpret r none none)

/-! ## The interpreter -/

/-- The block at `phys`: the memo's, the cache's or a new one. -/
def selectBlock (phys : Word) (memoWay : Option Nat) : Except HostError (HartRun J × Option Nat) :=
  let remembered := memoWay.bind fun i =>
    (r.dhot i).block.filter fun b => (r.dhot i).blockGen = r.cache.generation &&
      (r.cache.slots b).startPhys = phys && (r.cache.slots b).smc = r.core.smc.smcEpoch
  match remembered with
  | some b => .ok (r, some b)
  | none => do
      let (r, b) ← match r.cache.lookup r.core.smc.smcEpoch phys with
        | some b => .ok (r, some b)
        | none => do
            let built ← compileBlock r.core r.cache phys
            .ok ({ r with core := built.core, cache := built.cache }, built.block)
      match b, memoWay with
      | some b, some i =>
        return (r.setWay i { r.dhot i with block := some b, blockGen := r.cache.generation }, some b)
      | b, _ => return (r, b)

/-- An iteration's end: whether the loop goes on, and `total`. -/
structure Turn (J : Type) where
  run : HartRun J
  total : Word
  more : Bool

/-- The look at the interrupts after instructions have retired, when the count says so. -/
def pollAfter (prev executed : Word) : HartRun J × Bool :=
  if (prev &&& 0x2FFF) + executed ≥ 0x3000 then r.poll else (r, false)

/-- `tick()`, with what it logs. -/
def tickOnce (bus : Bus) (r : HartRun J) : Except HostError (HartRun J) := do
  let looked := if r.core.hart.instret &&& 0x2FFF = 0 then r.note .polled else r
  let c ← tick bus r.core
  return { looked with core := c }.note (.retired (c.hart.instret - r.core.hart.instret).toNat)

/-- The interpreter's part of an iteration. -/
def interpretAt (bus : Bus) (r : HartRun J) (total phys : Word) (memoWay : Option Nat) :
    Except HostError (Turn J) := do
  let (r, block) ← r.selectBlock phys memoWay
  match block with
  | none =>
    let r ← r.tickOnce bus
    if r.core.hart.wfi then return ⟨r, total, false⟩ else return ⟨r, total + 1, true⟩
  | some slot =>
    let b := r.cache.slots slot
    let ran ← runBlock bus r.core b
    let prev := ran.core.hart.instret
    let executed := BitVec.ofNat 64 ran.executed
    let r := { r with core := ran.core }.retire executed
    match ran.fault with
    | some (cause, tval) => return ⟨(r.note (.faulted ran.executed)).trap cause tval, total + executed, false⟩
    | none =>
      let (r, taken) := (r.note (.retired ran.executed)).pollAfter prev executed
      if taken then return ⟨r, total + executed, false⟩
      else
        -- FENCE and FENCE.I: the guest may have rewritten its code
        let r := if b.lastInst &&& 0x7F = 0x0F then { r with cache := r.cache.clear } else r
        return ⟨r, total + executed, true⟩

/-- An iteration behind the checks at its top. -/
def turn (bus : Bus) (maxInsts total : Word) (r : HartRun J) : Except HostError (Turn J) := do
  match ← r.dispatchCompiled E with
  | .trapped r => return ⟨r, total, false⟩
  | .executed r prev n =>
    let (r, taken) := r.pollAfter prev n
    return ⟨r, total + n, !taken && total + n < maxInsts⟩
  | .interpret r (some phys) memoWay => r.interpretAt bus total phys memoWay
  | .interpret r none memoWay =>
    let t ← translate r.core .exec r.core.hart.pc
    if !t.ret.isSuccess then return ⟨{ r with core := t.core }.trap t.ret.excCode t.ret.tval, total, false⟩
    else
      let r := { r with core := t.core }
      r.interpretAt bus total t.pa memoWay

/-- `if(int_local_pending()) WFI = false;` -/
def wake : HartRun J := r.mapHart fun h => if h.intLocalPending then { h with wfi := false } else h

/-- One pass through the loop. -/
def iteration (bus : Bus) (maxInsts total : Word) (r : HartRun J) : Except HostError (Turn J) :=
  if r.core.hart.wfi then .ok ⟨r.wake, total, false⟩
  else if maxInsts ≤ total then .ok ⟨r, total, false⟩
  else
    let (r, taken) := if r.core.hart.instret &&& 0x2FFF = 0 then r.poll else (r, false)
    if taken then .ok ⟨r, total, false⟩ else r.turn E bus maxInsts total

/-- The loop, for at most `fuel` passes; `none` if they do not suffice. -/
def loop (bus : Bus) (maxInsts : Word) : Nat → Word → HartRun J →
    Except HostError (Option (HartRun J × Word))
  | 0, _, _ => .ok none
  | fuel + 1, total, r => do
      let t ← r.iteration E bus maxInsts total
      if t.more then loop bus maxInsts fuel t.total t.run else return some (t.run, t.total)

/-- `Hart::run_blocks`; a pass that goes on retires an instruction. -/
def runBlocks (bus : Bus) (maxInsts : Word) (r : HartRun J) : Except HostError (Option (HartRun J × Word)) :=
  if r.core.hart.wfi then .ok (some (r.wake, 0)) else r.loop E bus maxInsts (maxInsts.toNat + 1) 0

end HartRun

end Run

end Rv64Vm
