import Rv64Vm.Core.Types
import Rv64Vm.Lib.SetBits

/-! # The interrupt controller

`PLIC`: pending bits shared by all contexts, two contexts a hart, and the interrupt line
of each. A vector of the source is a function with its size beside it; an index beyond the
size is an access outside the allocation. The pending bits of the harts' `ip`
registers belong to the state, as `signal_cpu_interrupt` pokes them.
-/

namespace Rv64Vm

open Lib

structure PlicContext where
  threshold : BitVec 32 := 0
  enables : Nat → BitVec 32 := fun _ => 0
  interruptLine : Bool := false

structure Plic where
  start : Word
  numHarts : BitVec 8
  maxSources : BitVec 32
  priorities : Nat → BitVec 32 := fun _ => 0
  pendingWords : Nat → BitVec 32 := fun _ => 0
  contexts : Nat → PlicContext := fun _ => {}
  /-- `cpu.get_hart(i).ip` -/
  ip : Nat → BitVec 16

namespace Plic

variable (p : Plic)

def numContexts : Nat := p.numHarts.toNat * 2

/-- `pending_words_count` and `enable_words_count`: `(max_sources + 31) / 32`. -/
def wordsCount : Nat := ((p.maxSources + 31) / 32).toNat

/-- The size of `priorities`: `max_sources + 1`. -/
def prioritiesSize : Nat := (p.maxSources + 1).toNat

variable (ctx : Nat)

/-- `hart_id` of a context. -/
def hartId : Nat := ctx / 2

/-- `supervisor_mode` of a context. -/
def supervisorMode : Bool := ctx % 2 == 1

/-- The bit of `ip` that a context drives, `SEIP` or `MEIP`. -/
def ipBit : Nat := if supervisorMode ctx then 9 else 11

/-- The test of one active source in `find_highest_pending_enabled`. -/
def candidate (best : Nat × Nat) (id : Nat) : Nat × Nat :=
  if id ≠ 0 ∧ id ≤ p.maxSources.toNat then
    let prio := (p.priorities id).toNat
    if prio > (p.contexts ctx).threshold.toNat then
      if prio > best.2 ∨ (prio = best.2 ∧ id < best.1) then (id, prio) else best
    else best
  else best

/-- `find_highest_pending_enabled`; the words read are below `word_count`. -/
def findHighestPendingEnabled : Nat :=
  ((List.range p.wordsCount).foldl (fun best word =>
    forSetBits (fun best bit => p.candidate ctx best (word * 32 + bit)) 32
      (p.pendingWords word &&& (p.contexts ctx).enables word) best) (0, 0)).1

/-- Write one bit of a register. -/
def putFlag {w : Nat} (x : BitVec w) (i : Nat) (b : Bool) : BitVec w :=
  if b then x ||| (1#w <<< i) else x &&& ~~~(1#w <<< i)

/-- `signal_cpu_interrupt`: harts from 64 on are left out. -/
def signalCpuInterrupt (level : Bool) : Plic :=
  if 64 ≤ hartId ctx then p
  else { p with ip := Function.update p.ip (hartId ctx) (putFlag (p.ip (hartId ctx)) (ipBit ctx) level) }

def updateContext : Plic :=
  let shouldRaise : Bool := p.findHighestPendingEnabled ctx ≠ 0
  if shouldRaise != (p.contexts ctx).interruptLine then
    let raised := { p with
      contexts := Function.update p.contexts ctx { p.contexts ctx with interruptLine := shouldRaise } }
    raised.signalCpuInterrupt ctx shouldRaise
  else p

def updateAllContexts : Plic := (List.range p.numContexts).foldl updateContext p

/-- Set or clear a pending bit. -/
def withPending (id : Nat) (b : Bool) : Plic :=
  { p with pendingWords := Function.update p.pendingWords (id / 32) (putFlag (p.pendingWords (id / 32)) (id % 32) b) }

def withPriority (idx : Nat) (value : BitVec 32) : Plic :=
  { p with priorities := Function.update p.priorities idx value }

def withEnables (ctx word : Nat) (value : BitVec 32) : Plic :=
  let context := { p.contexts ctx with enables := Function.update (p.contexts ctx).enables word value }
  { p with contexts := Function.update p.contexts ctx context }

def withThreshold (value : BitVec 32) : Plic :=
  { p with contexts := Function.update p.contexts ctx { p.contexts ctx with threshold := value } }

def setPending (sourceId : BitVec 32) (pending : Bool) : Except HostError Plic :=
  let id := sourceId.toNat
  if id = 0 ∨ id > p.maxSources.toNat then .ok p
  else if id / 32 < p.wordsCount then .ok (p.withPending id pending).updateAllContexts
  else .error .undefinedBehaviour

/-- `claim_interrupt`: the source, or 0; it is one that the scan has read the word of. -/
def claimInterrupt : Nat × Plic :=
  let id := p.findHighestPendingEnabled ctx
  if id ≠ 0 then (id, (p.withPending id false).updateContext ctx) else (id, p)

def completeInterrupt (source : BitVec 32) : Except HostError Plic :=
  let id := source.toNat
  if id = 0 ∨ id > p.maxSources.toNat then .ok p
  else if id / 32 < p.wordsCount then .ok ((p.withPending id false).updateContext ctx)
  else .error .undefinedBehaviour

/-- What an offset into the register file selects. -/
inductive Register where
  | priority (idx : Nat)
  | pending (word : Nat)
  | enables (ctx word : Nat)
  | threshold (ctx : Nat)
  | claimComplete (ctx : Nat)
  | reserved
  deriving DecidableEq, Repr

/-- The address decoding that `read` and `write` share. -/
def register (offset : Nat) : Register :=
  if offset < 0x1000 then
    let idx := offset / 4
    if 1 ≤ idx ∧ idx ≤ p.maxSources.toNat then .priority idx else .reserved
  else if offset < 0x1080 then
    let word := (offset - 0x1000) / 4
    if word < p.wordsCount then .pending word else .reserved
  else if 0x2000 ≤ offset ∧ offset < 0x200000 then
    let ctx := (offset - 0x2000) / 0x80
    let word := (offset - 0x2000) % 0x80 / 4
    if ctx < p.numContexts ∧ word < p.wordsCount then .enables ctx word else .reserved
  else if 0x200000 ≤ offset ∧ offset < 0x200000 + p.numContexts * 0x1000 then
    let ctx := (offset - 0x200000) / 0x1000
    let sub := (offset - 0x200000) % 0x1000
    if sub = 0 then .threshold ctx else if sub = 4 then .claimComplete ctx else .reserved
  else .reserved

/-- `PLIC::read`; only a claim changes anything. -/
def read (addr : Word) (size : Nat) : Except HostError (Word × Plic) :=
  if size ≠ 4 then .ok (0, p)
  else
    match p.register (addr - p.start).toNat with
    | .priority idx =>
      if idx < p.prioritiesSize then .ok ((p.priorities idx).setWidth 64, p) else .error .undefinedBehaviour
    | .pending word => .ok ((p.pendingWords word).setWidth 64, p)
    | .enables ctx word => .ok (((p.contexts ctx).enables word).setWidth 64, p)
    | .threshold ctx => .ok ((p.contexts ctx).threshold.setWidth 64, p)
    | .claimComplete ctx => .ok (BitVec.ofNat 64 (p.claimInterrupt ctx).1, (p.claimInterrupt ctx).2)
    | .reserved => .ok (0, p)

/-- `PLIC::write`; the pending registers are read-only. -/
def write (addr : Word) (size : Nat) (value : Word) : Except HostError Plic :=
  if size ≠ 4 then .ok p
  else
    match p.register (addr - p.start).toNat with
    | .priority idx =>
      if idx < p.prioritiesSize then
        .ok (p.withPriority idx (value.setWidth 32 &&& 0x7FFFFFFF)).updateAllContexts
      else .error .undefinedBehaviour
    | .pending _ => .ok p
    | .enables ctx word => .ok ((p.withEnables ctx word (value.setWidth 32)).updateContext ctx)
    | .threshold ctx => .ok ((p.withThreshold ctx (value.setWidth 32 &&& 0x7FFFFFFF)).updateContext ctx)
    | .claimComplete ctx => p.completeInterrupt ctx (value.setWidth 32)
    | .reserved => .ok p

/-- What reaches the controller: a device's line, and the guest's accesses. -/
inductive Op where
  | setPending (sourceId : BitVec 32) (pending : Bool)
  | read (addr : Word) (size : Nat)
  | write (addr : Word) (size : Nat) (value : Word)
  deriving DecidableEq, Repr

def step : Op → Except HostError Plic
  | .setPending sourceId pending => p.setPending sourceId pending
  | .read addr size => (p.read addr size).map (·.2)
  | .write addr size value => p.write addr size value

/-- `PLIC::PLIC`, over harts whose external interrupts are not pending. -/
def Initial : Prop :=
  (∀ i, p.priorities i = 0) ∧ (∀ i, p.pendingWords i = 0) ∧
    (∀ ctx, (p.contexts ctx).threshold = 0 ∧ (∀ i, (p.contexts ctx).enables i = 0) ∧
      (p.contexts ctx).interruptLine = false) ∧
    ∀ ctx < p.numContexts, (p.ip (hartId ctx)).getLsbD (ipBit ctx) = false

end Plic

end Rv64Vm
