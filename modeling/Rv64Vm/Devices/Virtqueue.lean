import Rv64Vm.Lib.Loops
import Rv64Vm.Devices.GuestMemory

/-! # Virtqueues

The two VirtIO devices are written against one split virtqueue: a descriptor table, an avail
ring that the driver fills and a used ring that the device fills. `process_queue` is the same
text in both but for what is done with one descriptor chain, which is the parameter `serve`
here: it refuses the chain, or answers with memory and device after it and the length that
the used element reports.
-/

namespace Rv64Vm

open Lib

def virtqDescFNext : BitVec 16 := 1#16
def virtqDescFWrite : BitVec 16 := 2#16

structure VirtqDesc where
  addr : Word
  len : BitVec 32
  flags : BitVec 16
  next : BitVec 16
  deriving DecidableEq, Repr

namespace VirtqDesc

def hasNext (d : VirtqDesc) : Bool := d.flags &&& virtqDescFNext != 0#16

/-- The driver lets the device write the buffer. -/
def writable (d : VirtqDesc) : Bool := d.flags &&& virtqDescFWrite != 0#16

end VirtqDesc

structure VirtQueueState where
  size : BitVec 32 := 0#32
  descAddr : Word := 0#64
  availAddr : Word := 0#64
  usedAddr : Word := 0#64
  lastAvailIdx : BitVec 16 := 0#16
  lastUsedIdx : BitVec 16 := 0#16
  ready : Bool := false
  deriving DecidableEq, Repr

namespace VirtQueueState

variable (q : VirtQueueState)

/-- `idx % q.size` as a `uint16_t`, widened for an address. -/
def slot (idx : BitVec 16) : Word := ((idx.setWidth 32 % q.size).setWidth 16).setWidth 64

/-- Address of the avail entry to be consumed next. -/
def availEntry : Word := q.availAddr + 4#64 + q.slot q.lastAvailIdx * 2#64

/-- Address of the used element to be written next. -/
def usedElem : Word := q.usedAddr + 4#64 + q.slot q.lastUsedIdx * 8#64

def readDesc (mem : GuestMemory) (idx : BitVec 16) : Except HostError VirtqDesc := do
  let descAddr := q.descAddr + idx.setWidth 64 * 16#64
  let addr ← mem.load descAddr 64
  let len ← mem.load (descAddr + 8#64) 32
  let flags ← mem.load (descAddr + 12#64) 16
  let next ← mem.load (descAddr + 14#64) 16
  return ⟨addr, len.setWidth 32, flags.setWidth 16, next.setWidth 16⟩

/-- The loop of `fetch_descriptor_chain` with `iters` iterations left. -/
def followChain (mem : GuestMemory) : Nat → BitVec 16 → Except HostError (Option (List VirtqDesc))
  | 0, _ => .ok none
  | iters + 1, idx => do
      let d ← q.readDesc mem idx
      if d.hasNext then return (← followChain mem iters d.next).map (d :: ·)
      else return some [d]

/-- `none` is the result `false`. -/
def fetchDescriptorChain (mem : GuestMemory) (head : BitVec 16) : Except HostError (Option (List VirtqDesc)) :=
  if q.descAddr = 0#64 then .ok none else q.followChain mem q.size.toNat head

/-- The descriptors from `head` along `next` up to the first without NEXT are `chain`. -/
inductive Linked (mem : GuestMemory) : BitVec 16 → List VirtqDesc → Prop
  | last {idx : BitVec 16} {d : VirtqDesc} (read : q.readDesc mem idx = .ok d) (stop : d.hasNext = false) :
      Linked mem idx [d]
  | more {idx : BitVec 16} {d : VirtqDesc} {rest : List VirtqDesc} (read : q.readDesc mem idx = .ok d)
      (goes : d.hasNext = true) (tail : Linked mem d.next rest) : Linked mem idx (d :: rest)

variable {q} {mem : GuestMemory}

theorem followChain_eq_some {iters : Nat} {head : BitVec 16} {chain : List VirtqDesc} :
    q.followChain mem iters head = .ok (some chain) ↔ q.Linked mem head chain ∧ chain.length ≤ iters := by
  induction iters generalizing head chain with
  | zero =>
    refine ⟨nofun, fun ⟨linked, short⟩ => ?_⟩
    cases linked <;> cases short
  | succ iters ih =>
    rw [followChain, bind_eq_ok]
    constructor
    · rintro ⟨d, read, rest⟩
      cases goes : d.hasNext with
      | false =>
        simp only [goes, Bool.false_eq_true, if_false] at rest
        obtain rfl := Option.some.inj (pure_eq_ok.mp rest)
        exact ⟨.last read goes, by simp⟩
      | true =>
        simp only [goes, if_true] at rest
        obtain ⟨tail, followed, result⟩ := bind_eq_ok.mp rest
        obtain ⟨tail, rfl, rfl⟩ := Option.map_eq_some_iff.mp (pure_eq_ok.mp result)
        obtain ⟨linked, short⟩ := ih.mp followed
        exact ⟨.more read goes linked, Nat.succ_le_succ short⟩
    · rintro ⟨linked, short⟩
      cases linked with
      | last read stop => exact ⟨_, read, by simp [stop, pure, Except.pure]⟩
      | more read goes tail =>
        refine ⟨_, read, ?_⟩
        rw [if_pos goes, ih.mpr ⟨tail, Nat.le_of_succ_le_succ short⟩]
        rfl

theorem fetchDescriptorChain_eq_some {head : BitVec 16} {chain : List VirtqDesc} :
    q.fetchDescriptorChain mem head = .ok (some chain) ↔
      q.descAddr ≠ 0#64 ∧ q.Linked mem head chain ∧ chain.length ≤ q.size.toNat := by
  rw [fetchDescriptorChain, ← followChain_eq_some]
  split
  · simp_all
  · simp_all

end VirtQueueState

/-- The part of a VirtIO device that `process_queue` works on. -/
structure Virtio (δ : Type) where
  mem : GuestMemory
  queue0 : VirtQueueState
  interruptStatus : BitVec 32 := 0#32
  /-- Calls of `raise_irq`. -/
  irqs : Nat := 0
  device : δ

/-- What a device does with a chain: `none` refuses it as malformed. -/
abbrev Serve (δ : Type) := GuestMemory → δ → List VirtqDesc → Except HostError (Option (GuestMemory × δ × BitVec 32))

namespace Virtio

variable {δ : Type}

/-- The avail entry is consumed and nothing else happens. -/
def skip (s : Virtio δ) : Virtio δ :=
  { s with queue0 := { s.queue0 with lastAvailIdx := s.queue0.lastAvailIdx + 1#16 } }

/-- Both indices after a chain has been handed back. -/
def advanced (q : VirtQueueState) : VirtQueueState :=
  { q with lastAvailIdx := q.lastAvailIdx + 1#16, lastUsedIdx := q.lastUsedIdx + 1#16 }

/-- The end of a pass: used element, `used.idx`, interrupt. -/
def addUsed (s : Virtio δ) (head : BitVec 16) (len : BitVec 32) : Except HostError (Virtio δ) := do
  let q := s.queue0
  let mem ← s.mem.store .used q.usedElem 32 (head.setWidth 64)
  let mem ← mem.store .used (q.usedElem + 4#64) 32 (len.setWidth 64)
  let mem ← mem.store .used (q.usedAddr + 2#64) 16 ((q.lastUsedIdx + 1#16).setWidth 64)
  let interruptStatus := s.interruptStatus ||| 1#32
  return { s with mem := mem, queue0 := advanced q, interruptStatus := interruptStatus, irqs := s.irqs + 1 }

/-- The body of the loop of `process_queue`. -/
def processOne (serve : Serve δ) (s : Virtio δ) : Except HostError (Virtio δ) := do
  let head ← s.mem.load s.queue0.availEntry 16
  match ← s.queue0.fetchDescriptorChain s.mem (head.setWidth 16) with
  | none => return s.skip
  | some chain =>
    match ← serve s.mem s.device chain with
    | none => return s.skip
    | some (mem, device, len) => addUsed { s with mem := mem, device := device } (head.setWidth 16) len

/-- The condition of the loop: `avail.idx` was read before it. -/
def waiting (availIdx : BitVec 16) (s : Virtio δ) : Bool := s.queue0.lastAvailIdx != availIdx

/-- `process_queue(qsel)`; 65536 passes are more than two 16-bit indices can be apart. -/
def processQueue (serve : Serve δ) (s : Virtio δ) (qsel : BitVec 32) : Except HostError (Virtio δ) := do
  if qsel ≠ 0#32 then return s
  if !s.queue0.ready || s.queue0.size == 0#32 then return s
  let availIdx ← s.mem.load (s.queue0.availAddr + 2#64) 16
  loop (waiting (availIdx.setWidth 16)) (processOne serve) 0x10000 s

variable {serve : Serve δ} {s t u : Virtio δ}

/-- The chain that a pass works on: the next avail entry names it. -/
def Head (s : Virtio δ) (head : Word) (chain : List VirtqDesc) : Prop :=
  s.mem.load s.queue0.availEntry 16 = .ok head ∧
    s.queue0.fetchDescriptorChain s.mem (head.setWidth 16) = .ok (some chain)

theorem processOne_cases (ran : processOne serve s = .ok u) :
    (u = s.skip ∧ ∀ head chain, s.Head head chain → serve s.mem s.device chain = .ok none) ∨
      ∃ head chain mem device len, s.Head head chain ∧ serve s.mem s.device chain = .ok (some (mem, device, len)) ∧
        addUsed { s with mem := mem, device := device } (head.setWidth 16) len = .ok u := by
  obtain ⟨head, loaded, ran⟩ := bind_eq_ok.mp ran
  obtain ⟨fetched, fetch, ran⟩ := bind_eq_ok.mp ran
  -- The head and the chain are functions of the state.
  have only {head' : Word} {chain' : List VirtqDesc} (here : s.Head head' chain') :
      head = head' ∧ fetched = some chain' := by
    obtain rfl := Except.ok.inj (loaded.symm.trans here.1)
    exact ⟨rfl, Except.ok.inj (fetch.symm.trans here.2)⟩
  cases fetched with
  | none => exact .inl ⟨(pure_eq_ok.mp ran).symm, fun _ _ here => nomatch (only here).2⟩
  | some chain =>
    obtain ⟨answer, served, ran⟩ := bind_eq_ok.mp ran
    cases answer with
    | none =>
      refine .inl ⟨(pure_eq_ok.mp ran).symm, fun head' chain' here => ?_⟩
      obtain rfl := Option.some.inj (only here).2
      exact served
    | some p =>
      obtain ⟨mem, device, len⟩ := p
      exact .inr ⟨head, chain, mem, device, len, ⟨loaded, fetch⟩, served, ran⟩

theorem addUsed_queue0 {head : BitVec 16} {len : BitVec 32} (ran : addUsed s head len = .ok u) :
    u.queue0 = advanced s.queue0 := by
  obtain ⟨_, -, ran⟩ := bind_eq_ok.mp ran
  obtain ⟨_, -, ran⟩ := bind_eq_ok.mp ran
  obtain ⟨_, -, ran⟩ := bind_eq_ok.mp ran
  rw [← pure_eq_ok.mp ran]

theorem processOne_lastAvailIdx (ran : processOne serve s = .ok u) :
    u.queue0.lastAvailIdx = s.queue0.lastAvailIdx + 1#16 := by
  rcases processOne_cases ran with ⟨rfl, -⟩ | ⟨_, _, _, _, _, -, -, added⟩
  · rfl
  · rw [addUsed_queue0 added]
    rfl

/-- Entries left to be consumed. -/
def left (availIdx : BitVec 16) (s : Virtio δ) : Nat := (availIdx - s.queue0.lastAvailIdx).toNat

theorem waiting_iff (availIdx : BitVec 16) (s : Virtio δ) : s.waiting availIdx = true ↔ s.left availIdx ≠ 0 := by
  rw [waiting, left, bne_iff_ne]
  bv_omega

theorem left_falls (availIdx : BitVec 16) (go : s.waiting availIdx = true) (ran : processOne serve s = .ok u) :
    u.left availIdx + 1 = s.left availIdx := by
  have waits := (waiting_iff availIdx s).mp go
  rw [left] at waits ⊢
  rw [left, processOne_lastAvailIdx ran]
  bv_omega

/-- A call on a queue in use is a loop that ends by itself, one pass for each entry up to the
    `avail.idx` read before it. -/
theorem processQueue_passes (ready : s.queue0.ready = true) (nonempty : s.queue0.size ≠ 0#32)
    (ran : s.processQueue serve 0#32 = .ok u) :
    ∃ availIdx l, s.mem.load (s.queue0.availAddr + 2#64) 16 = .ok availIdx ∧
      Passes (waiting (availIdx.setWidth 16)) (processOne serve) s l u ∧
      l.length = s.left (availIdx.setWidth 16) ∧ u.queue0.lastAvailIdx = availIdx.setWidth 16 := by
  have used : (!s.queue0.ready || s.queue0.size == 0#32) = false := by
    simp [ready, nonempty]
  simp only [processQueue, ne_eq, not_true_eq_false, if_false, used, Bool.false_eq_true] at ran
  obtain ⟨availIdx, loaded, ran⟩ := bind_eq_ok.mp ran
  have enough : s.left (availIdx.setWidth 16) ≤ 0x10000 := Nat.le_of_lt (BitVec.isLt _)
  obtain ⟨l, passes, length⟩ := passes_of_loop (waiting_iff (availIdx.setWidth 16))
    (fun _ _ => left_falls (availIdx.setWidth 16)) enough ran
  refine ⟨availIdx, l, loaded, passes, length, ?_⟩
  simpa [waiting] using passes.stopped

end Virtio

end Rv64Vm
