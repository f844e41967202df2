import Rv64Vm.Devices.VirtioBlk
import Rv64Vm.Devices.VirtioRng

/-! # What the driver gets back

A pass of `process_queue` hands its chain back if it appends one used element that names the
chain's head. It does so exactly when the chain is one the device serves: a chain that does not
end within the queue size, or that is refused as malformed, is consumed and lost.
-/

namespace Rv64Vm

open Lib

namespace Virtio

variable {δ : Type} {serve : Serve δ} {accepted : List VirtqDesc → Prop} {s t u : Virtio δ}

/-- The stores that were made between two states. -/
def newStores (t u : Virtio δ) : List StoreRecord := u.mem.log.drop t.mem.log.length

/-- The stores of `addUsed`. -/
def usedStores (q : VirtQueueState) (head : BitVec 16) (len : BitVec 32) : List StoreRecord :=
  [⟨q.usedElem, 4, head.setWidth 64, .used⟩, ⟨q.usedElem + 4#64, 4, len.setWidth 64, .used⟩,
    ⟨q.usedAddr + 2#64, 2, (q.lastUsedIdx + 1#16).setWidth 64, .used⟩]

theorem slot_lt (q : VirtQueueState) (idx : BitVec 16) : (q.slot idx).toNat < 0x10000 := by
  rw [VirtQueueState.slot, BitVec.toNat_setWidth]
  exact Nat.lt_of_le_of_lt (Nat.mod_le ..) (BitVec.isLt _)

/-- The element and `used.idx` are different bytes of the ring. -/
theorem usedElem_apart (q : VirtQueueState) :
    Apart (q.usedElem + 4#64) 4 q.usedElem 4 ∧ Apart (q.usedAddr + 2#64) 2 q.usedElem 4 := by
  have small := slot_lt q q.lastUsedIdx
  simp only [Apart, VirtQueueState.usedElem]
  generalize q.slot q.lastUsedIdx = k at small ⊢
  refine ⟨⟨?_, ?_⟩, ?_, ?_⟩ <;> bv_omega

/-- What the end of a pass leaves in memory. -/
theorem addUsed_spec {head : BitVec 16} {len : BitVec 32} (ran : addUsed s head len = .ok u) :
    s.mem.Stored u.mem (usedStores s.queue0 head len) ∧ u.device = s.device ∧
      u.mem.load s.queue0.usedElem 32 = .ok (head.setWidth 64) ∧
      u.mem.load (s.queue0.usedAddr + 2#64) 16 = .ok ((s.queue0.lastUsedIdx + 1#16).setWidth 64) := by
  obtain ⟨first, element, ran⟩ := bind_eq_ok.mp ran
  obtain ⟨second, length, ran⟩ := bind_eq_ok.mp ran
  obtain ⟨third, index, ran⟩ := bind_eq_ok.mp ran
  obtain rfl := pure_eq_ok.mp ran
  obtain ⟨apartLen, apartIdx⟩ := usedElem_apart s.queue0
  have narrow (x : BitVec 16) (w : Nat) (wide : 16 ≤ w) :
      ((x.setWidth 64).setWidth w).setWidth 64 = x.setWidth 64 := by
    apply BitVec.eq_of_getLsbD_eq
    intro b hb
    simp only [BitVec.getLsbD_setWidth, hb, decide_true, Bool.true_and]
    by_cases low : b < 16
    · have : b < w := by omega
      simp [this]
    · simp [BitVec.getLsbD_of_ge x b (by omega)]
  refine ⟨((GuestMemory.store_stored element).trans (GuestMemory.store_stored length)).trans
    (GuestMemory.store_stored index), rfl, ?_, ?_⟩
  · rw [(GuestMemory.store_stored index).frame _ _ (by simpa using apartIdx),
      (GuestMemory.store_stored length).frame _ _ (by simpa using apartLen),
      GuestMemory.load_store_same element, narrow head 32 (by decide)]
  · rw [GuestMemory.load_store_same index, narrow _ 16 (by decide)]

/-- The pass from `t` to `u` hands the consumed chain back: it writes one used element, with
    the head as its id, in the slot of `last_used_idx`, and then the next `used.idx`. -/
def Appended (t u : Virtio δ) : Prop :=
  ∃ head len, t.mem.load t.queue0.availEntry 16 = .ok head ∧ u.queue0 = advanced t.queue0 ∧
    (newStores t u).filter (·.purpose = .used) = usedStores t.queue0 (head.setWidth 16) len ∧
    u.mem.load t.queue0.usedElem 32 = .ok head ∧
    u.mem.load (t.queue0.usedAddr + 2#64) 16 = .ok (u.queue0.lastUsedIdx.setWidth 64)

/-- The next avail entry names a chain that ends within the queue size and that the device
    serves. -/
def Returnable (accepted : List VirtqDesc → Prop) (t : Virtio δ) : Prop :=
  t.queue0.descAddr ≠ 0#64 ∧ ∃ head chain, t.mem.load t.queue0.availEntry 16 = .ok head ∧
    t.queue0.Linked t.mem (head.setWidth 16) chain ∧ chain.length ≤ t.queue0.size.toNat ∧ accepted chain

/-- What is used of a device: which chains it serves, and that the used ring is not its own. -/
structure Obeys (serve : Serve δ) (accepted : List VirtqDesc → Prop) : Prop where
  refuses : ∀ {mem d chain}, serve mem d chain = .ok none → ¬ accepted chain
  serves : ∀ {mem d chain mem' d' len}, serve mem d chain = .ok (some (mem', d', len)) →
    accepted chain ∧ ∃ new, mem.Stored mem' new ∧ ∀ r ∈ new, r.purpose ≠ .used

theorem appended_iff (obeys : Obeys serve accepted) (ran : processOne serve t = .ok u) :
    Appended t u ↔ Returnable accepted t := by
  rcases processOne_cases ran with ⟨rfl, refused⟩ | ⟨head, chain, mem, device, len, here, served, added⟩
  · -- Neither side: the used index stays, and the device has refused the chain if there is one.
    constructor
    · rintro ⟨head, len, -, moved, -⟩
      have stays : t.queue0.lastUsedIdx = t.queue0.lastUsedIdx + 1#16 := congrArg (·.lastUsedIdx) moved
      bv_omega
    · rintro ⟨table, head, chain, loaded, linked, short, good⟩
      have fetched := VirtQueueState.fetchDescriptorChain_eq_some.mpr ⟨table, linked, short⟩
      exact absurd good (obeys.refuses (refused head chain ⟨loaded, fetched⟩))
  · -- Both sides.
    obtain ⟨good, new, stored, quiet⟩ := obeys.serves served
    obtain ⟨table, linked, short⟩ := VirtQueueState.fetchDescriptorChain_eq_some.mp here.2
    obtain ⟨used, -, element, index⟩ := addUsed_spec added
    have queue := addUsed_queue0 added
    have stores : newStores t u = new ++ usedStores t.queue0 (head.setWidth 16) len := by
      rw [newStores, (stored.trans used).log, List.drop_left]
    have idle : new.filter (·.purpose = .used) = [] := by
      rw [List.filter_eq_nil_iff]
      intro r listed
      simpa using quiet r listed
    refine ⟨fun _ => ⟨table, head, chain, here.1, linked, short, good⟩, fun _ => ?_⟩
    refine ⟨head, len, here.1, queue, ?_, ?_, ?_⟩
    · rw [stores, List.filter_append, idle]
      rfl
    · rw [element, MemoryMap.load_fits here.1]
    · rw [index, queue]
      rfl

/-- One call: `l` are the states before and after each pass. -/
structure Call (serve : Serve δ) (s : Virtio δ) (l : List (Virtio δ × Virtio δ)) (u : Virtio δ) : Prop where
  passes : ∃ availIdx, s.mem.load (s.queue0.availAddr + 2#64) 16 = .ok availIdx ∧
    Passes (waiting (availIdx.setWidth 16)) (processOne serve) s l u ∧
    l.length = (availIdx.setWidth 16 - s.queue0.lastAvailIdx).toNat ∧
    u.queue0.lastAvailIdx = availIdx.setWidth 16

theorem Call.single {l : List (Virtio δ × Virtio δ)} (call : Call serve s l u)
    (one : s.mem.load (s.queue0.availAddr + 2#64) 16 = .ok ((s.queue0.lastAvailIdx + 1#16).setWidth 64)) :
    l = [(s, u)] := by
  obtain ⟨availIdx, loaded, passes, length, -⟩ := call.passes
  obtain rfl := Except.ok.inj (one.symm.trans loaded)
  have alone : l.length = 1 := by
    rw [length]
    bv_omega
  cases passes with
  | done => cases alone
  | pass _ _ later =>
    cases later with
    | done => rfl
    | pass => simp at alone

/-- The queue that a notification names is one the device works on. -/
def InUse (s : Virtio δ) (qsel : BitVec 32) : Prop := qsel = 0#32 ∧ s.queue0.ready = true ∧ s.queue0.size ≠ 0#32

/-- A call for any queue: if the queue is not in use it does nothing. -/
def Calls (serve : Serve δ) (qsel : BitVec 32) (s : Virtio δ) (l : List (Virtio δ × Virtio δ)) (u : Virtio δ) : Prop :=
  (s.InUse qsel → Call serve s l u) ∧ (¬ s.InUse qsel → l = [] ∧ u = s)

theorem processQueue_calls {qsel : BitVec 32} (ran : s.processQueue serve qsel = .ok u) :
    ∃ l, Calls serve qsel s l u ∧ ∀ p ∈ l, processOne serve p.1 = .ok p.2 := by
  by_cases used : s.InUse qsel
  · obtain ⟨rfl, ready, nonempty⟩ := used
    obtain ⟨availIdx, l, loaded, passes, length, reached⟩ := processQueue_passes ready nonempty ran
    refine ⟨l, ⟨fun _ => ⟨availIdx, loaded, passes, length, reached⟩, fun idle => ?_⟩,
      fun p listed => (passes.each p listed).2⟩
    exact absurd ⟨rfl, ready, nonempty⟩ idle
  · have same : s = u := by
      rw [processQueue] at ran
      split at ran
      · exact pure_eq_ok.mp ran
      · rename_i zero
        split at ran
        · exact pure_eq_ok.mp ran
        · rename_i busy
          refine absurd ⟨Decidable.not_not.mp zero, ?_⟩ used
          simpa using busy
    exact ⟨[], ⟨fun busy => absurd busy used, fun _ => ⟨rfl, same.symm⟩⟩,
      fun _ listed => absurd listed List.not_mem_nil⟩

/-- What holds of a pass exactly if the state before it is good, over all passes of a call. -/
theorem processQueue_calls_iff {P : Virtio δ → Virtio δ → Prop} {Good : Virtio δ → Prop} {qsel : BitVec 32}
    (each : ∀ {t t'}, processOne serve t = .ok t' → (P t t' ↔ Good t)) (ran : s.processQueue serve qsel = .ok u) :
    ∃ l, Calls serve qsel s l u ∧ ((∀ p ∈ l, P p.1 p.2) ↔ ∀ p ∈ l, Good p.1) := by
  obtain ⟨l, calls, passes⟩ := processQueue_calls ran
  exact ⟨l, calls, forall₂_congr fun p listed => each (passes p listed)⟩

theorem lastUsedIdx_of_appended {cond : Virtio δ → Bool} {l : List (Virtio δ × Virtio δ)}
    (passes : Passes cond (processOne serve) s l u) (each : ∀ p ∈ l, Appended p.1 p.2) :
    u.queue0.lastUsedIdx = s.queue0.lastUsedIdx + BitVec.ofNat 16 l.length := by
  induction passes with
  | done => simp
  | @pass s t u rest _ _ _ ih =>
    obtain ⟨⟨_, _, _, queue, -⟩, later⟩ := List.forall_mem_cons.mp each
    rw [ih later, queue, List.length_cons, BitVec.ofNat_add]
    simp only [advanced]
    rw [BitVec.add_assoc, BitVec.add_comm (1#16)]

theorem call_returns_iff (obeys : Obeys serve accepted) (ready : s.queue0.ready = true)
    (nonempty : s.queue0.size ≠ 0#32) (ran : s.processQueue serve 0#32 = .ok u) :
    ∃ l, Call serve s l u ∧
      ((∀ p ∈ l, Appended p.1 p.2) ∧ u.queue0.lastUsedIdx = s.queue0.lastUsedIdx + BitVec.ofNat 16 l.length ↔
        ∀ p ∈ l, Returnable accepted p.1) := by
  obtain ⟨availIdx, l, loaded, passes, length, reached⟩ := processQueue_passes ready nonempty ran
  refine ⟨l, ⟨availIdx, loaded, passes, length, reached⟩, ?_⟩
  have each : ∀ p ∈ l, (Appended p.1 p.2 ↔ Returnable accepted p.1) := fun p listed =>
    appended_iff obeys (passes.each p listed).2
  constructor
  · intro ⟨appended, _⟩ p listed
    exact (each p listed).mp (appended p listed)
  · intro returnable
    have appended : ∀ p ∈ l, Appended p.1 p.2 := fun p listed => (each p listed).mpr (returnable p listed)
    exact ⟨appended, lastUsedIdx_of_appended passes appended⟩

end Virtio

theorem scatterLog_data {buf : List Byte} {data : List VirtqDesc} {pos : Nat} :
    ∀ r ∈ scatterLog buf data pos, r.purpose = .data := by
  induction data generalizing pos with
  | nil => exact nofun
  | cons d rest ih =>
    refine List.forall_mem_append.mpr ⟨fun r listed => (GuestMemory.of_mem_copyLog listed).1, ?_⟩
    split
    · exact ih
    · exact nofun

theorem Blk.Performed.stored {mem mem' : GuestMemory} {b b' : Blk} {req : VirtioBlkReq} {data : List VirtqDesc}
    {ok : Bool} (done : Blk.Performed mem b req data mem' b' ok) :
    ∃ new, mem.Stored mem' new ∧ ∀ r ∈ new, r.purpose = .data := by
  cases done with
  | unseekable | unsupported | write => exact ⟨[], .refl mem, nofun⟩
  | read _ _ _ _ stored => exact ⟨_, stored, scatterLog_data⟩

theorem Blk.obeys : Virtio.Obeys Blk.serve Blk.Accepted where
  refuses ran := by
    cases Blk.served ran with
    | refused malformed => exact malformed
  serves {mem d chain mem' d' len} ran := by
    cases Blk.served ran with
    | silent accepted => exact ⟨accepted, [], .refl mem, nofun⟩
    | answered accepted _ performed answer =>
      obtain ⟨new, stored, data⟩ := performed.stored
      refine ⟨accepted, _, stored.trans (GuestMemory.store_stored answer), ?_⟩
      refine List.forall_mem_append.mpr ⟨fun r listed => by rw [data r listed]; decide, ?_⟩
      rw [List.forall_mem_singleton]
      exact nofun

theorem Rng.obeys : Virtio.Obeys Rng.serve fun _ => True where
  refuses ran := by
    obtain ⟨_, -, ran⟩ := bind_eq_ok.mp ran
    cases pure_eq_ok.mp ran
  serves ran := by
    obtain ⟨_, filled, ran⟩ := bind_eq_ok.mp ran
    obtain rfl := Option.some.inj (pure_eq_ok.mp ran)
    obtain ⟨new, stored, data⟩ := Rng.fill_stored filled
    exact ⟨trivial, new, stored, fun r listed => by rw [data r listed]; decide⟩

/-- A page of RAM at `0x80000000` that is zero but for the listed bytes. -/
def pageWith (bytes : List (Nat × Byte)) : GuestMemory where
  mmap :=
    { regions := [{ baseAddr := dramBase, size := 0x1000#64, host := 0#64, data := fun i => (bytes.lookup i).getD 0 }]
      ramDirect := some 0
      ramHigh := by
        rintro i ⟨⟩
        exact ⟨_, rfl, BitVec.le_refl _⟩ }

/-- Four entries; the table is at the start of the page, the rings follow. -/
def smallQueue : VirtQueueState :=
  { size := 4#32, descAddr := dramBase, availAddr := 0x80000100#64, usedAddr := 0x80000200#64, ready := true }

/-- One avail entry, for descriptor 0. -/
def offered {δ : Type} (device : δ) (bytes : List (Nat × Byte)) : Virtio δ where
  mem := pageWith ((0x102, 1#8) :: bytes)
  queue0 := smallQueue
  device := device

def noDisk : Blk := Blk.init none nofun

/-- A header at `0x80000300` and a status byte at `0x80000400`. -/
def readRequest : List (Nat × Byte) :=
  [(1, 3#8), (3, 0x80#8), (8, 16#8), (12, 1#8), (14, 1#8), (17, 4#8), (19, 0x80#8), (24, 1#8), (28, 2#8)]

end Rv64Vm
