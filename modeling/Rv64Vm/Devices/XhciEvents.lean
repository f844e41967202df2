import Rv64Vm.Devices.XhciWrites
import Rv64Vm.Lib.CycleRing
import Rv64Vm.Lib.Runs

/-! # The event ring

The controller pushes events into a ring of guest memory, and a driver takes them out behind it. The two
meet only in the cycle bits: `push_event` never looks at how far the driver has come.
-/

namespace Rv64Vm.Xhci

open Lib

/-! ## Producer and consumer -/

/-- An event ring of one segment. -/
structure EventRing where
  base : Word
  n : Nat
  two : 2 ≤ n
  fits : base.toNat + 16 * n ≤ 2 ^ 64

/-- The address of a TRB of the ring. -/
def EventRing.place (ring : EventRing) (i : Nat) : Word := ring.base + BitVec.ofNat 64 (16 * i)

/-- The segment is the last one of the address space. -/
def EventRing.AtTop (ring : EventRing) : Prop := ring.base.toNat + 16 * ring.n = 2 ^ 64

instance (ring : EventRing) : Decidable ring.AtTop := inferInstanceAs (Decidable (_ = _))

/-- An event without its cycle bit. -/
def Trb.payload (t : Trb) : Trb := t.withCycle false

/-- A controller and a driver, with the events that were pushed and those that the driver saw. -/
structure Events (δ : Type) where
  ctrl : Controller δ
  deq : Word
  ccs : Bool
  pushed : List Trb
  observed : List Trb

inductive EventOp where
  | push (evt : Trb)
  | consume
  | erdp (val : Word) (long : Bool)
  | erdpHigh (val : Word)

namespace Events

variable {δ : Type}

/-- The driver looks at its TRB. -/
def consume (ring : EventRing) (s : Events δ) : Events δ :=
  let trb := s.ctrl.dma.readTrb s.deq
  if trb.cycle = s.ccs then
    let next := s.deq + trbSize
    let wraps := next = ring.place ring.n
    { s with
      deq := if wraps then ring.base else next
      ccs := if wraps then !s.ccs else s.ccs
      observed := s.observed ++ [trb.payload] }
  else s

def step (ring : EventRing) (s : Events δ) : EventOp → Events δ
  | .push evt => { s with ctrl := s.ctrl.pushEvent evt, pushed := s.pushed ++ [evt.payload] }
  | .consume => s.consume ring
  | .erdp val long => { s with ctrl := s.ctrl.writeRuntime val long .erdp }
  | .erdpHigh val => { s with ctrl := s.ctrl.writeRuntime val false .erdpHigh }

/-- However often the driver looks, it sees the events that were pushed, each once and in order; and those it has not
    seen yet are all in memory. -/
structure Delivered (ring : EventRing) (s : Events δ) : Prop where
  seen : ∀ k, ((consume ring)^[k] s).observed = s.pushed.take (s.observed.length + k)
  kept : ∀ i evt, s.observed.length ≤ i → s.pushed[i]? = some evt →
    (s.ctrl.dma.readTrb (ring.place (i % ring.n))).payload = evt

/-- The ring has been set up, and nothing has been pushed. -/
structure Fresh (ring : EventRing) (s : Events δ) : Prop where
  ringBase : s.ctrl.intr.ringBase = ring.base
  ringEnd : s.ctrl.intr.ringEnd = ring.place ring.n
  enqueue : s.ctrl.intr.eventEnqueuePtr = ring.base
  pcs : s.ctrl.intr.pcs = true
  clear : ∀ i < ring.n, (s.ctrl.dma.readTrb (ring.place i)).cycle = false
  deq : s.deq = ring.base
  ccs : s.ccs = true
  pushed : s.pushed = []
  observed : s.observed = []

/-- An event is pushed while fewer than `n` are unseen. A ring at address 0 takes none, and one that ends at the top
    of the address space takes a single one. -/
def Room (ring : EventRing) (s : Events δ) : EventOp → Prop
  | .push _ => s.pushed.length < s.observed.length + ring.n ∧ ring.base ≠ 0 ∧ (ring.AtTop → s.pushed = [])
  | _ => True

end Events

/-! ## Places -/

namespace EventRing

variable {ring : EventRing} {i j : Nat}

theorem toNat_place (inside : i < ring.n) : (ring.place i).toNat = ring.base.toNat + 16 * i := by
  have fits := ring.fits
  rw [place, BitVec.toNat_add, BitVec.toNat_ofNat]
  omega

theorem place_zero : ring.place 0 = ring.base := BitVec.add_zero _

theorem place_add (i : Nat) : ring.place i + trbSize = ring.place (i + 1) := by
  rw [place, place, Nat.mul_add, BitVec.ofNat_add, ← BitVec.add_assoc]
  rfl

/-- The driver wraps behind the last TRB. -/
theorem place_eq_stop (inside : i < ring.n) : ring.place (i + 1) = ring.place ring.n ↔ ring.n ≤ i + 1 := by
  have fits := ring.fits
  constructor
  · intro same
    have values := congrArg BitVec.toNat same
    simp only [place, BitVec.toNat_add, BitVec.toNat_ofNat] at values
    omega
  · intro last
    rw [show i + 1 = ring.n by omega]

/-- The controller wraps there too, before the segment ends at the top of the address space. -/
theorem stop_le_place (below : ¬ ring.AtTop) (inside : i < ring.n) :
    ring.place ring.n ≤ ring.place (i + 1) ↔ ring.n ≤ i + 1 := by
  have fits := ring.fits
  unfold AtTop at below
  rw [BitVec.le_def]
  simp only [place, BitVec.toNat_add, BitVec.toNat_ofNat]
  omega

theorem stop_of_atTop (top : ring.AtTop) : ring.place ring.n = 0 := by
  have fits := ring.fits
  unfold AtTop at top
  apply BitVec.eq_of_toNat_eq
  simp only [place, BitVec.toNat_add, BitVec.toNat_ofNat, BitVec.ofNat_eq_ofNat]
  omega

theorem apart_place (inside : i < ring.n) (inside' : j < ring.n) (ne : i ≠ j) :
    Apart (ring.place i) 16 (ring.place j) 16 := by
  have fits := ring.fits
  have value := toNat_place inside
  have value' := toNat_place inside'
  constructor
  all_goals
    rw [BitVec.toNat_sub, value, value']
    omega

end EventRing

/-! ## Writing a TRB -/

theorem write_at (addr : Word) (m : Dma) {bytes : List Byte} (short : bytes.length ≤ 2 ^ 64) {j : Nat} {b : Byte}
    (here : bytes[j]? = some b) : m.write addr bytes (addr + BitVec.ofNat 64 j) = b := by
  induction bytes generalizing m addr j with
  | nil => cases here
  | cons first rest ih =>
    rw [List.length_cons] at short
    rw [Dma.write]
    cases j with
    | zero =>
      have zero : addr + BitVec.ofNat 64 0 = addr := BitVec.add_zero addr
      rw [zero, write_outside, Function.update_self]
      · exact Option.some.inj here
      · intro j inside same
        have values := congrArg BitVec.toNat same
        simp only [BitVec.toNat_add, BitVec.toNat_ofNat, BitVec.ofNat_eq_ofNat] at values
        omega
    | succ j =>
      have next : addr + BitVec.ofNat 64 (j + 1) = addr + 1 + BitVec.ofNat 64 j := by
        rw [BitVec.add_assoc, Nat.add_comm, BitVec.ofNat_add]
        rfl
      rw [next]
      exact ih _ (Function.update m addr first) (by omega) here

/-- An integer among the bytes that were written. -/
theorem read_write {w n : Nat} (width : w = 8 * n) (m : Dma) (addr : Word) (before after : List Byte) (x : BitVec w)
    (short : (before ++ bytesOf x n ++ after).length ≤ 2 ^ 64) :
    (m.write addr (before ++ bytesOf x n ++ after)).read w (addr + BitVec.ofNat 64 before.length) n = x := by
  apply eq_of_byteAt (Nat.le_of_eq width)
  intro i inside
  rw [Dma.read, byteAt_loadLE _ inside (Nat.le_of_eq width.symm), BitVec.add_assoc, ← BitVec.ofNat_add]
  apply write_at _ m short
  have range : (bytesOf x n)[i]? = some (byteAt x i) := by
    rw [bytesOf, List.getElem?_map, List.getElem?_range inside]
    rfl
  rw [List.append_assoc, List.getElem?_append_right (Nat.le_add_right ..), Nat.add_sub_cancel_left,
    List.getElem?_append_left (by rw [Controller.bytesOf_length]; exact inside), range]

theorem readTrb_write (m : Dma) (addr : Word) (t : Trb) : (m.write addr t.bytes).readTrb addr = t := by
  have parameter := read_write (show 64 = 8 * 8 from rfl) m addr [] (bytesOf t.status 4 ++ bytesOf t.control 4)
      t.parameter
    (by simp [Controller.bytesOf_length])
  have status := read_write (show 32 = 8 * 4 from rfl) m addr (bytesOf t.parameter 8) (bytesOf t.control 4) t.status
    (by simp [Controller.bytesOf_length])
  have control := read_write (show 32 = 8 * 4 from rfl) m addr (bytesOf t.parameter 8 ++ bytesOf t.status 4) []
      t.control
    (by simp [Controller.bytesOf_length])
  simp only [List.nil_append, List.append_nil, List.length_nil, List.length_append, Controller.bytesOf_length,
    ← List.append_assoc] at parameter status control
  have start : addr + BitVec.ofNat 64 0 = addr := BitVec.add_zero addr
  rw [start] at parameter
  unfold Dma.readTrb
  exact Trb.mk.injEq .. ▸ ⟨parameter, status, control⟩

theorem withCycle_cycle (t : Trb) (b : Bool) : (t.withCycle b).cycle = b := by
  cases b <;> simp [Trb.withCycle, Trb.cycle]

theorem withCycle_payload (t : Trb) (b : Bool) : (t.withCycle b).payload = t.payload := by
  have control : ((t.control &&& ~~~1#32) ||| (if b then 1 else 0)) &&& ~~~1#32 = t.control &&& ~~~1#32 := by
    rw [BitVec.and_or_distrib_right, BitVec.and_assoc, BitVec.and_self]
    cases b <;> simp
  simp only [Trb.payload, Trb.withCycle, control]

/-! ## The ring as a ring of cells -/

namespace Events

variable {δ : Type} {ring : EventRing} {s : Events δ} {r : CycleRing Trb}

/-- The TRB at `i`, and its cycle bit. -/
def cell (ring : EventRing) (m : Dma) (i : Nat) : Trb × Bool :=
  ((m.readTrb (ring.place i)).payload, (m.readTrb (ring.place i)).cycle)

/-- What memory and the driver have in common with `r`. -/
structure Mirrors (ring : EventRing) (s : Events δ) (r : CycleRing Trb) : Prop where
  ringBase : s.ctrl.intr.ringBase = ring.base
  ringEnd : s.ctrl.intr.ringEnd = ring.place ring.n
  cells : ∀ i < ring.n, r.cells i = cell ring s.ctrl.dma i
  inside : r.tail.1 < ring.n
  deq : s.deq = ring.place r.tail.1
  ccs : s.ccs = r.tail.2
  pushed : s.pushed = r.sent
  observed : s.observed = r.received

/-- What the controller has in common with `r`. -/
structure Produces (ring : EventRing) (s : Events δ) (r : CycleRing Trb) : Prop where
  inside : r.head.1 < ring.n
  enqueue : s.ctrl.intr.eventEnqueuePtr = ring.place r.head.1
  pcs : s.ctrl.intr.pcs = r.head.2

theorem Mirrors.consume (mirrors : Mirrors ring s r) : Mirrors ring (s.consume ring) (r.receive ring.n) := by
  have two := ring.two
  have inside := mirrors.inside
  have here := mirrors.cells _ inside
  have bit : (r.cells r.tail.1).2 = (s.ctrl.dma.readTrb s.deq).cycle := by rw [here, mirrors.deq]; rfl
  have value : (r.cells r.tail.1).1 = (s.ctrl.dma.readTrb s.deq).payload := by rw [here, mirrors.deq]; rfl
  by_cases taken : (s.ctrl.dma.readTrb s.deq).cycle = s.ccs
  · have next : s.deq + trbSize = ring.place (r.tail.1 + 1) := by rw [mirrors.deq, ring.place_add]
    rw [Events.consume, if_pos taken, CycleRing.receive, if_pos (by rw [bit, taken, mirrors.ccs])]
    by_cases last : ring.n ≤ r.tail.1 + 1
    · simp only [nextCell, if_pos last, next, EventRing.place_eq_stop inside]
      exact ⟨mirrors.ringBase, mirrors.ringEnd, mirrors.cells, show 0 < ring.n by omega, EventRing.place_zero.symm,
        by rw [mirrors.ccs], mirrors.pushed, by rw [mirrors.observed, value]⟩
    · simp only [nextCell, if_neg last, next, EventRing.place_eq_stop inside]
      exact ⟨mirrors.ringBase, mirrors.ringEnd, mirrors.cells, show r.tail.1 + 1 < ring.n by omega, rfl, mirrors.ccs,
        mirrors.pushed,
        by rw [mirrors.observed, value]⟩
  · rw [Events.consume, if_neg taken, CycleRing.receive, if_neg (by rw [bit, ← mirrors.ccs]; exact taken)]
    exact mirrors

theorem Mirrors.iterate (mirrors : Mirrors ring s r) (k : Nat) :
    Mirrors ring ((Events.consume ring)^[k] s) ((CycleRing.receive ring.n)^[k] r) := by
  induction k generalizing s r with
  | zero => exact mirrors
  | succ k ih =>
    rw [Function.iterate_succ_apply, Function.iterate_succ_apply]
    exact ih mirrors.consume

theorem Mirrors.delivered_iff (mirrors : Mirrors ring s r) : Delivered ring s ↔ CycleRing.Delivers ring.n r := by
  have two := ring.two
  have kept (i : Nat) : (s.ctrl.dma.readTrb (ring.place (i % ring.n))).payload = (r.cells (i % ring.n)).1 := by
    rw [mirrors.cells _ (Nat.mod_lt i (by omega))]
    rfl
  have seen (k : Nat) := (mirrors.iterate k).observed
  constructor
  · intro delivered
    refine ⟨fun k => ?_, fun i v low sent => ?_⟩
    · rw [← seen k, ← mirrors.pushed, ← mirrors.observed]
      exact delivered.seen k
    · rw [← kept]
      rw [← mirrors.observed] at low
      rw [← mirrors.pushed] at sent
      exact delivered.kept i v low sent
  · intro delivers
    refine ⟨fun k => ?_, fun i v low sent => ?_⟩
    · rw [seen k, mirrors.pushed, mirrors.observed]
      exact delivers.taken k
    · rw [kept]
      rw [mirrors.observed] at low
      rw [mirrors.pushed] at sent
      exact delivers.kept i v low sent

/-! ## Pushing -/

theorem cell_write {m : Dma} {h : Nat} (inside : h < ring.n) (t : Trb) {i : Nat} (inside' : i < ring.n) :
    cell ring (m.write (ring.place h) t.bytes) i =
      if i = h then (t.payload, t.cycle) else cell ring m i := by
  split
  case isTrue same =>
    rw [same, cell, readTrb_write]
  case isFalse ne =>
    have apart := EventRing.apart_place inside inside' (Ne.symm ne)
    have agrees : Agrees m (m.write (ring.place h) t.bytes) (ring.place i) 16 :=
      write_agrees (by rw [Controller.trb_bytes_length]; exact apart) m
    rw [cell, cell, agrees.readTrb]

theorem pushEvent_on {c : Controller δ} (on : c.intr.ringBase ≠ 0) (evt : Trb) :
    (c.pushEvent evt).dma = c.dma.write c.intr.eventEnqueuePtr (evt.withCycle c.intr.pcs).bytes ∧
      ∃ x, (c.pushEvent evt).intr = { c.intr.advance with iman := x } := by
  rw [Controller.pushEvent_eq, if_neg on]
  have only := Controller.updateIrq_irqOnly (c.pushed (evt.withCycle c.intr.pcs))
  obtain ⟨x, intr⟩ := only.intr
  exact ⟨only.dma, x, intr⟩

theorem advance_ringEnd (i : Interrupter) : i.advance.ringEnd = i.ringEnd := by
  unfold Interrupter.advance
  dsimp only
  split <;> rfl

theorem advance_wraps {i : Interrupter} (last : i.ringEnd ≤ i.eventEnqueuePtr + trbSize) :
    i.advance = { i with eventEnqueuePtr := i.ringBase, pcs := !i.pcs } :=
  if_pos last

theorem advance_stays {i : Interrupter} (inside : ¬ i.ringEnd ≤ i.eventEnqueuePtr + trbSize) :
    i.advance = { i with eventEnqueuePtr := i.eventEnqueuePtr + trbSize } :=
  if_neg inside

theorem Mirrors.push (mirrors : Mirrors ring s r) (on : ring.base ≠ 0) {h : Nat} (inside : h < ring.n)
    (enqueue : s.ctrl.intr.eventEnqueuePtr = ring.place h) (evt : Trb) (head : Nat × Bool) :
    Mirrors ring (s.step ring (.push evt))
      { r with
        cells := Function.update r.cells h (evt.payload, s.ctrl.intr.pcs)
        head := head
        sent := r.sent ++ [evt.payload] } := by
  obtain ⟨dma, x, intr⟩ := pushEvent_on (c := s.ctrl) (by rw [mirrors.ringBase]; exact on) evt
  constructor
  · rw [step, intr]
    exact (advance_ringBase _).trans mirrors.ringBase
  · rw [step, intr]
    exact (advance_ringEnd _).trans mirrors.ringEnd
  · intro i inside'
    simp only [step, dma, enqueue]
    rw [cell_write inside _ inside', withCycle_payload, withCycle_cycle, Function.update_apply, mirrors.cells i inside']
  · exact mirrors.inside
  · exact mirrors.deq
  · exact mirrors.ccs
  · simp only [step, mirrors.pushed]
  · exact mirrors.observed

theorem Produces.push (produces : Produces ring s r) (mirrors : Mirrors ring s r) (on : ring.base ≠ 0)
    (below : ¬ ring.AtTop) (evt : Trb) :
    Produces ring (s.step ring (.push evt)) (r.send ring.n evt.payload) := by
  obtain ⟨-, x, intr⟩ := pushEvent_on (c := s.ctrl) (by rw [mirrors.ringBase]; exact on) evt
  have two := ring.two
  have inside := produces.inside
  have next : s.ctrl.intr.eventEnqueuePtr + trbSize = ring.place (r.head.1 + 1) := by
    rw [produces.enqueue, ring.place_add]
  have wraps : s.ctrl.intr.ringEnd ≤ s.ctrl.intr.eventEnqueuePtr + trbSize ↔ ring.n ≤ r.head.1 + 1 := by
    rw [next, mirrors.ringEnd, EventRing.stop_le_place below inside]
  by_cases last : ring.n ≤ r.head.1 + 1
  · have advanced := advance_wraps (wraps.mpr last)
    constructor
    · simp only [CycleRing.send, nextCell, if_pos last]
      omega
    · simp only [step, intr, advanced, CycleRing.send, nextCell, if_pos last, EventRing.place_zero, mirrors.ringBase]
    · simp only [step, intr, advanced, CycleRing.send, nextCell, if_pos last, produces.pcs]
  · have advanced := advance_stays (mt wraps.mp last)
    constructor
    · simp only [CycleRing.send, nextCell, if_neg last]
      omega
    · simp only [step, intr, advanced, CycleRing.send, nextCell, if_neg last, next]
    · simp only [step, intr, advanced, CycleRing.send, nextCell, if_neg last, produces.pcs]

/-- The state is that of a ring that is in order; at the top of the address space the enqueue pointer goes back to
    the base with the first event. -/
structure Linked (ring : EventRing) (s : Events δ) (r : CycleRing Trb) : Prop where
  mirrors : Mirrors ring s r
  ok : CycleRing.Ok ring.n r
  produces : (ring.AtTop → s.pushed = []) → Produces ring s r
  back : ring.AtTop → s.pushed ≠ [] →
    s.ctrl.intr.eventEnqueuePtr = ring.base ∧ s.ctrl.intr.pcs = false ∧ s.pushed.length = 1

theorem Fresh.linked (fresh : Fresh ring s) : Linked ring s ⟨cell ring s.ctrl.dma, (0, true), (0, true), [], []⟩ := by
  have two := ring.two
  refine ⟨⟨fresh.ringBase, fresh.ringEnd, fun _ _ => rfl, show 0 < ring.n by omega, ?_, fresh.ccs, fresh.pushed,
    fresh.observed⟩, .fresh fresh.clear, fun _ => ⟨show 0 < ring.n by omega, ?_, fresh.pcs⟩,
    fun _ nonempty => absurd fresh.pushed nonempty⟩
  · exact fresh.deq.trans EventRing.place_zero.symm
  · exact fresh.enqueue.trans EventRing.place_zero.symm

section Kept

variable (linked : Linked ring s r)

include linked

theorem Linked.push {evt : Trb} (room : Room ring s (.push evt)) :
    Linked ring (s.step ring (.push evt)) (r.send ring.n evt.payload) := by
  obtain ⟨short, on, first⟩ := room
  obtain ⟨mirrors, ok, produces, -⟩ := linked
  have produces := produces first
  have after := mirrors.push on produces.inside produces.enqueue evt (nextCell ring.n r.head)
  rw [produces.pcs] at after
  rw [mirrors.pushed, mirrors.observed] at short
  have nonempty : (s.step ring (.push evt)).pushed ≠ [] := by simp [step]
  refine ⟨after, ok.send short _, fun before => ?_, fun top _ => ?_⟩
  · have below : ¬ ring.AtTop := fun top => nonempty (before top)
    exact produces.push mirrors on below evt
  · obtain ⟨-, x, intr⟩ := pushEvent_on (c := s.ctrl) (by rw [mirrors.ringBase]; exact on) evt
    have empty := first top
    have advanced : s.ctrl.intr.advance =
        { s.ctrl.intr with eventEnqueuePtr := s.ctrl.intr.ringBase, pcs := !s.ctrl.intr.pcs } := by
      apply advance_wraps
      rw [mirrors.ringEnd, EventRing.stop_of_atTop top]
      exact BitVec.le_def.mpr (Nat.zero_le _)
    have head : s.ctrl.intr.pcs = true := by
      rw [produces.pcs, ok.head, ← mirrors.pushed, empty]
      exact lap_of_lt (show 0 < ring.n by have := ring.two; omega)
    simp only [step, intr, advanced, head, empty]
    exact ⟨mirrors.ringBase, rfl, rfl⟩

theorem Linked.not_delivered {evt : Trb} (cramped : ¬ Room ring s (.push evt)) :
    ¬ Delivered ring (s.step ring (.push evt)) := by
  obtain ⟨mirrors, ok, produces, back⟩ := linked
  have two := ring.two
  by_cases on : ring.base = 0
  · -- `push_event` returns at once.
    have off : s.ctrl.pushEvent evt = s.ctrl := by
      rw [Controller.pushEvent_eq, if_pos (mirrors.ringBase.trans on)]
    have after : Mirrors ring (s.step ring (.push evt)) { r with sent := r.sent ++ [evt.payload] } := by
      obtain ⟨ringBase, ringEnd, cells, inside, deq, ccs, pushed, observed⟩ := mirrors
      rw [step, off]
      exact ⟨ringBase, ringEnd, cells, inside, deq, ccs, by rw [pushed], observed⟩
    rw [after.delivered_iff]
    exact ok.not_delivers_of_lost (by omega) _
  · by_cases first : ring.AtTop → s.pushed = []
    · have full : r.sent.length = r.received.length + ring.n := by
        have room := ok.room
        have long : ¬ s.pushed.length < s.observed.length + ring.n := fun short => cramped ⟨short, on, first⟩
        rw [mirrors.pushed, mirrors.observed] at long
        omega
      have produces := produces first
      have after := mirrors.push on produces.inside produces.enqueue evt (nextCell ring.n r.head)
      rw [produces.pcs] at after
      rw [after.delivered_iff]
      exact ok.not_delivers_of_full (by omega) full _
    · simp only [Classical.not_imp] at first
      obtain ⟨enqueue, pcs, one⟩ := back first.1 first.2
      have after := mirrors.push on (show 0 < ring.n by omega) (enqueue.trans EventRing.place_zero.symm) evt r.head
      rw [pcs] at after
      rw [after.delivered_iff]
      exact ok.not_delivers_of_back two (by rw [← mirrors.pushed, one]) _

theorem Linked.other {op : EventOp} (quiet : ∀ evt, op ≠ .push evt) : ∃ r', Linked ring (s.step ring op) r' := by
  have two := ring.two
  obtain ⟨mirrors, ok, produces, back⟩ := linked
  cases op with
  | push evt => exact absurd rfl (quiet evt)
  | consume =>
    have same : (s.consume ring).ctrl = s.ctrl ∧ (s.consume ring).pushed = s.pushed := by
      unfold Events.consume
      dsimp only
      split <;> exact ⟨rfl, rfl⟩
    have head : (r.receive ring.n).head = r.head := by
      unfold CycleRing.receive
      split <;> rfl
    refine ⟨r.receive ring.n, mirrors.consume, ok.receive (by omega), fun before => ?_, ?_⟩
    · rw [step, same.2] at before
      obtain ⟨inside, enqueue, pcs⟩ := produces before
      exact ⟨by rw [head]; exact inside, by rw [step, same.1, head]; exact enqueue,
        by rw [step, same.1, head]; exact pcs⟩
    · rw [step, same.1, same.2]
      exact back
  | erdp | erdpHigh =>
    obtain ⟨ringBase, ringEnd, cells, inside, deq, ccs, pushed, observed⟩ := mirrors
    exact ⟨r, ⟨ringBase, ringEnd, cells, inside, deq, ccs, pushed, observed⟩, ok,
      fun before => ⟨(produces before).inside, (produces before).enqueue, (produces before).pcs⟩, back⟩

theorem Linked.delivered : Delivered ring s :=
  linked.mirrors.delivered_iff.mpr (linked.ok.delivers (by have := ring.two; omega))

theorem Linked.step {op : EventOp} (room : Room ring s op) : ∃ r', Linked ring (s.step ring op) r' := by
  cases op with
  | push evt => exact ⟨_, linked.push room⟩
  | consume | erdp | erdpHigh => exact linked.other fun _ => EventOp.noConfusion

theorem Linked.delivered_step_iff (op : EventOp) : Delivered ring (s.step ring op) ↔ Room ring s op := by
  constructor
  · intro delivered
    cases op with
    | push evt => exact Classical.not_not.mp fun cramped => linked.not_delivered cramped delivered
    | consume | erdp | erdpHigh => trivial
  · intro room
    obtain ⟨r', after⟩ := linked.step room
    exact after.delivered

end Kept

/-- The driver gets every event exactly if the controller is never more than the whole ring ahead of it. -/
theorem events_delivered_iff (ring : EventRing) (s : Events δ) (fresh : Fresh ring s) (ops : List EventOp) :
    Holds (fun s op => some (Events.step ring s op)) (Delivered ring) s ops ↔
      Along (fun s op => some (Events.step ring s op)) (Room ring) s ops := by
  apply holds_iff_along_tracked (J := fun s => ∃ r, Linked ring s r) _ _ ops fresh.linked.delivered ⟨_, fresh.linked⟩
  · rintro s op ⟨r, linked⟩
    simp only [Option.some.injEq, exists_eq_left']
    exact linked.delivered_step_iff op
  · rintro s op next ⟨r, linked⟩ room taken
    obtain rfl := Option.some.inj taken
    exact linked.step room

/-- Two TRBs. -/
def smallRing : EventRing := ⟨0x1000, 2, by decide, by decide⟩

/-- A controller that has just been given `smallRing`, over empty memory. -/
def smallStart : Events Unit where
  ctrl :=
    { dma := fun _ => 0, crcrDequeue := 0, pcs := true, dcbaap := 0, tickCounter := 0
      intr := { ringBase := 0x1000, ringEnd := 0x1020, eventEnqueuePtr := 0x1000 }
      eint := false, inte := false, pending := false, ports := fun _ => none, slots := fun _ => none
      devices := fun _ => () }
  deq := 0x1000
  ccs := true
  pushed := []
  observed := []

theorem smallStart_fresh : Fresh smallRing smallStart :=
  ⟨rfl, rfl, rfl, rfl, fun _ _ => by simp [smallStart, Dma.readTrb, Dma.read, loadLE, Trb.cycle], rfl, rfl, rfl, rfl⟩

/-- A port status change. -/
def portEvent : Trb := event 0 0 ccSuccess 34 (1 <<< 8)

theorem events_delivered_small :
    Fresh smallRing smallStart ∧
      Holds (fun s op => some (Events.step smallRing s op)) (Delivered smallRing) smallStart
        [.push portEvent, .push portEvent, .consume, .erdp 0x1010 true, .push portEvent] := by
  refine ⟨smallStart_fresh, (events_delivered_iff smallRing smallStart smallStart_fresh _).mpr ?_⟩
  have below : ¬ smallRing.AtTop := by decide
  simp only [Along, Room, Option.some.injEq, forall_eq', below, false_implies, and_true, true_and]
  decide +kernel

/-- The controller has pushed three events before the driver looks. -/
def threePushed : Events Unit :=
  [EventOp.push portEvent, .push portEvent, .push portEvent].foldl (Events.step smallRing) smallStart

/-- The third event has taken the place of the first, with the other cycle bit: the driver sees none of the three. -/
theorem third_event_hides_all :
    Fresh smallRing smallStart ∧ threePushed.pushed.length = 3 ∧ threePushed.observed = [] ∧
      threePushed.consume smallRing = threePushed ∧ ¬ Delivered smallRing threePushed := by
  have stuck : threePushed.consume smallRing = threePushed := by
    have other : (threePushed.ctrl.dma.readTrb threePushed.deq).cycle ≠ threePushed.ccs := by decide +kernel
    rw [Events.consume, if_neg other]
  refine ⟨smallStart_fresh, rfl, rfl, stuck, fun delivered => ?_⟩
  have length := congrArg List.length (delivered.seen 1)
  rw [Function.iterate_one, stuck] at length
  cases length

end Events

end Rv64Vm.Xhci
