import Rv64Vm.Devices.GuestMemory
import Rv64Vm.Devices.Xhci

/-! # What the ring walkers leave alone

A walker writes events, data and contexts; the bytes of guest memory that are apart from them stay.
`Writes` says so for any part of a pass, with the ranges that it may write and the number of its events.
-/

namespace Rv64Vm.Xhci

open Lib

/-! ## Guest memory -/

/-- The `n` bytes at `a` are the same. -/
def Agrees (m m' : Dma) (a : Word) (n : Nat) : Prop := ∀ i < n, m' (a + BitVec.ofNat 64 i) = m (a + BitVec.ofNat 64 i)

section Dma

variable {m m' m'' : Dma} {a : Word} {n : Nat}

theorem Agrees.refl (m : Dma) (a : Word) (n : Nat) : Agrees m m a n := fun _ _ => rfl

theorem Agrees.trans (first : Agrees m m' a n) (second : Agrees m' m'' a n) : Agrees m m'' a n :=
  fun i inside => (second i inside).trans (first i inside)

theorem Agrees.read (same : Agrees m m' a n) (w off k : Nat) (inside : off + k ≤ n) :
    m'.read w (a + BitVec.ofNat 64 off) k = m.read w (a + BitVec.ofNat 64 off) k := by
  apply loadLE_congr
  intro i small
  have sum : a + BitVec.ofNat 64 off + BitVec.ofNat 64 i = a + BitVec.ofNat 64 (off + i) := by
    rw [BitVec.add_assoc, ← BitVec.ofNat_add]
  rw [sum]
  exact same (off + i) (by omega)

theorem Agrees.readTrb (same : Agrees m m' a 16) : m'.readTrb a = m.readTrb a := by
  have first := same.read 64 0 8 (by omega)
  have second := same.read 32 8 4 (by omega)
  have third := same.read 32 12 4 (by omega)
  have start : a + BitVec.ofNat 64 0 = a := BitVec.add_zero a
  rw [start] at first
  unfold Dma.readTrb
  exact Trb.mk.injEq .. ▸ ⟨first, second, third⟩

theorem write_outside {addr x : Word} (m : Dma) (bytes : List Byte)
    (outside : ∀ j < bytes.length, x ≠ addr + BitVec.ofNat 64 j) : m.write addr bytes x = m x := by
  induction bytes generalizing m addr with
  | nil => rfl
  | cons b rest ih =>
    have here : x ≠ addr := by
      have first := outside 0 (Nat.zero_lt_succ _)
      rwa [show addr + BitVec.ofNat 64 0 = addr from BitVec.add_zero addr] at first
    rw [Dma.write, ih, Function.update_of_ne here]
    intro j inside
    have later := outside (j + 1) (Nat.succ_lt_succ inside)
    have sum : addr + 1 + BitVec.ofNat 64 j = addr + BitVec.ofNat 64 (j + 1) := by
      rw [BitVec.add_assoc, Nat.add_comm, BitVec.ofNat_add]
      rfl
    rwa [sum]

theorem write_agrees {addr : Word} {bytes : List Byte} (apart : Apart addr bytes.length a n) (m : Dma) :
    Agrees m (m.write addr bytes) a n := by
  intro i inside
  apply write_outside
  intro j inside' same
  obtain ⟨forward, backward⟩ := apart
  have values := congrArg BitVec.toNat same
  simp only [BitVec.toNat_add, BitVec.toNat_ofNat, BitVec.toNat_sub] at values forward backward
  have small := a.isLt
  have small' := addr.isLt
  omega

theorem apart_part {out : Word} {size : Nat} (off len : Nat) (apart : Apart out size a n) (inside : off + len ≤ size)
    (positive : 0 < len) : Apart (out + BitVec.ofNat 64 off) len a n := by
  obtain ⟨forward, backward⟩ := apart
  have small := a.isLt
  have small' := out.isLt
  constructor
  all_goals
    simp only [BitVec.toNat_add, BitVec.toNat_ofNat, BitVec.toNat_sub] at forward backward ⊢
    omega

end Dma

/-! ## EventSlots -/

/-- Bytes of guest memory: where they begin, and how many there are. -/
abbrev Range := Word × Nat

abbrev Range.Clear (w r : Range) : Prop := Apart w.1 w.2 r.1 r.2

/-- The range is apart from all those of `W`. -/
def Off (W : Range → Prop) (r : Range) : Prop := ∀ w, W w → w.Clear r

abbrev SameAt (m m' : Dma) (r : Range) : Prop := Agrees m m' r.1 r.2

/-- Where the events from the next one on are written, if there is an event ring. -/
abbrev EventSlots := Nat → Option Word

def EventSlots.drop (e : EventSlots) (n : Nat) : EventSlots := fun k => e (k + n)

/-- The ranges of the first `n` events. -/
def EventSlots.first (e : EventSlots) (n : Nat) (w : Range) : Prop := w.2 = 16 ∧ ∃ k < n, e k = some w.1

def eventSlot (i : Interrupter) : Nat → Word
  | 0 => i.eventEnqueuePtr
  | k + 1 => eventSlot i.advance k

variable (i : Interrupter)

def eventsFrom : EventSlots := fun k => if i.ringBase = 0 then none else some (eventSlot i k)

theorem eventSlot_iman (x : BitVec 32) (k : Nat) : eventSlot { i with iman := x } k = eventSlot i k := by
  induction k generalizing i with
  | zero => rfl
  | succ k ih =>
    have step : Interrupter.advance { i with iman := x } = { i.advance with iman := x } := by
      unfold Interrupter.advance
      dsimp only
      split <;> rfl
    rw [eventSlot, eventSlot, step, ih]

theorem advance_ringBase : i.advance.ringBase = i.ringBase := by
  unfold Interrupter.advance
  dsimp only
  split <;> rfl

theorem eventsFrom_iman (x : BitVec 32) : eventsFrom { i with iman := x } = eventsFrom i :=
  funext fun k => by rw [eventsFrom, eventsFrom, eventSlot_iman]

theorem eventsFrom_advance : eventsFrom i.advance = (eventsFrom i).drop 1 :=
  funext fun k => by rw [eventsFrom, EventSlots.drop, eventsFrom, advance_ringBase, eventSlot]

namespace Controller

variable {δ : Type} {c c' c'' : Controller δ} {W : Range → Prop} {j k : Nat}

/-- The slots there are. -/
def present (c : Controller δ) (slotId : BitVec 8) : Bool := (c.slots slotId).isSome

/-- Bytes off the ranges `W` and off the next `k` events stay, and so do the walker's registers and its
    slots. -/
structure Writes (W : Range → Prop) (k : Nat) (c c' : Controller δ) : Prop where
  dma : ∀ r, Off W r → Off ((eventsFrom c.intr).first k) r → SameAt c.dma c'.dma r
  events : eventsFrom c'.intr = (eventsFrom c.intr).drop k
  dcbaap : c'.dcbaap = c.dcbaap
  crcrDequeue : c'.crcrDequeue = c.crcrDequeue
  pcs : c'.pcs = c.pcs
  present : c'.present = c.present

theorem Writes.refl (c : Controller δ) : Writes W 0 c c := ⟨fun _ _ _ => Agrees.refl _ _ _, rfl, rfl, rfl, rfl, rfl⟩

theorem Writes.trans (first : Writes W j c c') (second : Writes W k c' c'') : Writes W (j + k) c c'' where
  dma r off events := by
    refine (first.dma r off ?_).trans (second.dma r off ?_)
    · rintro w ⟨size, i, inside, here⟩
      exact events w ⟨size, i, Nat.lt_add_right k inside, here⟩
    · rintro w ⟨size, i, inside, here⟩
      rw [first.events] at here
      exact events w ⟨size, i + j, by omega, here⟩
  events := by
    rw [second.events, first.events]
    funext i
    rw [EventSlots.drop, EventSlots.drop, EventSlots.drop, Nat.add_assoc, Nat.add_comm k]
  dcbaap := second.dcbaap.trans first.dcbaap
  crcrDequeue := second.crcrDequeue.trans first.crcrDequeue
  pcs := second.pcs.trans first.pcs
  present := second.present.trans first.present

theorem mapSlot_slots (c : Controller δ) (slotId : BitVec 8) (f : Slot → Slot) :
    (c.mapSlot slotId f).slots slotId = (c.slots slotId).map f := Function.update_self ..

theorem Writes.mapSlot (c : Controller δ) (slotId : BitVec 8) (f : Slot → Slot) :
    Writes W 0 c (c.mapSlot slotId f) := by
  refine ⟨fun _ _ _ => Agrees.refl _ _ _, rfl, rfl, rfl, rfl, funext fun s => ?_⟩
  change ((c.mapSlot slotId f).slots s).isSome = (c.slots s).isSome
  by_cases here : s = slotId
  · rw [here, mapSlot_slots, Option.isSome_map]
  · exact congrArg Option.isSome (Function.update_of_ne here ..)

theorem Writes.setDevice (c : Controller δ) (dev : Nat) (d : δ) : Writes W 0 c (c.setDevice dev d) :=
  ⟨fun _ _ _ => Agrees.refl _ _ _, rfl, rfl, rfl, rfl, rfl⟩

theorem Writes.writeDma {addr : Word} {bytes : List Byte} (inside : ∀ r, Off W r → Apart addr bytes.length r.1 r.2) :
    Writes W 0 c (c.writeDma addr bytes) :=
  ⟨fun r off _ => write_agrees (inside r off) c.dma, rfl, rfl, rfl, rfl, rfl⟩

/-- What `update_irq` may change. -/
structure IrqOnly (c c' : Controller δ) : Prop where
  dma : c'.dma = c.dma
  intr : ∃ x, c'.intr = { c.intr with iman := x }
  dcbaap : c'.dcbaap = c.dcbaap
  crcrDequeue : c'.crcrDequeue = c.crcrDequeue
  pcs : c'.pcs = c.pcs
  tickCounter : c'.tickCounter = c.tickCounter
  slots : c'.slots = c.slots
  devices : c'.devices = c.devices

theorem updateIrq_irqOnly (c : Controller δ) : IrqOnly c c.updateIrq := by
  unfold updateIrq
  dsimp only
  generalize (if c.intr.ringBase ≠ 0 ∧ c.intr.ringEnd ≠ c.intr.ringBase then _ else false) = unread
  cases unread with
  | true => exact ⟨rfl, ⟨_, rfl⟩, rfl, rfl, rfl, rfl, rfl, rfl⟩
  | false => exact ⟨rfl, ⟨c.intr.iman, rfl⟩, rfl, rfl, rfl, rfl, rfl, rfl⟩

theorem IrqOnly.writes (only : IrqOnly c c') : Writes W 0 c c' where
  dma r _ _ := by
    rw [only.dma]
    exact Agrees.refl _ _ _
  events := by
    obtain ⟨x, intr⟩ := only.intr
    rw [intr, eventsFrom_iman]
    rfl
  dcbaap := only.dcbaap
  crcrDequeue := only.crcrDequeue
  pcs := only.pcs
  present := by
    unfold present
    rw [only.slots]

theorem bytesOf_length {w : Nat} (x : BitVec w) (n : Nat) : (bytesOf x n).length = n := by
  rw [bytesOf, List.length_map, List.length_range]

theorem trb_bytes_length (t : Trb) : t.bytes.length = 16 := by
  rw [Trb.bytes, List.length_append, List.length_append, bytesOf_length, bytesOf_length, bytesOf_length]

/-- The state of `push_event` before the interrupt is updated. -/
def pushed (c : Controller δ) (evt : Trb) : Controller δ :=
  { c.writeDma c.intr.eventEnqueuePtr evt.bytes with
    eventLog := c.eventLog ++ [evt]
    intr := { c.intr.advance with iman := c.intr.advance.iman ||| 1 }
    eint := true }

theorem pushEvent_eq (c : Controller δ) (evt : Trb) :
    c.pushEvent evt = if c.intr.ringBase = 0 then c
      else (c.pushed (evt.withCycle c.intr.pcs)).updateIrq := rfl

theorem Writes.pushEvent (c : Controller δ) (evt : Trb) : Writes W 1 c (c.pushEvent evt) := by
  rw [pushEvent_eq]
  split
  case isTrue noRing =>
    have none : eventsFrom c.intr = fun _ => none := funext fun k => if_pos noRing
    exact ⟨fun _ _ _ => Agrees.refl _ _ _, by rw [none]; rfl, rfl, rfl, rfl, rfl⟩
  case isFalse ring =>
    generalize evt.withCycle c.intr.pcs = evt'
    have written : Writes W 1 c (c.pushed evt') := by
      refine ⟨fun r _ events => write_agrees ?_ c.dma, ?_, rfl, rfl, rfl, rfl⟩
      · rw [trb_bytes_length]
        exact events (c.intr.eventEnqueuePtr, 16) ⟨rfl, 0, Nat.one_pos, if_neg ring⟩
      · exact (eventsFrom_iman ..).trans (eventsFrom_advance _)
    exact written.trans (updateIrq_irqOnly _).writes

/-- Pushing an event keeps slots, devices and the clock. -/
structure KeepsSlots (c c' : Controller δ) : Prop where
  slots : c'.slots = c.slots
  devices : c'.devices = c.devices
  tickCounter : c'.tickCounter = c.tickCounter

theorem pushEvent_keepsSlots (c : Controller δ) (evt : Trb) : KeepsSlots c (c.pushEvent evt) := by
  rw [pushEvent_eq]
  split
  case isTrue => exact ⟨rfl, rfl, rfl⟩
  case isFalse =>
    have only := updateIrq_irqOnly (c.pushed (evt.withCycle c.intr.pcs))
    exact ⟨only.slots, only.devices, only.tickCounter⟩

end Controller

end Rv64Vm.Xhci
