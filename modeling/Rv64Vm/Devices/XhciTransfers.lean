import Rv64Vm.Devices.XhciCommands

/-! # The walk of a transfer ring

The control endpoint's ring is walked as the command ring is. On another endpoint's ring a NORMAL TRB
ends the walk when the device has no report, or had one too recently, so the walk there depends on
the device too.
-/

namespace Rv64Vm.Xhci

open Lib

/-! ## The control endpoint's ring -/

/-- A transfer ring also ends at address 0. -/
def transferNext (m : Dma) (p : Word × Bool) : Option (Word × Bool) := if p.1 = 0 then none else commandNext m p

/-- What the TRBs so far have changed. -/
structure Control where
  events : EventSlots
  setupPkt : SetupPacket

/-- The data stage goes to the host. -/
def SetupPacket.IsRead (setupPkt : SetupPacket) : Prop := setupPkt.bmRequestType &&& 0x80 ≠ 0

/-- The part of a buffer of a TRB that data of at most `n` bytes may fill. -/
def bufferWrite (trb : Trb) (n : Nat) (w : Range) : Prop :=
  0 < min n trb.bufLen.toNat ∧ w = (trb.parameter, min n trb.bufLen.toNat)

/-- What serving a TRB of the control ring may change, and what it may write. -/
def Control.step (trb : Trb) (x y : Control) : Prop :=
  match trb.getType with
  | .setupStage => y = { x with setupPkt := trb.parameter }
  | .dataStage => ∃ k, (k = 0 ∨ (x.setupPkt.IsRead ∧ k = 1)) ∧ y = { x with events := x.events.drop k }
  | .statusStage => y = { x with events := x.events.drop 1 }
  | _ => y = x

def Control.writes (trb : Trb) (x : Control) (w : Range) : Prop :=
  match trb.getType with
  | .dataStage => x.setupPkt.IsRead ∧ (bufferWrite trb x.setupPkt.wLength.toNat w ∨ x.events.first 1 w)
  | .statusStage => x.events.first 1 w
  | _ => False

def transferPlan (m : Dma) : Plan (Word × Bool) Control Range where
  next := transferNext m
  step p := Control.step (m.readTrb p.1)
  reads p _ r := p.1 ≠ 0 ∧ r = (p.1, 16)
  writes p := Control.writes (m.readTrb p.1)
  needs _ _ := True

namespace Controller

section Control

variable {δ : Type} {c c' : Controller δ} {W : Range → Prop} {usb : UsbDevice δ} {slotId : BitVec 8} {dev : Nat}

theorem Writes.writeBuffer {trb : Trb} {n : Nat} (len : Nat) (data : List Byte)
    (inside : ∀ w, bufferWrite trb n w → W w) (fits : len ≤ min n trb.bufLen.toNat) :
    Writes W 0 c (if 0 < len then c.writeDma trb.parameter (data.take len) else c) := by
  split
  case isFalse => exact .refl c
  case isTrue positive =>
    refine .writeDma fun r off => ?_
    obtain ⟨forward, backward⟩ := off _ (inside _ ⟨Nat.lt_of_lt_of_le positive fits, rfl⟩)
    refine ⟨?_, backward⟩
    calc (data.take len).length ≤ len := List.length_take_le ..
      _ ≤ min n trb.bufLen.toNat := fits
      _ ≤ _ := forward

theorem dataStage_writes (usb : UsbDevice δ) (slotId : BitVec 8) (dev : Nat) (c : Controller δ)
    (setupPkt : SetupPacket) (addr : Word) (trb : Trb) :
    ∃ k, (k = 0 ∨ (setupPkt.IsRead ∧ k = 1)) ∧
      Writes (fun w => setupPkt.IsRead ∧ bufferWrite trb setupPkt.wLength.toNat w) k c
      (dataStage usb slotId dev c setupPkt addr trb) := by
  unfold dataStage
  dsimp only
  split
  case isFalse => exact ⟨0, .inl rfl, .setDevice ..⟩
  case isTrue read =>
    generalize amount : min (List.length _ % 2 ^ 32) (min setupPkt.wLength.toNat trb.bufLen.toNat) = toCopy
    have copied := (Writes.setDevice c dev (usb.handleControlRequest (c.devices dev) setupPkt).2).trans
      (.writeBuffer (W := fun w => setupPkt.IsRead ∧ bufferWrite trb setupPkt.wLength.toNat w) toCopy
        (usb.handleControlRequest (c.devices dev) setupPkt).1 (fun w inside => ⟨read, inside⟩) (by omega))
    split
    · exact ⟨1, .inr ⟨read, rfl⟩, copied.trans (.pushEvent ..)⟩
    · exact ⟨0, .inl rfl, copied⟩

theorem writeBuffer_slots (c : Controller δ) (p : Prop) [Decidable p] (addr : Word) (bytes : List Byte) :
    (if p then c.writeDma addr bytes else c).slots = c.slots := by
  split <;> rfl

theorem dataStage_slots (c : Controller δ) (setupPkt : SetupPacket) (addr : Word) (trb : Trb) :
    (dataStage usb slotId dev c setupPkt addr trb).slots = c.slots := by
  unfold dataStage
  dsimp only
  split
  case isFalse => rfl
  case isTrue =>
    split
    · rw [(pushEvent_keepsSlots ..).slots, writeBuffer_slots]
      rfl
    · rw [writeBuffer_slots]
      rfl

def ep0Met (s : Ep0 δ) : Control := ⟨eventsFrom s.ctrl.intr, s.setupPkt⟩

theorem serveControl_spec (usb : UsbDevice δ) (slotId : BitVec 8) (dev : Nat) (s : Ep0 δ) (trb : Trb) :
    Control.step trb (ep0Met s) (ep0Met (serveControl usb slotId dev s trb)) ∧
      ∀ r, Off (Control.writes trb (ep0Met s)) r →
        SameAt s.ctrl.dma (serveControl usb slotId dev s trb).ctrl.dma r := by
  unfold serveControl Control.step Control.writes
  generalize trb.getType = type
  cases type with
  | dataStage =>
    obtain ⟨k, count, writes⟩ := dataStage_writes usb slotId dev s.ctrl s.setupPkt s.trbDmaAddr trb
    refine ⟨⟨k, count, ?_⟩, fun r off => writes.dma r (fun w inside => off w ⟨inside.1, .inl inside.2⟩)
      fun w inside => ?_⟩
    · unfold ep0Met
      rw [writes.events]
    · rcases count with rfl | ⟨read, rfl⟩
      · obtain ⟨-, j, none, -⟩ := inside
        cases none
      · exact off w ⟨read, .inr inside⟩
  | statusStage =>
    have writes := Writes.pushEvent (W := fun _ => False) s.ctrl
      (transferEvent s.trbDmaAddr 0 ccSuccess (endpointField slotId 1))
    refine ⟨?_, fun r off => writes.dma r (fun _ => False.elim) off⟩
    unfold ep0Met
    rw [writes.events]
  | _ => exact ⟨rfl, fun r _ => Agrees.refl _ _ _⟩

theorem serveControl_slots (usb : UsbDevice δ) (slotId : BitVec 8) (dev : Nat) (s : Ep0 δ) (trb : Trb) :
    (serveControl usb slotId dev s trb).ctrl.slots = s.ctrl.slots ∧
      (serveControl usb slotId dev s trb).trbDmaAddr = s.trbDmaAddr := by
  unfold serveControl
  split
  case h_2 => exact ⟨dataStage_slots .., rfl⟩
  case h_3 => exact ⟨(pushEvent_keepsSlots ..).slots, rfl⟩
  all_goals exact ⟨rfl, rfl⟩

/-- The position of the walker. -/
def ep0At (slotId : BitVec 8) (s : Ep0 δ) : Word × Bool :=
  (s.trbDmaAddr, ((s.ctrl.slots slotId).map (·.ep0Pcs)).getD false)

theorem ep0Pass_follows (usb : UsbDevice δ) (slotId : BitVec 8) (dev : Nat) (m : Dma) :
    (transferPlan m).Follows Range.Clear SameAt m
    (fun s : Ep0 δ => (s.ctrl.slots slotId).isSome = true) (ep0At slotId) ep0Met (·.ctrl.dma)
    (ep0Pass usb slotId dev) := by
  intro s good reads _
  obtain ⟨slot, found⟩ := Option.isSome_iff_exists.mp good
  have here : ep0At slotId s = (s.trbDmaAddr, slot.ep0Pcs) := by rw [ep0At, found]; rfl
  unfold ep0Pass transferPlan transferNext commandNext
  rw [here]
  dsimp only
  by_cases zero : s.trbDmaAddr = 0
  · rw [if_pos zero, if_pos zero]
  have trb : s.ctrl.dma.readTrb s.trbDmaAddr = m.readTrb s.trbDmaAddr := (reads _ ⟨zero, rfl⟩).readTrb
  rw [if_neg zero, if_neg zero, trb, found]
  generalize m.readTrb s.trbDmaAddr = trb
  have same : some trb.cycle ≠ (some slot).map (·.ep0Pcs) ↔ trb.cycle ≠ slot.ep0Pcs :=
    not_congr Option.some_inj
  by_cases cycle : trb.cycle ≠ slot.ep0Pcs
  · rw [if_pos (same.mpr cycle), if_pos cycle]
  rw [if_neg (same.not.mpr cycle), if_neg cycle]
  by_cases link : trb.getType = .link
  · have step : Control.step trb (ep0Met s) (ep0Met s) := by
      rw [Control.step, link]
    rw [if_pos link, if_pos link]
    cases trb.ent with
    | true =>
      refine ⟨?_, ?_, step, fun _ _ => Agrees.refl _ _ _⟩
      · simp only [if_true, mapSlot_slots, found, Option.map_some, Option.isSome_some]
      · simp only [ep0At, if_true, mapSlot_slots, found, Option.map_some, Option.getD_some]
    | false =>
      refine ⟨good, ?_, step, fun _ _ => Agrees.refl _ _ _⟩
      simp only [ep0At, Bool.false_eq_true, if_false, found, Option.map_some, Option.getD_some]
  · obtain ⟨step, kept⟩ := serveControl_spec usb slotId dev s trb
    obtain ⟨slots, addr⟩ := serveControl_slots usb slotId dev s trb
    rw [if_neg link, if_neg link]
    refine ⟨?_, ?_, step, kept⟩
    · simp only [mapSlot_slots, slots, found, Option.map_some, Option.isSome_some]
    · simp only [ep0At, mapSlot_slots, slots, addr, found, Option.map_some, Option.getD_some]

/-- Nothing that the walk of the control endpoint's ring writes is a TRB that it has still to read. -/
def ControlApart (m : Dma) (intr : Interrupter) (start : Word × Bool) : Prop :=
  (transferPlan m).Undisturbed Range.Clear start ⟨eventsFrom intr, 0⟩

theorem processEp0_returns {slot : Slot} (found : c.slots slotId = some slot)
    (attached : slot.attachedDevice = some dev)
    {addr : Word} (apart : ControlApart c.dma c.intr (addr, slot.ep0Pcs)) :
    (∃ bound, (processEp0TransferRing usb bound c slotId addr).isSome = true) ↔
      NeverTwice (transferNext c.dma) (addr, slot.ep0Pcs) := by
  have whole (bound : Nat) : processEp0TransferRing usb bound c slotId addr =
      (iterate (ep0Pass usb slotId dev) bound ⟨c, addr, 0⟩).map (·.ctrl) := by
    unfold processEp0TransferRing
    rw [found, Option.bind_some, attached]
  have here : ep0At slotId ⟨c, addr, 0⟩ = (addr, slot.ep0Pcs) := by
    simp only [ep0At, found, Option.map_some, Option.getD_some]
  have returns := (ep0Pass_follows usb slotId dev c.dma).returns_iff Agrees.trans
    (s := ⟨c, addr, 0⟩) (by rw [found]; rfl) (fun _ => Agrees.refl _ _ _) (here ▸ apart)
  rw [here] at returns
  simp only [whole, Option.isSome_map]
  exact returns.trans (stops_iff_neverTwice _)

end Control

end Controller

/-! ## The other endpoints' rings -/

/-- A position on an endpoint's ring, with the time of its last completion and the device's state. -/
structure EpPosition (δ : Type) where
  addr : Word
  pcs : Bool
  last : Word
  device : δ

/-- What serving a TRB does to the time of the last completion and to the device. A NORMAL TRB ends the walk when the
    device has no report, or had one within the interval. -/
def reports {δ : Type} (usb : UsbDevice δ) (tick : Word) (trb : Trb) (last : Word) (d : δ) : Option (Word × δ) :=
  if trb.getType = .normal then
    match usb.getInterruptReport d with
    | (none, _) => none
    | (some _, d) => if last ≠ 0 ∧ tick - last < Controller.epPollInterval then none else some (tick, d)
  else some (last, d)

def endpointNext {δ : Type} (usb : UsbDevice δ) (m : Dma) (tick : Word) (p : EpPosition δ) : Option (EpPosition δ) :=
  if p.addr = 0 then none
  else
    let trb := m.readTrb p.addr
    if trb.cycle ≠ p.pcs then none
    else if trb.getType = .link then
      some { p with addr := trb.parameter &&& ~~~0xF#64, pcs := if trb.ent then !p.pcs else p.pcs }
    else (reports usb tick trb p.last p.device).map fun (last, d) => ⟨p.addr + trbSize, p.pcs, last, d⟩

/-- The length of the device's report, as the walker has it. -/
def reportLength {δ : Type} (usb : UsbDevice δ) (d : δ) : Nat := ((usb.getInterruptReport d).1.getD []).length % 2 ^ 32

def endpointPlan {δ : Type} (usb : UsbDevice δ) (m : Dma) (tick : Word) : Plan (EpPosition δ) EventSlots Range where
  next := endpointNext usb m tick
  step p x y := y = x.drop (if (m.readTrb p.addr).getType = .normal then 1 else 0)
  reads p _ r := p.addr ≠ 0 ∧ r = (p.addr, 16)
  writes p x w := (m.readTrb p.addr).getType = .normal ∧
    (bufferWrite (m.readTrb p.addr) (reportLength usb p.device) w ∨ x.first 1 w)
  needs _ _ := True

namespace Controller

section Endpoints

variable {δ : Type} {c c' : Controller δ} {W : Range → Prop} {usb : UsbDevice δ} {slotId : BitVec 8} {epIndex dev : Nat}

/-- The position of the walker. -/
def epAt (slotId : BitVec 8) (epIndex dev : Nat) (s : Ep δ) : EpPosition δ where
  addr := s.trbDmaAddr
  pcs := s.epPcs
  last := ((s.ctrl.slots slotId).map (·.epLastComplete epIndex)).getD 0
  device := s.ctrl.devices dev

/-- What a completion does, but for the ring. -/
structure Completes (slotId : BitVec 8) (epIndex : Nat) (slot : Slot) (c c' : Controller δ) : Prop where
  slot : c'.slots slotId =
    some { slot with epLastComplete := Function.update slot.epLastComplete epIndex c.tickCounter }
  devices : c'.devices = c.devices
  tickCounter : c'.tickCounter = c.tickCounter

theorem complete_completes {slot : Slot} (found : c.slots slotId = some slot) (addr : Word) (trb : Trb)
    (data : List Byte) :
    Completes slotId epIndex slot c (c.complete slotId epIndex addr trb data) := by
  unfold complete
  dsimp only
  have keeps := pushEvent_keepsSlots
    (if 0 < min trb.bufLen.toNat (data.length % 2 ^ 32) then
      (c.mapSlot slotId fun slot => { slot with
        epLastComplete := Function.update slot.epLastComplete epIndex c.tickCounter }).writeDma trb.parameter
        (data.take (min trb.bufLen.toNat (data.length % 2 ^ 32)))
    else c.mapSlot slotId fun slot => { slot with
      epLastComplete := Function.update slot.epLastComplete epIndex c.tickCounter })
  refine ⟨?_, ?_, ?_⟩
  · rw [(keeps _).slots, writeBuffer_slots, mapSlot_slots, found]
    rfl
  · rw [(keeps _).devices]
    split <;> rfl
  · rw [(keeps _).tickCounter]
    split <;> rfl

theorem complete_writes {trb : Trb} {n : Nat} (addr : Word) (data : List Byte) (size : data.length % 2 ^ 32 = n)
    (inside : ∀ w, bufferWrite trb n w → W w) : Writes W 1 c (c.complete slotId epIndex addr trb data) := by
  unfold complete
  dsimp only
  have marked := Writes.mapSlot (W := W) c slotId fun slot => { slot with
    epLastComplete := Function.update slot.epLastComplete epIndex c.tickCounter }
  have copied := marked.trans (.writeBuffer (min trb.bufLen.toNat (data.length % 2 ^ 32)) data inside (by omega))
  exact copied.trans (.pushEvent ..)

section Passes

variable {m : Dma} {tick : Word} {s : Ep δ}

theorem serveEndpoint_done {slot : Slot} {trb : Trb} {addr : Word} (time : c.tickCounter = tick)
    (ends : serveEndpoint usb slotId epIndex dev slot c addr trb = .done c') :
    reports usb tick trb (slot.epLastComplete epIndex) (c.devices dev) = none := by
  unfold serveEndpoint at ends
  unfold reports
  split at ends
  case isFalse => cases ends
  case isTrue normal =>
    rw [if_pos normal]
    generalize usb.getInterruptReport (c.devices dev) = asked at ends ⊢
    obtain ⟨told, d⟩ := asked
    cases told with
    | none => rfl
    | some data =>
      dsimp only at ends ⊢
      split at ends
      case isFalse => cases ends
      case isTrue early => exact if_pos (time ▸ early)

/-- A TRB is served: the walker may go on. -/
structure Served (usb : UsbDevice δ) (slotId : BitVec 8) (epIndex dev : Nat) (slot : Slot) (tick : Word) (trb : Trb)
    (c c' : Controller δ) : Prop where
  slot : ∃ slot', c'.slots slotId = some slot' ∧ reports usb tick trb (slot.epLastComplete epIndex) (c.devices dev) =
    some (slot'.epLastComplete epIndex, c'.devices dev)
  tickCounter : c'.tickCounter = tick
  writes : Writes (fun w => trb.getType = .normal ∧ bufferWrite trb (reportLength usb (c.devices dev)) w)
    (if trb.getType = .normal then 1 else 0) c c'

theorem serveEndpoint_again {slot : Slot} {trb : Trb} {addr : Word} (time : c.tickCounter = tick)
    (found : c.slots slotId = some slot) (goes : serveEndpoint usb slotId epIndex dev slot c addr trb = .again c') :
    Served usb slotId epIndex dev slot tick trb c c' := by
  unfold serveEndpoint at goes
  split at goes
  case isFalse other =>
    cases goes
    refine ⟨⟨slot, found, by rw [reports, if_neg other]⟩, time, ?_⟩
    rw [if_neg other]
    exact .refl c
  case isTrue normal =>
    split at goes
    case h_1 => cases goes
    case h_2 data d asked =>
      dsimp only at goes
      split at goes
      case isTrue => cases goes
      case isFalse due =>
        have kept : (c.setDevice dev d).slots slotId = some slot := found
        have completes := @complete_completes δ _ slotId epIndex slot kept addr trb data
        have size : data.length % 2 ^ 32 = reportLength usb (c.devices dev) := by
          rw [reportLength, asked]
          rfl
        cases goes
        refine ⟨⟨_, completes.slot, ?_⟩, completes.tickCounter.trans time, ?_⟩
        · have device : (c.setDevice dev d).devices dev = d := Function.update_self ..
          have now : (c.setDevice dev d).tickCounter = tick := time
          have late : ¬ (slot.epLastComplete epIndex ≠ 0 ∧ tick - slot.epLastComplete epIndex < epPollInterval) :=
            time ▸ due
          rw [reports, if_pos normal, asked, completes.devices, device, now]
          dsimp only
          rw [if_neg late, Function.update_self]
        · rw [if_pos normal]
          exact (Writes.setDevice c dev d).trans (complete_writes addr data size fun w inside => ⟨normal, inside⟩)

theorem epPass_follows (usb : UsbDevice δ) (slotId : BitVec 8) (epIndex dev : Nat) (m : Dma) (tick : Word) :
    (endpointPlan usb m tick).Follows Range.Clear SameAt m
    (fun s : Ep δ => (s.ctrl.slots slotId).isSome = true ∧ s.ctrl.tickCounter = tick) (epAt slotId epIndex dev)
    (fun s => eventsFrom s.ctrl.intr) (·.ctrl.dma) (epPass usb slotId epIndex dev) := by
  rintro s ⟨there, time⟩ reads -
  obtain ⟨slot, found⟩ := Option.isSome_iff_exists.mp there
  have here : epAt slotId epIndex dev s = ⟨s.trbDmaAddr, s.epPcs, slot.epLastComplete epIndex, s.ctrl.devices dev⟩ := by
    simp only [epAt, found, Option.map_some, Option.getD_some]
  unfold epPass endpointPlan endpointNext
  rw [here]
  dsimp only
  by_cases zero : s.trbDmaAddr = 0
  · rw [if_pos zero, if_pos zero]
  have trb : s.ctrl.dma.readTrb s.trbDmaAddr = m.readTrb s.trbDmaAddr := (reads _ ⟨zero, rfl⟩).readTrb
  rw [if_neg zero, if_neg zero, trb, found]
  generalize m.readTrb s.trbDmaAddr = trb
  by_cases cycle : trb.cycle ≠ s.epPcs
  · rw [if_pos cycle, if_pos cycle]
  rw [if_neg cycle, if_neg cycle]
  by_cases link : trb.getType = .link
  · have other : trb.getType ≠ .normal := by
      rw [link]
      decide
    rw [if_pos link, if_pos link, if_neg other]
    refine ⟨⟨?_, time⟩, ?_, rfl, fun _ _ => Agrees.refl _ _ _⟩
    · simp only [mapSlot_slots, found, Option.map_some, Option.isSome_some]
    · simp only [epAt, mapSlot_slots, found, Option.map_some, Option.getD_some]
      rfl
  rw [if_neg link, if_neg link]
  dsimp only
  cases served : serveEndpoint usb slotId epIndex dev slot s.ctrl s.trbDmaAddr trb with
  | done c₁ =>
    dsimp only
    rw [serveEndpoint_done time served, Option.map_none]
  | again c₁ =>
    obtain ⟨⟨slot', found', told⟩, time', writes⟩ := serveEndpoint_again time found served
    refine ⟨⟨?_, time'⟩, ?_, writes.events, fun r off => ?_⟩
    · simp only [mapSlot_slots, found', Option.map_some, Option.isSome_some]
    · simp only [told, epAt, mapSlot_slots, found', Option.map_some, Option.getD_some]
      rfl
    · refine writes.dma r (fun w inside => off w ⟨inside.1, .inl inside.2⟩) fun w inside => ?_
      split at inside
      case isTrue normal => exact off w ⟨normal, .inr inside⟩
      case isFalse =>
        obtain ⟨-, j, none, -⟩ := inside
        cases none

theorem setEpRing_same (c : Controller δ) (slotId : BitVec 8) (epIndex : Nat) (deq : Word) :
    (c.setEpRing slotId epIndex deq).dma = c.dma ∧ (c.setEpRing slotId epIndex deq).intr = c.intr ∧
      (c.setEpRing slotId epIndex deq).tickCounter = c.tickCounter := ⟨rfl, rfl, rfl⟩

theorem adoptDequeue_same {slot : Slot} (adopted : c.adoptDequeue slotId epIndex slot = some c') :
    c'.dma = c.dma ∧ c'.intr = c.intr ∧ c'.tickCounter = c.tickCounter := by
  unfold adoptDequeue at adopted
  dsimp only at adopted
  split at adopted
  case isTrue =>
    split at adopted
    case isTrue => cases adopted
    case isFalse => exact Option.some.inj adopted ▸ setEpRing_same ..
  case isFalse =>
    split at adopted
    case isTrue => exact Option.some.inj adopted ▸ setEpRing_same ..
    case isFalse => exact Option.some.inj adopted ▸ ⟨rfl, rfl, rfl⟩

theorem epStart_same (starts : c.epStart slotId epIndex = some (s, dev)) : (s.ctrl.slots slotId).isSome = true ∧
    s.ctrl.dma = c.dma ∧ s.ctrl.intr = c.intr ∧ s.ctrl.tickCounter = c.tickCounter := by
  unfold epStart at starts
  split at starts
  case isTrue => cases starts
  case isFalse =>
    obtain ⟨slot, found, starts⟩ := Option.bind_eq_some_iff.mp starts
    obtain ⟨dev', attached, starts⟩ := Option.bind_eq_some_iff.mp starts
    obtain ⟨c', adopted, starts⟩ := Option.bind_eq_some_iff.mp starts
    obtain ⟨slot', found', same⟩ := Option.map_eq_some_iff.mp starts
    cases same
    exact ⟨congrArg Option.isSome found', adoptDequeue_same adopted⟩

end Passes

/-- The walk through an endpoint's ring comes to no position twice, and to finitely many states of the device. -/
def NeverRound (usb : UsbDevice δ) (m : Dma) (tick : Word) (start : EpPosition δ) : Prop :=
  NeverTwice (endpointNext usb m tick) start ∧ {d | ∃ p, Visits (endpointNext usb m tick) start p ∧ p.device = d}.Finite

theorem stops_iff_neverRound (usb : UsbDevice δ) (m : Dma) (tick : Word) (start : EpPosition δ) :
    Stops (endpointNext usb m tick) start ↔ NeverRound usb m tick start := by
  rw [stops_iff_finite]
  refine and_congr_right fun _ => ⟨fun finite => finite.image fun p : EpPosition δ => p.device, fun finite => ?_⟩
  -- All but the device's state is finite.
  have words : Finite Word := .of_injective BitVec.toFin fun _ _ => BitVec.eq_of_toFin_eq
  have rest : (Set.univ : Set (Word × Bool × Word)).Finite := Set.toFinite _
  apply ((rest.prod finite).image fun q => (⟨q.1.1, q.1.2.1, q.1.2.2, q.2⟩ : EpPosition δ)).subset
  intro p visits
  exact ⟨((p.addr, p.pcs, p.last), p.device), ⟨trivial, p, visits, rfl⟩, rfl⟩

/-- Nothing that the walk of an endpoint's ring writes is a TRB that it has still to read. -/
def EndpointApart (usb : UsbDevice δ) (m : Dma) (tick : Word) (intr : Interrupter) (start : EpPosition δ) : Prop :=
  (endpointPlan usb m tick).Undisturbed Range.Clear start (eventsFrom intr)

theorem processEp_returns {s : Ep δ} (starts : c.epStart slotId epIndex = some (s, dev))
    (apart : EndpointApart usb c.dma c.tickCounter c.intr (epAt slotId epIndex dev s)) :
    (∃ bound, (processEpRing usb bound c slotId epIndex).isSome = true) ↔
      NeverRound usb c.dma c.tickCounter (epAt slotId epIndex dev s) := by
  have whole (bound : Nat) : processEpRing usb bound c slotId epIndex =
      (iterate (epPass usb slotId epIndex dev) bound s).map (publish slotId epIndex) := by
    unfold processEpRing
    rw [starts]
  obtain ⟨there, dma, intr, time⟩ := epStart_same starts
  have returns := (epPass_follows usb slotId epIndex dev c.dma
    c.tickCounter).returns_iff Agrees.trans ⟨there, time⟩ (fun part => dma ▸ Agrees.refl _ _ _) (intr ▸ apart)
  simp only [whole, Option.isSome_map]
  exact returns.trans (stops_iff_neverRound ..)

end Endpoints

end Controller

end Rv64Vm.Xhci
