import Rv64Vm.Devices.XhciTransfers

/-! # When the ring walkers return

A walker reads TRBs where its ring lies in guest memory, and writes events, data and contexts elsewhere,
unless the guest has laid them over what is still to be read. As long as they are apart the walker follows
the ring as it was before the call, so it returns exactly if that walk stops. A link to itself is a ring
that no walker leaves.
-/

namespace Rv64Vm.Xhci

open Lib

namespace Controller

section Walkers

variable {δ : Type} (usb : UsbDevice δ) (c : Controller δ) (slotId : BitVec 8)

/-- The position where `process_ep0_transfer_ring` begins, unless it returns at once. -/
def ep0Start (addr : Word) : Option (Word × Bool) :=
  (c.slots slotId).bind fun slot => slot.attachedDevice.map fun _ => (addr, slot.ep0Pcs)

/-- The position where `process_ep_ring` begins, unless it returns at once. -/
def epPosition (epIndex : Nat) : Option (EpPosition δ) :=
  (c.epStart slotId epIndex).map fun (s, dev) => epAt slotId epIndex dev s

theorem ep0_returns_iff (addr : Word) (apart : ∀ start ∈ c.ep0Start slotId addr, ControlApart c.dma c.intr start) :
    (∃ bound, (processEp0TransferRing usb bound c slotId addr).isSome = true) ↔
      ∀ start ∈ c.ep0Start slotId addr, NeverTwice (transferNext c.dma) start := by
  cases attached : (c.slots slotId).bind (·.attachedDevice) with
  | none =>
    have at_once : c.ep0Start slotId addr = none := by
      unfold ep0Start
      cases found : c.slots slotId with
      | none => rfl
      | some slot =>
        rw [found] at attached
        rw [Option.bind_some, show slot.attachedDevice = none from attached]
        rfl
    rw [at_once]
    refine iff_of_true ⟨0, ?_⟩ nofun
    rw [processEp0TransferRing, attached]
    rfl
  | some dev =>
    obtain ⟨slot, found, attached⟩ := Option.bind_eq_some_iff.mp attached
    have starts : c.ep0Start slotId addr = some (addr, slot.ep0Pcs) := by
      rw [ep0Start, found, Option.bind_some, attached]
      rfl
    rw [starts] at apart ⊢
    rw [processEp0_returns found attached (apart _ rfl)]
    exact ⟨fun once start same => Option.some.inj same ▸ once, fun once => once _ rfl⟩

theorem ep_returns_iff (epIndex : Nat)
    (apart : ∀ start ∈ c.epPosition slotId epIndex, EndpointApart usb c.dma c.tickCounter c.intr start) :
    (∃ bound, (processEpRing usb bound c slotId epIndex).isSome = true) ↔
      ∀ start ∈ c.epPosition slotId epIndex, NeverRound usb c.dma c.tickCounter start := by
  cases starts : c.epStart slotId epIndex with
  | none =>
    rw [epPosition, starts]
    refine iff_of_true ⟨0, ?_⟩ nofun
    rw [processEpRing, starts]
    rfl
  | some begun =>
    obtain ⟨s, dev⟩ := begun
    rw [epPosition, starts] at apart ⊢
    rw [processEp_returns starts (apart _ rfl)]
    exact ⟨fun once start same => Option.some.inj same ▸ once, fun once => once _ rfl⟩

end Walkers

end Controller

open Controller

def silent : UsbDevice Unit := ⟨fun _ _ => ([], ()), fun _ _ _ => (), fun _ => (none, ())⟩

def walkerAt (m : Dma) : Controller Unit where
  dma := m
  crcrDequeue := 0x1000
  pcs := true
  dcbaap := 0
  tickCounter := 1
  intr := {}
  eint := false
  inte := false
  pending := false
  ports _ := none
  slots _ := some { attachedDevice := some 0, epDeq := fun _ => 0x1000, epPcs := fun _ => true }
  devices _ := ()

/-- A no-op at `0x1000`; the TRB behind it is not the consumer's. -/
def oneTrb : Dma := fun a => if a = 0x100C then 0x01 else if a = 0x100D then 0x5C else 0

/-- An event ring at `0x2000`. -/
def servedAt (m : Dma) : Controller Unit :=
  { walkerAt m with intr := { ringBase := 0x2000, ringEnd := 0x2100, eventEnqueuePtr := 0x2000 } }

/-- A link at `0x1000` to itself, with the consumer's cycle bit. -/
def selfLink : Dma := fun a => if a = 0x1001 then 0x10 else if a = 0x100C then 0x01 else if a = 0x100D then 0x18 else 0

end Rv64Vm.Xhci
