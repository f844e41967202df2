import Rv64Vm.Core.Types
import Rv64Vm.Lib.Walks

/-! # The xHCI controller's rings

The three ring walkers of the USB host controller: the command ring, the control endpoint's transfer
ring and the other endpoints' rings. Guest memory is total here: a byte for each address, so that DMA
always succeeds. The attached USB devices are a parameter.

Endpoint numbers of a command go up to 31 although a slot has sixteen endpoints; the entries beyond
are kept apart here, where the source writes over its neighbours.
-/

namespace Rv64Vm.Xhci

open Lib

abbrev Dma := Word → Byte

/-- `read_dma` of an integer of `n` bytes. -/
def Dma.read (m : Dma) (w : Nat) (addr : Word) (n : Nat) : BitVec w :=
  loadLE w (fun i => m (addr + BitVec.ofNat 64 i)) n

def Dma.readBytes (m : Dma) (addr : Word) (n : Nat) : List Byte :=
  (List.range n).map fun i => m (addr + BitVec.ofNat 64 i)

/-- `write_dma` -/
def Dma.write (m : Dma) (addr : Word) : List Byte → Dma
  | [] => m
  | b :: rest => Dma.write (Function.update m addr b) (addr + 1) rest

/-- The bytes of an integer, as DMA finds them in a C++ object. -/
def bytesOf {w : Nat} (x : BitVec w) (n : Nat) : List Byte := (List.range n).map (byteAt x)

/-! ## Transfer request blocks -/

inductive TrbType where
  | normal | setupStage | dataStage | statusStage | isoch | link | eventData | noOp
  | enableSlot | disableSlot | addressDevice | configEndpoint | evalContext | resetEndpoint | stopEndpoint
  | setTrDequeue | resetDevice | noOpCmd
  | transferEvent | cmdCompletionEvent | portStatusChangeEvent
  | other (code : BitVec 6)
  deriving DecidableEq, Repr

def TrbType.ofCode (code : BitVec 6) : TrbType :=
  match code.toNat with
  | 1 => .normal
  | 2 => .setupStage
  | 3 => .dataStage
  | 4 => .statusStage
  | 5 => .isoch
  | 6 => .link
  | 7 => .eventData
  | 8 => .noOp
  | 9 => .enableSlot
  | 10 => .disableSlot
  | 11 => .addressDevice
  | 12 => .configEndpoint
  | 13 => .evalContext
  | 14 => .resetEndpoint
  | 15 => .stopEndpoint
  | 16 => .setTrDequeue
  | 17 => .resetDevice
  | 23 => .noOpCmd
  | 32 => .transferEvent
  | 33 => .cmdCompletionEvent
  | 34 => .portStatusChangeEvent
  | _ => .other code

structure Trb where
  parameter : Word
  status : BitVec 32
  control : BitVec 32
  deriving DecidableEq, Repr

namespace Trb

def cycle (t : Trb) : Bool := t.control.getLsbD 0
def ent (t : Trb) : Bool := t.control.getLsbD 1
def flags (t : Trb) : BitVec 8 := t.control.extractLsb' 2 8
def getType (t : Trb) : TrbType := .ofCode (t.control.extractLsb' 10 6)
def getSlotId (t : Trb) : BitVec 8 := t.control.extractLsb' 24 8

/-- `trb_has_ioc` -/
def hasIoc (t : Trb) : Bool := t.flags &&& 0x08 ≠ 0

/-- The low 17 bits of `status`: the length of the TRB's buffer. -/
def bufLen (t : Trb) : BitVec 32 := t.status &&& 0x1FFFF

/-- `control.fields.cycle = b` -/
def withCycle (t : Trb) (b : Bool) : Trb := { t with control := (t.control &&& ~~~1#32) ||| (if b then 1 else 0) }

def bytes (t : Trb) : List Byte := bytesOf t.parameter 8 ++ bytesOf t.status 4 ++ bytesOf t.control 4

end Trb

def Dma.readTrb (m : Dma) (addr : Word) : Trb :=
  ⟨m.read 64 addr 8, m.read 32 (addr + 8) 4, m.read 32 (addr + 12) 4⟩

def trbSize : Word := 16

/-- Completion codes that are used here. -/
def ccSuccess : BitVec 32 := 1
def ccTrbError : BitVec 32 := 5
def ccShortPacket : BitVec 32 := 13
def ccStopped : BitVec 32 := 26

/-- An event; its cycle bit is set when it is pushed. -/
def event (parameter : Word) (residual code : BitVec 32) (typeCode : BitVec 32) (control : BitVec 32) : Trb :=
  ⟨parameter, residual ||| (code <<< 24), (control <<< 16) ||| (typeCode <<< 10)⟩

def transferEvent (parameter : Word) (residual code control : BitVec 32) : Trb :=
  event parameter residual code 32 control
def cmdCompletionEvent (parameter : Word) (code control : BitVec 32) : Trb := event parameter 0 code 33 control

/-- `(slot_id << 8) | (ep & 0x1F)` -/
def endpointField (slotId : BitVec 8) (ep : BitVec 32) : BitVec 32 := (slotId.setWidth 32 <<< 8) ||| (ep &&& 0x1F)
def slotField (slotId : BitVec 8) : BitVec 32 := slotId.setWidth 32 <<< 8

/-! ## State -/

/-- The fields of `interrupters[0]` that the event ring uses. -/
structure Interrupter where
  iman : BitVec 32 := 0
  erdp : Word := 0
  ringBase : Word := 0
  ringEnd : Word := 0
  eventEnqueuePtr : Word := 0
  pcs : Bool := true
  erstsz : BitVec 32 := 0
  erstba : Word := 0
  deriving DecidableEq, Repr

/-- The enqueue position after one more event. -/
def Interrupter.advance (i : Interrupter) : Interrupter :=
  let next := i.eventEnqueuePtr + trbSize
  if i.ringEnd ≤ next then { i with eventEnqueuePtr := i.ringBase, pcs := !i.pcs }
  else { i with eventEnqueuePtr := next }

structure Slot where
  attachedDevice : Option Nat := none
  ep0TrDequeue : Word := 0
  ep0Pcs : Bool := true
  epDeq : Nat → Word := fun _ => 0
  epPcs : Nat → Bool := fun i => i = 0
  epLastComplete : Nat → Word := fun _ => 0
  epEnabled : Nat → Bool := fun _ => false

/-- A controller with guest memory; a device is known by a number, and `δ` is the state of one. -/
structure Controller (δ : Type) where
  dma : Dma
  crcrDequeue : Word
  pcs : Bool
  dcbaap : Word
  tickCounter : Word
  intr : Interrupter
  /-- `sts.fields.eint` and `cmd.fields.inte` -/
  eint : Bool
  inte : Bool
  /-- What the PLIC was last told. -/
  pending : Bool
  ports : Nat → Option Nat
  slots : BitVec 8 → Option Slot
  devices : Nat → δ
  /-- The events that were pushed, first to last; nothing reads it. -/
  eventLog : List Trb := []

/-- A setup packet, as it lies in the parameter of its TRB. -/
abbrev SetupPacket := Word

def SetupPacket.bmRequestType (p : SetupPacket) : BitVec 8 := p.extractLsb' 0 8
def SetupPacket.wLength (p : SetupPacket) : BitVec 16 := p.extractLsb' 48 16

/-- `USBDevice`: each call may change the device. -/
structure UsbDevice (δ : Type) where
  handleControlRequest : δ → SetupPacket → List Byte × δ
  handleControlDataOut : δ → SetupPacket → List Byte → δ
  /-- `none` where the source returns false. -/
  getInterruptReport : δ → Option (List Byte) × δ

namespace Controller

variable {δ : Type} (c : Controller δ)

def mapSlot (slotId : BitVec 8) (f : Slot → Slot) : Controller δ :=
  { c with slots := Function.update c.slots slotId ((c.slots slotId).map f) }

def writeDma (addr : Word) (bytes : List Byte) : Controller δ :=
  { c with dma := c.dma.write addr bytes }

def setDevice (dev : Nat) (d : δ) : Controller δ :=
  { c with devices := Function.update c.devices dev d }

/-! ## Events -/

def updateIrq : Controller δ :=
  let intr := c.intr
  let unread :=
    if intr.ringBase ≠ 0 ∧ intr.ringEnd ≠ intr.ringBase then
      let d := intr.erdp &&& ~~~0xF#64
      let d := if d = 0 then intr.ringBase else d
      let e := intr.eventEnqueuePtr
      if e ≠ d then
        let total := intr.ringEnd - intr.ringBase
        let dist := if d ≤ e then e - d else total - (d - e)
        decide (16 ≤ dist)
      else false
    else false
  let c := if unread then { c with eint := true, intr := { c.intr with iman := c.intr.iman ||| 1 } } else c
  { c with pending := (c.eint || unread) && c.intr.iman.getLsbD 0 && c.inte }

def pushEvent (evt : Trb) : Controller δ :=
  if c.intr.ringBase = 0 then c
  else
    let evt := evt.withCycle c.intr.pcs
    let c := { c.writeDma c.intr.eventEnqueuePtr evt.bytes with eventLog := c.eventLog ++ [evt] }
    let intr := c.intr.advance
    updateIrq { c with intr := { intr with iman := intr.iman ||| 1 }, eint := true }

/-! ## Runtime registers -/

def updateEventRingSegment : Controller δ :=
  if c.intr.erstba = 0 ∨ c.intr.erstsz = 0 then c
  else
    let table := c.intr.erstba &&& ~~~0x3F#64
    let ringBase := c.dma.read 64 table 8 &&& ~~~0x3F#64
    let ringEnd := ringBase + (c.dma.read 32 (table + 8) 4).setWidth 64 * trbSize
    let e := c.intr.eventEnqueuePtr
    { c with intr := { c.intr with
        ringBase := ringBase
        ringEnd := ringEnd
        eventEnqueuePtr := if e < ringBase ∨ ringEnd ≤ e then ringBase else e } }

/-- The registers of interrupter 0, by their offset. -/
inductive RuntimeReg where
  | iman | imod | erstsz | erstba | erstbaHigh | erdp | erdpHigh
  deriving DecidableEq, Repr

/-- The low half, or all of it where the access has eight bytes. -/
def lowHalf (old val : Word) (long : Bool) : Word :=
  if long then val else (old &&& 0xFFFFFFFF00000000) ||| (val &&& 0xFFFFFFFF)

def highHalf (old val : Word) : Word := (old &&& 0xFFFFFFFF) ||| (val <<< 32)

/-- The runtime registers in `write_mmio`; moderation (IMOD) is kept nowhere here. -/
def writeRuntime (val : Word) (long : Bool) : RuntimeReg → Controller δ
  | .iman => updateIrq { c with intr := { c.intr with iman := val.setWidth 32 } }
  | .imod => c
  | .erstsz => { c with intr := { c.intr with erstsz := val.setWidth 32 &&& 0xFFFF } }
  | .erstba => updateEventRingSegment { c with intr := { c.intr with erstba := lowHalf c.intr.erstba val long } }
  | .erstbaHigh => updateEventRingSegment { c with intr := { c.intr with erstba := highHalf c.intr.erstba val } }
  | .erdp => { c with intr := { c.intr with erdp := lowHalf c.intr.erdp val long } }
  | .erdpHigh => { c with intr := { c.intr with erdp := highHalf c.intr.erdp val } }

/-! ## The control endpoint -/

/-- The locals of `process_ep0_transfer_ring`. -/
structure Ep0 (δ : Type) where
  ctrl : Controller δ
  trbDmaAddr : Word
  setupPkt : SetupPacket

/-- The data stage of a control transfer. -/
def dataStage (usb : UsbDevice δ) (slotId : BitVec 8) (dev : Nat) (c : Controller δ) (setupPkt : SetupPacket)
    (addr : Word) (trb : Trb) : Controller δ :=
  let isRead := setupPkt.bmRequestType &&& 0x80 ≠ 0
  if isRead then
    let (resp, d) := usb.handleControlRequest (c.devices dev) setupPkt
    let c := c.setDevice dev d
    let requested := min setupPkt.wLength.toNat trb.bufLen.toNat
    let toCopy := min (resp.length % 2 ^ 32) requested
    let c := if 0 < toCopy then c.writeDma trb.parameter (resp.take toCopy) else c
    let shortPacket := decide (toCopy < trb.bufLen.toNat)
    if trb.hasIoc || shortPacket then
      let residual := trb.bufLen - BitVec.ofNat 32 toCopy
      let cc := if shortPacket then ccShortPacket else ccSuccess
      c.pushEvent (transferEvent addr residual cc (endpointField slotId 1))
    else c
  else
    let len := min trb.bufLen.toNat setupPkt.wLength.toNat
    let data := c.dma.readBytes trb.parameter len
    c.setDevice dev (usb.handleControlDataOut (c.devices dev) setupPkt data)

/-- The switch over the types of a control ring's TRBs. -/
def serveControl (usb : UsbDevice δ) (slotId : BitVec 8) (dev : Nat) (s : Ep0 δ) (trb : Trb) : Ep0 δ :=
  match trb.getType with
  | .setupStage => { s with setupPkt := trb.parameter }
  | .dataStage => { s with ctrl := dataStage usb slotId dev s.ctrl s.setupPkt s.trbDmaAddr trb }
  | .statusStage =>
    { s with ctrl := s.ctrl.pushEvent (transferEvent s.trbDmaAddr 0 ccSuccess (endpointField slotId 1)) }
  | _ => s

/-- One pass of the loop. -/
def ep0Pass (usb : UsbDevice δ) (slotId : BitVec 8) (dev : Nat) (s : Ep0 δ) : Turn (Ep0 δ) :=
  if s.trbDmaAddr = 0 then .done s
  else
    let trb := s.ctrl.dma.readTrb s.trbDmaAddr
    if some trb.cycle ≠ (s.ctrl.slots slotId).map (·.ep0Pcs) then .done s
    else if trb.getType = .link then
      let s := { s with trbDmaAddr := trb.parameter &&& ~~~0xF#64 }
      .again (if trb.ent then
        { s with ctrl := s.ctrl.mapSlot slotId fun slot => { slot with ep0Pcs := !slot.ep0Pcs } } else s)
    else
      let s := serveControl usb slotId dev s trb
      let next := s.trbDmaAddr + trbSize
      .again { s with
        trbDmaAddr := next
        ctrl := s.ctrl.mapSlot slotId fun slot => { slot with ep0TrDequeue := next } }

/-- `process_ep0_transfer_ring`, with a bound on the number of passes; `none` where it is not enough. -/
def processEp0TransferRing (usb : UsbDevice δ) (bound : Nat) (c : Controller δ) (slotId : BitVec 8)
    (trbDmaAddr : Word) :
    Option (Controller δ) :=
  match (c.slots slotId).bind (·.attachedDevice) with
  | none => some c
  | some dev => (iterate (ep0Pass usb slotId dev) bound ⟨c, trbDmaAddr, 0⟩).map (·.ctrl)

/-! ## The other endpoints -/

/-- The address of the endpoint context that holds the dequeue pointer of `ep_index`, past its first field. -/
def epContextDeq (slotDcPtr : Word) (epIndex : Nat) : Word := slotDcPtr + BitVec.ofNat 64 ((epIndex + 1) * 32) + 8

variable (slotId : BitVec 8)

/-- The slot's entry of the device context base address array. -/
def dcbaaEntry : Word :=
  c.dma.read 64 (c.dcbaap + BitVec.ofNat 64 (slotId.toNat * 8)) 8

def setEpRing (epIndex : Nat) (deq : Word) : Controller δ :=
  c.mapSlot slotId fun slot => { slot with
    epDeq := Function.update slot.epDeq epIndex (deq &&& ~~~0xF#64)
    epPcs := Function.update slot.epPcs epIndex (deq.getLsbD 0) }

/-- Adopting the dequeue pointer of the endpoint context; `none` where the source returns. -/
def adoptDequeue (epIndex : Nat) (slot : Slot) : Option (Controller δ) :=
  let slotDcPtr := c.dcbaaEntry slotId
  let deq := c.dma.read 64 (epContextDeq slotDcPtr epIndex) 8
  if slot.epDeq epIndex = 0 then
    if c.dcbaap = 0 ∨ slotDcPtr = 0 then none else some (c.setEpRing slotId epIndex deq)
  else if c.dcbaap ≠ 0 ∧ slotDcPtr ≠ 0 ∧ deq ≠ 0 ∧
      (deq &&& ~~~0xF#64 ≠ slot.epDeq epIndex ∨ deq.getLsbD 0 ≠ slot.epPcs epIndex) then
    some (c.setEpRing slotId epIndex deq)
  else some c

/-- The locals of `process_ep_ring`. -/
structure Ep (δ : Type) where
  ctrl : Controller δ
  trbDmaAddr : Word
  epPcs : Bool

def epPollInterval : Word := 16

/-- Completions of an endpoint are not closer than its interval. -/
def paced (slot : Slot) (epIndex : Nat) : Prop :=
  slot.epLastComplete epIndex ≠ 0 ∧ c.tickCounter - slot.epLastComplete epIndex < epPollInterval

instance (slot : Slot) (epIndex : Nat) : Decidable (c.paced slot epIndex) :=
  inferInstanceAs (Decidable (_ ∧ _))

/-- Delivering a report to the buffer of a TRB. -/
def complete (epIndex : Nat) (addr : Word) (trb : Trb) (data : List Byte) : Controller δ :=
  let c := c.mapSlot slotId fun slot => { slot with
    epLastComplete := Function.update slot.epLastComplete epIndex c.tickCounter }
  let copy := min trb.bufLen.toNat (data.length % 2 ^ 32)
  let c := if 0 < copy then c.writeDma trb.parameter (data.take copy) else c
  let residual := trb.bufLen - BitVec.ofNat 32 copy
  c.pushEvent (transferEvent addr residual ccSuccess (endpointField slotId (BitVec.ofNat 32 (epIndex + 1))))

/-- Serving a TRB that is not a link, which may end the loop. -/
def serveEndpoint (usb : UsbDevice δ) (slotId : BitVec 8) (epIndex dev : Nat) (slot : Slot) (c : Controller δ)
    (addr : Word) (trb : Trb) : Turn (Controller δ) :=
  if trb.getType = .normal then
    match usb.getInterruptReport (c.devices dev) with
    | (none, d) => .done (c.setDevice dev d)
    | (some data, d) =>
      let c := c.setDevice dev d
      if c.paced slot epIndex then .done c else .again (c.complete slotId epIndex addr trb data)
  else .again c

/-- One pass of the loop. -/
def epPass (usb : UsbDevice δ) (slotId : BitVec 8) (epIndex dev : Nat) (s : Ep δ) : Turn (Ep δ) :=
  if s.trbDmaAddr = 0 then .done s
  else
    let trb := s.ctrl.dma.readTrb s.trbDmaAddr
    if trb.cycle ≠ s.epPcs then .done s
    else if trb.getType = .link then
      let next := trb.parameter &&& ~~~0xF#64
      let pcs := if trb.ent then !s.epPcs else s.epPcs
      let c := s.ctrl.mapSlot slotId fun slot => { slot with
        epDeq := Function.update slot.epDeq epIndex next
        epPcs := if trb.ent then Function.update slot.epPcs epIndex pcs else slot.epPcs }
      .again ⟨c, next, pcs⟩
    else
      match s.ctrl.slots slotId with
      | none => .done s
      | some slot =>
        match serveEndpoint usb slotId epIndex dev slot s.ctrl s.trbDmaAddr trb with
        | .done c => .done { s with ctrl := c }
        | .again c =>
          let next := s.trbDmaAddr + trbSize
          let c := c.mapSlot slotId fun slot => { slot with epDeq := Function.update slot.epDeq epIndex next }
          .again ⟨c, next, s.epPcs⟩

/-- What follows the loop: the position is published in the endpoint context. -/
def publish (epIndex : Nat) (s : Ep δ) : Controller δ :=
  let c := s.ctrl.mapSlot slotId fun slot => { slot with epPcs := Function.update slot.epPcs epIndex s.epPcs }
  let slotDcPtr := c.dcbaaEntry slotId
  if c.dcbaap ≠ 0 ∧ slotDcPtr ≠ 0 then
    let deq := ((c.slots slotId).map (·.epDeq epIndex)).getD 0
    let cdeq := deq ||| (if s.epPcs then 1 else 0)
    c.writeDma (epContextDeq slotDcPtr epIndex) (bytesOf cdeq 8)
  else c

/-- The state in which the loop of `process_ep_ring` begins, with the device; `none` where it is not reached. -/
def epStart (epIndex : Nat) : Option (Ep δ × Nat) :=
  if 16 ≤ epIndex then none
  else
    (c.slots slotId).bind fun slot => slot.attachedDevice.bind fun dev =>
      (c.adoptDequeue slotId epIndex slot).bind fun c =>
        (c.slots slotId).map fun slot => (⟨c, slot.epDeq epIndex, slot.epPcs epIndex⟩, dev)

def processEpRing (usb : UsbDevice δ) (bound : Nat) (c : Controller δ) (slotId : BitVec 8) (epIndex : Nat) :
    Option (Controller δ) :=
  match c.epStart slotId epIndex with
  | none => some c
  | some (s, dev) => (iterate (epPass usb slotId epIndex dev) bound s).map (publish slotId epIndex)

/-! ## The command ring -/

/-- The context size. -/
def ctxSize : Nat := 32

def setEpStateRunning (epCtxIdx : Nat) : Controller δ :=
  let outCtx := c.dcbaaEntry slotId &&& ~~~0xF#64
  if c.dcbaap = 0 ∨ outCtx = 0 then c
  else
    let epCtx := outCtx + BitVec.ofNat 64 (epCtxIdx * ctxSize)
    let epInfo := (c.dma.read 32 epCtx 4 &&& ~~~0x7#32) ||| 1
    c.writeDma epCtx (bytesOf epInfo 4)

def saveEpCtxFromInput (deviceEpIdx : Nat) (inputCtxAddr : Word) : Controller δ :=
  if c.dcbaap = 0 ∨ 16 ≤ deviceEpIdx ∨ c.slots slotId = none then c
  else
    let c := if 2 ≤ deviceEpIdx then
        c.mapSlot slotId fun slot => { slot with epEnabled := Function.update slot.epEnabled (deviceEpIdx - 1) true }
      else c
    let outCtx := c.dcbaaEntry slotId &&& ~~~0xF#64
    if outCtx = 0 then c
    else
      let buf := c.dma.readBytes (inputCtxAddr + BitVec.ofNat 64 ((deviceEpIdx + 1) * ctxSize)) ctxSize
      (c.writeDma (outCtx + BitVec.ofNat 64 (deviceEpIdx * ctxSize)) buf).setEpStateRunning slotId deviceEpIdx

/-- `ENABLE_SLOT` always hands out slot 1. -/
def enableSlot : Controller δ :=
  match c.slots 1 with
  | some _ => c
  | none => { c with slots := Function.update c.slots 1 (some { attachedDevice := c.ports 0 }) }

/-- `XHCI_MAX_PORTS` -/
def maxPorts : Nat := 6

def addressDevice (inputCtxAddr : Word) : Controller δ :=
  match c.slots slotId with
  | none => c
  | some _ =>
    let dword1 := c.dma.read 32 (inputCtxAddr + BitVec.ofNat 64 ctxSize + 4) 4
    let rootPort := ((dword1 >>> 16) &&& 0xFF).toNat
    let ep0 := inputCtxAddr + BitVec.ofNat 64 (2 * ctxSize)
    let deqLo := c.dma.read 32 (ep0 + 8) 4
    let deqHi := c.dma.read 32 (ep0 + 12) 4
    let c := c.mapSlot slotId fun slot => { slot with
      attachedDevice := if 1 ≤ rootPort ∧ rootPort ≤ maxPorts then c.ports (rootPort - 1) else slot.attachedDevice
      ep0Pcs := deqLo.getLsbD 0
      ep0TrDequeue := (deqHi.setWidth 64 <<< 32) ||| (deqLo.setWidth 64 &&& ~~~0xF#64) }
    c.saveEpCtxFromInput slotId 1 inputCtxAddr

/-- One endpoint of `CONFIG_ENDPOINT` or `EVAL_CONTEXT`; only the former drops the cached position. -/
def configEndpoint (inputCtxAddr : Word) (config : Bool) (c : Controller δ) (i : Nat) : Controller δ :=
  let c := c.saveEpCtxFromInput slotId i inputCtxAddr
  if config then
    c.mapSlot slotId fun slot => { slot with
      epDeq := Function.update slot.epDeq i 0
      epPcs := Function.update slot.epPcs i false }
  else c

/-- The endpoints that the input context flags. -/
def configEndpoints (inputCtxAddr : Word) (config : Bool) : Controller δ :=
  let addFlags := c.dma.read 32 (inputCtxAddr + 4) 4
  (((List.range 31).map (· + 1)).filter fun i => addFlags.getLsbD i).foldl (configEndpoint slotId inputCtxAddr config) c

/-- The event for a TRB that `STOP_ENDPOINT` finds in flight. -/
def stopEndpoint (epId : BitVec 32) : Controller δ :=
  match c.slots slotId with
  | none => c
  | some slot =>
    let deq := slot.epDeq (epId.toNat - 1)
    if deq ≠ 0 ∧ (c.dma.readTrb deq).cycle = slot.epPcs (epId.toNat - 1) then
      c.pushEvent (transferEvent deq 0 ccStopped (endpointField slotId epId))
    else c

def setTrDequeue (epId : BitVec 32) (parameter : Word) : Controller δ :=
  match c.slots slotId with
  | none => c
  | some _ =>
    let c := c.setEpRing slotId (epId.toNat - 1) parameter
    let slotDcPtr := c.dcbaaEntry slotId
    if c.dcbaap ≠ 0 ∧ slotDcPtr ≠ 0 then
      c.writeDma (epContextDeq slotDcPtr (epId.toNat - 1)) (bytesOf parameter 8)
    else c

/-- The endpoint number of a command: bits 12 to 8 of its control word. -/
def commandEp (trb : Trb) : BitVec 32 := (trb.control >>> 8) &&& 0x1F

/-- What a command does, with the completion event that it ends with. -/
def command (trb : Trb) : Controller δ :=
  let slotId := trb.getSlotId
  let done (c : Controller δ) (code control : BitVec 32) := c.pushEvent (cmdCompletionEvent c.crcrDequeue code control)
  let epId := commandEp trb
  match trb.getType with
  | .noOpCmd => done c ccSuccess 0
  | .enableSlot => done c.enableSlot ccSuccess (slotField 1)
  | .disableSlot => done { c with slots := Function.update c.slots slotId none } ccSuccess (slotField slotId)
  | .addressDevice => done (c.addressDevice slotId (trb.parameter &&& ~~~0xF#64)) ccSuccess (slotField slotId)
  | .configEndpoint =>
    done (c.configEndpoints slotId (trb.parameter &&& ~~~0xF#64) true) ccSuccess (slotField slotId)
  | .evalContext =>
    done (c.configEndpoints slotId (trb.parameter &&& ~~~0xF#64) false) ccSuccess (slotField slotId)
  | .stopEndpoint => done (if epId ≠ 0 then c.stopEndpoint slotId epId else c) ccSuccess (slotField slotId)
  | .resetEndpoint => done c ccSuccess (slotField slotId)
  | .setTrDequeue =>
    done (if epId ≠ 0 then c.setTrDequeue slotId epId trb.parameter else c) ccSuccess (slotField slotId)
  | .resetDevice => done c ccSuccess (slotField slotId)
  | _ => done c ccTrbError 0

/-- One pass of the loop. -/
def commandPass : Turn (Controller δ) :=
  let trb := c.dma.readTrb c.crcrDequeue
  if trb.cycle ≠ c.pcs then .done c
  else if trb.getType = .link then
    .again { c with crcrDequeue := trb.parameter &&& ~~~0xF#64, pcs := if trb.ent then !c.pcs else c.pcs }
  else
    let c := c.command trb
    .again { c with crcrDequeue := c.crcrDequeue + trbSize }

def processCommandRing (bound : Nat) (c : Controller δ) : Option (Controller δ) := iterate commandPass bound c

end Controller

end Rv64Vm.Xhci
