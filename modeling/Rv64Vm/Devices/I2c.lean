import Mathlib.Data.List.Nodup
import Mathlib.Logic.Function.Iterate
import Rv64Vm.Lib.Runs

/-! # The I2C controller

`I2C` with its attached slaves. A command waits for a number of ticks and is then carried out: a
start, a byte to write, a byte to read, a stop. The first byte after a start is the address. What the
bus is for is stated beside the code: from the address byte on, the slave of that address gets
everything and the others get nothing.
-/

namespace Rv64Vm.I2c

open Lib

/-! ## Slaves -/

/-- What a class derived from `I2CSlave` may override. -/
class SlaveClass (σ : Type) where
  startTransmit : σ → σ
  stopTransmit : σ → σ
  devRead : Bool → σ → BitVec 8 × σ
  devWrite : BitVec 8 → σ → σ

open SlaveClass

/-- An attached slave. -/
structure Slave (σ : Type) where
  address : BitVec 8
  state : σ

def Slave.update {σ : Type} (s : Slave σ) (f : σ → σ) : Slave σ := { s with state := f s.state }

/-- The class `I2CSlave` itself. `buffer` is what stands at the buffer's address, its first `bufferSize` bytes being the
    buffer. -/
structure I2CSlave where
  bufferSize : BitVec 16
  bufferInd : BitVec 16 := 0
  buffer : BitVec 16 → BitVec 8
  isTransmitting : Bool := false

namespace I2CSlave

/-- `buffer_ind == buffer_size - 1`, as integers. -/
def AtEnd (s : I2CSlave) : Prop := s.bufferInd.toNat + 1 = s.bufferSize.toNat

instance (s : I2CSlave) : Decidable s.AtEnd := by unfold AtEnd; infer_instance

def stopTransmit (s : I2CSlave) : I2CSlave := { s with bufferInd := 0, isTransmitting := false }

def startTransmit (s : I2CSlave) : I2CSlave := { s with bufferInd := 0, isTransmitting := true }

def devRead (mAck : Bool) (s : I2CSlave) : BitVec 8 × I2CSlave :=
  (s.buffer s.bufferInd, if ¬ s.AtEnd ∨ mAck = false then { s with bufferInd := s.bufferInd + 1 } else s)

def devWrite (val : BitVec 8) (s : I2CSlave) : I2CSlave :=
  let s := { s with buffer := Function.update s.buffer s.bufferInd val }
  if ¬ s.AtEnd then { s with bufferInd := s.bufferInd + 1 } else s

instance : SlaveClass I2CSlave := ⟨startTransmit, stopTransmit, devRead, devWrite⟩

/-- A call of one of the four functions. -/
inductive Call where
  | start
  | stop
  | read (mAck : Bool)
  | write (val : BitVec 8)
  deriving DecidableEq

def step (s : I2CSlave) : Call → Option I2CSlave
  | .start => some s.startTransmit
  | .stop => some s.stopTransmit
  | .read mAck => some (s.devRead mAck).2
  | .write val => some (s.devWrite val)

/-- The index is inside the buffer. -/
def Inside (s : I2CSlave) : Prop := s.bufferInd.toNat < s.bufferSize.toNat

theorem inside_next_iff {s : I2CSlave} (inside : s.Inside) :
    Inside { s with bufferInd := s.bufferInd + 1 } ↔ ¬ s.AtEnd := by
  have small := s.bufferSize.isLt
  unfold Inside at inside ⊢
  unfold AtEnd
  dsimp only
  rw [BitVec.toNat_add]
  change (_ + 1) % _ < _ ↔ _
  omega

/-- Only a read that is not acknowledged steps beyond the last byte. -/
theorem step_inside_iff (s : I2CSlave) (call : Call) (inside : s.Inside) :
    (∃ next, s.step call = some next ∧ next.Inside) ↔ (call = .read false → ¬ s.AtEnd) := by
  have reset : 0 < s.bufferSize.toNat := Nat.lt_of_le_of_lt (Nat.zero_le _) inside
  cases call with
  | start => exact iff_of_true ⟨_, rfl, reset⟩ nofun
  | stop => exact iff_of_true ⟨_, rfl, reset⟩ nofun
  | read mAck =>
    simp only [step, devRead, Option.some.injEq, exists_eq_left', Call.read.injEq]
    cases mAck with
    | false =>
      rw [if_pos (.inr rfl), inside_next_iff inside]
      exact ⟨fun before _ => before, fun before => before rfl⟩
    | true =>
      refine iff_of_true ?_ nofun
      split
      case isTrue going => exact (inside_next_iff inside).mpr (going.resolve_right nofun)
      case isFalse => exact inside
  | write val =>
    simp only [step, devWrite, Option.some.injEq, exists_eq_left']
    refine iff_of_true ?_ nofun
    split
    case isTrue going => exact (inside_next_iff inside).mpr going
    case isFalse => exact inside

end I2CSlave

/-! ## The controller -/

structure I2cCr where
  iack : Bool
  ack : Bool
  wr : Bool
  rd : Bool
  sto : Bool
  sta : Bool

def I2cCr.ofRaw (raw : BitVec 8) : I2cCr :=
  ⟨raw.getLsbD 0, raw.getLsbD 3, raw.getLsbD 4, raw.getLsbD 5, raw.getLsbD 6, raw.getLsbD 7⟩

structure I2cSr where
  iflag : Bool := false
  tip : Bool := false
  al : Bool := false
  busy : Bool := false
  rxAck : Bool := false

def runDelay : Nat := 100

structure I2C (σ : Type) where
  slaves : List (Slave σ)
  prerLo : BitVec 8 := 0xFF
  prerHi : BitVec 8 := 0xFF
  ctr : BitVec 8 := 0
  txr : BitVec 8 := 0
  rxr : BitVec 8 := 0
  cr : I2cCr := .ofRaw 0
  sr : I2cSr := {}
  deviceSelected : Bool := false
  currentAddress : BitVec 16 := 0xFFFF
  /-- The position of the slave in `slaves`. -/
  currentDev : Option Nat := none
  isReadOperation : Bool := false
  intLine : Bool := false
  opActive : Bool := false
  delay : Nat := 0
  /-- What the PLIC was told last. -/
  pending : Bool := false

namespace I2C

variable {σ : Type} [SlaveClass σ] (i : I2C σ)

def raiseInterrupt : I2C σ :=
  if i.ctr.getLsbD 6 && !i.intLine then { i with intLine := true, pending := true } else i

def lowerInterrupt : I2C σ :=
  if i.intLine then { i with intLine := false, pending := false } else i

/-- `device_selected && current_dev` -/
def selected : Option Nat := if i.deviceSelected then i.currentDev else none

/-- A call to the slave at a position. -/
def call (k : Nat) (f : σ → σ) : I2C σ := { i with slaves := i.slaves.modify k (·.update f) }

/-- The first byte after a start: which slave is meant. -/
def select : I2C σ :=
  let address := (i.txr >>> 1).setWidth 16
  let i := { i with currentAddress := address, isReadOperation := i.txr.getLsbD 0, deviceSelected := false }
  match i.slaves.findIdx? fun s => s.address.setWidth 16 == address with
  | some k =>
    let i := { i with currentDev := some k }.call k startTransmit
    { i with deviceSelected := true, sr := { i.sr with rxAck := false } }
  | none => i

/-- `WR` -/
def transmit : I2C σ :=
  if i.currentAddress = 0xFFFF then i.select
  else
    let i := { i with sr := { i.sr with tip := true, rxAck := true } }
    match i.selected with
    | some k =>
      let i := i.call k (devWrite i.txr)
      { i with sr := { i.sr with rxAck := false } }
    | none => i

/-- `RD` -/
def receive : I2C σ :=
  let i := { i with sr := { i.sr with tip := true } }
  match i.selected with
  | some k =>
    let rxr := match i.slaves[k]? with
      | some s => (devRead i.cr.ack s.state).1
      | none => 0
    let i := i.call k fun s => (devRead i.cr.ack s).2
    { i with rxr, sr := { i.sr with rxAck := false } }
  | none => { i with rxr := 0xFF, sr := { i.sr with rxAck := true } }

/-- `STO` -/
def stop : I2C σ :=
  let i := match i.selected with
    | some k => i.call k stopTransmit
    | none => i
  { i with deviceSelected := false, sr := { i.sr with busy := false } }

/-- `IACK` -/
def acknowledge : I2C σ :=
  if i.cr.iack then
    let i := { i with sr := { i.sr with iflag := false } }.lowerInterrupt
    { i with cr := { i.cr with iack := false } }
  else i

/-- `STA` -/
def start : I2C σ := { i with sr := { i.sr with busy := true }, currentAddress := 0xFFFF }

/-- The end of a transaction, which a start alone does not reach. -/
def conclude : I2C σ :=
  if i.cr.wr || i.cr.rd || i.cr.sto then { i with sr := { i.sr with tip := false, iflag := true } }.raiseInterrupt
  else i

def executeCommand : I2C σ :=
  let i := i.acknowledge
  if i.cr.sta = false ∧ i.cr.sto = false ∧ i.cr.rd = false ∧ i.cr.wr = false then i
  else
    let i := if i.cr.sta then i.start else i
    let i := if i.cr.wr then i.transmit else i
    let i := if i.cr.rd then i.receive else i
    let i := if i.cr.sto then i.stop else i
    i.conclude

def tick : I2C σ :=
  if i.opActive then
    let i := { i with delay := i.delay + 1 }
    if i.delay < runDelay then i else { i.executeCommand with opActive := false }
  else i

/-- `I2C::write` at an offset. -/
def write (offs val : BitVec 64) : I2C σ :=
  let val := val.setWidth 8
  if offs = 0 then { i with prerLo := val }
  else if offs = 4 then { i with prerHi := val }
  else if offs = 8 then
    if val.getLsbD 7 then { i with ctr := val }
    else { i with ctr := val, sr := {}, deviceSelected := false, currentAddress := 0xFFFF }.lowerInterrupt
  else if offs = 12 then { i with txr := val }
  else if offs = 16 then
    if i.ctr.getLsbD 7 then
      { i with cr := .ofRaw val, opActive := true, delay := 0, sr := { i.sr with tip := true, iflag := false } }
    else i
  else i

end I2C

/-! ## Commands -/

/-- A command with its transmit register, and the ticks it is given, which are enough. -/
structure Command where
  txr : BitVec 8
  raw : BitVec 8
  ticks : Nat
  complete : runDelay ≤ ticks

def Command.cr (c : Command) : I2cCr := .ofRaw c.raw

namespace I2C

variable {σ : Type} [SlaveClass σ]

def command (i : I2C σ) (c : Command) : I2C σ :=
  tick^[c.ticks] ((i.write 12 (c.txr.setWidth 64)).write 16 (c.raw.setWidth 64))

/-- The controller when the delay has passed. -/
def due (i : I2C σ) (c : Command) : I2C σ :=
  { i with
    txr := c.txr, cr := c.cr, opActive := true, delay := runDelay, sr := { i.sr with tip := true, iflag := false } }

theorem tick_waits (i : I2C σ) {n : Nat} (early : n < runDelay) (active : i.opActive = true) :
    tick^[n] { i with delay := 0 } = { i with delay := n } := by
  induction n with
  | zero => rfl
  | succ n ih =>
    rw [Function.iterate_succ_apply', ih (Nat.lt_of_succ_lt early), tick]
    dsimp only
    rw [if_pos active, if_pos early]

theorem tick_idle (i : I2C σ) (n : Nat) (idle : i.opActive = false) : tick^[n] i = i := by
  have still : tick i = i := if_neg (by rw [idle]; exact Bool.false_ne_true)
  exact Function.iterate_fixed still n

/-- A command that is given its ticks is carried out once. -/
theorem command_eq {i : I2C σ} (enabled : i.ctr.getLsbD 7 = true) (c : Command) :
    i.command c = { (i.due c).executeCommand with opActive := false } := by
  have written : (i.write 12 (c.txr.setWidth 64)).write 16 (c.raw.setWidth 64) = { i.due c with delay := 0 } := by
    have first : i.write 12 (c.txr.setWidth 64) = { i with txr := c.txr } := by
      unfold write
      simp only [show (12 : BitVec 64) ≠ 0 by decide, show (12 : BitVec 64) ≠ 4 by decide,
        show (12 : BitVec 64) ≠ 8 by decide, if_false, if_true,
          BitVec.setWidth_setWidth_of_le _ (show 8 ≤ 64 by decide),
        BitVec.setWidth_eq]
    rw [first]
    unfold write
    simp only [show (16 : BitVec 64) ≠ 0 by decide, show (16 : BitVec 64) ≠ 4 by decide,
      show (16 : BitVec 64) ≠ 8 by decide, show (16 : BitVec 64) ≠ 12 by decide, if_false, if_true, enabled,
      BitVec.setWidth_setWidth_of_le _ (show 8 ≤ 64 by decide), BitVec.setWidth_eq]
    rfl
  have split : c.ticks = (c.ticks - runDelay) + 1 + 99 := by
    have complete := c.complete
    unfold runDelay at complete ⊢
    omega
  rw [command, written, split, Function.iterate_add_apply, tick_waits _ (by decide) rfl, Function.iterate_add_apply]
  have last : tick^[1] { i.due c with delay := 99 } = { (i.due c).executeCommand with opActive := false } := rfl
  rw [last]
  exact tick_idle _ _ rfl

end I2C

/-! ## Slaves by address -/

section Slaves

variable {σ : Type}

/-- A call to the slave of an address. -/
def onAddress (a : BitVec 8) (f : σ → σ) (slaves : List (Slave σ)) : List (Slave σ) :=
  slaves.map fun s => if s.address = a then s.update f else s

def Distinct (slaves : List (Slave σ)) : Prop := (slaves.map (·.address)).Nodup

/-- An address has one position. -/
theorem Distinct.position {slaves : List (Slave σ)} (distinct : Distinct slaves) {k j : Nat} {s t : Slave σ}
    (first : slaves[k]? = some s) (second : slaves[j]? = some t) (same : s.address = t.address) : k = j := by
  have inside : k < (slaves.map (·.address)).length := by
    rw [List.length_map]
    exact (List.getElem?_eq_some_iff.mp first).1
  apply (List.getElem?_inj inside distinct).mp
  rw [List.getElem?_map, List.getElem?_map, first, second, Option.map_some, Option.map_some, same]

theorem onAddress_addresses (a : BitVec 8) (f : σ → σ) (slaves : List (Slave σ)) :
    (onAddress a f slaves).map (·.address) = slaves.map (·.address) := by
  rw [onAddress, List.map_map]
  apply List.map_congr_left
  intro s _
  dsimp only [Function.comp]
  split <;> rfl

theorem onAddress_comp (a : BitVec 8) (f g : σ → σ) (slaves : List (Slave σ)) :
    onAddress a f (onAddress a g slaves) = onAddress a (f ∘ g) slaves := by
  rw [onAddress, onAddress, List.map_map]
  apply List.map_congr_left
  intro s _
  by_cases here : s.address = a
  · have still : (s.update g).address = a := here
    simp only [Function.comp, if_pos here, if_pos still]
    rfl
  · simp only [Function.comp, if_neg here]

theorem onAddress_id (a : BitVec 8) (slaves : List (Slave σ)) : onAddress a id slaves = slaves := by
  rw [onAddress]
  conv_rhs => rw [← List.map_id slaves]
  apply List.map_congr_left
  intro s _
  split <;> rfl

theorem onAddress_nobody {a : BitVec 8} (f : σ → σ) {slaves : List (Slave σ)} (nobody : ∀ s ∈ slaves, s.address ≠ a) :
    onAddress a f slaves = slaves := by
  rw [onAddress]
  conv_rhs => rw [← List.map_id slaves]
  apply List.map_congr_left
  intro s mem
  rw [if_neg (nobody s mem)]
  rfl

/-- A call by position is a call by address. -/
theorem modify_eq_onAddress {slaves : List (Slave σ)} (distinct : Distinct slaves) {k : Nat} {s : Slave σ}
    {a : BitVec 8} (there : slaves[k]? = some s) (address : s.address = a) (f : σ → σ) :
    slaves.modify k (·.update f) = onAddress a f slaves := by
  apply List.ext_getElem?
  intro j
  rw [List.getElem?_modify, onAddress, List.getElem?_map]
  by_cases here : k = j
  · subst here
    simp only [there, if_true, Option.map_some, Option.map_eq_map, if_pos address]
  · simp only [if_neg here]
    cases other : slaves[j]? with
    | none => rfl
    | some t =>
      have apart : t.address ≠ a := by
        intro same
        exact here (distinct.position there other (address.trans same.symm))
      rw [Option.map_some, if_neg apart]
      rfl

end Slaves

/-! ## The law -/

section Law

variable {σ : Type}

/-- Somebody has the address. -/
def Attached (i : I2C σ) (a : BitVec 8) : Prop := ∃ s ∈ i.slaves, s.address = a

/-- The selected slave is the one of the address. -/
structure Addresses (i : I2C σ) (a : BitVec 8) : Prop where
  started : i.currentAddress ≠ 0xFFFF
  slave : ∀ k, i.selected = some k → ∃ s, i.slaves[k]? = some s ∧ s.address = a
  absent : i.selected = none → ¬ Attached i a

theorem attached_iff {i j : I2C σ} (same : j.slaves.map (·.address) = i.slaves.map (·.address)) (a : BitVec 8) :
    Attached j a ↔ Attached i a := by
  have names (k : I2C σ) : Attached k a ↔ a ∈ k.slaves.map (·.address) := by
    rw [List.mem_map]
    rfl
  rw [names, names, same]

/-- The slaves after a call to the selected one. -/
def I2C.called (i : I2C σ) (f : σ → σ) : List (Slave σ) :=
  match i.selected with
  | some k => (i.call k f).slaves
  | none => i.slaves

/-- What no stage of a command changes. -/
structure Keeps (i j : I2C σ) : Prop where
  cr : j.cr = i.cr
  txr : j.txr = i.txr
  ctr : j.ctr = i.ctr
  addresses : j.slaves.map (·.address) = i.slaves.map (·.address)

/-- A stage that calls the selected slave, and leaves it selected. -/
structure Calls (f : σ → σ) (i j : I2C σ) : Prop where
  cr : j.cr = i.cr
  txr : j.txr = i.txr
  ctr : j.ctr = i.ctr
  slaves : j.slaves = i.called f
  current : j.currentAddress = i.currentAddress
  selected : j.selected = i.selected

section Called

variable {i j : I2C σ} {a : BitVec 8} {f : σ → σ} {k : Nat}

theorem called_some (chosen : i.selected = some k) : i.called f = (i.call k f).slaves := by rw [I2C.called, chosen]

theorem called_none (chosen : i.selected = none) : i.called f = i.slaves := by rw [I2C.called, chosen]

theorem call_addresses (i : I2C σ) (k : Nat) (f : σ → σ) :
    (i.call k f).slaves.map (·.address) = i.slaves.map (·.address) := by
  apply List.ext_getElem?
  intro j
  rw [List.getElem?_map, List.getElem?_map, I2C.call, List.getElem?_modify]
  cases i.slaves[j]? with
  | none => rfl
  | some s =>
    change some (if k = j then s.update f else s).address = _
    split <;> rfl

theorem Keeps.trans {i j k : I2C σ} (first : Keeps i j) (second : Keeps j k) : Keeps i k :=
  ⟨second.cr.trans first.cr, second.txr.trans first.txr, second.ctr.trans first.ctr,
    second.addresses.trans first.addresses⟩

theorem Calls.keeps (calls : Calls f i j) : Keeps i j := by
  refine ⟨calls.cr, calls.txr, calls.ctr, ?_⟩
  rw [calls.slaves]
  cases chosen : i.selected with
  | some k => rw [called_some chosen, call_addresses]
  | none => rw [called_none chosen]

namespace Addresses

theorem called (addresses : Addresses i a) (distinct : Distinct i.slaves) (f : σ → σ) :
    i.called f = onAddress a f i.slaves := by
  cases chosen : i.selected with
  | some k =>
    obtain ⟨s, there, address⟩ := addresses.slave k chosen
    exact (called_some chosen).trans (modify_eq_onAddress distinct there address f)
  | none =>
    rw [called_none chosen]
    exact (onAddress_nobody f fun s mem address => addresses.absent chosen ⟨s, mem, address⟩).symm

/-- Calls do not change who is selected. -/
theorem of_onAddress (addresses : Addresses i a) (f : σ → σ) (slaves : j.slaves = onAddress a f i.slaves)
    (current : j.currentAddress = i.currentAddress) (selected : j.selected = i.selected) : Addresses j a := by
  refine ⟨current ▸ addresses.started, fun k chosen => ?_, fun chosen => ?_⟩
  · obtain ⟨s, there, address⟩ := addresses.slave k (selected ▸ chosen)
    refine ⟨s.update f, ?_, address⟩
    rw [slaves, onAddress, List.getElem?_map, there, Option.map_some, if_pos address]
  · rintro ⟨s, mem, address⟩
    have names := onAddress_addresses a f i.slaves
    have there : a ∈ i.slaves.map (·.address) := by
      rw [← names, ← slaves]
      exact List.mem_map.mpr ⟨s, mem, address⟩
    obtain ⟨t, mem, address⟩ := List.mem_map.mp there
    exact addresses.absent (selected ▸ chosen) ⟨t, mem, address⟩

theorem after (addresses : Addresses i a) (distinct : Distinct i.slaves) (calls : Calls f i j) :
    j.slaves = onAddress a f i.slaves ∧ Addresses j a := by
  have slaves := calls.slaves.trans (addresses.called distinct f)
  exact ⟨slaves, addresses.of_onAddress f slaves calls.current calls.selected⟩

end Addresses

end Called

variable [SlaveClass σ]

/-- What a command does to the slave it is for, before anything is read: the first byte after a start is the address,
    every other one is data. -/
def I2cCr.first (cr : I2cCr) (txr : BitVec 8) (s : σ) : σ :=
  if cr.sta then startTransmit s else if cr.wr then devWrite txr s else s

/-- The rest of what a command does to the slave it is for. -/
def I2cCr.last (cr : I2cCr) (s : σ) : σ :=
  let s := if cr.rd then (devRead cr.ack s).2 else s
  if cr.sto then stopTransmit s else s

/-- The address the command's bytes are for, if there is one. -/
def Command.addressed (c : Command) (window : Option (BitVec 8)) : Option (BitVec 8) :=
  if c.cr.sta then if c.cr.wr then some (c.txr >>> 1) else none else window

/-- The slave at the address gets what the command says and answers it; nobody else notices. -/
structure Delivers (i i' : I2C σ) (c : Command) (a : BitVec 8) : Prop where
  slaves : i'.slaves = onAddress a (c.cr.last ∘ c.cr.first c.txr) i.slaves
  answered : c.cr.rd = true → ∀ s ∈ i.slaves, s.address = a →
    i'.rxr = (devRead c.cr.ack (c.cr.first c.txr s.state)).1 ∧ i'.sr.rxAck = false
  nobody : c.cr.rd = true → (∀ s ∈ i.slaves, s.address ≠ a) → i'.rxr = 0xFF ∧ i'.sr.rxAck = true

/-- The controller, and the address in use since the last start. -/
structure Bus (σ : Type) where
  i2c : I2C σ
  window : Option (BitVec 8)

def Bus.step (b : Bus σ) (c : Command) : Option (Bus σ) :=
  some ⟨b.i2c.command c, if c.cr.sto then none else c.addressed b.window⟩

structure Lawful (b : Bus σ) (c : Command) : Prop where
  acked : c.cr.sta = true → c.cr.wr = true →
    ((b.i2c.command c).sr.rxAck = false ↔ Attached b.i2c (c.txr >>> 1))
  delivers : ∀ a, c.addressed b.window = some a → Delivers b.i2c (b.i2c.command c) c a

/-- An address byte for nobody, without a read in the same command, comes when `RxACK` is set already. -/
def Refused (b : Bus σ) (c : Command) : Prop :=
  c.cr.sta = true → c.cr.wr = true → c.cr.rd = true ∨ Attached b.i2c (c.txr >>> 1) ∨ b.i2c.sr.rxAck = true

/-! ## Stages of a command -/

section Stages

variable {i : I2C σ}

theorem transmit_calls (started : i.currentAddress ≠ 0xFFFF) : Calls (devWrite i.txr) i i.transmit := by
  unfold I2C.transmit
  rw [if_neg started]
  dsimp only
  split
  case h_1 k chosen => exact ⟨rfl, rfl, rfl, (called_some chosen).symm, rfl, rfl⟩
  case h_2 chosen => exact ⟨rfl, rfl, rfl, (called_none chosen).symm, rfl, rfl⟩

theorem receive_calls (i : I2C σ) : Calls (fun s => (devRead i.cr.ack s).2) i i.receive := by
  unfold I2C.receive
  dsimp only
  split
  case h_1 k chosen => exact ⟨rfl, rfl, rfl, (called_some chosen).symm, rfl, rfl⟩
  case h_2 chosen => exact ⟨rfl, rfl, rfl, (called_none chosen).symm, rfl, rfl⟩

theorem Addresses.answers {a : BitVec 8} (addresses : Addresses i a) (distinct : Distinct i.slaves) :
    (∀ s ∈ i.slaves, s.address = a → i.receive.rxr = (devRead i.cr.ack s.state).1 ∧ i.receive.sr.rxAck = false) ∧
      (¬ Attached i a → i.receive.rxr = 0xFF ∧ i.receive.sr.rxAck = true) := by
  unfold I2C.receive
  dsimp only
  split
  case h_1 k chosen =>
    obtain ⟨t, there, address⟩ := addresses.slave k chosen
    refine ⟨fun s mem here => ?_, fun nobody => absurd ⟨t, List.mem_of_getElem? there, address⟩ nobody⟩
    obtain ⟨j, found⟩ := List.getElem?_of_mem mem
    obtain rfl := distinct.position there found (address.trans here.symm)
    obtain rfl := Option.some.inj (found.symm.trans there)
    dsimp only
    rw [there]
    exact ⟨rfl, rfl⟩
  case h_2 chosen =>
    exact ⟨fun s mem here => absurd ⟨s, mem, here⟩ (addresses.absent chosen), fun _ => ⟨rfl, rfl⟩⟩

theorem stop_spec (i : I2C σ) :
    i.stop.slaves = i.called stopTransmit ∧ i.stop.rxr = i.rxr ∧ i.stop.sr.rxAck = i.sr.rxAck ∧ Keeps i i.stop := by
  unfold I2C.stop
  dsimp only
  split
  case h_1 k chosen => exact ⟨(called_some chosen).symm, rfl, rfl, rfl, rfl, rfl, call_addresses ..⟩
  case h_2 chosen => exact ⟨(called_none chosen).symm, rfl, rfl, rfl, rfl, rfl, rfl⟩

theorem transmit_keeps (i : I2C σ) : Keeps i i.transmit := by
  by_cases fresh : i.currentAddress = 0xFFFF
  · rw [I2C.transmit, if_pos fresh, I2C.select]
    dsimp only
    split
    · exact ⟨rfl, rfl, rfl, call_addresses ..⟩
    · exact ⟨rfl, rfl, rfl, rfl⟩
  · exact (transmit_calls fresh).keeps

end Stages

variable {i : I2C σ} {a : BitVec 8} {b : Bus σ} {c : Command}

theorem select_spec (distinct : Distinct i.slaves) :
    i.select.slaves = onAddress (i.txr >>> 1) startTransmit i.slaves ∧ Addresses i.select (i.txr >>> 1) ∧
      (Attached i (i.txr >>> 1) → i.select.sr.rxAck = false) ∧
      (¬ Attached i (i.txr >>> 1) → i.select.sr.rxAck = i.sr.rxAck) := by
  have named (s : Slave σ) : (s.address.setWidth 16 == (i.txr >>> 1).setWidth 16) = true ↔ s.address = i.txr >>> 1 := by
    rw [beq_iff_eq, ← BitVec.toNat_inj, ← BitVec.toNat_inj, BitVec.toNat_setWidth_of_le (by decide),
      BitVec.toNat_setWidth_of_le (by decide)]
  have narrow : (i.txr >>> 1).setWidth 16 ≠ 0xFFFF := by
    intro same
    have value := congrArg BitVec.toNat same
    have small := (i.txr >>> 1).isLt
    rw [BitVec.toNat_setWidth_of_le (by decide)] at value
    change _ = 65535 at value
    omega
  unfold I2C.select
  dsimp only
  cases found : i.slaves.findIdx? fun s => s.address.setWidth 16 == (i.txr >>> 1).setWidth 16 with
  | some k =>
    obtain ⟨inside, here, -⟩ := List.findIdx?_eq_some_iff_getElem.mp found
    have address := (named _).mp here
    have there : i.slaves[k]? = some i.slaves[k] := List.getElem?_eq_getElem inside
    have started := modify_eq_onAddress distinct there address startTransmit
    refine ⟨started, ⟨narrow, fun j chosen => ?_, fun chosen => absurd chosen nofun⟩, fun _ => rfl, fun nobody => ?_⟩
    · obtain rfl := Option.some.inj (show some k = some j from chosen)
      refine ⟨i.slaves[k].update startTransmit, ?_, address⟩
      dsimp only [I2C.call]
      rw [List.getElem?_modify, there]
      exact congrArg some (if_pos rfl)
    · exact absurd ⟨_, List.getElem_mem inside, address⟩ nobody
  | none =>
    have nobody : ¬ Attached i (i.txr >>> 1) := by
      rintro ⟨s, mem, address⟩
      have other := List.findIdx?_eq_none_iff.mp found s mem
      exact absurd ((named s).mpr address) (by rw [other]; exact Bool.false_ne_true)
    have same := onAddress_nobody startTransmit fun s mem address => nobody ⟨s, mem, address⟩
    exact ⟨same.symm, ⟨narrow, nofun, fun _ => nobody⟩, fun attached => absurd attached nobody, fun _ => rfl⟩

/-- The start and the byte written. -/
def I2C.send (i : I2C σ) : I2C σ :=
  let i := if i.cr.sta then i.start else i
  if i.cr.wr then i.transmit else i

/-- The state before a command that is for somebody: an address byte, or data for an address in use. -/
def For (i : I2C σ) (a : BitVec 8) : Prop :=
  if i.cr.sta then i.cr.wr = true ∧ i.txr >>> 1 = a else Addresses i a

theorem send_spec (distinct : Distinct i.slaves) (goal : For i a) :
    i.send.slaves = onAddress a (i.cr.first i.txr) i.slaves ∧ Addresses i.send a := by
  unfold For at goal
  unfold I2C.send
  cases sta : i.cr.sta with
  | true =>
    rw [sta, if_pos rfl] at goal
    obtain ⟨wr, rfl⟩ := goal
    have chosen := select_spec (i := i.start) distinct
    have first : (i.cr.first i.txr : σ → σ) = startTransmit := by
      funext s
      exact if_pos sta
    have selects : i.start.transmit = i.start.select := if_pos rfl
    dsimp only
    rw [if_pos rfl, show i.start.cr.wr = true from wr, if_pos rfl, selects, first]
    exact ⟨chosen.1, chosen.2.1⟩
  | false =>
    rw [sta, if_neg Bool.false_ne_true] at goal
    dsimp only
    rw [if_neg Bool.false_ne_true]
    cases wr : i.cr.wr with
    | true =>
      have first : (i.cr.first i.txr : σ → σ) = devWrite i.txr := by
        funext s
        rw [I2cCr.first, sta, wr]
        rfl
      rw [if_pos rfl, first]
      exact goal.after distinct (transmit_calls goal.started)
    | false =>
      have first : (i.cr.first i.txr : σ → σ) = id := by
        funext s
        rw [I2cCr.first, sta, wr]
        rfl
      rw [if_neg Bool.false_ne_true, first]
      exact ⟨(onAddress_id a i.slaves).symm, goal⟩

theorem send_keeps (i : I2C σ) : Keeps i i.send := by
  have started : Keeps i (if i.cr.sta then i.start else i) := by
    split <;> exact ⟨rfl, rfl, rfl, rfl⟩
  unfold I2C.send
  dsimp only
  generalize (if i.cr.sta then i.start else i) = j at started ⊢
  split
  · exact started.trans (transmit_keeps j)
  · exact started

/-- What comes after the byte written. -/
def I2C.finish (i : I2C σ) : I2C σ :=
  let i := if i.cr.rd then i.receive else i
  if i.cr.sto then i.stop else i

structure Finished (i i' : I2C σ) (a : BitVec 8) : Prop where
  slaves : i'.slaves = onAddress a i.cr.last i.slaves
  answered : i.cr.rd = true → ∀ s ∈ i.slaves, s.address = a →
    i'.rxr = (devRead i.cr.ack s.state).1 ∧ i'.sr.rxAck = false
  nobody : i.cr.rd = true → ¬ Attached i a → i'.rxr = 0xFF ∧ i'.sr.rxAck = true
  unread : i.cr.rd = false → i'.sr.rxAck = i.sr.rxAck
  stays : i.cr.sto = false → Addresses i' a

theorem finish_spec (distinct : Distinct i.slaves) (addresses : Addresses i a) : Finished i i.finish a := by
  -- the read first, and the stop on what it leaves
  have stopped {j : I2C σ} {g : σ → σ} (cr : j.cr = i.cr) (slaves : j.slaves = onAddress a g i.slaves)
      (addresses : Addresses j a) (both : ∀ s, i.cr.last s = if i.cr.sto then stopTransmit (g s) else g s) :
      let k := if j.cr.sto then j.stop else j
      k.slaves = onAddress a i.cr.last i.slaves ∧ k.rxr = j.rxr ∧ k.sr.rxAck = j.sr.rxAck ∧
        (i.cr.sto = false → Addresses k a) := by
    dsimp only
    rw [cr, show (i.cr.last : σ → σ) = _ from funext both]
    have apart : Distinct j.slaves := by
      rw [Distinct, slaves, onAddress_addresses]
      exact distinct
    cases i.cr.sto with
    | true =>
      obtain ⟨stops, rxr, rxAck, -⟩ := stop_spec j
      rw [if_pos rfl, stops, addresses.called apart, slaves, onAddress_comp]
      exact ⟨rfl, rxr, rxAck, nofun⟩
    | false =>
      rw [if_neg Bool.false_ne_true]
      exact ⟨slaves, rfl, rfl, fun _ => addresses⟩
  unfold I2C.finish
  dsimp only
  cases rd : i.cr.rd with
  | true =>
    obtain ⟨slaves, after⟩ := addresses.after distinct (receive_calls i)
    obtain ⟨answered, nobody⟩ := addresses.answers distinct
    have ends := stopped (receive_calls i).cr slaves after fun s => by rw [I2cCr.last, rd]; rfl
    rw [if_pos rfl]
    refine ⟨ends.1, fun _ s mem here => ?_, fun _ absent => ?_, fun unread => absurd (rd.symm.trans unread) nofun,
      ends.2.2.2⟩
    · rw [ends.2.1, ends.2.2.1]
      exact answered s mem here
    · rw [ends.2.1, ends.2.2.1]
      exact nobody absent
  | false =>
    have ends := stopped rfl (onAddress_id a i.slaves).symm addresses fun s => by rw [I2cCr.last, rd]; rfl
    rw [if_neg Bool.false_ne_true]
    exact ⟨ends.1, fun read => absurd (rd.symm.trans read) nofun, fun read => absurd (rd.symm.trans read) nofun,
      fun _ => ends.2.2.1, ends.2.2.2⟩

theorem finish_keeps (i : I2C σ) : Keeps i i.finish := by
  have read : Keeps i (if i.cr.rd then i.receive else i) := by
    split
    · exact (receive_calls i).keeps
    · exact ⟨rfl, rfl, rfl, rfl⟩
  unfold I2C.finish
  dsimp only
  generalize (if i.cr.rd then i.receive else i) = j at read ⊢
  split
  · exact read.trans (stop_spec j).2.2.2
  · exact read

theorem executeCommand_eq (i : I2C σ) : i.executeCommand = i.acknowledge.send.finish.conclude := by
  unfold I2C.executeCommand
  dsimp only
  split
  case isFalse => rfl
  case isTrue idle =>
    obtain ⟨sta, sto, rd, wr⟩ := idle
    have sent : i.acknowledge.send = i.acknowledge := by
      unfold I2C.send
      simp only [sta, wr, Bool.false_eq_true, if_false]
    have finished : i.acknowledge.finish = i.acknowledge := by
      unfold I2C.finish
      simp only [rd, sto, Bool.false_eq_true, if_false]
    rw [sent, finished, I2C.conclude]
    simp only [wr, rd, sto, Bool.or_self, Bool.false_eq_true, if_false]

/-! ## Runs of commands -/

/-- What the interrupt and the delay have no part in. -/
structure Agrees (i j : I2C σ) : Prop where
  slaves : j.slaves = i.slaves
  rxr : j.rxr = i.rxr
  rxAck : j.sr.rxAck = i.sr.rxAck
  current : j.currentAddress = i.currentAddress
  selected : j.selected = i.selected
  ctr : j.ctr = i.ctr

omit [SlaveClass σ] in
theorem acknowledge_agrees (i : I2C σ) :
    Agrees i i.acknowledge ∧ i.acknowledge.txr = i.txr ∧ ∃ iack, i.acknowledge.cr = { i.cr with iack := iack } := by
  unfold I2C.acknowledge I2C.lowerInterrupt
  dsimp only
  split
  · split <;> exact ⟨⟨rfl, rfl, rfl, rfl, rfl, rfl⟩, rfl, false, rfl⟩
  · exact ⟨⟨rfl, rfl, rfl, rfl, rfl, rfl⟩, rfl, i.cr.iack, rfl⟩

omit [SlaveClass σ] in
theorem conclude_agrees (i : I2C σ) : Agrees i i.conclude := by
  unfold I2C.conclude I2C.raiseInterrupt
  dsimp only
  split
  · split <;> exact ⟨rfl, rfl, rfl, rfl, rfl, rfl⟩
  · exact ⟨rfl, rfl, rfl, rfl, rfl, rfl⟩

/-- A command is its three stages. -/
theorem command_stages (enabled : i.ctr.getLsbD 7 = true) (c : Command) :
    ∃ e, Agrees i e ∧ e.txr = c.txr ∧ (∃ iack, e.cr = { c.cr with iack := iack }) ∧
      Agrees e.send.finish (i.command c) := by
  obtain ⟨agrees, txr, cr⟩ := acknowledge_agrees (i.due c)
  refine ⟨(i.due c).acknowledge, ?_, txr, cr, ?_⟩
  · exact ⟨agrees.slaves, agrees.rxr, agrees.rxAck, agrees.current, agrees.selected, agrees.ctr⟩
  · have ends := conclude_agrees (i.due c).acknowledge.send.finish
    rw [I2C.command_eq enabled, executeCommand_eq]
    exact ⟨ends.slaves, ends.rxr, ends.rxAck, ends.current, ends.selected, ends.ctr⟩

/-- A controller that is enabled, slaves with addresses of their own, and the address in use selected. -/
structure Ready (b : Bus σ) : Prop where
  enabled : b.i2c.ctr.getLsbD 7 = true
  distinct : Distinct b.i2c.slaves
  window : ∀ a, b.window = some a → Addresses b.i2c a

theorem Ready.stages (ready : Ready b) {e : I2C σ} (agrees : Agrees b.i2c e)
    (txr : e.txr = c.txr) {iack : Bool} (cr : e.cr = { c.cr with iack := iack })
    (goal : c.addressed b.window = some a) :
    e.send.slaves = onAddress a (c.cr.first c.txr) b.i2c.slaves ∧ Addresses e.send a ∧
      Finished e.send e.send.finish a := by
  have distinct : Distinct e.slaves := agrees.slaves ▸ ready.distinct
  have here : For e a := by
    unfold For
    rw [cr, txr]
    unfold Command.addressed at goal
    dsimp only
    split at goal
    case isTrue sta =>
      split at goal
      case isTrue wr => exact (if_pos sta).mpr ⟨wr, Option.some.inj goal⟩
      case isFalse => cases goal
    case isFalse sta =>
      refine (if_neg sta).mpr ?_
      exact (ready.window a goal).of_onAddress id ((onAddress_id a _).symm ▸ agrees.slaves) agrees.current
        agrees.selected
  obtain ⟨slaves, addresses⟩ := send_spec distinct here
  have first : (e.cr.first e.txr : σ → σ) = c.cr.first c.txr := by
    rw [cr, txr]
    rfl
  refine ⟨?_, addresses, finish_spec ?_ addresses⟩
  · rw [slaves, first, agrees.slaves]
  · rw [Distinct, (send_keeps e).addresses]
    exact distinct

theorem Ready.delivers (ready : Ready b) (goal : c.addressed b.window = some a) :
    Delivers b.i2c (b.i2c.command c) c a := by
  obtain ⟨e, agrees, txr, ⟨iack, cr⟩, ends⟩ := command_stages ready.enabled c
  obtain ⟨slaves, -, finished⟩ := ready.stages agrees txr cr goal
  have kept : e.send.cr = { c.cr with iack := iack } := (send_keeps e).cr.trans cr
  have same := (send_keeps e).addresses.trans (congrArg (List.map (·.address)) agrees.slaves)
  refine ⟨?_, fun read s mem address => ?_, fun read nobody => ?_⟩
  · rw [ends.slaves, finished.slaves, slaves, onAddress_comp, kept]
    rfl
  · have member : s.update (c.cr.first c.txr) ∈ e.send.slaves := by
      rw [slaves, onAddress]
      exact List.mem_map.mpr ⟨s, mem, if_pos address⟩
    have answer := finished.answered (by rw [kept]; exact read) _ member address
    rw [kept] at answer
    rw [ends.rxr, ends.rxAck]
    exact answer
  · have absent : ¬ Attached e.send a := by
      rw [attached_iff same]
      rintro ⟨s, mem, address⟩
      exact nobody s mem address
    rw [ends.rxr, ends.rxAck]
    exact finished.nobody (by rw [kept]; exact read) absent

/-- The bit after an address byte that nothing is read after: cleared by a slave, and otherwise left as it was. -/
theorem Ready.acked (ready : Ready b) (sta : c.cr.sta = true) (wr : c.cr.wr = true)
    (unread : c.cr.rd = false) :
    (Attached b.i2c (c.txr >>> 1) → (b.i2c.command c).sr.rxAck = false) ∧
      (¬ Attached b.i2c (c.txr >>> 1) → (b.i2c.command c).sr.rxAck = b.i2c.sr.rxAck) := by
  obtain ⟨e, agrees, txr, ⟨iack, cr⟩, ends⟩ := command_stages ready.enabled c
  have goal : c.addressed b.window = some (c.txr >>> 1) := by rw [Command.addressed, if_pos sta, if_pos wr]
  obtain ⟨-, -, finished⟩ := ready.stages agrees txr cr goal
  have selects : e.send = e.start.select := by
    have both : e.cr.sta = true ∧ e.cr.wr = true := by
      rw [cr]
      exact ⟨sta, wr⟩
    unfold I2C.send
    dsimp only
    rw [if_pos both.1, show e.start.cr.wr = true from both.2, if_pos rfl]
    exact if_pos rfl
  have chosen := select_spec (i := e.start) (show Distinct e.start.slaves from agrees.slaves ▸ ready.distinct)
  have same : Attached e.start (e.start.txr >>> 1) ↔ Attached b.i2c (c.txr >>> 1) := by
    rw [show e.start.txr = c.txr from txr]
    exact attached_iff (congrArg (List.map (·.address)) agrees.slaves) _
  have skipped : e.send.cr.rd = false := by
    rw [(send_keeps e).cr, cr]
    exact unread
  rw [ends.rxAck, finished.unread skipped, selects]
  refine ⟨fun attached => chosen.2.2.1 (same.mpr attached), fun nobody => ?_⟩
  rw [chosen.2.2.2 fun attached => nobody (same.mp attached)]
  exact agrees.rxAck

theorem lawful_iff (b : Bus σ) (c : Command) (ready : Ready b) : Lawful b c ↔ Refused b c := by
  constructor
  · intro lawful sta wr
    cases read : c.cr.rd with
    | true => exact .inl rfl
    | false =>
      refine .inr ?_
      by_contra neither
      obtain ⟨nobody, silent⟩ := not_or.mp neither
      have left := (ready.acked sta wr read).2 nobody
      rw [Bool.not_eq_true] at silent
      exact nobody ((lawful.acked sta wr).mp (left.trans silent))
  · intro refused
    refine ⟨fun sta wr => ?_, fun a goal => ready.delivers goal⟩
    have goal : c.addressed b.window = some (c.txr >>> 1) := by rw [Command.addressed, if_pos sta, if_pos wr]
    cases read : c.cr.rd with
    | true =>
      have delivers := ready.delivers goal
      constructor
      · intro acked
        by_contra nobody
        have set := (delivers.nobody read fun s mem address => nobody ⟨s, mem, address⟩).2
        exact absurd (acked.symm.trans set) Bool.false_ne_true
      · rintro ⟨s, mem, address⟩
        exact (delivers.answered read s mem address).2
    | false =>
      refine ⟨fun acked => ?_, (ready.acked sta wr read).1⟩
      by_contra nobody
      rcases refused sta wr with read' | attached | set
      · exact absurd (read.symm.trans read') Bool.false_ne_true
      · exact nobody attached
      · have left := (ready.acked sta wr read).2 nobody
        exact absurd ((acked.symm.trans left).trans set) Bool.false_ne_true

theorem Ready.step {b next : Bus σ} (ready : Ready b) (step : b.step c = some next) : Ready next := by
  obtain rfl := Option.some.inj step
  obtain ⟨e, agrees, txr, ⟨iack, cr⟩, ends⟩ := command_stages ready.enabled c
  have keeps := (send_keeps e).trans (finish_keeps e.send)
  refine ⟨?_, ?_, fun a window => ?_⟩
  · change (b.i2c.command c).ctr.getLsbD 7 = true
    rw [ends.ctr, keeps.ctr, agrees.ctr]
    exact ready.enabled
  · change Distinct (b.i2c.command c).slaves
    rw [ends.slaves, Distinct, keeps.addresses, agrees.slaves]
    exact ready.distinct
  · change (if c.cr.sto then none else c.addressed b.window) = some a at window
    split at window
    case isTrue => cases window
    case isFalse going =>
      obtain ⟨-, -, finished⟩ := ready.stages agrees txr cr window
      have running : e.send.cr.sto = false := by
        rw [(send_keeps e).cr, cr]
        exact Bool.eq_false_iff.mpr going
      exact (finished.stays running).of_onAddress id ((onAddress_id a _).symm ▸ ends.slaves) ends.current ends.selected

/-- Before the first command: an enabled controller, in any state, with slaves that have addresses of their own. -/
structure Powered (σ : Type) where
  i2c : I2C σ
  enabled : i2c.ctr.getLsbD 7 = true
  distinct : Distinct i2c.slaves

def Powered.bus (p : Powered σ) : Bus σ := ⟨p.i2c, none⟩

omit [SlaveClass σ] in
theorem Powered.ready (p : Powered σ) : Ready p.bus := ⟨p.enabled, p.distinct, nofun⟩

end Law

/-- A slave as it is built, whatever the memory of its buffer holds. -/
def I2CSlave.new (bufferSize : BitVec 16) (memory : BitVec 16 → BitVec 8) : I2CSlave :=
  { bufferSize := bufferSize, buffer := memory }

/-- The bus keeps its law exactly when no address byte goes unanswered while `RxACK` is clear, and a slave's index stays
    in its buffer exactly when the buffer is not empty and its last byte is never read without an acknowledgement. -/
theorem transaction_law_iff {σ : Type} [SlaveClass σ] (p : Powered σ) (commands : List Command) (size : BitVec 16)
    (memory : BitVec 16 → BitVec 8) (calls : List I2CSlave.Call) :
    (Along Bus.step Lawful p.bus commands ↔ Along Bus.step Refused p.bus commands) ∧
      (Holds I2CSlave.step I2CSlave.Inside (.new size memory) calls ↔
        size ≠ 0 ∧ Along I2CSlave.step (fun s call => call = .read false → ¬ s.AtEnd) (.new size memory) calls) := by
  constructor
  · exact along_iff_of_invariant lawful_iff (fun b c next ready step => ready.step step) commands p.ready
  · have first : (I2CSlave.new size memory).Inside ↔ size ≠ 0 := by
      rw [I2CSlave.Inside, ← BitVec.toNat_ne_iff_ne]
      exact Nat.pos_iff_ne_zero
    rw [← first]
    constructor
    · intro holds
      exact ⟨holds.start, (holds_iff_along I2CSlave.step_inside_iff calls holds.start).mp holds⟩
    · rintro ⟨start, along⟩
      exact (holds_iff_along I2CSlave.step_inside_iff calls start).mpr along

/-- An enabled controller with nothing attached. -/
def nothingAttached : Powered I2CSlave := ⟨{ slaves := [], ctr := 0x80 }, by decide, List.nodup_nil⟩

/-- `STA` and `WR`, for address `0x10`. -/
def startWrite : Command := ⟨0x20, 0x90, 100, Nat.le_refl _⟩

/-- The address byte that nobody takes is acknowledged, and a buffer of one byte is left by one read. -/
theorem acknowledged_by_nobody :
    (nothingAttached.bus.i2c.command startWrite).sr.rxAck = false ∧
      ¬ Along Bus.step Lawful nothingAttached.bus [startWrite] ∧
      ¬ Holds I2CSlave.step I2CSlave.Inside (.new 1 fun _ => 0) [.read false] := by
  have nobody : ¬ Attached nothingAttached.bus.i2c (startWrite.txr >>> 1) := by
    rintro ⟨s, mem, -⟩
    cases mem
  have acked : (nothingAttached.bus.i2c.command startWrite).sr.rxAck = false := by
    rw [I2C.command_eq (i := nothingAttached.bus.i2c) nothingAttached.enabled]
    rfl
  refine ⟨acked, fun along => ?_, ?_⟩
  · exact nobody ((along.1.acked rfl rfl).mp acked)
  · rintro ⟨-, next, step, inside⟩
    obtain rfl := Option.some.inj step
    exact absurd (show 1 < 1 from inside) (Nat.lt_irrefl 1)

end Rv64Vm.I2c
