import Mathlib.Tactic.Common

/-! # The UART's receive path

`UART` keeps a received byte in the holding register or, while the FIFO is on, in a queue, and moves
it when the mode is switched. Beside the device runs an account of every byte that has come in and of
what became of it; the status bits and what the guest reads are compared with that.
-/

namespace Rv64Vm.Uart

def iirNoInt : BitVec 8 := 0x01
def iirThrEmpty : BitVec 8 := 0x02
def iirRxAvailable : BitVec 8 := 0x04

def lsrDataReady : BitVec 8 := 0x01
def lsrOe : BitVec 8 := 0x02

structure UART where
  start : BitVec 64
  rhr : BitVec 8 := 0
  thr : BitVec 8 := 0
  ier : BitVec 8 := 0
  iir : BitVec 8 := 0x01
  fcr : BitVec 8 := 0
  lcr : BitVec 8 := 0
  mcr : BitVec 8 := 0
  lsr : BitVec 8 := 0x60
  msr : BitVec 8 := 0
  scr : BitVec 8 := 0
  dll : BitVec 8 := 0
  dlm : BitVec 8 := 0
  rxIrqPending : Bool := false
  txIrqPending : Bool := false
  dlab : Bool := false
  fifoEnabled : Bool := false
  fifoBuffer : List (BitVec 8) := []
  /-- What went to `out_stream`. -/
  outStream : List (BitVec 8) := []
  /-- What the PLIC was told last. -/
  pending : Bool := false

namespace UART

variable (u : UART)

/-- `lsr & LSR_DATA_READY` -/
def dataReady : Bool := u.lsr.getLsbD 0

/-- `lsr & LSR_OE` -/
def overrun : Bool := u.lsr.getLsbD 1

def calcIirLocked : BitVec 8 :=
  if u.ier.getLsbD 0 && u.dataReady then iirRxAvailable
  else if u.ier.getLsbD 1 && u.lsr.getLsbD 5 then iirThrEmpty
  else iirNoInt

def updateIir : UART :=
  let newIir := u.calcIirLocked
  if newIir ≠ iirNoInt then
    { u with
      iir := newIir, pending := true
      rxIrqPending := if newIir = iirRxAvailable then true else u.rxIrqPending
      txIrqPending := if newIir = iirRxAvailable then u.txIrqPending else true }
  else { u with iir := newIir, pending := false, rxIrqPending := false, txIrqPending := false }

/-- The byte that a read of `RHR` takes out. -/
def pop : BitVec 8 × UART :=
  if u.fifoEnabled then
    match u.fifoBuffer with
    | front :: rest =>
      (front, { u with fifoBuffer := rest, lsr := if rest.isEmpty then u.lsr &&& ~~~lsrDataReady else u.lsr })
    | [] => (0, u)
  else (u.rhr, { u with lsr := u.lsr &&& ~~~lsrDataReady })

/-- A read of `RHR`. -/
def readRhr : BitVec 8 × UART :=
  let (value, u) := u.pop
  let u := if u.overrun then { u with lsr := u.lsr &&& ~~~lsrOe } else u
  (value, u.updateIir)

/-- A read of `IIR`. -/
def readIir : BitVec 8 × UART :=
  let settle (u : UART) : UART := if u.calcIirLocked = iirNoInt then u.updateIir else u
  if u.iir = iirRxAvailable ∧ u.rxIrqPending then (u.iir, settle { u with rxIrqPending := false })
  else if u.iir = iirThrEmpty ∧ u.txIrqPending then (u.iir, settle { u with txIrqPending := false })
  else (u.iir, u)

def reg (addr : BitVec 64) : Nat := ((addr - u.start).setWidth 8).toNat

def read (addr : BitVec 64) : BitVec 8 × UART :=
  match u.reg addr with
  | 0 => if u.dlab then (u.dll, u) else u.readRhr
  | 1 => (if u.dlab then u.dlm else u.ier, u)
  | 2 => u.readIir
  | 3 => (u.lcr, u)
  | 4 => (u.mcr, u)
  | 5 => (u.lsr, u)
  | 6 => (u.msr, u)
  | 7 => (u.scr, u)
  | _ => (0, u)

/-- The received bytes move with the mode. -/
def switchFifo (enabled : Bool) : UART :=
  let oldFifo := u.fifoEnabled
  let u := { u with fifoEnabled := enabled }
  if enabled && !oldFifo && u.dataReady then
    let fifoBuffer := u.fifoBuffer ++ [u.rhr]
    { u with fifoBuffer, lsr := if fifoBuffer.isEmpty then u.lsr &&& ~~~lsrDataReady else u.lsr ||| lsrDataReady }
  else if !enabled && oldFifo then
    match u.fifoBuffer with
    | front :: _ => { u with rhr := front, fifoBuffer := [], lsr := u.lsr ||| lsrDataReady }
    | [] => u
  else u

/-- `FCR` bit 1 -/
def clearFifo : UART :=
  { u with fifoBuffer := [], lsr := u.lsr &&& ~~~lsrDataReady, rxIrqPending := false }.updateIir

def writeFcr (value : BitVec 8) : UART :=
  let u := { u with fcr := value }.switchFifo (value.getLsbD 0)
  if value.getLsbD 1 then u.clearFifo else u

def write (addr value : BitVec 64) : UART :=
  let byteValue := value.setWidth 8
  match u.reg addr with
  | 0 =>
    if u.dlab then { u with dll := byteValue }
    else { u with thr := byteValue, outStream := u.outStream ++ [byteValue] }.updateIir
  | 1 => if u.dlab then { u with dlm := byteValue } else { u with ier := byteValue &&& 0x0F }.updateIir
  | 2 => u.writeFcr byteValue
  | 3 => { u with lcr := byteValue, dlab := byteValue.getLsbD 7 }
  | 4 => { u with mcr := byteValue }
  | 7 => { u with scr := byteValue }
  | _ => u

def receiveByte (byte : BitVec 8) : UART :=
  if u.fifoEnabled ∧ 512 ≤ u.fifoBuffer.length then { u with lsr := u.lsr ||| lsrOe }
  else if u.fifoEnabled then
    { u with fifoBuffer := u.fifoBuffer ++ [byte], lsr := u.lsr ||| lsrDataReady }.updateIir
  else if u.dataReady then { u with lsr := u.lsr ||| lsrOe ||| lsrDataReady }.updateIir
  else { u with rhr := byte, lsr := u.lsr ||| lsrDataReady }.updateIir

/-- The received bytes that have not been read, oldest first. -/
def stored : List (BitVec 8) :=
  if u.fifoEnabled then u.fifoBuffer else if u.dataReady then [u.rhr] else []

/-! ## Status bits -/

variable {u v : UART} {addr : BitVec 64}

/-- The received bytes are where the mode and `LSR` say they are. -/
structure Stored (u : UART) : Prop where
  ready : u.dataReady = true ↔ u.stored ≠ []
  empty : u.fifoEnabled = false → u.fifoBuffer = []
  bounded : u.fifoBuffer.length ≤ 512

structure Sound (u : UART) : Prop extends Stored u where
  iir : u.iir = u.calcIirLocked

theorem not_ready (lsr : BitVec 8) : ¬ (lsr &&& ~~~lsrDataReady).getLsbD 0 = true := by
  rw [BitVec.getLsbD_and, show (~~~lsrDataReady).getLsbD 0 = false from rfl, Bool.and_false]
  exact Bool.false_ne_true

theorem set_ready (lsr : BitVec 8) : (lsr ||| lsrDataReady).getLsbD 0 = true := by
  rw [BitVec.getLsbD_or, show lsrDataReady.getLsbD 0 = true from rfl, Bool.or_true]

theorem clear_overrun (lsr : BitVec 8) : (lsr &&& ~~~lsrOe).getLsbD 0 = lsr.getLsbD 0 := by
  rw [BitVec.getLsbD_and, show (~~~lsrOe).getLsbD 0 = true from rfl, Bool.and_true]

theorem set_overrun (lsr : BitVec 8) : (lsr ||| lsrOe).getLsbD 0 = lsr.getLsbD 0 := by
  rw [BitVec.getLsbD_or, show lsrOe.getLsbD 0 = false from rfl, Bool.or_false]

/-- What the received bytes are read off from. -/
structure SameStore (u v : UART) : Prop where
  ready : v.dataReady = u.dataReady
  mode : v.fifoEnabled = u.fifoEnabled
  rhr : v.rhr = u.rhr
  fifo : v.fifoBuffer = u.fifoBuffer

theorem SameStore.stored (same : SameStore u v) : v.stored = u.stored := by
  unfold UART.stored
  rw [same.mode, same.fifo, same.ready, same.rhr]

theorem SameStore.keeps (same : SameStore u v) (before : Stored u) : Stored v := by
  refine ⟨?_, fun off => ?_, ?_⟩
  · rw [same.ready, same.stored]
    exact before.ready
  · rw [same.fifo]
    exact before.empty (same.mode ▸ off)
  · rw [same.fifo]
    exact before.bounded

theorem updateIir_store (u : UART) : SameStore u u.updateIir := by
  unfold updateIir
  dsimp only
  split <;> exact ⟨rfl, rfl, rfl, rfl⟩

theorem updateIir_sound (before : Stored u) : Sound u.updateIir := by
  refine ⟨(updateIir_store u).keeps before, ?_⟩
  unfold updateIir
  dsimp only
  split <;> rfl

/-- A step that leaves the received bytes, `IIR` and what it is computed from alone. -/
theorem Sound.unchanged (before : Sound u) (same : SameStore u v) (ier : v.ier = u.ier)
    (empty : v.lsr.getLsbD 5 = u.lsr.getLsbD 5) (iir : v.iir = u.iir) : Sound v ∧ v.stored = u.stored := by
  refine ⟨⟨same.keeps before.toStored, ?_⟩, same.stored⟩
  unfold calcIirLocked
  rw [iir, same.ready, ier, empty]
  exact before.iir

theorem stored_fifo (on : u.fifoEnabled = true) : u.stored = u.fifoBuffer := if_pos on

theorem stored_holding (off : u.fifoEnabled = false) : u.stored = if u.dataReady then [u.rhr] else [] := by
  unfold stored
  rw [off, if_neg Bool.false_ne_true]

/-- The holding register always agrees with its bit. -/
theorem ready_holding (off : u.fifoEnabled = false) : u.dataReady = true ↔ u.stored ≠ [] := by
  rw [stored_holding off]
  cases u.dataReady <;> simp

/-! ## Receiving and reading -/

theorem receiveByte_spec (before : Sound u) (byte : BitVec 8) : Sound (u.receiveByte byte) ∧
      ((u.receiveByte byte).stored = u.stored ++ [byte] ∨
        (u.receiveByte byte).stored = u.stored ∧ (u.receiveByte byte).overrun = true) := by
  unfold receiveByte
  split
  case isTrue full =>
    have same : SameStore u { u with lsr := u.lsr ||| lsrOe } := ⟨set_overrun u.lsr, rfl, rfl, rfl⟩
    have kept := before.unchanged same rfl (by simp [lsrOe]) rfl
    exact ⟨kept.1, .inr ⟨kept.2, by simp [overrun, lsrOe]⟩⟩
  case isFalse room =>
    split
    case isTrue on =>
      have stored : Stored { u with fifoBuffer := u.fifoBuffer ++ [byte], lsr := u.lsr ||| lsrDataReady } := by
        refine ⟨iff_of_true (set_ready _) ?_, fun off => absurd (on.symm.trans off) nofun, ?_⟩
        · rw [stored_fifo (by exact on)]
          exact List.append_ne_nil_of_right_ne_nil _ (List.cons_ne_nil _ _)
        · have short : u.fifoBuffer.length < 512 := Nat.lt_of_not_le fun full => room ⟨on, full⟩
          rw [List.length_append]
          exact short
      refine ⟨updateIir_sound stored, .inl ?_⟩
      rw [(updateIir_store _).stored, stored_fifo (by exact on), stored_fifo on]
    case isFalse off =>
      rw [Bool.not_eq_true] at off
      split
      case isTrue full =>
        have same : SameStore u { u with lsr := u.lsr ||| lsrOe ||| lsrDataReady } :=
          ⟨(set_ready _).trans full.symm, rfl, rfl, rfl⟩
        refine ⟨updateIir_sound (same.keeps before.toStored), .inr ⟨?_, ?_⟩⟩
        · exact (updateIir_store _).stored.trans same.stored
        · unfold updateIir overrun
          dsimp only
          split <;> simp [lsrOe]
      case isFalse free =>
        refine ⟨updateIir_sound ⟨ready_holding off, before.empty, before.bounded⟩, .inl ?_⟩
        rw [(updateIir_store _).stored, stored_holding (by exact off), stored_holding off, if_neg free]
        exact if_pos (set_ready _)

theorem pop_spec (before : Stored u) :
    Stored u.pop.2 ∧ u.pop.2.stored = u.stored.tail ∧ ∀ b, u.stored.head? = some b → u.pop.1 = b := by
  unfold pop
  split
  case isTrue on =>
    have full := before.ready
    rw [stored_fifo on] at full ⊢
    cases held : u.fifoBuffer with
    | nil =>
      refine ⟨before, ?_, nofun⟩
      rw [stored_fifo on]
      exact held
    | cons front rest =>
      dsimp only
      refine ⟨⟨?_, fun off => absurd (on.symm.trans off) nofun, ?_⟩, stored_fifo on,
        fun b first => Option.some.inj first⟩
      · rw [stored_fifo (by exact on)]
        cases rest with
        | nil => exact iff_of_false (not_ready _) (fun h => h rfl)
        | cons => exact iff_of_true (full.mpr (held ▸ List.cons_ne_nil _ _)) (List.cons_ne_nil _ _)
      · have bounded := before.bounded
        rw [held] at bounded
        exact Nat.le_of_succ_le bounded
  case isFalse off =>
    rw [Bool.not_eq_true] at off
    refine ⟨⟨ready_holding off, before.empty, before.bounded⟩, ?_, fun b first => ?_⟩
    · rw [stored_holding (by exact off), stored_holding off]
      refine (if_neg (not_ready _)).trans ?_
      split <;> rfl
    · rw [stored_holding off] at first
      split at first
      · exact Option.some.inj first
      · cases first

theorem readRhr_spec (before : Stored u) :
    Sound u.readRhr.2 ∧ u.readRhr.2.stored = u.stored.tail ∧ ∀ b, u.stored.head? = some b → u.readRhr.1 = b := by
  obtain ⟨stored, rest, first⟩ := pop_spec before
  have same : SameStore u.pop.2
      (if u.pop.2.overrun then { u.pop.2 with lsr := u.pop.2.lsr &&& ~~~lsrOe } else u.pop.2) := by
    split
    · exact ⟨clear_overrun _, rfl, rfl, rfl⟩
    · exact ⟨rfl, rfl, rfl, rfl⟩
  exact ⟨updateIir_sound (same.keeps stored), ((updateIir_store _).stored.trans same.stored).trans rest, first⟩

theorem readIir_spec (before : Sound u) : Sound u.readIir.2 ∧ u.readIir.2.stored = u.stored := by
  have settled {v : UART} (sound : Sound v) :
      Sound (if v.calcIirLocked = iirNoInt then v.updateIir else v) ∧
        (if v.calcIirLocked = iirNoInt then v.updateIir else v).stored = v.stored := by
    split
    · exact ⟨updateIir_sound sound.toStored, (updateIir_store v).stored⟩
    · exact ⟨sound, rfl⟩
  unfold readIir
  dsimp only
  split
  · have still := before.unchanged (v := { u with rxIrqPending := false }) ⟨rfl, rfl, rfl, rfl⟩ rfl rfl rfl
    exact ⟨(settled still.1).1, (settled still.1).2.trans still.2⟩
  · split
    · have still := before.unchanged (v := { u with txIrqPending := false }) ⟨rfl, rfl, rfl, rfl⟩ rfl rfl rfl
      exact ⟨(settled still.1).1, (settled still.1).2.trans still.2⟩
    · exact ⟨before, rfl⟩

/-- A read of `RHR`, not of the divisor latch. -/
def AtRhr (u : UART) (addr : BitVec 64) : Prop := u.reg addr = 0 ∧ u.dlab = false

theorem read_rhr (here : u.AtRhr addr) : u.read addr = u.readRhr := by
  unfold read
  rw [here.1, here.2]
  rfl

theorem read_other (before : Sound u) (other : ¬ u.AtRhr addr) :
    Sound (u.read addr).2 ∧ (u.read addr).2.stored = u.stored := by
  unfold read
  split
  case h_1 here =>
    rw [if_pos (Bool.not_eq_false _ ▸ fun latch => other ⟨here, latch⟩)]
    exact ⟨before, rfl⟩
  case h_3 => exact readIir_spec before
  all_goals exact ⟨before, rfl⟩

/-! ## Writing -/

theorem set_ready_again {lsr : BitVec 8} (set : lsr.getLsbD 0 = true) : lsr ||| lsrDataReady = lsr := by
  apply BitVec.eq_of_getLsbD_eq
  intro i _
  rw [BitVec.getLsbD_or]
  cases i with
  | zero => rw [set, Bool.true_or]
  | succ i =>
    have other : lsrDataReady.getLsbD (i + 1) = false := by
      change (1#8).getLsbD (i + 1) = false
      rw [BitVec.getLsbD_one]
      simp
    rw [other, Bool.or_false]

/-- What is left of the received bytes when the mode is set: only the oldest goes to the holding register. -/
def afterSwitch (u : UART) (enabled : Bool) : List (BitVec 8) :=
  if u.fifoEnabled && !enabled then u.stored.take 1 else u.stored

theorem switchFifo_spec (before : Sound u) (enabled : Bool) :
    Sound (u.switchFifo enabled) ∧ (u.switchFifo enabled).stored = u.afterSwitch enabled := by
  -- the mode is switched without touching `LSR`, so `IIR` stays right
  have still {v : UART} (stored : Stored v) (lsr : v.lsr = u.lsr) (ier : v.ier = u.ier) (iir : v.iir = u.iir) :
      Sound v := by
    refine ⟨stored, ?_⟩
    unfold calcIirLocked dataReady
    rw [iir, lsr, ier]
    exact before.iir
  unfold switchFifo
  dsimp only
  split
  case isTrue moved =>
    simp only [Bool.and_eq_true, Bool.not_eq_true'] at moved
    obtain ⟨⟨rfl, off⟩, ready⟩ := moved
    have held : u.afterSwitch true = [u.rhr] := by
      rw [afterSwitch, off, stored_holding off]
      exact if_pos ready
    rw [before.empty off, held]
    have moved : UART.stored
        { u with fifoEnabled := true, fifoBuffer := [u.rhr], lsr := u.lsr ||| lsrDataReady } = [u.rhr] :=
      stored_fifo rfl
    refine ⟨still ⟨iff_of_true (set_ready _) ?_, nofun, by simp⟩ (set_ready_again ready) rfl rfl, moved⟩
    exact moved.symm ▸ List.cons_ne_nil _ _
  case isFalse unmoved =>
    split
    case isTrue back =>
      obtain ⟨notEnabled, on⟩ := Bool.and_eq_true_iff.mp back
      obtain rfl : enabled = false := by rwa [Bool.not_eq_true'] at notEnabled
      have full := before.ready
      have held : u.afterSwitch false = u.fifoBuffer.take 1 := by
        rw [afterSwitch, on, stored_fifo on]
        rfl
      rw [stored_fifo on] at full
      rw [held]
      cases buffer : u.fifoBuffer with
      | nil =>
        have bare : u.dataReady ≠ true := fun ready => full.mp ready buffer
        refine ⟨still ⟨ready_holding rfl, fun _ => rfl, Nat.zero_le _⟩ rfl rfl rfl, ?_⟩
        rw [stored_holding rfl]
        exact if_neg bare
      | cons front rest =>
        have ready : u.dataReady = true := full.mpr (buffer ▸ List.cons_ne_nil _ _)
        refine ⟨still ⟨ready_holding rfl, fun _ => rfl, Nat.zero_le _⟩ (set_ready_again ready) rfl rfl, ?_⟩
        rw [stored_holding rfl]
        exact if_pos (set_ready _)
    case isFalse same =>
      have held : u.afterSwitch enabled = u.stored := if_neg fun both => same (by rwa [Bool.and_comm])
      rw [held]
      by_cases mode : enabled = u.fifoEnabled
      · exact before.unchanged ⟨rfl, mode, rfl, rfl⟩ rfl rfl rfl
      · -- switched on with nothing to move
        obtain ⟨rfl, off⟩ : enabled = true ∧ u.fifoEnabled = false := by
          cases enabled <;> cases fifo : u.fifoEnabled <;> simp_all
        have bare : u.dataReady ≠ true := fun ready => unmoved (by rw [off]; exact ready)
        have nothing : UART.stored { u with fifoEnabled := true } = [] := (stored_fifo rfl).trans (before.empty off)
        refine ⟨still ⟨iff_of_false bare fun some => some nothing, nofun, before.bounded⟩ rfl rfl rfl, ?_⟩
        rw [nothing, stored_holding off, if_neg bare]

theorem clearFifo_spec (u : UART) : Sound u.clearFifo ∧ u.clearFifo.stored = [] := by
  have bare : UART.stored
      { u with fifoBuffer := [], lsr := u.lsr &&& ~~~lsrDataReady, rxIrqPending := false } = [] := by
    unfold stored
    split
    · rfl
    · exact if_neg (not_ready _)
  refine ⟨updateIir_sound ⟨?_, fun _ => rfl, Nat.zero_le _⟩, (updateIir_store _).stored.trans bare⟩
  exact iff_of_false (not_ready _) fun some => some bare

/-- What a write of `FCR` leaves of the received bytes. -/
def afterFcr (u : UART) (value : BitVec 8) : List (BitVec 8) :=
  if value.getLsbD 1 then [] else u.afterSwitch (value.getLsbD 0)

theorem writeFcr_spec (before : Sound u) (value : BitVec 8) :
    Sound (u.writeFcr value) ∧ (u.writeFcr value).stored = u.afterFcr value := by
  have still := before.unchanged (v := { u with fcr := value }) ⟨rfl, rfl, rfl, rfl⟩ rfl rfl rfl
  have switched := switchFifo_spec still.1 (value.getLsbD 0)
  unfold writeFcr afterFcr
  dsimp only
  split
  · exact clearFifo_spec _
  · exact switched

theorem write_fcr (value : BitVec 64) (here : u.reg addr = 2) : u.write addr value = u.writeFcr (value.setWidth 8) := by
  unfold write
  rw [here]
  rfl

theorem write_other (before : Sound u) (value : BitVec 64) (other : u.reg addr ≠ 2) :
    Sound (u.write addr value) ∧ (u.write addr value).stored = u.stored := by
  have updated {v : UART} (same : SameStore u v) : Sound v.updateIir ∧ v.updateIir.stored = u.stored :=
    ⟨updateIir_sound (same.keeps before.toStored), (updateIir_store v).stored.trans same.stored⟩
  unfold write
  dsimp only
  split
  case h_1 =>
    split
    · exact before.unchanged ⟨rfl, rfl, rfl, rfl⟩ rfl rfl rfl
    · exact updated ⟨rfl, rfl, rfl, rfl⟩
  case h_2 =>
    split
    · exact before.unchanged ⟨rfl, rfl, rfl, rfl⟩ rfl rfl rfl
    · exact updated ⟨rfl, rfl, rfl, rfl⟩
  case h_3 here => exact absurd here other
  all_goals exact before.unchanged ⟨rfl, rfl, rfl, rfl⟩ rfl rfl rfl

end UART

/-! ## The account of the received bytes -/

/-- What became of a byte that came in. -/
inductive Fate where
  | waiting
  | delivered
  /-- Not stored; whether `LSR.OE` was set when it came. -/
  | refused (overrun : Bool)
  /-- Thrown away by `FCR`'s clear bit. -/
  | cleared
  /-- Thrown away when the FIFO was switched off. -/
  | dropped
  deriving DecidableEq

/-- Every byte that came in, in order. -/
abbrev Account := List (BitVec 8 × Fate)

namespace Account

def bytes (fate : Fate) (a : Account) : List (BitVec 8) := (a.filter fun e => e.2 = fate).map (·.1)

/-- The waiting bytes get a new fate, the oldest one its own. -/
def mark (first others : Fate) : Account → Account
  | [] => []
  | (b, .waiting) :: rest => (b, first) :: rest.map fun e => if e.2 = .waiting then (e.1, others) else e
  | e :: rest => e :: mark first others rest

/-- Bytes are delivered in the order they came in. -/
def InOrder (a : Account) : Prop := a.Pairwise fun e later => e.2 = .waiting → later.2 ≠ .delivered

/-- Only an overrun refuses a byte. -/
def Excused (a : Account) : Prop := ∀ e ∈ a, e.2 ≠ .refused false

variable {a : Account} {fate first others : Fate}

theorem bytes_append (a later : Account) : bytes fate (a ++ later) = bytes fate a ++ bytes fate later := by
  rw [bytes, List.filter_append, List.map_append]
  rfl

theorem bytes_cons (b : BitVec 8) (f : Fate) (rest : Account) :
    bytes fate ((b, f) :: rest) = if f = fate then b :: bytes fate rest else bytes fate rest := by
  unfold bytes
  rw [List.filter_cons]
  by_cases same : f = fate <;> simp [same]

theorem bytes_eq_nil_iff : bytes fate a = [] ↔ ∀ e ∈ a, e.2 ≠ fate := by
  rw [bytes, List.map_eq_nil_iff, List.filter_eq_nil_iff]
  simp

theorem mark_cases (first others : Fate) (a : Account) :
    (bytes .waiting a = [] ∧ mark first others a = a) ∨
      ∃ before b after, a = before ++ (b, .waiting) :: after ∧ bytes .waiting before = [] ∧
        mark first others a =
          before ++ (b, first) :: after.map fun e => if e.2 = .waiting then (e.1, others) else e := by
  induction a with
  | nil => exact .inl ⟨rfl, rfl⟩
  | cons e rest ih =>
    obtain ⟨b, fate⟩ := e
    by_cases waits : fate = .waiting
    · subst waits
      exact .inr ⟨[], b, rest, rfl, rfl, rfl⟩
    · have skips : mark first others ((b, fate) :: rest) = (b, fate) :: mark first others rest := by
        cases fate <;> first | rfl | exact absurd rfl waits
      rw [skips]
      rcases ih with ⟨nobody, same⟩ | ⟨before, c, after, split, nobody, same⟩
      · exact .inl ⟨by rw [bytes_cons, if_neg waits, nobody], by rw [same]⟩
      · refine .inr ⟨(b, fate) :: before, c, after, by rw [split]; rfl, ?_, by rw [same]; rfl⟩
        rw [bytes_cons, if_neg waits, nobody]

theorem mark_received : (mark first others a).map (·.1) = a.map (·.1) := by
  rcases mark_cases first others a with ⟨-, same⟩ | ⟨before, b, after, rfl, -, same⟩
  · rw [same]
  · rw [same, List.map_append, List.map_append, List.map_cons, List.map_cons, List.map_map]
    congr 2
    apply List.map_congr_left
    intro e _
    dsimp only [Function.comp_apply]
    split <;> rfl

theorem mark_waiting :
    bytes .waiting (mark first others a) =
      (if first = .waiting then (bytes .waiting a).take 1 else []) ++
        (if others = .waiting then (bytes .waiting a).tail else []) := by
  have rest (later : Account) :
      bytes .waiting (later.map fun e => if e.2 = .waiting then (e.1, others) else e) =
        if others = .waiting then bytes .waiting later else [] := by
    induction later with
    | nil => split <;> rfl
    | cons e later ih =>
      obtain ⟨b, fate⟩ := e
      by_cases waits : fate = .waiting <;> by_cases keeps : others = .waiting <;>
        simp_all [bytes_cons]
  rcases mark_cases first others a with ⟨nobody, same⟩ | ⟨before, b, after, rfl, nobody, same⟩
  · rw [same, nobody]
    simp
  · rw [same, bytes_append, bytes_append, nobody, bytes_cons, bytes_cons, rest, if_pos rfl]
    split <;> rfl

theorem mark_delivered (inOrder : InOrder a) (other : others ≠ .delivered) :
    bytes .delivered (mark first others a) =
      bytes .delivered a ++ if first = .delivered then (bytes .waiting a).take 1 else [] := by
  have rest (later : Account) :
      bytes .delivered (later.map fun e => if e.2 = .waiting then (e.1, others) else e) = bytes .delivered later := by
    induction later with
    | nil => rfl
    | cons e later ih =>
      obtain ⟨b, fate⟩ := e
      by_cases waits : fate = .waiting <;> simp_all [bytes_cons]
  rcases mark_cases first others a with ⟨nobody, same⟩ | ⟨before, b, after, rfl, nobody, same⟩
  · rw [same, nobody]
    simp
  · have none : bytes .delivered after = [] := by
      rw [bytes_eq_nil_iff]
      intro e mem
      exact (List.pairwise_cons.mp (List.pairwise_append.mp inOrder).2.1).1 e mem rfl
    rw [same, bytes_append, bytes_append, bytes_append, nobody, bytes_cons, bytes_cons, bytes_cons, rest, none]
    simp

theorem InOrder.mark (inOrder : InOrder a) (other : others ≠ .delivered) : InOrder (mark first others a) := by
  rcases mark_cases first others a with ⟨-, same⟩ | ⟨before, b, after, rfl, nobody, same⟩
  · rw [same]
    exact inOrder
  · obtain ⟨early, late, -⟩ := List.pairwise_append.mp inOrder
    obtain ⟨oldest, late⟩ := List.pairwise_cons.mp late
    have kept {e : BitVec 8 × Fate} (undelivered : e.2 ≠ .delivered) :
        (if e.2 = .waiting then (e.1, others) else e).2 ≠ .delivered := by
      split
      · exact other
      · exact undelivered
    rw [same]
    refine List.pairwise_append.mpr ⟨early, List.pairwise_cons.mpr ⟨fun e mem _ => ?_, ?_⟩, fun e mem _ _ waits => ?_⟩
    · obtain ⟨e, there, rfl⟩ := List.mem_map.mp mem
      exact kept (oldest e there rfl)
    · refine List.pairwise_map.mpr (late.imp_of_mem ?_)
      intro e later _ mem _ _
      exact kept (oldest later mem rfl)
    · exact absurd waits (bytes_eq_nil_iff.mp nobody e mem)

theorem Excused.mark (excused : Excused a) (allowed : first ≠ .refused false) (allowed' : others ≠ .refused false) :
    Excused (mark first others a) := by
  rcases mark_cases first others a with ⟨-, same⟩ | ⟨before, b, after, rfl, nobody, same⟩
  · rw [same]
    exact excused
  · rw [same]
    intro e mem
    rcases List.mem_append.mp mem with mem | mem
    · exact excused e (List.mem_append_left _ mem)
    · rcases List.mem_cons.mp mem with rfl | mem
      · exact allowed
      · obtain ⟨e, there, rfl⟩ := List.mem_map.mp mem
        split
        · exact allowed'
        · exact excused e (List.mem_append_right _ (List.mem_cons_of_mem _ there))

end Account

/-! ## Runs -/

inductive Event where
  | receive (byte : BitVec 8)
  | read (addr : BitVec 64)
  | write (addr value : BitVec 64)

def Event.received : Event → List (BitVec 8)
  | .receive byte => [byte]
  | _ => []

namespace UART

def step (u : UART) : Event → UART
  | .receive byte => u.receiveByte byte
  | .read addr => (u.read addr).2
  | .write addr value => u.write addr value

instance (u : UART) (addr : BitVec 64) : Decidable (u.AtRhr addr) := by unfold AtRhr; infer_instance

/-- What an event that begins in this state does to the received bytes. -/
def record (u : UART) (a : Account) : Event → Account
  | .receive byte =>
    let after := u.receiveByte byte
    a ++ [(byte, if after.stored = u.stored ++ [byte] then .waiting else .refused after.overrun)]
  | .read addr => if u.AtRhr addr ∧ u.dataReady then a.mark .delivered .waiting else a
  | .write addr value =>
    if u.reg addr = 2 then
      let fcr := value.setWidth 8
      let a := if u.fifoEnabled && !fcr.getLsbD 0 then a.mark .waiting .dropped else a
      if fcr.getLsbD 1 then a.mark .cleared .cleared else a
    else a

/-- The byte that the guest reads while `DR` is set. -/
def taken (u : UART) : Event → List (BitVec 8)
  | .read addr => if u.AtRhr addr ∧ u.dataReady then [(u.read addr).1] else []
  | _ => []

end UART

/-- The device beside the account of its received bytes, and the bytes read so far. -/
structure Watched where
  uart : UART
  account : Account
  reads : List (BitVec 8)

namespace Watched

def step (w : Watched) (e : Event) : Watched :=
  ⟨w.uart.step e, w.uart.record w.account e, w.reads ++ w.uart.taken e⟩

structure Kept (w : Watched) : Prop where
  sound : w.uart.Sound
  waiting : w.account.bytes .waiting = w.uart.stored
  delivered : w.account.bytes .delivered = w.reads
  inOrder : w.account.InOrder
  excused : w.account.Excused

variable {w : Watched}

theorem Kept.receive (kept : Kept w) (byte : BitVec 8) : Kept (w.step (.receive byte)) := by
  obtain ⟨sound, outcome⟩ := UART.receiveByte_spec kept.sound byte
  -- the new entry is the last one, and it is not delivered yet
  have append {fate : Fate} (fresh : fate ≠ .delivered) (allowed : fate ≠ .refused false)
      (stored : (if fate = .waiting then w.uart.stored ++ [byte] else w.uart.stored) =
        (w.uart.receiveByte byte).stored) :
      Kept ⟨w.uart.receiveByte byte, w.account ++ [(byte, fate)], w.reads ++ []⟩ := by
    refine ⟨sound, ?_, ?_, ?_, fun e mem => ?_⟩
    · rw [Account.bytes_append, Account.bytes_cons, kept.waiting, ← stored]
      split
      · rfl
      · exact List.append_nil _
    · rw [Account.bytes_append, Account.bytes_cons, if_neg fresh, kept.delivered]
      rfl
    · refine List.pairwise_append.mpr ⟨kept.inOrder, List.pairwise_singleton _ _, fun _ _ e mem _ => ?_⟩
      rw [List.mem_singleton.mp mem]
      exact fresh
    · rcases List.mem_append.mp mem with mem | mem
      · exact kept.excused e mem
      · rw [List.mem_singleton.mp mem]
        exact allowed
  unfold step UART.record
  dsimp only [UART.step, UART.taken]
  rcases outcome with stored | ⟨same, overrun⟩
  · rw [if_pos stored]
    exact append nofun nofun (stored.symm ▸ if_pos rfl)
  · have other : (w.uart.receiveByte byte).stored ≠ w.uart.stored ++ [byte] := by
      rw [same]
      exact fun same => absurd (List.self_eq_append_right.mp same) (List.cons_ne_nil _ _)
    rw [if_neg other, overrun]
    exact append nofun nofun (same ▸ if_neg nofun)

theorem Kept.read (kept : Kept w) (addr : BitVec 64) : Kept (w.step (.read addr)) := by
  unfold step UART.record UART.taken
  dsimp only [UART.step]
  by_cases here : w.uart.AtRhr addr
  · obtain ⟨sound, rest, value⟩ := UART.readRhr_spec kept.sound.toStored
    rw [UART.read_rhr here]
    have ready := kept.sound.ready
    split
    case isTrue both =>
      obtain ⟨b, later, stored⟩ := List.exists_cons_of_ne_nil (ready.mp both.2)
      rw [stored] at rest value
      rw [value b rfl]
      refine ⟨sound, ?_, ?_, kept.inOrder.mark nofun, kept.excused.mark nofun nofun⟩
      · rw [Account.mark_waiting, kept.waiting, stored, rest]
        rfl
      · rw [Account.mark_delivered kept.inOrder (show Fate.waiting ≠ .delivered from nofun), kept.waiting, stored,
          kept.delivered]
        rfl
    case isFalse neither =>
      have nothing : w.uart.stored = [] := by
        by_contra some
        exact neither ⟨here, ready.mpr some⟩
      refine ⟨sound, ?_, by rw [kept.delivered, List.append_nil], kept.inOrder, kept.excused⟩
      rw [kept.waiting, rest, nothing]
      rfl
  · obtain ⟨sound, stored⟩ := UART.read_other kept.sound here
    rw [if_neg fun both => here both.1, if_neg fun both => here both.1]
    exact ⟨sound, kept.waiting.trans stored.symm, by rw [kept.delivered, List.append_nil], kept.inOrder, kept.excused⟩

theorem Kept.discards {a : Account} {reads : List (BitVec 8)} {first others : Fate} (inOrder : a.InOrder)
    (excused : a.Excused) (delivered : a.bytes .delivered = reads)
    (oldest : first ≠ .delivered ∧ first ≠ .refused false)
    (later : others ≠ .delivered ∧ others ≠ .refused false) :
    (a.mark first others).InOrder ∧ (a.mark first others).Excused ∧ (a.mark first others).bytes .delivered = reads := by
  refine ⟨inOrder.mark later.1, excused.mark oldest.2 later.2, ?_⟩
  rw [Account.mark_delivered inOrder later.1, if_neg oldest.1, List.append_nil, delivered]

theorem Kept.write (kept : Kept w) (addr value : BitVec 64) : Kept (w.step (.write addr value)) := by
  unfold step UART.record
  dsimp only [UART.step, UART.taken]
  rw [List.append_nil]
  split
  case isTrue here =>
    obtain ⟨sound, stored⟩ := UART.writeFcr_spec kept.sound (value.setWidth 8)
    rw [UART.write_fcr value here]
    generalize value.setWidth 8 = fcr at sound stored ⊢
    -- the switch first
    have switched : ∃ a,
        (if w.uart.fifoEnabled && !fcr.getLsbD 0 then w.account.mark .waiting .dropped else w.account) = a ∧
        a.bytes .waiting = w.uart.afterSwitch (fcr.getLsbD 0) ∧ a.InOrder ∧ a.Excused ∧
        a.bytes .delivered = w.reads := by
      unfold UART.afterSwitch
      refine ⟨_, rfl, ?_⟩
      split
      · refine ⟨?_, Kept.discards kept.inOrder kept.excused kept.delivered ⟨nofun, nofun⟩ ⟨nofun, nofun⟩⟩
        rw [Account.mark_waiting, kept.waiting]
        exact List.append_nil _
      · exact ⟨kept.waiting, kept.inOrder, kept.excused, kept.delivered⟩
    obtain ⟨a, same, waiting, inOrder, excused, delivered⟩ := switched
    rw [same]
    unfold UART.afterFcr at stored
    split at stored
    case isTrue clear =>
      obtain ⟨inOrder, excused, delivered⟩ := Kept.discards inOrder excused delivered
        (show Fate.cleared ≠ _ ∧ _ from ⟨nofun, nofun⟩) (show Fate.cleared ≠ _ ∧ _ from ⟨nofun, nofun⟩)
      rw [if_pos clear]
      refine ⟨sound, ?_, delivered, inOrder, excused⟩
      rw [Account.mark_waiting, stored]
      rfl
    case isFalse keep =>
      rw [if_neg keep]
      exact ⟨sound, waiting.trans stored.symm, delivered, inOrder, excused⟩
  case isFalse other =>
    obtain ⟨sound, stored⟩ := UART.write_other kept.sound value other
    exact ⟨sound, kept.waiting.trans stored.symm, kept.delivered, kept.inOrder, kept.excused⟩

theorem Kept.step (kept : Kept w) (e : Event) : Kept (w.step e) := by
  cases e with
  | receive byte => exact kept.receive byte
  | read addr => exact kept.read addr
  | write addr value => exact kept.write addr value

theorem step_received (w : Watched) (e : Event) :
    (w.step e).account.map (·.1) = w.account.map (·.1) ++ e.received := by
  unfold Watched.step UART.record Event.received
  cases e with
  | receive byte => exact List.map_append
  | read addr =>
    dsimp only
    rw [List.append_nil]
    split
    · exact Account.mark_received
    · rfl
  | write addr value =>
    dsimp only
    rw [List.append_nil]
    repeat' split
    all_goals simp only [Account.mark_received]

/-- The device from its construction on. -/
def run (start : BitVec 64) (events : List Event) : Watched := events.foldl Watched.step ⟨{ start }, [], []⟩

theorem foldl_kept (kept : Kept w) (events : List Event) :
    Kept (events.foldl Watched.step w) ∧
      (events.foldl Watched.step w).account.map (·.1) = w.account.map (·.1) ++ events.flatMap Event.received := by
  induction events generalizing w with
  | nil => exact ⟨kept, (List.append_nil _).symm⟩
  | cons e rest ih =>
    obtain ⟨later, received⟩ := ih (kept.step e)
    refine ⟨later, received.trans ?_⟩
    rw [step_received, List.append_assoc]
    rfl

/-- Every byte that comes in is accounted for: `DR` says whether one is waiting, the guest reads the delivered ones in
    order, and the others were overrun, cleared or dropped with the FIFO. -/
theorem receive_path (start : BitVec 64) (events : List Event) :
    let w := run start events
    w.account.map (·.1) = events.flatMap Event.received ∧
      (w.uart.dataReady = true ↔ w.account.bytes .waiting ≠ []) ∧
      w.uart.iir = w.uart.calcIirLocked ∧
      w.reads = w.account.bytes .delivered ∧
      w.reads.Sublist (events.flatMap Event.received) ∧
      w.account.Excused ∧
      w.uart.fifoBuffer.length ≤ 512 := by
  intro w
  have fresh : Kept ⟨{ start }, [], []⟩ := by
    refine ⟨⟨⟨?_, fun _ => rfl, Nat.zero_le _⟩, ?_⟩, ?_, rfl, List.Pairwise.nil, nofun⟩
    · exact UART.ready_holding rfl
    · simp [UART.calcIirLocked, iirNoInt]
    · exact ((UART.stored_holding (u := { start }) rfl).trans (if_neg (by simp [UART.dataReady]))).symm
  obtain ⟨kept, received⟩ := foldl_kept fresh events
  refine ⟨received, ?_, kept.sound.iir, kept.delivered.symm, ?_, kept.excused, kept.sound.bounded⟩
  · exact kept.waiting ▸ kept.sound.ready
  · have among : (w.account.bytes .delivered).Sublist (w.account.map (·.1)) := List.filter_sublist.map _
    rw [show w.account.map (·.1) = events.flatMap Event.received from received] at among
    exact kept.delivered ▸ among

end Watched

end Rv64Vm.Uart
