import Rv64Vm.Exec.Atomics
import Rv64Vm.Exec.Handlers
import Rv64Vm.Exec.Tick

/-! # Load-reserved and store-conditional

`amo_check_reservation` is given the first address of a store, and clears a
reservation whose address is not below it. Beside the real reservation a run
carries the one of the architecture, a monitor that falls to a store of any of
its bytes. The two agree as long as no store is misjudged: one that begins
inside the reserved bytes and is missed, one that ends below them and clears
anyway, or a `cbo.zero` or a compiled store, which no check sees.
-/

namespace Rv64Vm

open Lib

variable {a : Access} {i : InstructionData} {e : Executed} {bus : Bus} {c : Core} {n : Nat} {failStep : Word}

/-! ## Ranges of bytes -/

/-- The physical bytes from `start` on. -/
structure PhysRange where
  start : Word
  size : Nat
  deriving DecidableEq, Repr

/-- The two have a byte in common. -/
def PhysRange.Meets (a b : PhysRange) : Prop :=
  a.start.toNat < b.start.toNat + b.size ∧ b.start.toNat < a.start.toNat + a.size

instance (a b : PhysRange) : Decidable (a.Meets b) := by unfold PhysRange.Meets; infer_instance

namespace Reservation

variable (r : Reservation)

def range : PhysRange := ⟨r.paddr, r.size⟩

/-- The reserved bytes, if any. -/
def held : Option PhysRange := if r.valid then some r.range else none

def dropped : Reservation := { r with valid := false }

/-- The reservation after a store to these ranges, as it should be. -/
def cleared (stored : List PhysRange) : Reservation :=
  if ∃ g ∈ stored, g.Meets r.range then r.dropped else r

/-- The reservation after `amo_check_reservation` at these ranges. -/
def checkAll (stored : List PhysRange) : Reservation :=
  if ∃ g ∈ stored, hitsReservation r g.start = true then r.dropped else r

variable {r}

theorem dropped_of_invalid (invalid : r.valid = false) : r.dropped = r := by rw [dropped, ← invalid]

theorem dropped_ne (valid : r.valid = true) : r.dropped ≠ r := by
  intro same
  have := congrArg Reservation.valid same
  rw [valid] at this
  cases this

theorem hits_dropped (pa : Word) : hitsReservation r.dropped pa = false := rfl

theorem checkAll_cons (g : PhysRange) (stored : List PhysRange) :
    r.checkAll (g :: stored) = (r.checkAll [g]).checkAll stored := by
  by_cases hit : hitsReservation r g.start = true
  · simp [checkAll, hit, hits_dropped]
  · simp [checkAll, hit]

theorem checkAll_single (pa : Word) (n : Nat) (h : Hart) :
    h.reservation.checkAll [⟨pa, n⟩] = (h.amoCheckReservation pa).reservation := by
  simp [checkAll, amoCheckReservation_reservation, dropped]

theorem checkAll_nil : r.checkAll [] = r := by simp [checkAll]

theorem checkAll_eq_foldl (stored : List PhysRange) :
    r.checkAll stored = stored.foldl (fun r g => r.checkAll [g]) r := by
  induction stored generalizing r with
  | nil => exact checkAll_nil
  | cons g rest ih => rw [checkAll_cons, ih, List.foldl_cons]

/-- The check is right about a store: a part of it begins at or below the reserved address, which is all the check
    looks at, exactly if a part of it meets the reserved bytes. -/
def Judged (r : Reservation) (stored : List PhysRange) : Prop :=
  r.valid = true →
    ((∃ g ∈ stored, hitsReservation r g.start = true) ↔ ∃ g ∈ stored, g.Meets r.range)

/-- A store that no check sees is right if it stays clear of the reserved bytes. -/
def Unmet (r : Reservation) (stored : List PhysRange) : Prop :=
  r.valid = true → ∀ g ∈ stored, ¬ g.Meets r.range

theorem checkAll_eq_cleared_iff (stored : List PhysRange) : r.checkAll stored = r.cleared stored ↔ r.Judged stored := by
  unfold checkAll cleared Judged
  cases valid : r.valid with
  | false => simp [dropped_of_invalid valid]
  | true =>
    have ne := dropped_ne valid
    by_cases hit : ∃ g ∈ stored, hitsReservation r g.start = true <;>
      by_cases met : ∃ g ∈ stored, g.Meets r.range <;>
        simp only [hit, met, if_true, if_false, ne, ne.symm, iff_true, iff_false, not_true_eq_false, imp_self,
          forall_const, iff_self]

theorem eq_cleared_iff (stored : List PhysRange) : r = r.cleared stored ↔ r.Unmet stored := by
  unfold cleared Unmet
  cases valid : r.valid with
  | false => simp [dropped_of_invalid valid]
  | true =>
    have ne := dropped_ne valid
    by_cases met : ∃ g ∈ stored, g.Meets r.range
    · rw [if_pos met]
      exact iff_of_false ne.symm fun clear => met.elim fun g mem => clear rfl g mem.1 mem.2
    · rw [if_neg met]
      exact iff_of_true rfl fun _ g mem meets => met ⟨g, mem, meets⟩

end Reservation

/-! ## What a store stores to -/

/-- The translation of a store that is not a page fault. -/
def mappedStore (c : Core) (va : Word) : Option Translation :=
  match translate c .store va with
  | .ok t => if t.ret.isSuccess then some t else none
  | .error _ => none

def claimedRange (bus : Bus) (memsize pa : Word) (n : Nat) : List PhysRange :=
  if claimed bus memsize pa n then [⟨pa, n⟩] else []

/-- The ranges of `MMIO::write`. -/
def storeRanges (bus : Bus) (c : Core) (va : Word) (n : Nat) : List PhysRange :=
  match mappedStore c va with
  | none => []
  | some t =>
    if crossPage c.hart va n then
      match mappedStore t.core (secondAddr va) with
      | none => []
      | some t₂ =>
        if claimed bus c.hart.memsize t.pa (firstSize va) then
          ⟨t.pa, firstSize va⟩ :: claimedRange bus c.hart.memsize t₂.pa (n - firstSize va)
        else []
    else claimedRange bus c.hart.memsize t.pa n

/-- The range of a read-modify-write. -/
def amoRanges (bus : Bus) (c : Core) (va : Word) (n : Nat) : List PhysRange :=
  match mappedStore c va with
  | none => []
  | some t => claimedRange bus c.hart.memsize t.pa n

/-- The block of a `cbo.zero`. -/
def cboRanges (c : Core) (va : Word) : List PhysRange :=
  match mappedStore c va with
  | none => []
  | some t => if dramBase ≤ t.pa ∧ t.pa + 64 ≤ dramBase + c.hart.memsize then [⟨t.pa, cboSize⟩] else []

section Stores

variable {bus : Bus} {c c' : Core} {pa va val : Word} {n : Nat}

theorem mappedStore_of_ok {t : Translation} (ok : translate c .store va = .ok t) :
    mappedStore c va = if t.ret.isSuccess then some t else none := by
  rw [mappedStore, ok]

theorem Translated.held (frame : Translated c c') :
    c'.hart.reservation = c.hart.reservation ∧ c'.hart.memsize = c.hart.memsize := by
  rw [frame.hart]
  exact ⟨rfl, rfl⟩

theorem Unwritten.held (frame : Unwritten c c') :
    c'.hart.reservation = c.hart.reservation ∧ c'.hart.memsize = c.hart.memsize := by
  rw [frame.hart]
  exact ⟨rfl, rfl⟩

theorem writeDramFast_frame (wrote : writeDramFast c pa n val = .ok c') :
    c'.hart = c.hart ∧ c'.smc = c.smc.smcStoreHit pa := by
  unfold writeDramFast at wrote
  split at wrote
  case h_1 =>
    dsimp only at wrote
    split at wrote
    case isTrue =>
      split at wrote
      case isTrue => cases wrote; exact ⟨rfl, rfl⟩
      case isFalse => cases wrote
    case isFalse => cases wrote; exact ⟨rfl, rfl⟩
  case h_2 => cases wrote

/-- A fragment that is written has been checked. -/
theorem writePhys_reservation (wrote : writePhys bus c pa n val = .ok (some c')) :
    c'.hart.reservation = c.hart.reservation.checkAll [⟨pa, n⟩] ∧ c'.hart.memsize = c.hart.memsize := by
  refine ⟨?_, by rw [(writePhys_accessed wrote).hart]⟩
  rw [Reservation.checkAll_single]
  unfold writePhys at wrote
  dsimp only at wrote
  split at wrote
  case isTrue =>
    obtain ⟨c'', fast, same⟩ := map_eq_ok.mp wrote
    obtain rfl := Option.some.inj same
    rw [(writeDramFast_frame fast).1]
  case isFalse =>
    simp only [Except.ok.injEq, Option.map_eq_some_iff] at wrote
    obtain ⟨dev, -, rfl⟩ := wrote
    rw [(bus.writeServed ..).hart]
    rfl

/-- What `MMIO::write` does to a part of the machine that translations leave alone: what a piece does, for each range
    that it stores to. -/
theorem mmioWrite_fold {β : Type} {f : Core → β} {g : β → PhysRange → β} {a : Access}
    (kept : ∀ {c : Core} {va : Word} {t : Translation}, translate c .store va = .ok t → f t.core = f c)
    (stores : ∀ {c c' : Core} {pa val : Word} {n : Nat}, writePhys bus c pa n val = .ok (some c') →
      f c' = g (f c) ⟨pa, n⟩)
    (ok : mmioWrite bus c va n val = .ok a) : f a.core = (storeRanges bus c va n).foldl g (f c) := by
  have size {c : Core} {va : Word} {t : Translation} (ok : translate c .store va = .ok t) :=
    (translate_translated ok).held.2
  have ranges {t₁ t₂ : Translation} (split : Split c .store va n t₁ t₂) : storeRanges bus c va n =
      if claimed bus c.hart.memsize t₁.pa (firstSize va) then
        ⟨t₁.pa, firstSize va⟩ :: claimedRange bus c.hart.memsize t₂.pa (n - firstSize va)
      else [] := by
    simp [storeRanges, mappedStore_of_ok split.first, split.firstOk, split.crosses, mappedStore_of_ok split.second,
      split.secondOk]
  cases mmioWrite_ends ok with
  | fault first failed same => simp [storeRanges, mappedStore_of_ok first, failed, same, kept first]
  | secondFault crosses first firstOk second failed same =>
    simp [storeRanges, mappedStore_of_ok first, firstOk, crosses, mappedStore_of_ok second, failed, same, kept first,
      kept second]
  | unclaimed page nobody same =>
    have nobody := unclaimed_of_writePhys nobody
    rw [size page.first] at nobody
    simp [storeRanges, mappedStore_of_ok page.first, page.firstOk, page.whole, claimedRange, nobody, same,
      kept page.first]
  | stored page wrote same =>
    have taken := claimed_of_writePhys wrote
    rw [size page.first] at taken
    simp [storeRanges, mappedStore_of_ok page.first, page.firstOk, page.whole, claimedRange, taken, same,
      stores wrote, kept page.first]
  | firstUnclaimed split nobody same =>
    have nobody := unclaimed_of_writePhys nobody
    rw [size split.second, size split.first] at nobody
    simp [ranges split, nobody, same, kept split.first, kept split.second]
  | secondUnclaimed split wrote nobody same =>
    have taken := claimed_of_writePhys wrote
    have nobody := unclaimed_of_writePhys nobody
    rw [size split.second, size split.first] at taken
    rw [(writePhys_reservation wrote).2, size split.second, size split.first] at nobody
    simp [ranges split, taken, claimedRange, nobody, same, stores wrote, kept split.first, kept split.second]
  | storedBoth split wrote wrote₂ same =>
    have taken := claimed_of_writePhys wrote
    have taken₂ := claimed_of_writePhys wrote₂
    rw [size split.second, size split.first] at taken
    rw [(writePhys_reservation wrote).2, size split.second, size split.first] at taken₂
    simp [ranges split, taken, claimedRange, taken₂, same, stores wrote, stores wrote₂, kept split.first,
      kept split.second]

theorem mmioWrite_reservation {a : Access} (ok : mmioWrite bus c va n val = .ok a) :
    a.core.hart.reservation = c.hart.reservation.checkAll (storeRanges bus c va n) := by
  rw [Reservation.checkAll_eq_foldl]
  exact mmioWrite_fold (f := (·.hart.reservation)) (fun ok => (translate_translated ok).held.1)
    (fun wrote => (writePhys_reservation wrote).1) ok

theorem mmioWriteAt_reservation (ok : mmioWriteAt bus c pa n val = .ok a) :
    a.core.hart.reservation = c.hart.reservation.checkAll (claimedRange bus c.hart.memsize pa n) := by
  unfold mmioWriteAt at ok
  obtain ⟨o, wrote, ok⟩ := bind_eq_ok.mp ok
  cases o with
  | none =>
    rw [claimedRange, unclaimed_of_writePhys wrote, ← pure_eq_ok.mp ok]
    exact Reservation.checkAll_nil.symm
  | some c' =>
    rw [claimedRange, claimed_of_writePhys wrote, ← pure_eq_ok.mp ok]
    exact (writePhys_reservation wrote).1

theorem mmioReadAt_success (ok : mmioReadAt bus c pa n = .ok a)
    (claim : claimed bus c.hart.memsize pa n = true) : a.ret.isSuccess = true := by
  unfold mmioReadAt at ok
  obtain ⟨o, read, ok⟩ := bind_eq_ok.mp ok
  cases o with
  | some found => rw [← pure_eq_ok.mp ok]
  | none =>
    unfold readPhys at read
    split at read
    case isTrue =>
      obtain ⟨v, -, same⟩ := map_eq_ok.mp read
      cases same
    case isFalse outside =>
      simp only [Except.ok.injEq, Option.map_eq_none_iff] at read
      simp [claimed, outside, read] at claim

theorem amo_reservation {f : BitVec (8 * n) → BitVec (8 * n) → BitVec (8 * n)} (ok : amo n f bus c va val = .ok a) :
    a.core.hart.reservation = c.hart.reservation.checkAll (amoRanges bus c va n) := by
  unfold amo at ok
  obtain ⟨t, translated, stop⟩ := bind_guard_eq_ok.mp ok
  obtain ⟨reservation, memsize⟩ := (translate_translated translated).held
  rw [amoRanges, mappedStore_of_ok translated]
  rcases stop with ⟨success, rfl⟩ | ⟨success, ok⟩
  · rw [success]
    exact reservation.trans Reservation.checkAll_nil.symm
  · obtain ⟨r, read, ok⟩ := bind_eq_ok.mp ok
    obtain ⟨reservation', memsize'⟩ := (mmioReadAt_unwritten read).held
    simp only [success, if_true]
    cases claim : claimed bus t.core.hart.memsize t.pa n with
    | false =>
      rw [claimedRange, ← memsize, claim]
      rw [mmioReadAt_unclaimed claim, Except.ok.injEq] at read
      simp only [← read, Bool.not_false, if_true, pure_eq_ok] at ok
      rw [← ok]
      exact reservation.trans Reservation.checkAll_nil.symm
    | true =>
      simp only [mmioReadAt_success read claim, Bool.not_true, Bool.false_eq_true, if_false] at ok
      obtain ⟨s, wrote, ok⟩ := bind_eq_ok.mp ok
      have checked := mmioWriteAt_reservation wrote
      rw [reservation', reservation, memsize', memsize] at checked
      split at ok
      · rw [← pure_eq_ok.mp ok]
        exact checked
      · rw [← pure_eq_ok.mp ok]
        exact checked

theorem execCboZero_frame (ok : execCboZero bus c i = .ok e) :
    e.core.hart.reservation = c.hart.reservation ∧ e.core.smc = c.smc := by
  obtain ⟨t, translated, ⟨same, -⟩ | ⟨k, data, rfl⟩⟩ := execCboZero_cases ok
  · rw [same]
    exact ⟨(translate_translated translated).held.1, (translate_translated translated).smc⟩
  · exact ⟨(translate_translated translated).held.1, (translate_translated translated).smc⟩

end Stores

/-! ## The instructions -/

inductive StoreInst where
  | sb | sh | sw | sd | fsw | fsd | csw | csd | cfsd | cswsp | csdsp | cfsdsp
  deriving DecidableEq, Repr

namespace StoreInst

def handler : StoreInst → Handler
  | sb => execSB
  | sh => execSH
  | sw => execSW
  | sd => execSD
  | fsw => execFSW
  | fsd => execFSD
  | csw => execCSW
  | csd => execCSD
  | cfsd => execCFSD
  | cswsp => execCSWSP
  | csdsp => execCSDSP
  | cfsdsp => execCFSDSP

def bytes : StoreInst → Nat
  | sb => 1
  | sh => 2
  | sw | fsw | csw | cswsp => 4
  | sd | fsd | csd | cfsd | csdsp | cfsdsp => 8

/-- The register with the address. -/
def base (i : InstructionData) : StoreInst → BitVec 5
  | sb | sh | sw | sd | fsw | fsd => i.rs1
  | csw | csd | cfsd => i.highC
  | cswsp | csdsp | cfsdsp => 2

def address (s : StoreInst) (c : Core) (i : InstructionData) : Word := c.gpr (s.base i) + i.imm

theorem handler_ok {s : StoreInst} (ok : s.handler bus c i = .ok e) :
    ∃ val a, mmioWrite bus c (s.address c i) s.bytes val = .ok a ∧ e.core = a.core := by
  cases s with
  | _ =>
    obtain ⟨a, wrote, ok⟩ := bind_eq_ok.mp ok
    exact ⟨_, a, wrote, by rw [← pure_eq_ok.mp ok]⟩

end StoreInst

/-- The instructions of the interpreter that store, but for the store-conditional. -/
inductive StoringInst where
  | store (s : StoreInst)
  | amo (op : AmoOp) (w : AtomicWidth)
  | cboZero
  deriving DecidableEq, Repr

namespace StoringInst

def handler : StoringInst → Handler
  | store s => s.handler
  | amo op w => (Atomic.amo op w).handler
  | cboZero => execCboZero

/-- The ranges that the instruction stores to. -/
def ranges (bus : Bus) (c : Core) (i : InstructionData) : StoringInst → List PhysRange
  | store s => storeRanges bus c (s.address c i) s.bytes
  | amo _ w => amoRanges bus c (c.gpr i.rs1) w.bytes
  | cboZero => cboRanges c (c.gpr i.rs1 &&& ~~~63)

/-- The instruction leaves the right reservation. -/
def Exact (bus : Bus) (c : Core) (i : InstructionData) (s : StoringInst) : Prop :=
  match s with
  | store _ | amo _ _ => c.hart.reservation.Judged (s.ranges bus c i)
  | cboZero => c.hart.reservation.Unmet (s.ranges bus c i)

theorem cleared_iff {s : StoringInst} (ok : s.handler bus c i = .ok e) :
    e.core.hart.reservation = c.hart.reservation.cleared (s.ranges bus c i) ↔ s.Exact bus c i := by
  cases s with
  | store s =>
    obtain ⟨val, a, wrote, same⟩ := StoreInst.handler_ok ok
    rw [same, mmioWrite_reservation wrote]
    exact Reservation.checkAll_eq_cleared_iff _
  | amo op w =>
    simp only [handler, Atomic.handler_amo] at ok
    obtain ⟨a, modified, ok⟩ := bind_eq_ok.mp ok
    have reservation : e.core.hart.reservation = a.core.hart.reservation := by
      split at ok
      · rw [← pure_eq_ok.mp ok]
        rfl
      · rw [← pure_eq_ok.mp ok]
    rw [reservation, amo_reservation modified]
    exact Reservation.checkAll_eq_cleared_iff _
  | cboZero =>
    have zeroed : execCboZero bus c i = .ok e := ok
    rw [(execCboZero_frame zeroed).1]
    exact Reservation.eq_cleared_iff _

end StoringInst

/-- The store of a compiled block, at an offset in RAM. -/
def compiledStore (c : Core) (off n : Nat) (val : Word) : Option Core :=
  c.mmap.ramDirect.bind fun i => c.mmap.regions[i]?.bind fun ram =>
    if off + n ≤ ram.size.toNat then some { c with mmap := c.mmap.setData i (storeLE ram.data off n val) } else none

theorem compiledStore_hart {c' : Core} {off : Nat} {val : Word} (stored : compiledStore c off n val = some c') :
    c'.hart = c.hart := by
  simp only [compiledStore, Option.bind_eq_some_iff] at stored
  obtain ⟨i, -, ram, -, stored⟩ := stored
  split at stored
  · cases stored
    rfl
  · cases stored

/-! ## Runs of one hart -/

inductive HartOp where
  | storing (s : StoringInst) (i : InstructionData)
  | compiled (off n : Nat) (val : Word)
  | lr (w : AtomicWidth) (i : InstructionData)
  | sc (w : AtomicWidth) (i : InstructionData)
  | trap (cause : Nat) (tval : Word) (interrupt : Bool)
  /-- Any instruction that leaves the reservation alone, with the machine after it. -/
  | other (next : Core)

/-- A hart, and the bytes of its last load-reserved, as long as nothing has ended that reservation. -/
structure Watched where
  core : Core
  monitor : Option PhysRange

/-- A store to one of its bytes ends the reservation. -/
def afterStore (monitor : Option PhysRange) (stored : List PhysRange) : Option PhysRange :=
  monitor.filter fun b => decide (∀ g ∈ stored, ¬ g.Meets b)

def lrRange (c : Core) (va : Word) (n : Nat) : Option PhysRange :=
  match translate c .load va with
  | .ok t => some ⟨t.pa, n⟩
  | .error _ => none

def compiledRange (off n : Nat) : PhysRange := ⟨dramBase + BitVec.ofNat 64 off, n⟩

/-- An instruction that fails traps, which ends the reservation. -/
def Executed.watched (e : Executed) (monitor : Option PhysRange) : Watched :=
  ⟨finish e, if e.ret.isSuccess then monitor else none⟩

def hartStep (bus : Bus) (w : Watched) : HartOp → Option Watched
  | .storing s i =>
    (s.handler bus w.core i).toOption.map (·.watched (afterStore w.monitor (s.ranges bus w.core i)))
  | .compiled off n val =>
    (compiledStore w.core off n val).map fun c => ⟨c, afterStore w.monitor [compiledRange off n]⟩
  | .lr width i =>
    ((Atomic.lr width).handler bus w.core i).toOption.map (·.watched (lrRange w.core (w.core.gpr i.rs1) width.bytes))
  | .sc width i => ((Atomic.sc width).handler bus w.core i).toOption.map (·.watched none)
  | .trap cause tval interrupt => some ⟨w.core.mapHart (·.trap cause tval interrupt), none⟩
  | .other next => if next.hart.reservation = w.core.hart.reservation then some ⟨next, w.monitor⟩ else none

/-- A store-conditional that does not fault stores exactly under the monitor's bytes. -/
def ScOk (bus : Bus) (w : Watched) (width : AtomicWidth) (i : InstructionData) : Prop :=
  ∀ e, (Atomic.sc width).handler bus w.core i = .ok e → e.ret.isSuccess = true →
    ∃ t, translate w.core .store (w.core.gpr i.rs1) = .ok t ∧ Translated w.core t.core ∧
      if w.monitor = some ⟨t.pa, width.bytes⟩ then
        e.core.gpr i.rd = 0 ∧ ∃ a, a.ret.isSuccess = true ∧
          mmioWriteAt bus t.core t.pa width.bytes
            ((w.core.gpr i.rs2).setWidth (8 * width.bytes) |>.setWidth 64) = .ok a ∧
          e.core.mmap = a.core.mmap ∧ e.core.io = a.core.io
      else e.core.gpr i.rd = 1 ∧ e.core.mmap = t.core.mmap ∧ e.core.io = t.core.io

/-- A store clears the reservation exactly if it meets the reserved bytes. -/
def ReservationOk (bus : Bus) (w : Watched) : HartOp → Prop
  | .storing s i => ∀ e, s.handler bus w.core i = .ok e →
      e.core.hart.reservation = w.core.hart.reservation.cleared (s.ranges bus w.core i)
  | .compiled off n val => ∀ c, compiledStore w.core off n val = some c →
      c.hart.reservation = w.core.hart.reservation.cleared [compiledRange off n]
  | .sc width i => ScOk bus w width i
  | _ => True

/-- No store is misjudged. -/
def WellJudged (bus : Bus) (w : Watched) : HartOp → Prop
  | .storing s i => s.Exact bus w.core i
  | .compiled off n _ => w.core.hart.reservation.Unmet [compiledRange off n]
  | _ => True

/-- The reservation is the one of the architecture. -/
def Watched.Agrees (w : Watched) : Prop := w.monitor = w.core.hart.reservation.held

section Steps

variable {bus : Bus} {w next : Watched}

theorem trap_reservation (h : Hart) (cause : Nat) (tval : Word) (interrupt : Bool) :
    (h.trap cause tval interrupt).reservation = h.reservation.dropped := by
  unfold Hart.trap
  dsimp only
  split <;> rfl

theorem held_cleared (r : Reservation) (stored : List PhysRange) :
    (r.cleared stored).held = afterStore r.held stored := by
  unfold Reservation.cleared Reservation.held afterStore
  cases valid : r.valid with
  | false => split <;> simp [Reservation.dropped, valid]
  | true =>
    by_cases met : ∃ g ∈ stored, g.Meets r.range
    · have falls : ¬ ∀ g ∈ stored, ¬ g.Meets r.range := fun clear => met.elim fun g both => clear g both.1 both.2
      simp [met, falls, Option.filter, Reservation.dropped]
    · have stays : ∀ g ∈ stored, ¬ g.Meets r.range := fun g mem meets => met ⟨g, mem, meets⟩
      rw [if_neg met, valid, if_pos rfl, Option.filter_some, if_pos (decide_eq_true stays)]

theorem Executed.watched_agrees {monitor : Option PhysRange}
    (agree : e.ret.isSuccess = true → monitor = e.core.hart.reservation.held) : (e.watched monitor).Agrees := by
  unfold Executed.watched Watched.Agrees finish
  cases success : e.ret.isSuccess with
  | true => exact agree success
  | false =>
    simp only [Bool.not_false, if_true, Bool.false_eq_true, if_false, Core.mapHart, trap_reservation]
    rfl

theorem loadReserved_reservation (ok : loadReserved n failStep bus c i = .ok e) (success : e.ret.isSuccess = true) :
    e.core.hart.reservation.held = lrRange c (c.gpr i.rs1) n := by
  obtain ⟨a, reserved, ⟨-, rfl⟩ | ⟨done, ok⟩⟩ := bind_guard_eq_ok.mp ok
  · cases success
  obtain ⟨t, translated, ⟨mapped, rfl⟩ | ⟨-, reserved⟩⟩ := bind_guard_eq_ok.mp reserved
  · exact absurd (mapped.symm.trans done) Bool.false_ne_true
  obtain ⟨r, read, ⟨found, rfl⟩ | ⟨-, reserved⟩⟩ := bind_guard_eq_ok.mp reserved
  · exact absurd (found.symm.trans done) Bool.false_ne_true
  · rw [lrRange, translated, ← pure_eq_ok.mp ok, ← pure_eq_ok.mp reserved]
    rfl

/-- A store-conditional that does not fault drops the reservation, and stores if it was for the same bytes. -/
theorem storeConditional_ends (ok : storeConditional n failStep bus c i = .ok e) (success : e.ret.isSuccess = true) :
    e.core.hart.reservation.valid = false ∧ ∃ t, translate c .store (c.gpr i.rs1) = .ok t ∧
      if c.hart.reservation.held = some ⟨t.pa, n⟩ then e.core.gpr i.rd = 0 ∧ ∃ a, a.ret.isSuccess = true ∧
          mmioWriteAt bus t.core t.pa n ((c.gpr i.rs2).setWidth (8 * n) |>.setWidth 64) = .ok a ∧
          e.core.mmap = a.core.mmap ∧ e.core.io = a.core.io
      else e.core.gpr i.rd = 1 ∧ e.core.mmap = t.core.mmap ∧ e.core.io = t.core.io := by
  obtain ⟨a, stored, ⟨-, rfl⟩ | ⟨done, ok⟩⟩ := bind_guard_eq_ok.mp ok
  · cases success
  obtain ⟨t, translated, ⟨mapped, rfl⟩ | ⟨-, stored⟩⟩ := bind_guard_eq_ok.mp stored
  · exact absurd (mapped.symm.trans done) Bool.false_ne_true
  have same := (translate_translated translated).held.1
  have reserved_iff : (t.core.hart.reservation.valid = true ∧ t.core.hart.reservation.paddr = t.pa ∧
      t.core.hart.reservation.size = n) ↔ c.hart.reservation.held = some ⟨t.pa, n⟩ := by
    rw [same, Reservation.held]
    cases c.hart.reservation.valid <;> simp [Reservation.range]
  simp only [reserved_iff] at stored
  rw [← pure_eq_ok.mp ok]
  by_cases reserved : c.hart.reservation.held = some ⟨t.pa, n⟩
  · rw [if_pos reserved] at stored
    obtain ⟨r, wrote, ⟨found, rfl⟩ | ⟨found, stored⟩⟩ := bind_guard_eq_ok.mp stored
    · exact absurd (found.symm.trans done) Bool.false_ne_true
    · rw [← pure_eq_ok.mp stored]
      refine ⟨rfl, t, translated, ?_⟩
      rw [if_pos reserved]
      exact ⟨Function.update_self .., r, found, wrote, rfl, rfl⟩
  · rw [if_neg reserved, pure_eq_ok] at stored
    rw [← stored]
    refine ⟨rfl, t, translated, ?_⟩
    rw [if_neg reserved]
    exact ⟨Function.update_self .., rfl, rfl⟩

theorem scOk (agree : w.Agrees) (width : AtomicWidth) (i : InstructionData) : ScOk bus w width i := by
  intro e ran success
  obtain ⟨failStep, eq⟩ := Atomic.handler_sc width
  rw [eq] at ran
  obtain ⟨-, t, translated, ends⟩ := storeConditional_ends ran success
  rw [← agree] at ends
  exact ⟨t, translated, translate_translated translated, ends⟩

/-- One instruction obeys the law exactly if it is well judged, and the reservation stays right. -/
theorem reservation_step {op : HartOp} (agree : w.Agrees) (taken : hartStep bus w op = some next) :
    (ReservationOk bus w op ↔ WellJudged bus w op) ∧ (WellJudged bus w op → next.Agrees) := by
  cases op with
  | storing s i =>
    obtain ⟨e, ran, rfl⟩ := toOption_map_eq_some.mp taken
    have cleared := StoringInst.cleared_iff ran
    constructor
    · constructor
      · intro law
        exact cleared.mp (law e ran)
      · intro judged e' ran'
        obtain rfl := Except.ok.inj (ran.symm.trans ran')
        exact cleared.mpr judged
    · intro judged
      apply Executed.watched_agrees
      intro _
      rw [cleared.mpr judged, held_cleared, ← agree]
  | compiled off n val =>
    obtain ⟨c, stored, rfl⟩ := Option.map_eq_some_iff.mp taken
    have kept : c.hart.reservation = w.core.hart.reservation := by rw [compiledStore_hart stored]
    have cleared := Reservation.eq_cleared_iff (r := w.core.hart.reservation) [compiledRange off n]
    constructor
    · constructor
      · intro law
        exact cleared.mp (kept ▸ law c stored)
      · intro unmet c' stored'
        obtain rfl := Option.some.inj (stored.symm.trans stored')
        rw [kept]
        exact cleared.mpr unmet
    · intro unmet
      have same := cleared.mpr unmet
      rw [Watched.Agrees, kept, same, held_cleared, ← agree]
  | lr width i =>
    obtain ⟨e, ran, rfl⟩ := toOption_map_eq_some.mp taken
    obtain ⟨failStep, eq⟩ := Atomic.handler_lr width
    rw [eq] at ran
    refine ⟨Iff.rfl, fun _ => Executed.watched_agrees fun success => ?_⟩
    exact (loadReserved_reservation ran success).symm
  | sc width i =>
    obtain ⟨e, ran, rfl⟩ := toOption_map_eq_some.mp taken
    obtain ⟨failStep, eq⟩ := Atomic.handler_sc width
    rw [eq] at ran
    refine ⟨iff_of_true (scOk agree width i) trivial, fun _ => Executed.watched_agrees fun success => ?_⟩
    rw [Reservation.held, (storeConditional_ends ran success).1]
    rfl
  | trap cause tval interrupt =>
    obtain rfl := Option.some.inj taken
    refine ⟨Iff.rfl, fun _ => ?_⟩
    rw [Watched.Agrees, Core.mapHart, trap_reservation]
    rfl
  | other after =>
    simp only [hartStep, Option.ite_none_right_eq_some, Option.some.injEq] at taken
    obtain ⟨same, rfl⟩ := taken
    refine ⟨Iff.rfl, fun _ => ?_⟩
    rw [Watched.Agrees, same]
    exact agree

end Steps

/-- Along every run the law holds exactly if no store is misjudged. -/
theorem reservation_law_iff (bus : Bus) (c : Core) (ops : List HartOp) (final : Watched)
    (ran : run (hartStep bus) ⟨c, c.hart.reservation.held⟩ ops = some final) :
    Along (hartStep bus) (ReservationOk bus) ⟨c, c.hart.reservation.held⟩ ops ↔
      Along (hartStep bus) (WellJudged bus) ⟨c, c.hart.reservation.held⟩ ops :=
  along_iff_of_run (I := Watched.Agrees) (fun _ _ _ agree taken => reservation_step agree taken) rfl ran

/-- `lr.d x3, (x1)`, then `store`, then `sc.d x3, x2, (x1)`. -/
def aroundStore (store : HartOp) : List HartOp :=
  [.lr .double { rs1 := 1, rs2 := 0, rd := 3, inst := 0x1000B1AF#32, imm := 0, size := 4 }, store,
    .sc .double { rs1 := 1, rs2 := 2, rd := 3, inst := 0x1820B1AF#32, imm := 0, size := 4 }]

/-- `sb x2, 0(x1)` -/
def storeFirst : HartOp :=
  .storing (.store .sb) { rs1 := 1, rs2 := 2, rd := 0, inst := 0x00208023#32, imm := 0, size := 4 }

/-- `sw x2, 4(x1)` -/
def storeUpper : HartOp :=
  .storing (.store .sw) { rs1 := 1, rs2 := 2, rd := 0, inst := 0x0020A223#32, imm := 4, size := 4 }

/-- The start of RAM in `x1`, 5 in `x2`, and no reservation. -/
def unreservedCore : Watched := ⟨amoCore 0x80000000#64 5#64, none⟩

theorem reservation_law_first_byte :
    ∃ final, run (hartStep Bus.empty) unreservedCore (aroundStore storeFirst) = some final ∧ final.core.gpr 3 = 1 ∧
      Along (hartStep Bus.empty) (ReservationOk Bus.empty) unreservedCore (aroundStore storeFirst) := by
  obtain ⟨final, ran, value⟩ : ∃ final,
      run (hartStep Bus.empty) unreservedCore (aroundStore storeFirst) = some final ∧ final.core.gpr 3 = 1 :=
    ⟨_, rfl, rfl⟩
  refine ⟨final, ran, value, (reservation_law_iff Bus.empty unreservedCore.core _ final ran).mpr ?_⟩
  refine ⟨trivial, fun next taken => ?_⟩
  obtain rfl := Option.some.inj taken
  refine ⟨fun _ => ?_, fun next taken => ⟨trivial, fun _ _ => trivial⟩⟩
  decide +kernel

/-- A store to the upper half of a reserved doubleword is not noticed, and the store-conditional writes. -/
theorem store_inside_reservation_missed :
    (∃ final, run (hartStep Bus.empty) unreservedCore (aroundStore storeUpper) = some final ∧
      final.core.gpr 3 = 0 ∧ final.core.mmap.ramByte 0x80000000#64 = 5#8) ∧
    ¬ Along (hartStep Bus.empty) (ReservationOk Bus.empty) unreservedCore (aroundStore storeUpper) := by
  refine ⟨⟨_, rfl, rfl, rfl⟩, ?_⟩
  intro along
  have stored := (along.2 _ rfl).1 _ rfl
  have valid := congrArg Reservation.valid stored
  revert valid
  decide +kernel

end Rv64Vm
