import Rv64Vm.Isa.Rv64a
import Rv64Vm.Mmio.AccessLaw

/-! # Atomic memory operations

The handlers translate the first byte of the operand and then make one physical
access of the whole width. For a multiple of the width that is right, since the
operand lies in one page. No handler looks at the alignment: a misaligned
operation is performed like any other, on bytes that need not belong to its
addresses, unless nothing in the machine has them.
-/

namespace Rv64Vm

open Lib

/-! ## The instructions -/

inductive AmoOp where
  | swap | add | xor | and | or | min | max | minu | maxu
  deriving DecidableEq, Repr

/-- The operation of the architecture on the old value and the operand. -/
def AmoOp.apply {w : Nat} : AmoOp → BitVec w → BitVec w → BitVec w
  | .swap, _, b => b
  | .add, a, b => a + b
  | .xor, a, b => a ^^^ b
  | .and, a, b => a &&& b
  | .or, a, b => a ||| b
  | .min, a, b => if a.toInt ≤ b.toInt then a else b
  | .max, a, b => if b.toInt ≤ a.toInt then a else b
  | .minu, a, b => if a.toNat ≤ b.toNat then a else b
  | .maxu, a, b => if b.toNat ≤ a.toNat then a else b

inductive AtomicWidth where
  | word | double
  deriving DecidableEq, Repr

def AtomicWidth.bytes : AtomicWidth → Nat
  | .word => 4
  | .double => 8

inductive Atomic where
  | lr (w : AtomicWidth)
  | sc (w : AtomicWidth)
  | amo (op : AmoOp) (w : AtomicWidth)
  deriving DecidableEq, Repr

namespace Atomic

def bytes : Atomic → Nat
  | lr w | sc w | amo _ w => w.bytes

def access : Atomic → AccessType
  | lr _ => .load
  | sc _ | amo _ _ => .store

def handler : Atomic → Handler
  | lr .word => execLRW
  | lr .double => execLRD
  | sc .word => execSCW
  | sc .double => execSCD
  | amo .swap .word => execAMOSWAPW
  | amo .add .word => execAMOADDW
  | amo .xor .word => execAMOXORW
  | amo .and .word => execAMOANDW
  | amo .or .word => execAMOORW
  | amo .min .word => execAMOMINW
  | amo .max .word => execAMOMAXW
  | amo .minu .word => execAMOMINUW
  | amo .maxu .word => execAMOMAXUW
  | amo .swap .double => execAMOSWAPD
  | amo .add .double => execAMOADDD
  | amo .xor .double => execAMOXORD
  | amo .and .double => execAMOANDD
  | amo .or .double => execAMOORD
  | amo .min .double => execAMOMIND
  | amo .max .double => execAMOMAXD
  | amo .minu .double => execAMOMINUD
  | amo .maxu .double => execAMOMAXUD

end Atomic

section Operations

variable {w : Nat} (a b : BitVec w)

theorem minS_eq : minS a b = AmoOp.min.apply a b := by
  simp only [minS, AmoOp.apply, BitVec.slt, decide_eq_true_eq]
  split <;> split <;> first | rfl | omega

theorem maxS_eq : maxS a b = AmoOp.max.apply a b := by
  simp only [maxS, AmoOp.apply, BitVec.slt, decide_eq_true_eq]
  split <;> split <;> first | rfl | omega

theorem minU_eq : minU a b = AmoOp.minu.apply a b := by
  simp only [minU, AmoOp.apply, BitVec.lt_def]
  split <;> split <;> first | rfl | omega

theorem maxU_eq : maxU a b = AmoOp.maxu.apply a b := by
  simp only [maxU, AmoOp.apply, BitVec.lt_def]
  split <;> split <;> first | rfl | omega

end Operations

/-- Each handler performs the operation of its name. -/
theorem Atomic.handler_amo (op : AmoOp) (w : AtomicWidth) : (Atomic.amo op w).handler = amoTo w.bytes op.apply := by
  have same {f g : BitVec (8 * w.bytes) → BitVec (8 * w.bytes) → BitVec (8 * w.bytes)} (eq : ∀ a b, f a b = g a b) :
      amoTo w.bytes f = amoTo w.bytes g := congrArg (amoTo w.bytes) (funext₂ eq)
  cases w with
  | word =>
    cases op with
    | min => exact same minS_eq
    | max => exact same maxS_eq
    | minu => exact same minU_eq
    | maxu => exact same maxU_eq
    | swap | add | xor | and | or => rfl
  | double =>
    cases op with
    | min => exact same minS_eq
    | max => exact same maxS_eq
    | minu => exact same minU_eq
    | maxu => exact same maxU_eq
    | swap | add | xor | and | or => rfl

theorem Atomic.handler_lr (w : AtomicWidth) : ∃ failStep, (Atomic.lr w).handler = loadReserved w.bytes failStep := by
  cases w with
  | word | double => exact ⟨_, rfl⟩

theorem Atomic.handler_sc (w : AtomicWidth) :
    ∃ failStep, (Atomic.sc w).handler = storeConditional w.bytes failStep := by
  cases w with
  | word | double => exact ⟨_, rfl⟩

/-! ## Physical accesses -/

/-- The `n` bytes of RAM at `pa`. -/
def MemoryMap.ramValue (m : MemoryMap) (pa : Word) (n : Nat) : BitVec (8 * n) :=
  loadLE (8 * n) (fun k => m.ramByte (pa + BitVec.ofNat 64 k)) n

/-- The value is read from exactly the `n` bytes at `pa`. -/
inductive PhysReads (bus : Bus) (c : Core) (pa : Word) (n : Nat) (v : BitVec (8 * n)) (c' : Core) : Prop
  | ram (inside : inDram c.hart.memsize pa n = true) (value : v = c.mmap.ramValue pa n) (same : c' = c)
  | device {dev : Nat} (outside : inDram c.hart.memsize pa n = false) (found : bus.find pa n = some dev)
      (value : v = (bus.read dev pa n (c.record ⟨dev, pa, n, none⟩)).1.setWidth (8 * n))
      (after : c' = (bus.read dev pa n (c.record ⟨dev, pa, n, none⟩)).2)

/-- The value is stored to exactly the `n` bytes at `pa`. -/
inductive PhysWrites (bus : Bus) (c : Core) (pa : Word) (n : Nat) (v : BitVec (8 * n)) (c' : Core) : Prop
  | ram (inside : inDram c.hart.memsize pa n = true)
      (bytes : ∀ p, c'.mmap.ramByte p = if (p - pa).toNat < n then byteAt v (p - pa).toNat else c.mmap.ramByte p)
      (io : c'.io = c.io) (hart : c'.hart = { c.hart with reservation := c'.hart.reservation })
  | device {dev : Nat} (outside : inDram c.hart.memsize pa n = false) (found : bus.find pa n = some dev)
      (after : c' = bus.write dev pa n (v.setWidth 64) ((checked c pa).record ⟨dev, pa, n, some (v.setWidth 64)⟩))

section Physical

variable {bus : Bus} {c : Core} {pa : Word} {n : Nat}

theorem loadLE_setWidth (f : Nat → Byte) (small : n ≤ 8) : (loadLE 64 f n).setWidth (8 * n) = loadLE (8 * n) f n := by
  apply eq_of_byteAt (Nat.le_refl _)
  intro i inside
  rw [byteAt_setWidth _ (by omega), byteAt_loadLE _ inside (by omega), byteAt_loadLE _ inside (by omega)]

theorem mmioReadAt_claimed (ram : RamOk c) (size : n ∈ dramSizes) (claim : claimed bus c.hart.memsize pa n = true) :
    ∃ v c', mmioReadAt bus c pa n = .ok { ret := {}, val := v, core := c' } ∧
      PhysReads bus c pa n (v.setWidth (8 * n)) c' := by
  have small := (small_of_dramSizes size).2
  unfold mmioReadAt
  cases inside : inDram c.hart.memsize pa n with
  | true =>
    rw [readPhys_bytes ram small inside, if_pos size]
    exact ⟨_, _, rfl, .ram inside (loadLE_setWidth _ small) rfl⟩
  | false =>
    rw [claimed, inside, Bool.false_or] at claim
    obtain ⟨dev, found⟩ := Option.isSome_iff_exists.mp claim
    have read : readPhys bus c pa n = .ok (some (bus.read dev pa n (c.record ⟨dev, pa, n, none⟩))) := by
      simp only [readPhys, inside, Bool.false_eq_true, if_false, found, Option.map_some]
    rw [read]
    exact ⟨_, _, rfl, .device inside found rfl rfl⟩

theorem mmioReadAt_unclaimed (nobody : claimed bus c.hart.memsize pa n = false) :
    mmioReadAt bus c pa n = .ok { ret := ⟨false, excLoadAccessFault, pa⟩, core := c } := by
  simp only [claimed, Bool.or_eq_false_iff, Option.isSome_eq_false_iff, Option.isNone_iff_eq_none] at nobody
  simp only [mmioReadAt, readPhys, nobody.1, nobody.2, Bool.false_eq_true, if_false, Option.map_none, bind,
    Except.bind, pure, Except.pure]

theorem mmioWriteAt_claimed (ram : RamOk c) (size : n ∈ dramSizes) (claim : claimed bus c.hart.memsize pa n = true)
    (v : BitVec (8 * n)) :
    ∃ c', mmioWriteAt bus c pa n (v.setWidth 64) = .ok { ret := {}, core := c' } ∧ PhysWrites bus c pa n v c' := by
  have small := (small_of_dramSizes size).2
  obtain ⟨i, r, dram⟩ := ram
  unfold mmioWriteAt
  cases inside : inDram c.hart.memsize pa n with
  | true =>
    have dram' : RamAt (checked c pa).mmap c.hart.memsize i r := dram
    rw [writePhys_dram dram small inside]
    refine ⟨_, rfl, .ram inside (fun p => ?_) rfl (amoCheckReservation_frame c.hart pa)⟩
    rw [dramWritten_ramByte _ dram' small inside size]
    split
    case isTrue window => rw [byteAt_setWidth _ (by omega)]
    case isFalse => rfl
  | false =>
    rw [claimed, inside, Bool.false_or] at claim
    obtain ⟨dev, found⟩ := Option.isSome_iff_exists.mp claim
    rw [writePhys_device inside found]
    exact ⟨_, rfl, .device inside found rfl⟩

theorem mmioWriteAt_unclaimed (nobody : claimed bus c.hart.memsize pa n = false) (val : Word) :
    mmioWriteAt bus c pa n val = .ok { ret := ⟨false, excStoreAccessFault, pa⟩, core := c } := by
  rw [mmioWriteAt, writePhys_unclaimed nobody]
  rfl

end Physical

section Frames

variable {bus : Bus} {c c' : Core} {pa : Word} {n : Nat} {v : BitVec (8 * n)}

theorem PhysReads.frame (reads : PhysReads bus c pa n v c') (ram : RamOk c) :
    c'.hart.gpr = c.hart.gpr ∧ c'.hart.memsize = c.hart.memsize ∧ RamOk c' := by
  cases reads with
  | ram _ _ same =>
    rw [same]
    exact ⟨rfl, rfl, ram⟩
  | @device dev _ _ _ after =>
    rw [after]
    have served := bus.readServed dev pa n (c.record ⟨dev, pa, n, none⟩)
    obtain ⟨i, r, dram⟩ := ram
    obtain ⟨r', dram'⟩ := dram.sameLayout served.layout
    refine ⟨by rw [served.hart]; rfl, by rw [served.hart]; rfl, i, r', ?_⟩
    rw [served.hart]
    exact dram'

theorem PhysWrites.gpr (writes : PhysWrites bus c pa n v c') : c'.hart.gpr = c.hart.gpr := by
  cases writes with
  | ram _ _ _ hart => rw [hart]
  | device _ _ after =>
    rw [after, (bus.writeServed ..).hart]
    have frame := congrArg Hart.gpr (amoCheckReservation_frame c.hart pa)
    exact frame

end Frames

/-! ## What the instructions do -/

/-- Each of the `n` bytes at `va` is mapped, to the next physical byte. -/
def MapsTo (c : Core) (type : AccessType) (va pa : Word) (n : Nat) : Prop :=
  ∀ k < n, ∃ t, translate c type (va + BitVec.ofNat 64 k) = .ok t ∧ t.ret.isSuccess = true ∧
    t.pa = pa + BitVec.ofNat 64 k

/-- The instruction has been performed at `pa`, from the state `c` after its translation, with `operand` from `rs2`:
    its access, and the new value of `rd`. -/
def Atomic.Performed (bus : Bus) (c : Core) (pa operand : Word) (c' : Core) (rd : Word) : Atomic → Prop
  | .lr w => ∃ (v : BitVec (8 * w.bytes)) (mid : Core), PhysReads bus c pa w.bytes v mid ∧
      c'.mmap = mid.mmap ∧ c'.io = mid.io ∧ rd = v.signExtend 64
  | .sc w =>
    (∃ after, PhysWrites bus c pa w.bytes (operand.setWidth _) after ∧
      c'.mmap = after.mmap ∧ c'.io = after.io ∧ rd = 0) ∨
    (c'.mmap = c.mmap ∧ c'.io = c.io ∧ rd = 1)
  | .amo op w => ∃ (old : BitVec (8 * w.bytes)) (mid after : Core), PhysReads bus c pa w.bytes old mid ∧
      PhysWrites bus mid pa w.bytes (op.apply old (operand.setWidth _)) after ∧
      c'.mmap = after.mmap ∧ c'.io = after.io ∧ rd = old.signExtend 64

/-- An aligned instruction that succeeds has accessed the bytes that its addresses are mapped to, and has written `rd`
    and no other register. -/
def Atomic.AlignedOk (a : Atomic) (bus : Bus) (c : Core) (i : InstructionData) : Prop :=
  ∀ e, a.handler bus c i = .ok e → e.ret.isSuccess = true →
    ∃ t rd, translate c a.access (c.gpr i.rs1) = .ok t ∧ t.ret.isSuccess = true ∧
      MapsTo c a.access (c.gpr i.rs1) t.pa a.bytes ∧ a.Performed bus t.core t.pa (c.gpr i.rs2) e.core rd ∧
      e.core.hart.gpr = Function.update c.hart.gpr i.rd rd

/-- Address-misaligned and access-fault exceptions of loads and stores. -/
def alignmentCauses : List Nat := [4, 5, 6, 7]

/-- A misaligned instruction raises such an exception, and changes nothing but the TLB and accessed and dirty bits. -/
def Atomic.MisalignedOk (a : Atomic) (bus : Bus) (c : Core) (i : InstructionData) : Prop :=
  ∃ e, a.handler bus c i = .ok e ∧ e.ret.isSuccess = false ∧ e.ret.cause ∈ alignmentCauses ∧ Translated c e.core

def Atomic.Law (a : Atomic) (bus : Bus) (c : Core) (i : InstructionData) : Prop :=
  if (c.gpr i.rs1).toNat % a.bytes = 0 then a.AlignedOk bus c i else a.MisalignedOk bus c i

/-- The address is mapped, but nothing has the bytes there; a store-conditional comes to see that only with a
    reservation of them. -/
def Atomic.Refused (a : Atomic) (bus : Bus) (c : Core) (va : Word) : Prop :=
  ∃ t, translate c a.access va = .ok t ∧ t.ret.isSuccess = true ∧ claimed bus c.hart.memsize t.pa a.bytes = false ∧
    match a with
    | .sc w => c.hart.reservation = ⟨t.pa, w.bytes, true⟩
    | _ => True

section Instructions

variable {bus : Bus} {c : Core} {i : InstructionData} {t : Translation} {w : AtomicWidth}

theorem AtomicWidth.mem_dramSizes (w : AtomicWidth) : w.bytes ∈ dramSizes := by cases w <;> decide

variable (a : Atomic)

/-- The outcome of an instruction that is performed at `t`. -/
def Atomic.Done (bus : Bus) (c : Core) (i : InstructionData) (t : Translation)
    (r : Except HostError Executed) : Prop :=
  ∃ e rd, r = .ok e ∧ e.ret.isSuccess = true ∧ a.Performed bus t.core t.pa (c.gpr i.rs2) e.core rd ∧
    e.core.hart.gpr = Function.update c.hart.gpr i.rd rd

theorem gpr_setGpr_of_eq {c c' : Core} {rd : BitVec 5} {x : Word} (kept : c'.hart.gpr = c.hart.gpr) :
    (c'.setGpr rd x).hart.gpr = Function.update c.hart.gpr rd x := by
  rw [← kept]
  rfl

theorem loadReserved_claimed {failStep : Word} (ram : RamOk c) (ok : translate c .load (c.gpr i.rs1) = .ok t)
    (success : t.ret.isSuccess = true) (claim : claimed bus c.hart.memsize t.pa w.bytes = true) :
    (Atomic.lr w).Done bus c i t (loadReserved w.bytes failStep bus c i) := by
  have frame := translate_translated ok
  rw [← frame.memsize] at claim
  obtain ⟨v, mid, read, reads⟩ := mmioReadAt_claimed (frame.ramOk ram) w.mem_dramSizes claim
  have kept : mid.hart.gpr = c.hart.gpr := by rw [(reads.frame (frame.ramOk ram)).1, frame.hart]
  simp only [loadReserved, amoLr, ok, success, read, bind, Except.bind, pure, Except.pure, Bool.not_true,
    Bool.false_eq_true, if_false]
  exact ⟨_, _, rfl, rfl, ⟨_, mid, reads, rfl, rfl, rfl⟩, gpr_setGpr_of_eq kept⟩

theorem storeConditional_claimed {failStep : Word} (ram : RamOk c) (ok : translate c .store (c.gpr i.rs1) = .ok t)
    (success : t.ret.isSuccess = true) (claim : claimed bus c.hart.memsize t.pa w.bytes = true)
    (reserved : c.hart.reservation = ⟨t.pa, w.bytes, true⟩) :
    (Atomic.sc w).Done bus c i t (storeConditional w.bytes failStep bus c i) := by
  have frame := translate_translated ok
  rw [← frame.memsize] at claim
  obtain ⟨after, write, writes⟩ := mmioWriteAt_claimed (frame.ramOk ram) w.mem_dramSizes claim
    ((c.gpr i.rs2).setWidth _)
  have kept : after.hart.gpr = c.hart.gpr := by rw [writes.gpr, frame.hart]
  have same : t.core.hart.reservation = ⟨t.pa, w.bytes, true⟩ := by rw [frame.hart]; exact reserved
  simp only [storeConditional, amoSc, ok, success, same, write, bind, Except.bind, pure, Except.pure, Bool.not_true,
    Bool.false_eq_true, if_false, and_self, if_true]
  exact ⟨_, _, rfl, rfl, .inl ⟨after, writes, rfl, rfl, rfl⟩, gpr_setGpr_of_eq kept⟩

theorem storeConditional_unreserved {failStep : Word} (ok : translate c .store (c.gpr i.rs1) = .ok t)
    (success : t.ret.isSuccess = true) (other : c.hart.reservation ≠ ⟨t.pa, w.bytes, true⟩) :
    (Atomic.sc w).Done bus c i t (storeConditional w.bytes failStep bus c i) := by
  have frame := translate_translated ok
  have kept : t.core.hart.gpr = c.hart.gpr := by rw [frame.hart]
  have same : t.core.hart.reservation = c.hart.reservation := by rw [frame.hart]
  have differ : ¬ (c.hart.reservation.valid = true ∧ c.hart.reservation.paddr = t.pa ∧
      c.hart.reservation.size = w.bytes) := by
    intro ⟨valid, paddr, size⟩
    exact other (by rw [← valid, ← paddr, ← size])
  simp only [storeConditional, amoSc, ok, success, same, differ, bind, Except.bind, pure, Except.pure, Bool.not_true,
    Bool.false_eq_true, if_false]
  exact ⟨_, _, rfl, rfl, .inr ⟨rfl, rfl, rfl⟩, gpr_setGpr_of_eq kept⟩

theorem amoTo_claimed (op : AmoOp) (ram : RamOk c) (ok : translate c .store (c.gpr i.rs1) = .ok t)
    (success : t.ret.isSuccess = true) (claim : claimed bus c.hart.memsize t.pa w.bytes = true) :
    (Atomic.amo op w).Done bus c i t (amoTo w.bytes op.apply bus c i) := by
  have frame := translate_translated ok
  rw [← frame.memsize] at claim
  obtain ⟨v, mid, read, reads⟩ := mmioReadAt_claimed (frame.ramOk ram) w.mem_dramSizes claim
  obtain ⟨gpr, memsize, ram'⟩ := reads.frame (frame.ramOk ram)
  rw [← memsize] at claim
  obtain ⟨after, write, writes⟩ := mmioWriteAt_claimed ram' w.mem_dramSizes claim
    (op.apply (v.setWidth _) ((c.gpr i.rs2).setWidth _))
  have kept : after.hart.gpr = c.hart.gpr := by rw [writes.gpr, gpr, frame.hart]
  simp only [amoTo, amo, ok, success, read, write, bind, Except.bind, pure, Except.pure, Bool.not_true,
    Bool.false_eq_true, if_false, if_true]
  exact ⟨_, _, rfl, rfl, ⟨_, mid, after, reads, writes, rfl, rfl, rfl⟩, gpr_setGpr_of_eq kept⟩

theorem Atomic.done (ram : RamOk c) (ok : translate c a.access (c.gpr i.rs1) = .ok t)
    (success : t.ret.isSuccess = true) (served : ¬ a.Refused bus c (c.gpr i.rs1)) :
    a.Done bus c i t (a.handler bus c i) := by
  cases a with
  | lr w =>
    have claim : claimed bus c.hart.memsize t.pa w.bytes = true := by
      by_contra nobody
      exact served ⟨t, ok, success, Bool.not_eq_true _ ▸ nobody, trivial⟩
    obtain ⟨failStep, eq⟩ := Atomic.handler_lr w
    rw [eq]
    exact loadReserved_claimed ram ok success claim
  | sc w =>
    obtain ⟨failStep, eq⟩ := Atomic.handler_sc w
    rw [eq]
    by_cases reserved : c.hart.reservation = ⟨t.pa, w.bytes, true⟩
    · have claim : claimed bus c.hart.memsize t.pa w.bytes = true := by
        by_contra nobody
        exact served ⟨t, ok, success, Bool.not_eq_true _ ▸ nobody, reserved⟩
      exact storeConditional_claimed ram ok success claim reserved
    · exact storeConditional_unreserved ok success reserved
  | amo op w =>
    have claim : claimed bus c.hart.memsize t.pa w.bytes = true := by
      by_contra nobody
      exact served ⟨t, ok, success, Bool.not_eq_true _ ▸ nobody, trivial⟩
    rw [Atomic.handler_amo]
    exact amoTo_claimed op ram ok success claim

/-- The outcome of an instruction that faults with `cause` after its translation. -/
def Faulted (t : Translation) (cause : Nat) (r : Except HostError Executed) : Prop :=
  ∃ e, r = .ok e ∧ e.ret.isSuccess = false ∧ e.ret.cause = cause ∧ e.core = t.core

theorem Atomic.handler_error {err : HostError} (error : translate c a.access (c.gpr i.rs1) = .error err) :
    a.handler bus c i = .error err := by
  cases a with
  | lr w =>
    obtain ⟨failStep, eq⟩ := Atomic.handler_lr w
    simp only [Atomic.access] at error
    simp only [eq, loadReserved, amoLr, error, bind, Except.bind]
  | sc w =>
    obtain ⟨failStep, eq⟩ := Atomic.handler_sc w
    simp only [Atomic.access] at error
    simp only [eq, storeConditional, amoSc, error, bind, Except.bind]
  | amo op w =>
    simp only [Atomic.access] at error
    simp only [Atomic.handler_amo, amoTo, Rv64Vm.amo, error, bind, Except.bind]

theorem Atomic.faulted_of_translate (ok : translate c a.access (c.gpr i.rs1) = .ok t)
    (failed : t.ret.isSuccess = false) : Faulted t (accessTypeToFault a.access) (a.handler bus c i) := by
  have cause := congrArg MemoryReturn.excCode (translate_fault ok failed)
  cases a with
  | lr w =>
    obtain ⟨failStep, eq⟩ := Atomic.handler_lr w
    simp only [Atomic.access] at ok
    simp only [eq, loadReserved, amoLr, ok, failed, bind, Except.bind, pure, Except.pure, Bool.not_false, if_true]
    exact ⟨_, rfl, rfl, cause, rfl⟩
  | sc w =>
    obtain ⟨failStep, eq⟩ := Atomic.handler_sc w
    simp only [Atomic.access] at ok
    simp only [eq, storeConditional, amoSc, ok, failed, bind, Except.bind, pure, Except.pure, Bool.not_false, if_true]
    exact ⟨_, rfl, rfl, cause, rfl⟩
  | amo op w =>
    simp only [Atomic.access] at ok
    simp only [Atomic.handler_amo, amoTo, Rv64Vm.amo, ok, failed, bind, Except.bind, pure, Except.pure,
      Bool.not_false, if_true, Bool.false_eq_true, if_false]
    exact ⟨_, rfl, rfl, cause, rfl⟩

/-- The exception of an access to bytes that nothing has. -/
def Atomic.refusal : Atomic → Nat
  | sc _ => excStoreAccessFault
  | lr _ | amo .. => excLoadAccessFault

theorem Atomic.faulted_of_refused (refused : a.Refused bus c (c.gpr i.rs1)) :
    ∃ t, translate c a.access (c.gpr i.rs1) = .ok t ∧ Faulted t a.refusal (a.handler bus c i) := by
  obtain ⟨t, ok, success, nobody, needs⟩ := refused
  have frame := translate_translated ok
  rw [← frame.memsize] at nobody
  refine ⟨t, ok, ?_⟩
  cases a with
  | lr w =>
    obtain ⟨failStep, eq⟩ := Atomic.handler_lr w
    simp only [Atomic.access] at ok
    simp only [eq, loadReserved, amoLr, ok, success, mmioReadAt_unclaimed (n := w.bytes) nobody, bind, Except.bind,
      pure, Except.pure, Bool.not_true, Bool.false_eq_true, if_false, Bool.not_false, if_true]
    exact ⟨_, rfl, rfl, rfl, rfl⟩
  | sc w =>
    obtain ⟨failStep, eq⟩ := Atomic.handler_sc w
    have same : t.core.hart.reservation = ⟨t.pa, w.bytes, true⟩ := by rw [frame.hart]; exact needs
    simp only [Atomic.access] at ok
    simp only [eq, storeConditional, amoSc, ok, success, same, mmioWriteAt_unclaimed (n := w.bytes) nobody, bind,
      Except.bind, pure, Except.pure, Bool.not_true, Bool.false_eq_true, if_false, and_self, Bool.not_false, if_true]
    exact ⟨_, rfl, rfl, rfl, rfl⟩
  | amo op w =>
    simp only [Atomic.access] at ok
    simp only [Atomic.handler_amo, amoTo, Rv64Vm.amo, ok, success, mmioReadAt_unclaimed (n := w.bytes) nobody, bind,
      Except.bind, pure, Except.pure, Bool.not_true, Bool.false_eq_true, if_false, Bool.not_false, if_true]
    exact ⟨_, rfl, rfl, rfl, rfl⟩

theorem Atomic.refusal_mem : a.refusal ∈ alignmentCauses := by
  cases a <;> simp [Atomic.refusal, alignmentCauses, excLoadAccessFault, excStoreAccessFault]

theorem Atomic.pageFault_not_mem : accessTypeToFault a.access ∉ alignmentCauses := by
  cases a <;> simp [Atomic.access, accessTypeToFault, alignmentCauses, excLoadPageFault, excStorePageFault]

/-- The bytes of an aligned access lie on one page. -/
theorem Atomic.samePage {va : Word} {k : Nat} (aligned : va.toNat % a.bytes = 0) (inside : k < a.bytes) :
    SamePage va k := by
  have width : a.bytes = 4 ∨ a.bytes = 8 := by
    rcases a with (w | w | ⟨-, w⟩) <;> cases w <;> simp [Atomic.bytes, AtomicWidth.bytes]
  rw [SamePage]
  rcases width with eq | eq
  · rw [eq] at aligned inside
    omega
  · rw [eq] at aligned inside
    omega

end Instructions

section Law

variable {bus : Bus} {c : Core} {i : InstructionData} (a : Atomic)

/-- What executing the instruction comes to. -/
theorem Atomic.cases_of_ok (ram : RamOk c) {e : Executed} (ran : a.handler bus c i = .ok e) :
    ∃ t, translate c a.access (c.gpr i.rs1) = .ok t ∧
      ((e.ret.isSuccess = false ∧ e.ret.cause ∉ alignmentCauses) ∨
        (e.ret.isSuccess = false ∧ a.Refused bus c (c.gpr i.rs1)) ∨
        (t.ret.isSuccess = true ∧ a.Done bus c i t (.ok e))) := by
  cases ok : translate c a.access (c.gpr i.rs1) with
  | error err =>
    rw [a.handler_error ok] at ran
    cases ran
  | ok t =>
    refine ⟨t, rfl, ?_⟩
    cases success : t.ret.isSuccess with
    | false =>
      have faulted : Faulted t (accessTypeToFault a.access) (a.handler bus c i) := a.faulted_of_translate ok success
      obtain ⟨e', ran', failed, cause, -⟩ := faulted
      obtain rfl := Except.ok.inj (ran.symm.trans ran')
      exact .inl ⟨failed, cause ▸ a.pageFault_not_mem⟩
    | true =>
      by_cases refused : a.Refused bus c (c.gpr i.rs1)
      · obtain ⟨-, -, e', ran', failed, -⟩ := a.faulted_of_refused refused
        obtain rfl := Except.ok.inj (ran.symm.trans ran')
        exact .inr (.inl ⟨failed, refused⟩)
      · exact .inr (.inr ⟨rfl, ran ▸ a.done ram ok success refused⟩)

theorem Atomic.Done.success {a : Atomic} {t : Translation} {e : Executed} (done : a.Done bus c i t (.ok e)) :
    e.ret.isSuccess = true := by
  obtain ⟨e', -, eq, success, -⟩ := done
  exact Except.ok.inj eq ▸ success

theorem Atomic.alignedOk (shapes : ShapeOk c) (ram : RamOk c) (aligned : (c.gpr i.rs1).toNat % a.bytes = 0) :
    a.AlignedOk bus c i := by
  intro e ran success
  obtain ⟨t, ok, ⟨failed, -⟩ | ⟨failed, -⟩ | ⟨mapped, e', rd, same, -, performed, gpr⟩⟩ := a.cases_of_ok ram ran
  · exact absurd (failed.symm.trans success) Bool.false_ne_true
  · exact absurd (failed.symm.trans success) Bool.false_ne_true
  · obtain rfl := Except.ok.inj same
    have bytes : MapsTo c a.access (c.gpr i.rs1) t.pa a.bytes :=
      fun _ inside => translate_add shapes (a.samePage aligned inside) ok mapped
    exact ⟨t, rd, ok, mapped, bytes, performed, gpr⟩

theorem Atomic.misalignedOk_iff (ram : RamOk c) : a.MisalignedOk bus c i ↔ a.Refused bus c (c.gpr i.rs1) := by
  constructor
  · intro ⟨e, ran, failed, cause, _⟩
    obtain ⟨t, ok, ⟨-, other⟩ | ⟨-, refused⟩ | ⟨-, done⟩⟩ := a.cases_of_ok ram ran
    · exact absurd cause other
    · exact refused
    · exact absurd (failed.symm.trans done.success) Bool.false_ne_true
  · intro refused
    obtain ⟨t, ok, e, ran, failed, cause, core⟩ := a.faulted_of_refused refused
    exact ⟨e, ran, failed, cause ▸ a.refusal_mem, core ▸ translate_translated ok⟩

end Law

/-- With an aligned address the law holds in every state; with a misaligned one, exactly where nothing has the bytes. -/
theorem atomic_law_iff (bus : Bus) (c : Core) (i : InstructionData) (a : Atomic) (reachable : MmuReachable c)
    (ram : RamOk c) :
    a.Law bus c i ↔ (c.gpr i.rs1).toNat % a.bytes = 0 ∨ a.Refused bus c (c.gpr i.rs1) := by
  unfold Atomic.Law
  split
  case isTrue aligned => exact iff_of_true (a.alignedOk reachable.shapeOk ram aligned) (.inl aligned)
  case isFalse misaligned => rw [or_iff_right misaligned, a.misalignedOk_iff ram]

/-- `twoPageCore` with an address in `x1` and an operand in `x2`. -/
def amoCore (va operand : Word) : Core :=
  (twoPageCore.setGpr 1 va).setGpr 2 operand

/-- `amoadd.d x1, x2, (x1)`. -/
def amoaddData : InstructionData := { rs1 := 1, rs2 := 2, rd := 1, inst := 0x0020B0AF#32, imm := 0, size := 4 }

theorem atomic_law_aligned_rd_eq_rs1 :
    MmuReachable (amoCore 0x80000FF8#64 5#64) ∧ RamOk (amoCore 0x80000FF8#64 5#64) ∧
      (Atomic.amo .add .double).Law Bus.empty (amoCore 0x80000FF8#64 5#64) amoaddData :=
  have reachable : MmuReachable (amoCore 0x80000FF8#64 5#64) := ⟨_, [], rfl, rfl⟩
  have ram : RamOk (amoCore 0x80000FF8#64 5#64) := ⟨0, _, rfl, rfl, rfl, rfl, by decide⟩
  ⟨reachable, ram, (atomic_law_iff Bus.empty _ amoaddData (.amo .add .double) reachable ram).mpr (.inl (by decide))⟩

/-- An `amoadd.d` at a misaligned address, across the end of a page, adds to memory. -/
theorem misaligned_amo_performed :
    (∃ e, execAMOADDD Bus.empty (amoCore 0x80000FFD#64 5#64) amoaddData = .ok e ∧ e.ret.isSuccess = true ∧
      e.core.mmap.ramByte 0x80000FFD#64 = 5#8) ∧
    ¬ (Atomic.amo .add .double).Law Bus.empty (amoCore 0x80000FFD#64 5#64) amoaddData := by
  obtain ⟨e, ran, success, stored⟩ :
      ∃ e, execAMOADDD Bus.empty (amoCore 0x80000FFD#64 5#64) amoaddData = .ok e ∧ e.ret.isSuccess = true ∧
        e.core.mmap.ramByte 0x80000FFD#64 = 5#8 := ⟨_, rfl, rfl, rfl⟩
  refine ⟨⟨e, ran, success, stored⟩, ?_⟩
  intro law
  obtain ⟨e', ran', failed, -⟩ := law
  obtain rfl := Except.ok.inj (ran.symm.trans ran')
  exact Bool.false_ne_true (failed.symm.trans success)

end Rv64Vm
