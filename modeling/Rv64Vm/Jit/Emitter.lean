import Rv64Vm.Jit.HostMemory

/-! # The block emitter

The state of `JIT_Emitter` with its register allocator, and the parts every
translator uses: slots, flushes and miss sites. A jump site is named when the
jump is emitted; patching it is placing its mark. Reaching one of the source's
traps or `__builtin_unreachable` is `none`.
-/

namespace Rv64Vm.Jit

open Lib X86

abbrev GuestReg := BitVec 5

/-- A position in the allocator pool. -/
abbrev HostSlot := Fin 6

/-- `RVJIT_HOST_POOL` -/
def hostPool : HostSlot → Reg
  | 0 => .rsi
  | 1 => .rdi
  | 2 => .r8
  | 3 => .r9
  | 4 => .r10
  | 5 => .r11

abbrev regCtx : Reg := .r12
abbrev regRegs : Reg := .r13
abbrev regTmp : Reg := .rcx

structure VReg where
  slot : Option HostSlot := none
  dirty : Bool := false
  deriving DecidableEq, Repr

/-- An element of `hr_vreg`: 0xFF, 0xFE or a guest register. -/
inductive Owner where
  | free
  | owned
  | guest (v : GuestReg)
  deriving DecidableEq, Repr

structure MissSite where
  relPos : Label
  instr : Nat
  bytes : Nat
  /-- Dirty guest registers and the slots that hold them. -/
  dirty : List (GuestReg × HostSlot)

structure ExitLink where
  budgetJs : Label
  fail : List Label

structure Emitter where
  code : List Instr := []
  /-- Jump sites emitted so far. -/
  sites : Nat := 0
  instrIndex : Nat := 0
  instrBytes : Nat := 0
  exits : List ExitLink := []
  vr : GuestReg → VReg := fun _ => {}
  hrVreg : HostSlot → Owner := fun _ => .free
  effMode : Nat := 0
  mxr : Bool := false
  sum : Bool := false
  misses : List MissSite := []
  stubReserve : Nat := 0
  exited : Bool := false
  nSuper : Nat := 0

/-! ## Bytes emitted -/

/-- Bytes of `modrm_mem`: RSP and R12 need a SIB byte. -/
def memOperandSize (base : Reg) : Nat := if base = .rsp ∨ base = .r12 then 6 else 5

/-- R8 to R15 -/
def Extended (r : Reg) : Prop :=
  r = .r8 ∨ r = .r9 ∨ r = .r10 ∨ r = .r11 ∨ r = .r12 ∨ r = .r13 ∨ r = .r14 ∨ r = .r15

instance (r : Reg) : Decidable (Extended r) := by unfold Extended; infer_instance

/-- Bytes the encoder of each instruction form writes. -/
def encodedSize : Instr → Nat
  | .mov _ _ | .mov32 _ _ | .movsxd _ _ => 3
  | .movzx8 _ _ => 4
  | .movImm _ _ => 7
  | .movAbs _ _ => 10
  -- the 1- and 2-byte loads have a two-byte opcode, the 2-byte store a prefix
  | .load bytes _ _ base _ => (if bytes = 1 ∨ bytes = 2 then 3 else 2) + memOperandSize base
  | .store bytes base _ _ => (if bytes = 2 then 3 else 2) + memOperandSize base
  | .lea _ base _ => 2 + memOperandSize base
  | .leaData _ _ => 7
  | .push r | .pop r => if Extended r then 2 else 1
  | .arith _ _ _ => 3
  | .arithImm _ _ _ | .arithImm32 _ _ _ => 7
  | .arithMem _ _ base _ => 2 + memOperandSize base
  | .subMemImm base _ _ => 6 + memOperandSize base
  | .cmpMem16 base _ _ => 3 + memOperandSize base
  | .test _ _ => 3
  | .testImm _ _ => 7
  | .testMem8 base _ _ => 3 + memOperandSize base
  | .neg _ | .neg32 _ => 3
  | .shift _ _ _ | .shift32 _ _ _ => 4
  | .shiftCl _ _ | .shiftCl32 _ _ => 3
  | .setcc _ _ => 4
  | .mul _ | .imul _ | .div _ | .div32 _ | .idiv _ | .idiv32 _ => 3
  | .imulRR _ _ | .imulRR32 _ _ => 4
  | .cqo => 2
  | .cdq => 1
  | .jcc short _ _ => if short then 2 else 6
  | .jmp short _ => if short then 2 else 5
  | .jmpReg r => if Extended r then 3 else 2
  | .ret => 1
  | .mark _ => 0

/-- `RVJIT_FUNC_SIZE` -/
def funcSize : Nat := 0x1000
/-- `RVJIT_FUNC_MARGIN` -/
def funcMargin : Nat := 512
def epilogueBytes : Nat := 256
def stubBytes : Nat := 104

namespace Emitter

variable (em : Emitter)

/-- `cb.pos` -/
def pos : Nat := (em.code.map encodedSize).sum

def emit (is : List Instr) : Emitter := { em with code := em.code ++ is }

/-- `jcc32`, `jcc8`: the jump and its site. -/
def jcc (short : Bool) (cc : Cond) : Emitter × Label :=
  ({ em with code := em.code ++ [.jcc short cc em.sites], sites := em.sites + 1 }, em.sites)

/-- `jmp32`, and the rel8 form of `jcc8(0xEB)`. -/
def jmp (short : Bool) : Emitter × Label :=
  ({ em with code := em.code ++ [.jmp short em.sites], sites := em.sites + 1 }, em.sites)

/-- `patch_rel32(site, cb.pos)` and `patch_rel8(site, cb.pos)`. -/
def patch (site : Label) : Emitter := em.emit [.mark site]

def eof : Bool :=
  funcSize ≤ em.pos + epilogueBytes + funcMargin + em.stubReserve

/-! ## Slots -/

def setVr (v : GuestReg) (g : VReg) : Emitter :=
  { em with vr := Function.update em.vr v g }

def setOwner (i : HostSlot) (o : Owner) : Emitter :=
  { em with hrVreg := Function.update em.hrVreg i o }

/-- `vr[v].dirty = true` -/
def markDirty (v : GuestReg) : Emitter := em.setVr v { em.vr v with dirty := true }

def gprDisp (v : GuestReg) : Word := BitVec.ofNat 64 (v.toNat * 8)

def flushGuest (v : GuestReg) : Emitter :=
  match em.vr v with
  | ⟨some i, true⟩ =>
    (em.emit [.store 8 regRegs (gprDisp v) (hostPool i)]).setVr v ⟨some i, false⟩
  | _ => em

/-- Guest registers 1 to 31. -/
def guestRegs : List GuestReg := (List.range 31).map fun i => BitVec.ofNat 5 (i + 1)

def flushAll : Emitter := guestRegs.foldl flushGuest em

def allSlots : List HostSlot := [0, 1, 2, 3, 4, 5]

/-- The guest register of slot `i` may be evicted. -/
def evictable (keep1 keep2 : Option GuestReg) (i : HostSlot) : Option GuestReg :=
  match em.hrVreg i with
  | .guest h => if some h ≠ keep1 ∧ some h ≠ keep2 then some h else none
  | _ => none

/-- Take slot `i` from the guest register `h`. -/
def evict (i : HostSlot) (h : GuestReg) : Emitter :=
  (em.setVr h { em.vr h with slot := none }).setOwner i .owned

/-- Evicting a register leaves its dirty bit to the flush before it. -/
def freeSlot (keep1 keep2 : Option GuestReg) : Option (Emitter × HostSlot) :=
  match allSlots.find? fun i => em.hrVreg i = .free with
  | some i => some (em.setOwner i .owned, i)
  | none =>
    let clean i := (em.evictable keep1 keep2 i).filter fun h => !(em.vr h).dirty
    match allSlots.findSome? fun i => (clean i).map (i, ·) with
    | some (i, h) => some (em.evict i h, i)
    | none =>
      (allSlots.findSome? fun i => (em.evictable keep1 keep2 i).map (i, ·)).map
        fun (i, h) => ((em.flushGuest h).evict i h, i)

def releaseSlot (i : HostSlot) : Emitter := em.setOwner i .free

/-- Give slot `i` to the guest register `v`. -/
def bindSlot (v : GuestReg) (i : HostSlot) : Emitter :=
  (em.setOwner i (.guest v)).setVr v { em.vr v with slot := some i }

def hregForRead (v : GuestReg) (keep : Option GuestReg) : Option (Emitter × Reg) :=
  match (em.vr v).slot with
  | some i => some (em, hostPool i)
  | none =>
    (em.freeSlot keep none).map fun (em, i) =>
      let p := hostPool i
      let em := em.bindSlot v i
      -- x0 is always zero
      if v = 0 then (em.emit [.arith .xor p p], p)
      else (em.emit [.load 8 .zero p regRegs (gprDisp v)], p)

def hregForWrite (v : GuestReg) (keep1 keep2 : Option GuestReg) : Option (Emitter × Reg) :=
  match (em.vr v).slot with
  | some i => some (em, hostPool i)
  | none => (em.freeSlot keep1 keep2).map fun (em, i) => (em.bindSlot v i, hostPool i)

/-! ## Miss sites -/

def snapshotDirty : List (GuestReg × HostSlot) :=
  (guestRegs.filterMap fun v =>
    match em.vr v with
    | ⟨some i, true⟩ => some (v, i)
    | _ => none).take 6

def pushMiss (relPos : Label) (instr : Nat) : Emitter :=
  { em with
    stubReserve :=
      match em.misses.getLast? with
      | some last => if last.instr ≠ instr then em.stubReserve + stubBytes else em.stubReserve
      | none => em.stubReserve + stubBytes
    misses := em.misses ++ [⟨relPos, instr, em.instrBytes, em.snapshotDirty⟩] }

/-- The lambda `miss_jump` of `emit_tlb_checks`. -/
def missJump (cc : Cond) (instr : Nat) : Emitter :=
  let (em, rel) := em.jcc false cc
  em.pushMiss rel instr

end Emitter

end Rv64Vm.Jit
