import Rv64Vm.Exec.Effects
import Rv64Vm.Isa.Selection
import Rv64Vm.Lib.Halfwords

/-! # How the handlers end

Most handlers either retire, with the effect of an unprivileged instruction and `pc`
left to the caller's step, or fail with nothing written. The others are the jumps,
the stores, whose failure may come after a first piece, and the handlers
that know of privilege.
-/

namespace Rv64Vm

open Lib

variable {bus : Bus} {size imm : Word} {c : Core} {i : InstructionData} {e : Executed} {n w : Nat}
  {rd rs1 rs2 : BitVec 5} {ins : Instruction}

/-- How a handler that is no jump ends on `c`, for an encoding of `size` bytes. -/
inductive Ends (bus : Bus) (size : Word) (c : Core) (e : Executed) : Prop
  | retired (frame : Straight c e.core) (success : e.ret.isSuccess = true) (step : e.ret.increasePc = size)
  | failed (same : Unwritten c e.core) (failure : e.ret.isSuccess = false)
  | store {addr val : Word} {n : Nat} {a : Access} (wrote : mmioWrite bus c addr n val = .ok a)
      (failure : a.ret.isSuccess = false)
      (same : e = ⟨⟨false, false, size, a.ret.excCode, a.ret.tval⟩, a.core⟩)

/-- A handler that is no jump and knows nothing of privilege. -/
def Plain (size : Word) (f : Handler) : Prop :=
  ∀ ⦃bus c i e⦄, f bus c i = .ok e → Ends bus size c e

theorem Ends.userFrame (ends : Ends bus size c e) : UserFrame c e.core := by
  cases ends with
  | retired frame => exact frame.toUserFrame
  | failed same => exact same.accessed.straight.toUserFrame
  | store wrote _ same => exact same ▸ (mmioWrite_accessed wrote).straight.toUserFrame

/-! ## Handlers that cannot fail -/

section Total

variable {size : Word} {g : Bus → Core → InstructionData → Core} {ret : ExecReturn}

theorem plain_of_total (frame : ∀ bus c i, Straight c (g bus c i)) (success : ret.isSuccess = true)
    (step : ret.increasePc = size) : Plain size fun bus c i => .ok ⟨ret, g bus c i⟩ := by
  rintro bus c i _ ⟨⟩
  exact .retired (frame bus c i) success step

theorem plain_setGpr (rd : InstructionData → BitVec 5) (v : Bus → Core → InstructionData → Word)
    (success : ret.isSuccess = true) (step : ret.increasePc = size) :
    Plain size fun bus c i => .ok ⟨ret, c.setGpr (rd i) (v bus c i)⟩ :=
  plain_of_total (fun _ c _ => .setGpr c ..) success step

theorem plain_setFpr (rd : InstructionData → BitVec 5) (v : Bus → Core → InstructionData → Word) :
    Plain 4 fun bus c i => .ok ⟨{}, c.setFpr (rd i) (v bus c i)⟩ :=
  plain_of_total (fun _ c _ => .setFpr c ..) rfl rfl

end Total

/-! ## Memory -/

section Memory

variable {bus : Bus} {c : Core} {e : Executed}

theorem loadTo_ends {signed : Bool} (ok : loadTo n signed size rd rs1 imm bus c = .ok e) : Ends bus size c e := by
  unfold loadTo at ok
  obtain ⟨a, read, ⟨success, rfl⟩ | ⟨success, rfl⟩⟩ := bind_ite_eq_ok.mp ok
  · exact .retired ((mmioRead_unwritten read).accessed.straight.trans (.setGpr ..)) success rfl
  · exact .failed (mmioRead_unwritten read) success

theorem fpLoadTo_ends {box : Word → Word} (ok : fpLoadTo n box size rd rs1 imm bus c = .ok e) : Ends bus size c e := by
  unfold fpLoadTo at ok
  obtain ⟨a, read, ⟨success, rfl⟩ | ⟨success, rfl⟩⟩ := bind_ite_eq_ok.mp ok
  · exact .retired ((mmioRead_unwritten read).accessed.straight.trans (.setFpr ..)) success rfl
  · exact .failed (mmioRead_unwritten read) success

theorem write_ends {addr val : Word} {a : Access} (wrote : mmioWrite bus c addr n val = .ok a) :
    Ends bus size c ⟨⟨a.ret.isSuccess, false, size, a.ret.excCode, a.ret.tval⟩, a.core⟩ := by
  cases success : a.ret.isSuccess with
  | true => exact .retired (mmioWrite_accessed wrote).straight rfl rfl
  | false => exact .store wrote success rfl

theorem storeFrom_ends (ok : storeFrom n size rs1 rs2 imm bus c = .ok e) : Ends bus size c e := by
  unfold storeFrom at ok
  obtain ⟨a, wrote, ok⟩ := bind_eq_ok.mp ok
  exact pure_eq_ok.mp ok ▸ write_ends wrote

theorem fpStoreFrom_ends (ok : fpStoreFrom n size rs1 rs2 imm bus c = .ok e) : Ends bus size c e := by
  unfold fpStoreFrom at ok
  obtain ⟨a, wrote, ok⟩ := bind_eq_ok.mp ok
  exact pure_eq_ok.mp ok ▸ write_ends wrote

end Memory

theorem plain_load (n : Nat) (signed : Bool) : Plain 4 (load n signed) := fun _ _ _ _ => loadTo_ends
theorem plain_store (n : Nat) : Plain 4 (store n) := fun _ _ _ _ => storeFrom_ends

/-! ## Atomics -/

section Atomics

variable {bus : Bus} {c : Core} {va val : Word} {n : Nat} {a : Access}

theorem amoLr_ends (ok : amoLr bus c va n = .ok a) :
    Accessed c a.core ∧ (a.ret.isSuccess = false → Unwritten c a.core) := by
  unfold amoLr at ok
  obtain ⟨t, translated, ⟨-, rfl⟩ | ⟨-, ok⟩⟩ := bind_guard_eq_ok.mp ok
  · exact ⟨(translate_unwritten translated).accessed, fun _ => translate_unwritten translated⟩
  obtain ⟨r, read, stop⟩ := bind_guard_eq_ok.mp ok
  have half := (translate_unwritten translated).trans (mmioReadAt_unwritten read)
  rcases stop with ⟨-, rfl⟩ | ⟨success, ok⟩
  · exact ⟨half.accessed, fun _ => half⟩
  · obtain rfl := pure_eq_ok.mp ok
    exact ⟨half.accessed.trans (.reserve ..), fun failed => absurd (success.symm.trans failed) nofun⟩

theorem amoSc_ends (ok : amoSc bus c va n val = .ok a) :
    Accessed c a.core ∧ (a.ret.isSuccess = false → Unwritten c a.core) := by
  unfold amoSc at ok
  obtain ⟨t, translated, stop⟩ := bind_guard_eq_ok.mp ok
  have begun := translate_unwritten translated
  rcases stop with ⟨-, rfl⟩ | ⟨-, ok⟩
  · exact ⟨begun.accessed, fun _ => begun⟩
  dsimp only at ok
  split at ok
  case isFalse =>
    obtain rfl := pure_eq_ok.mp ok
    exact ⟨begun.accessed.trans (.unreserve _), nofun⟩
  case isTrue =>
    obtain ⟨w, wrote, ⟨failure, rfl⟩ | ⟨success, ok⟩⟩ := bind_guard_eq_ok.mp ok
    · exact mmioWriteAt_failed wrote failure ▸ ⟨begun.accessed, fun _ => begun⟩
    · obtain rfl := pure_eq_ok.mp ok
      exact ⟨(begun.accessed.trans (mmioWriteAt_accessed wrote)).trans (.unreserve _),
        fun failed => absurd (success.symm.trans failed) nofun⟩

theorem amo_ends {f : BitVec (8 * n) → BitVec (8 * n) → BitVec (8 * n)} (ok : amo n f bus c va val = .ok a) :
    Accessed c a.core ∧ (a.ret.isSuccess = false → Unwritten c a.core) := by
  unfold amo at ok
  obtain ⟨t, translated, ⟨-, rfl⟩ | ⟨-, ok⟩⟩ := bind_guard_eq_ok.mp ok
  · exact ⟨(translate_unwritten translated).accessed, fun _ => translate_unwritten translated⟩
  obtain ⟨r, read, stop⟩ := bind_guard_eq_ok.mp ok
  have half := (translate_unwritten translated).trans (mmioReadAt_unwritten read)
  rcases stop with ⟨-, rfl⟩ | ⟨-, ok⟩
  · exact ⟨half.accessed, fun _ => half⟩
  obtain ⟨w, wrote, ⟨failure, rfl⟩ | ⟨-, ok⟩⟩ := bind_guard_eq_ok.mp ok
  · exact mmioWriteAt_failed wrote failure ▸ ⟨half.accessed, fun _ => half⟩
  · obtain rfl := pure_eq_ok.mp ok
    have written : Accessed r.core w.core := mmioWriteAt_accessed wrote
    exact ⟨half.accessed.trans written, nofun⟩

end Atomics

theorem plain_loadReserved (n : Nat) (failStep : Word) : Plain 4 (loadReserved n failStep) := by
  intro bus c i e ok
  unfold loadReserved at ok
  obtain ⟨a, reserved, ⟨failure, rfl⟩ | ⟨-, ok⟩⟩ := bind_guard_eq_ok.mp ok
  · exact .failed ((amoLr_ends reserved).2 failure) rfl
  · exact pure_eq_ok.mp ok ▸ .retired ((amoLr_ends reserved).1.straight.trans (.setGpr ..)) rfl rfl

theorem plain_storeConditional (n : Nat) (failStep : Word) : Plain 4 (storeConditional n failStep) := by
  intro bus c i e ok
  unfold storeConditional at ok
  obtain ⟨a, stored, ⟨failure, rfl⟩ | ⟨-, ok⟩⟩ := bind_guard_eq_ok.mp ok
  · exact .failed ((amoSc_ends stored).2 failure) rfl
  · exact pure_eq_ok.mp ok ▸ .retired ((amoSc_ends stored).1.straight.trans (.setGpr ..)) rfl rfl

theorem plain_amoTo (n : Nat) (f : BitVec (8 * n) → BitVec (8 * n) → BitVec (8 * n)) : Plain 4 (amoTo n f) := by
  intro bus c i e ok
  unfold amoTo at ok
  obtain ⟨a, modified, ⟨success, rfl⟩ | ⟨failure, rfl⟩⟩ := bind_ite_eq_ok.mp ok
  · exact .retired ((amo_ends modified).1.straight.trans (.setGpr ..)) success rfl
  · exact .failed ((amo_ends modified).2 failure) failure

/-! ## Floating point -/

section Fpu

variable {fpu : HostFpu} {c c' : Core} {rm : BitVec 3} {val v : Word} {raised : Raised}

theorem rmFunc_straight (rounded : rmFunc fpu c rm val = some (v, raised, c')) : Straight c c' := by
  unfold rmFunc at rounded
  dsimp only at rounded
  generalize (if rm = 7 then c.frm else rm) = cmp at rounded
  split_ifs at rounded <;> cases rounded <;> first | exact .refl _ | exact .round ..

theorem castFloat_straight (fpu : HostFpu) (c : Core) (val : Word) : Straight c (castFloat fpu c val).2 := by
  unfold castFloat
  split
  · exact .raise ..
  · exact .refl c

theorem sanitizeNan_straight (c : Core) (val : Word) : Straight c (sanitizeNan c val).2 := by
  unfold sanitizeNan
  split
  · exact .raise ..
  · exact .refl c

theorem raiseSnan_straight (fmt : FloatFormat w) (s1 s2 : BitVec w) (c : Core) :
    Straight c (raiseSnan fmt s1 s2 c) := by
  unfold raiseSnan
  split
  · exact .raise ..
  · exact .refl c

theorem finalizeFcvt_straight (fmt : FloatFormat w) (range : IntRange) (fpu : HostFpu) (c : Core)
    (src : BitVec w) (exact rounded : Word) : Straight c (finalizeFcvt fmt range fpu c src exact rounded).2 := by
  unfold finalizeFcvt
  dsimp only
  split_ifs <;> first | exact .raiseInvalid _ | exact .raise .. | exact .refl _

end Fpu

/-- A handler that first rounds some value: it refuses the reserved modes, and retires in the others. -/
structure Rounds (val : Bus → Core → InstructionData → Word) (f : Handler) : Prop where
  refuses : ∀ bus c i, rmFunc bus.fpu c i.rm (val bus c i) = none → f bus c i = .ok (reservedRounding c i)
  runs : ∀ bus c i p, rmFunc bus.fpu c i.rm (val bus c i) = some p → ∃ c', f bus c i = .ok ⟨{}, c'⟩ ∧ Straight p.2.2 c'

theorem Rounds.plain {val : Bus → Core → InstructionData → Word} {f : Handler} (rounds : Rounds val f) : Plain 4 f := by
  intro bus c i e ok
  cases rounded : rmFunc bus.fpu c i.rm (val bus c i) with
  | none =>
    rw [rounds.refuses bus c i rounded] at ok
    obtain rfl := Except.ok.inj ok
    exact .failed (.refl c) rfl
  | some p =>
    obtain ⟨c', done, straight⟩ := rounds.runs bus c i p rounded
    rw [done] at ok
    obtain rfl := Except.ok.inj ok
    exact .retired ((rmFunc_straight rounded).trans straight) rfl rfl

theorem rounds_floatOp (res : HostFpu → Core → InstructionData → Word) :
    Rounds (fun bus c i => res bus.fpu c i) (floatOp res) where
  refuses bus c i mode := by simp only [floatOp, rmHandle, mode, Option.map_none]
  runs bus c i p mode := by
    simp only [floatOp, rmHandle, mode, Option.map_some]
    exact ⟨_, rfl, ((Straight.raise ..).trans (castFloat_straight ..)).trans (.setFpr ..)⟩

theorem plain_signInject (sign : BitVec 32 → BitVec 32) : Plain 4 (signInject sign) :=
  plain_of_total (fun _ _ _ => (castFloat_straight ..).trans (.setFpr ..)) rfl rfl

theorem plain_FSGNJXS : Plain 4 execFSGNJXS := plain_setFpr _ _

theorem plain_minMaxS (pick : Bool) (before : HostFpu → Word → Word → Bool) : Plain 4 (minMaxS pick before) :=
  plain_of_total (fun _ _ _ => (raiseSnan_straight ..).trans (.setFpr ..)) rfl rfl

theorem plain_minMaxD (pick : Bool) (before : HostFpu → Word → Word → Bool) : Plain 4 (minMaxD pick before) :=
  plain_of_total (fun _ _ _ => (raiseSnan_straight ..).trans (.setFpr ..)) rfl rfl

theorem rounds_fcvtToInt (fmt : FloatFormat w) (range : IntRange) (finish : Word → Word)
    (read : Core → BitVec 5 → BitVec w) (toDouble : HostFpu → BitVec w → Word) :
    Rounds (fun bus c i => toDouble bus.fpu (read c i.rs1)) (fcvtToInt fmt range finish read toDouble) where
  refuses bus c i mode := by simp only [fcvtToInt, mode]
  runs bus c i p mode := by
    simp only [fcvtToInt, mode]
    exact ⟨_, rfl, (finalizeFcvt_straight ..).trans (.setGpr ..)⟩

theorem rounds_fcvtToIntS (range : IntRange) (finish : Word → Word) :
    Rounds (fun bus c i => bus.fpu.widen (f32In (c.fpr i.rs1))) (fcvtToIntS range finish) :=
  rounds_fcvtToInt single range finish (fun c r => f32In (c.fpr r)) fun fpu x => fpu.widen x
theorem rounds_fcvtToIntD (range : IntRange) (finish : Word → Word) :
    Rounds (fun _ c i => c.fpr i.rs1) (fcvtToIntD range finish) :=
  rounds_fcvtToInt double range finish Core.fpr fun _ x => x

theorem rounds_fcvtFromIntS (src : Word → Int) :
    Rounds (fun bus c i => bus.fpu.ofInt c.rounding (src (c.gpr i.rs1))) (fcvtFromIntS src) where
  refuses bus c i mode := by simp only [fcvtFromIntS, rmHandle, mode, Option.map_none]
  runs bus c i p mode := by
    simp only [fcvtFromIntS, rmHandle, mode, Option.map_some]
    exact ⟨_, rfl, (Straight.raise ..).trans (.setFpr ..)⟩

theorem rounds_fcvtFromIntD (sampled : Bool) (src : Word → Int) :
    Rounds (fun bus c i => bus.fpu.ofInt c.rounding (src (c.gpr i.rs1))) (fcvtFromIntD sampled src) where
  refuses bus c i mode := by simp only [fcvtFromIntD, mode]
  runs bus c i p mode := by
    have sampling : Straight p.2.2 (if sampled then p.2.2.raise p.2.1 else p.2.2) := by
      cases sampled
      · exact .refl _
      · exact .raise ..
    simp only [fcvtFromIntD, mode]
    exact ⟨_, rfl, sampling.trans (.setFpr ..)⟩

theorem rounds_doubleOp (op : HostFpu → Core → InstructionData → Word × Raised) :
    Rounds (fun _ _ _ => 0) (doubleOp op) where
  refuses bus c i mode := by simp only [doubleOp, mode]
  runs bus c i p mode := by
    simp only [doubleOp, mode]
    exact ⟨_, rfl, ((Straight.raise ..).trans (sanitizeNan_straight ..)).trans (.setFpr ..)⟩

theorem rounds_FCVTSD : Rounds (fun _ c i => c.fpr i.rs1) execFCVTSD where
  refuses bus c i mode := by simp only [execFCVTSD, mode]
  runs bus c i p mode := by
    simp only [execFCVTSD, mode]
    split
    · exact ⟨_, rfl, ((Straight.raise ..).trans (.raise ..)).trans (.setFpr ..)⟩
    · exact ⟨_, rfl, (Straight.raise ..).trans (.setFpr ..)⟩

theorem plain_FCVTDS : Plain 4 execFCVTDS := by
  intro bus c i e ok
  unfold execFCVTDS at ok
  dsimp only at ok
  split at ok <;> cases ok
  · refine .retired (.trans ?_ (.setFpr ..)) rfl rfl
    split
    · exact .raise ..
    · exact .refl c
  · exact .retired (.setFpr ..) rfl rfl

theorem plain_doubleBits (f : Word → Word → Word) : Plain 4 (doubleBits f) := plain_setFpr _ _
theorem plain_FMVXW : Plain 4 execFMVXW := plain_setGpr _ _ rfl rfl
theorem plain_FMVWX : Plain 4 execFMVWX := plain_setFpr _ _
theorem plain_FMVXD : Plain 4 execFMVXD := plain_setGpr _ _ rfl rfl
theorem plain_FMVDX : Plain 4 execFMVDX := plain_setFpr _ _
theorem plain_FCLASSS : Plain 4 execFCLASSS := plain_setGpr _ _ rfl rfl
theorem plain_FCLASSD : Plain 4 execFCLASSD := plain_setGpr _ _ rfl rfl

theorem plain_floatCompare (invalid : BitVec w → Bool) (read : Core → BitVec 5 → BitVec w)
    (holds : HostFpu → BitVec w → BitVec w → Bool) : Plain 4 (floatCompare invalid read holds) := by
  intro bus c i e ok
  unfold floatCompare at ok
  dsimp only at ok
  split at ok <;> cases ok
  · exact .retired ((Straight.raise ..).trans (.setGpr ..)) rfl rfl
  · exact .retired (.setGpr ..) rfl rfl

theorem plain_compareS (invalid : BitVec 32 → Bool) (holds : HostFpu → Word → Word → Bool) :
    Plain 4 (compareS invalid holds) := plain_floatCompare ..
theorem plain_compareD (invalid : Word → Bool) (holds : HostFpu → Word → Word → Bool) :
    Plain 4 (compareD invalid holds) := plain_floatCompare ..

/-! ## Compressed -/

theorem plain_CLUIADDI16SP : Plain 2 execCLUIADDI16SP := by
  intro bus c i e ok
  unfold execCLUIADDI16SP at ok
  split at ok <;> cases ok <;> exact .retired (.setGpr ..) rfl rfl

theorem plain_CSRLI : Plain 2 execCSRLI := by
  intro bus c i e ok
  unfold execCSRLI at ok
  split at ok <;> cases ok
  exact .retired (.setGpr ..) rfl rfl

theorem plain_CEBREAK : Plain 2 execCEBREAK := by
  rintro bus c i _ ⟨⟩
  exact .failed (.refl c) rfl

/-! ## Environment calls, fences and cache blocks -/

theorem plain_ECALL : Plain 4 execECALL := by
  intro bus c i e ok
  unfold execECALL at ok
  split at ok <;> cases ok
  case h_4 => exact .retired (.refl c) rfl rfl
  all_goals exact .failed (.refl c) rfl

theorem plain_EBREAK : Plain 4 execEBREAK := by
  rintro bus c i _ ⟨⟩
  exact .failed (.refl c) rfl

/-- `SFENCE.VMA` steps, and is the one handler outside the CSR instructions that flushes. -/
theorem execSFENCEVMA_ends (ok : execSFENCEVMA bus c i = .ok e) :
    UserFrame c e.core ∧ e.core.hart.pc = c.hart.pc ∧ (e.ret.isSuccess = true → e.ret.increasePc = 4) := by
  unfold execSFENCEVMA at ok
  split at ok
  · cases ok
    exact ⟨.refl c, rfl, Bool.noConfusion⟩
  · cases ok
    dsimp only
    split
    · exact ⟨⟨rfl, .of_eq rfl rfl, .refl _⟩, rfl, fun _ => rfl⟩
    · exact ⟨⟨rfl, .of_eq rfl rfl, .refl _⟩, rfl, fun _ => rfl⟩

/-- `WFI` fails, or does nothing, or puts a hart to sleep that has no interrupt pending. -/
theorem execWFI_cases (ok : execWFI bus c i = .ok e) : e.core = c ∧ (e.ret.isSuccess = true → e.ret.increasePc = 4) ∨
      c.hart.ip &&& c.hart.ie = 0 ∧ e = ⟨{}, c.mapHart ({ · with wfi := true })⟩ := by
  unfold execWFI at ok
  split_ifs at ok with off idle <;> cases ok
  · exact .inl ⟨rfl, Bool.noConfusion⟩
  · exact .inr ⟨idle, rfl⟩
  · exact .inl ⟨rfl, fun _ => rfl⟩

theorem execWFI_core (ok : execWFI bus c i = .ok e) : e.core = c.mapHart ({ · with wfi := e.core.hart.wfi }) := by
  rcases execWFI_cases ok with ⟨same, -⟩ | ⟨-, same⟩
  · rw [same]
    rfl
  · rw [same]
    rfl

theorem plain_FENCEI : Plain 4 execFENCEI :=
  plain_of_total (fun _ _ _ => .of_regs rfl rfl (.refl _)) rfl rfl

/-- `cbo.zero` fails after the translation, or writes to RAM. -/
theorem execCboZero_cases (ok : execCboZero bus c i = .ok e) : ∃ t, translate c .store (c.gpr i.rs1 &&& ~~~63) = .ok t ∧
    (e.core = t.core ∧ e.ret.isSuccess = false ∨
      ∃ k data, e = ⟨{}, { t.core with mmap := t.core.mmap.setData k data }⟩) := by
  obtain ⟨t, translated, stop⟩ := bind_guard_eq_ok.mp ok
  refine ⟨t, translated, ?_⟩
  rcases stop with ⟨-, rfl⟩ | ⟨-, ok⟩
  · exact .inl ⟨rfl, rfl⟩
  split at ok
  case isFalse =>
    cases ok
    exact .inl ⟨rfl, rfl⟩
  case isTrue =>
    split at ok
    case h_2 => cases ok
    case h_1 =>
      dsimp only at ok
      split at ok <;> cases ok
      exact .inr ⟨_, _, rfl⟩

theorem plain_CboZero : Plain 4 execCboZero := by
  intro bus c i e ok
  obtain ⟨t, translated, ⟨same, failure⟩ | ⟨k, data, rfl⟩⟩ := execCboZero_cases ok
  · exact .failed (same ▸ translate_unwritten translated) failure
  · exact .retired ((translate_unwritten translated).accessed.straight.trans (.setData ..)) rfl rfl

/-! ## Jumps -/

/-- A handler that sets `pc` itself; it fails before it changes anything. -/
def Jumping (f : Handler) : Prop :=
  ∀ ⦃bus c i e⦄, f bus c i = .ok e →
    (UserFrame c e.core ∧ e.ret.isSuccess = true) ∨ (e.core = c ∧ e.ret.isSuccess = false)

theorem linkTo_userFrame (c : Core) (rd : BitVec 5) (target link : Word) :
    UserFrame c (linkTo c rd target link).core := (UserFrame.setPc ..).trans (.setGpr ..)

/-! ## Where jumps go -/

theorem getLsbD_sext_zero (val : Inst) {bits : Nat} (positive : 0 < bits) (fits : bits ≤ 32) :
    (sext val bits).getLsbD 0 = val.getLsbD 0 := by
  have shift : 32 - bits < 32 := by omega
  rw [sext, BitVec.getLsbD_signExtend, if_pos (by omega), BitVec.getLsbD_sshiftRight, Nat.add_zero, if_pos shift,
    BitVec.getLsbD_shiftLeft, Nat.sub_self]
  simp [shift]

theorem halfword_dCJImm (w : Inst) : Halfword (dCJImm w) := by
  rw [halfword_iff_bit, dCJImm, getLsbD_sext_zero _ (by omega) (by omega)]
  simp

theorem halfword_dCBImm (w : Inst) : Halfword (dCBImm w) := by
  rw [halfword_iff_bit, dCBImm, getLsbD_sext_zero _ (by omega) (by omega)]
  simp

theorem halfword_sextW {x : Word} (even : Halfword x) : Halfword (sextW (low x)) := by
  rw [halfword_iff_bit] at even ⊢
  rw [sextW, low, BitVec.getLsbD_signExtend, if_pos (by omega), BitVec.getLsbD_setWidth, even]
  rfl

/-- A table entry whose handler jumps, and from an even `pc` goes on at an even one. -/
structure JumpEntry (ins : Instruction) : Prop where
  jumping : Jumping ins.func
  even : ∀ ⦃bus c w e⦄, ins.func bus c (.ofInst w ins.immDecode) = .ok e → e.ret.isSuccess = true →
    Halfword c.hart.pc → Halfword (e.core.hart.pc + e.ret.increasePc)

section JumpEntries

variable {pattern : String} {imm : Option (Inst → Word)} {jit : Option Jit.JitFunc}

theorem halfword_jumped {target : Word} (even : Halfword target) : Halfword (target + jumped.increasePc) :=
  even.add (by decide)

/-- The handler fails before it changes anything, or goes on at an even address. -/
theorem JumpEntry.of_ends {func : Handler} (ends : ∀ ⦃bus c i e⦄, func bus c i = .ok e →
      (e.core = c ∧ e.ret.isSuccess = false) ∨ (UserFrame c e.core ∧ e.ret.isSuccess = true ∧
        ∀ w, i = .ofInst w imm → Halfword c.hart.pc → Halfword (e.core.hart.pc + e.ret.increasePc))) :
    JumpEntry ⟨pattern, func, imm, jit⟩ where
  jumping bus c i e ok := by
    rcases ends ok with failed | ⟨frame, success, -⟩
    · exact .inr failed
    · exact .inl ⟨frame, success⟩
  even bus c w e ok success even := by
    rcases ends ok with ⟨-, failed⟩ | ⟨-, -, target⟩
    · exact absurd success (Bool.eq_false_iff.mp failed)
    · exact target w rfl even

theorem jumpEntry_branchIf (taken : Word → Word → Bool) : JumpEntry ⟨pattern, branchIf taken, imm, jit⟩ := by
  refine .of_ends fun bus c i e ok => ?_
  simp only [branchIf] at ok
  split_ifs at ok with yes odd <;> cases ok
  · exact .inl ⟨rfl, rfl⟩
  · exact .inr ⟨.setPc .., rfl, fun _ _ _ => halfword_jumped (halfword_of_mod odd)⟩
  · exact .inr ⟨.refl c, rfl, fun _ _ even => even.add (by decide : Halfword 4#64)⟩

theorem jumpEntry_JAL : JumpEntry ⟨pattern, execJAL, imm, jit⟩ := by
  refine .of_ends fun bus c i e ok => ?_
  simp only [execJAL] at ok
  split_ifs at ok with odd <;> cases ok
  · exact .inl ⟨rfl, rfl⟩
  · exact .inr ⟨linkTo_userFrame .., rfl, fun _ _ _ => halfword_jumped (halfword_of_mod odd)⟩

theorem jumpEntry_JALR : JumpEntry ⟨pattern, execJALR, imm, jit⟩ := by
  refine .of_ends fun bus c i e ok => ?_
  simp only [execJALR] at ok
  split_ifs at ok with odd <;> cases ok
  · exact .inl ⟨rfl, rfl⟩
  · exact .inr ⟨linkTo_userFrame .., rfl, fun _ _ _ => halfword_jumped (halfword_of_mod odd)⟩

/-- The compressed jumps rely on their decoder for an even offset. -/
theorem halfword_jumpC {offset : Inst → Word} (offsets : ∀ w, Halfword (offset w)) (w : Inst)
    (decoded : i = .ofInst w (some offset)) (even : Halfword c.hart.pc) :
    Halfword ((jumpC c i).core.hart.pc + (jumpC c i).ret.increasePc) :=
  halfword_jumped (even.add (halfword_sextW (decoded ▸ offsets w)))

theorem jumpEntry_CJ : JumpEntry ⟨pattern, execCJ, some dCJImm, jit⟩ := by
  apply JumpEntry.of_ends
  rintro bus c i _ ⟨⟩
  exact .inr ⟨.setPc .., rfl, halfword_jumpC halfword_dCJImm⟩

theorem jumpEntry_branchC (taken : Word → Bool) : JumpEntry ⟨pattern, branchC taken, some dCBImm, jit⟩ := by
  refine .of_ends fun bus c i e ok => ?_
  unfold branchC at ok
  split_ifs at ok <;> cases ok
  · exact .inr ⟨.setPc .., rfl, halfword_jumpC halfword_dCBImm⟩
  · exact .inr ⟨.refl c, rfl, fun _ _ even => even.add (by decide : Halfword 2#64)⟩

theorem jumpEntry_CJR : JumpEntry ⟨pattern, execCJR, imm, jit⟩ := by
  apply JumpEntry.of_ends
  rintro bus c i _ ⟨⟩
  exact .inr ⟨.setPc .., rfl, fun _ _ _ => halfword_jumped (halfword_and_not_one _)⟩

theorem jumpEntry_CJALR : JumpEntry ⟨pattern, execCJALR, imm, jit⟩ := by
  apply JumpEntry.of_ends
  rintro bus c i _ ⟨⟩
  exact .inr ⟨linkTo_userFrame .., rfl, fun _ _ _ => halfword_jumped (halfword_and_not_one _)⟩

end JumpEntries

/-! ## The table -/

/-- The words of the pattern have `v` under `m`. -/
def fixesB (m v : Nat) (f : Fields) : Bool := Nat.beq (Nat.land f.2.1 m) m && Nat.beq (Nat.land f.2.2 m) v

/-- Branches, `JAL` and `JALR`; `C.J`, `C.BEQZ` and `C.BNEZ`; `C.JR` and `C.JALR`. -/
def jumpB (f : Fields) : Bool :=
  [(0x7F, 0x63), (0x7F, 0x6F), (0x7F, 0x67), (0xE003, 0xA001), (0xE003, 0xC001), (0xE003, 0xE001),
    (0xE07F, 0x8002)].any fun p => fixesB p.1 p.2 f

/-- A table entry whose handler steps by `size` or jumps, and knows nothing of privilege. -/
def Known (size : Word) (ins : Instruction) : Prop :=
  Plain size ins.func ∨ JumpEntry ins ∧ jumpB ins.fields = true

theorem jumpB_of_spelling {chars : List Char} (pattern : ins.pattern = String.ofList chars)
    (checked : jumpB (fieldsOf chars) = true) : jumpB ins.fields = true :=
  fields_eq_fieldsOf pattern ▸ checked

theorem known_rv64i : ∀ ins ∈ initRv64i, Known 4 ins := by
  simp only [← List.forall_iff_forall_mem, initRv64i, List.Forall, Known]
  and_intros
  iterate 28 exact .inl (plain_setGpr _ _ rfl rfl)
  iterate 7 exact .inl (plain_load ..)
  iterate 4 exact .inl (plain_store _)
  iterate 6 exact .inr ⟨jumpEntry_branchIf _, jumpB_of_spelling rfl (by decide +kernel)⟩
  · exact .inr ⟨jumpEntry_JAL, jumpB_of_spelling rfl (by decide +kernel)⟩
  · exact .inr ⟨jumpEntry_JALR, jumpB_of_spelling rfl (by decide +kernel)⟩
  iterate 2 exact .inl (plain_setGpr _ _ rfl rfl)
  · exact .inl plain_ECALL
  · exact .inl plain_EBREAK
  · exact .inl (plain_of_total (fun _ c _ => .refl c) rfl rfl)

theorem known_rv64m : ∀ ins ∈ initRv64m, Known 4 ins := by
  simp only [← List.forall_iff_forall_mem, initRv64m, List.Forall, Known]
  and_intros <;> exact .inl (plain_setGpr _ _ rfl rfl)

theorem known_rv64a : ∀ ins ∈ initRv64a, Known 4 ins := by
  simp only [← List.forall_iff_forall_mem, initRv64a, List.Forall, Known]
  and_intros
  iterate 9 exact .inl (plain_amoTo ..)
  · exact .inl (plain_loadReserved ..)
  · exact .inl (plain_storeConditional ..)
  iterate 9 exact .inl (plain_amoTo ..)
  · exact .inl (plain_loadReserved ..)
  · exact .inl (plain_storeConditional ..)

theorem known_rv64f : ∀ ins ∈ initRv64f, Known 4 ins := by
  simp only [← List.forall_iff_forall_mem, initRv64f, List.Forall, Known]
  and_intros
  iterate 9 exact .inl (rounds_floatOp _).plain
  iterate 2 exact .inl (plain_signInject _)
  · exact .inl plain_FSGNJXS
  iterate 2 exact .inl (plain_minMaxS ..)
  iterate 2 exact .inl (rounds_fcvtToIntS ..).plain
  iterate 2 exact .inl (rounds_fcvtFromIntS _).plain
  iterate 2 exact .inl (rounds_fcvtToIntS ..).plain
  iterate 2 exact .inl (rounds_fcvtFromIntS _).plain
  · exact .inl plain_FMVXW
  · exact .inl plain_FMVWX
  iterate 3 exact .inl (plain_compareS ..)
  · exact .inl plain_FCLASSS
  · exact .inl fun _ _ _ _ => fpLoadTo_ends
  · exact .inl fun _ _ _ _ => fpStoreFrom_ends

theorem known_rv64d : ∀ ins ∈ initRv64d, Known 4 ins := by
  simp only [← List.forall_iff_forall_mem, initRv64d, List.Forall, Known]
  and_intros
  iterate 9 exact .inl (rounds_doubleOp _).plain
  iterate 3 exact .inl (plain_doubleBits _)
  iterate 2 exact .inl (plain_minMaxD ..)
  · exact .inl rounds_FCVTSD.plain
  · exact .inl plain_FCVTDS
  iterate 2 exact .inl (rounds_fcvtToIntD ..).plain
  iterate 2 exact .inl (rounds_fcvtFromIntD ..).plain
  iterate 2 exact .inl (rounds_fcvtToIntD ..).plain
  iterate 2 exact .inl (rounds_fcvtFromIntD ..).plain
  · exact .inl plain_FMVXD
  · exact .inl plain_FMVDX
  iterate 3 exact .inl (plain_compareD ..)
  · exact .inl plain_FCLASSD
  · exact .inl fun _ _ _ _ => fpLoadTo_ends
  · exact .inl fun _ _ _ _ => fpStoreFrom_ends

theorem known_rv64c : ∀ ins ∈ initRv64c, Known 2 ins := by
  simp only [← List.forall_iff_forall_mem, initRv64c, List.Forall, Known]
  and_intros
  · exact .inl (plain_setGpr _ _ rfl rfl)
  iterate 2 exact .inl fun _ _ _ _ => loadTo_ends
  iterate 2 exact .inl fun _ _ _ _ => storeFrom_ends
  · exact .inl (plain_of_total (fun _ c _ => .refl c) rfl rfl)
  iterate 3 exact .inl (plain_setGpr _ _ rfl rfl)
  · exact .inl plain_CLUIADDI16SP
  · exact .inl plain_CSRLI
  iterate 8 exact .inl (plain_setGpr _ _ rfl rfl)
  · exact .inr ⟨jumpEntry_CJ, jumpB_of_spelling rfl rfl⟩
  iterate 2 exact .inr ⟨jumpEntry_branchC _, jumpB_of_spelling rfl rfl⟩
  · exact .inl (plain_setGpr _ _ rfl rfl)
  iterate 2 exact .inl fun _ _ _ _ => loadTo_ends
  · exact .inr ⟨jumpEntry_CJR, jumpB_of_spelling rfl rfl⟩
  · exact .inl (plain_setGpr _ _ rfl rfl)
  · exact .inl plain_CEBREAK
  · exact .inr ⟨jumpEntry_CJALR, jumpB_of_spelling rfl rfl⟩
  · exact .inl (plain_setGpr _ _ rfl rfl)
  iterate 2 exact .inl fun _ _ _ _ => storeFrom_ends
  · exact .inl fun _ _ _ _ => fpLoadTo_ends
  · exact .inl fun _ _ _ _ => fpStoreFrom_ends
  · exact .inl fun _ _ _ _ => fpLoadTo_ends
  · exact .inl fun _ _ _ _ => fpStoreFrom_ends

theorem known_zifencei : ∀ ins ∈ initZifencei, Known 4 ins := by
  simp only [← List.forall_iff_forall_mem, initZifencei, List.Forall, Known]
  exact .inl plain_FENCEI

theorem known_zba : ∀ ins ∈ initZba, Known 4 ins := by
  simp only [← List.forall_iff_forall_mem, initZba, List.Forall, Known]
  and_intros <;> exact .inl (plain_setGpr _ _ rfl rfl)

theorem known_zbb : ∀ ins ∈ initZbb, Known 4 ins := by
  simp only [← List.forall_iff_forall_mem, initZbb, List.Forall, Known]
  and_intros <;> exact .inl (plain_setGpr _ _ rfl rfl)

theorem known_zbc : ∀ ins ∈ initZbc, Known 4 ins := by
  simp only [← List.forall_iff_forall_mem, initZbc, List.Forall, Known]
  and_intros <;> exact .inl (plain_setGpr _ _ rfl rfl)

theorem known_zbs : ∀ ins ∈ initZbs, Known 4 ins := by
  simp only [← List.forall_iff_forall_mem, initZbs, List.Forall, Known]
  and_intros <;> exact .inl (plain_setGpr _ _ rfl rfl)

theorem known_zicboz : ∀ ins ∈ initZicboz, Known 4 ins := by
  simp only [← List.forall_iff_forall_mem, initZicboz, List.Forall, Known]
  exact .inl plain_CboZero

/-- The tables of 32-bit encodings, but those that know of privilege. -/
def longTables : List Instruction :=
  initRv64i ++ initRv64m ++ initRv64a ++ initRv64f ++ initRv64d ++ initZifencei ++ initZba ++ initZbb ++ initZbc ++
    initZbs ++ initZicboz

theorem known_long : ∀ ins ∈ longTables, Known 4 ins := by
  simp only [longTables, List.forall_mem_append]
  exact ⟨⟨⟨⟨⟨⟨⟨⟨⟨⟨known_rv64i, known_rv64m⟩, known_rv64a⟩, known_rv64f⟩, known_rv64d⟩, known_zifencei⟩, known_zba⟩,
    known_zbb⟩, known_zbc⟩, known_zbs⟩, known_zicboz⟩

/-- Only the `priv` and `zicsr` tables have handlers that know of privilege. -/
theorem table_cases (ins : Instruction) (registered : ins ∈ instructions) :
    ins ∈ longTables ∨ ins ∈ initRv64c ∨ ins ∈ initPriv ∨ ins ∈ initZicsr := by
  simp only [instructions, List.mem_append] at registered
  simp only [longTables, List.mem_append]
  tauto

theorem known_or (ins : Instruction) (registered : ins ∈ instructions) :
    (Known 4 ins ∨ Known 2 ins) ∨ ins ∈ initPriv ∨ ins ∈ initZicsr := by
  rcases table_cases ins registered with long | short | privileged
  · exact .inl (.inl (known_long ins long))
  · exact .inl (.inr (known_rv64c ins short))
  · exact .inr privileged

/-- The handler knows nothing of privilege. -/
def Unprivileged (ins : Instruction) : Prop :=
  Plain 4 ins.func ∨ Plain 2 ins.func ∨ Jumping ins.func

theorem Unprivileged.userFrame (known : Unprivileged ins) (ok : ins.func bus c i = .ok e) : UserFrame c e.core := by
  rcases known with plain | plain | jumping
  · exact (plain ok).userFrame
  · exact (plain ok).userFrame
  · rcases jumping ok with ⟨frame, -⟩ | ⟨same, -⟩
    · exact frame
    · exact same ▸ .refl c

theorem unprivileged_or (ins : Instruction) (registered : ins ∈ instructions) :
    Unprivileged ins ∨ ins ∈ initPriv ∨ ins ∈ initZicsr := by
  rcases known_or ins registered with ((plain | ⟨jump, -⟩) | plain | ⟨jump, -⟩) | privileged
  · exact .inl (.inl plain)
  · exact .inl (.inr (.inr jump.jumping))
  · exact .inl (.inr (.inl plain))
  · exact .inl (.inr (.inr jump.jumping))
  · exact .inr privileged

end Rv64Vm
