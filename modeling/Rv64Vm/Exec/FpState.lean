import Rv64Vm.Exec.Faults
import Rv64Vm.Exec.LegalStatus

/-! # The state of the floating-point unit

`mstatus.FS` should gate every floating-point instruction and turn dirty when one of them writes.
No handler of F, D or the compressed loads and stores looks at it or sets it. The three CSRs trap
while it is off, in `csr_read` and again in `csr_write`, after which the handler goes on.
-/

namespace Rv64Vm

open Lib

/-! ## The law -/

/-- Exactly one illegal-instruction trap, taken by the handler's caller or on the way, and nothing written. -/
structure Gated (c : Core) (e : Executed) : Prop where
  once : e.core.hart.traps + (if e.ret.isSuccess then 0 else 1) = c.hart.traps + 1
  cause : e.ret.isSuccess = false → e.ret.cause = excIllegalInstruction
  fpr : e.core.hart.fpr = c.hart.fpr
  gpr : ∀ r, r ≠ 0 → e.core.gpr r = c.gpr r
  fcsr : e.core.hart.fcsr = c.hart.fcsr
  memory : e.core.mmap = c.mmap

/-- The instruction succeeds and writes a floating-point register or a field of `fcsr`. -/
def FpWrites (dest : Bool) (c : Core) (e : Executed) : Prop :=
  e.ret.isSuccess = true ∧ (dest = true ∨ e.core.hart.fcsr ≠ c.hart.fcsr)

/-- What an instruction that writes floating-point state as `dest` says should do. -/
def FpLaw (dest : Bool) (c : Core) (x : Except HostError Executed) : Prop :=
  if Status.fs c.hart.status = 0 then ∃ e, x = .ok e ∧ Gated c e
  else ∀ e, x = .ok e → (FpWrites dest c e → Status.fs e.core.hart.status = 3 ∧ Status.sd e.core.hart.status = true) ∧
    (e.ret.isSuccess = true → ¬ FpWrites dest c e → Status.fs e.core.hart.status = Status.fs c.hart.status)

/-- The state is dirty before an instruction that makes it dirty. -/
def AlreadyDirty (dest : Bool) (c : Core) (x : Except HostError Executed) : Prop :=
  ∀ e, x = .ok e → FpWrites dest c e → Status.fs c.hart.status = 3 ∧ Status.sd c.hart.status = true

/-! ## The instructions -/

/-- A handler, whether it takes a rounding mode, and whether it writes a floating-point register. -/
structure FpRow where
  func : Handler
  rounds : Bool
  dest : Bool

def fpRows : List FpRow := [
  ⟨execFMADDS, true, true⟩, ⟨execFMSUBS, true, true⟩, ⟨execFNMADDS, true, true⟩, ⟨execFNMSUBS, true, true⟩,
  ⟨execFADDS, true, true⟩, ⟨execFSUBS, true, true⟩, ⟨execFMULS, true, true⟩, ⟨execFDIVS, true, true⟩,
  ⟨execFSQRTS, true, true⟩, ⟨execFSGNJS, false, true⟩, ⟨execFSGNJNS, false, true⟩, ⟨execFSGNJXS, false, true⟩,
  ⟨execFMINS, false, true⟩, ⟨execFMAXS, false, true⟩, ⟨execFCVTWS, true, false⟩, ⟨execFCVTWUS, true, false⟩,
  ⟨execFCVTSW, true, true⟩, ⟨execFCVTSWU, true, true⟩, ⟨execFCVTLS, true, false⟩, ⟨execFCVTLUS, true, false⟩,
  ⟨execFCVTSL, true, true⟩, ⟨execFCVTSLU, true, true⟩, ⟨execFMVXW, false, false⟩, ⟨execFMVWX, false, true⟩,
  ⟨execFEQS, false, false⟩, ⟨execFLTS, false, false⟩, ⟨execFLES, false, false⟩, ⟨execFCLASSS, false, false⟩,
  ⟨execFLW, false, true⟩, ⟨execFSW, false, false⟩,
  ⟨execFMADDD, true, true⟩, ⟨execFMSUBD, true, true⟩, ⟨execFNMADDD, true, true⟩, ⟨execFNMSUBD, true, true⟩,
  ⟨execFADDD, true, true⟩, ⟨execFSUBD, true, true⟩, ⟨execFMULD, true, true⟩, ⟨execFDIVD, true, true⟩,
  ⟨execFSQRTD, true, true⟩, ⟨execFSGNJD, false, true⟩, ⟨execFSGNJND, false, true⟩, ⟨execFSGNJXD, false, true⟩,
  ⟨execFMIND, false, true⟩, ⟨execFMAXD, false, true⟩, ⟨execFCVTSD, true, true⟩, ⟨execFCVTDS, false, true⟩,
  ⟨execFCVTWD, true, false⟩, ⟨execFCVTWUD, true, false⟩, ⟨execFCVTDW, true, true⟩, ⟨execFCVTDWU, true, true⟩,
  ⟨execFCVTLD, true, false⟩, ⟨execFCVTLUD, true, false⟩, ⟨execFCVTDL, true, true⟩, ⟨execFCVTDLU, true, true⟩,
  ⟨execFMVXD, false, false⟩, ⟨execFMVDX, false, true⟩, ⟨execFEQD, false, false⟩, ⟨execFLTD, false, false⟩,
  ⟨execFLED, false, false⟩, ⟨execFCLASSD, false, false⟩, ⟨execFLD, false, true⟩, ⟨execFSD, false, false⟩,
  ⟨execCFLD, false, true⟩, ⟨execCFSD, false, false⟩, ⟨execCFLDSP, false, true⟩, ⟨execCFSDSP, false, false⟩]

/-- The handlers of the two tables, and the compressed ones. -/
def fpHandlers : List Handler :=
  (initRv64f ++ initRv64d).map (·.func) ++ [execCFLD, execCFSD, execCFLDSP, execCFSDSP]

theorem fpRows_complete : fpRows.map (·.func) = fpHandlers := rfl

/-- The rounding mode is one of the two reserved ones. -/
def ReservedMode (c : Core) (i : InstructionData) : Prop :=
  (if i.rm = 7 then c.frm else i.rm) = 5 ∨ (if i.rm = 7 then c.frm else i.rm) = 6

theorem rmFunc_eq_none_iff {fpu : HostFpu} {c : Core} {i : InstructionData} {val : Word} :
    rmFunc fpu c i.rm val = none ↔ ReservedMode c i := by
  unfold rmFunc ReservedMode
  dsimp only
  split_ifs <;> simp_all

/-- How a row's handler ends: it refuses the reserved modes if it takes one, and raises no illegal-instruction
    exception otherwise. -/
structure FpRow.Ends (row : FpRow) : Prop where
  plain : ∃ size, Plain size row.func
  refuses : ∀ bus c i, row.rounds = true → ReservedMode c i → row.func bus c i = .ok (reservedRounding c i)
  runs : ∀ bus c i e, ¬ (row.rounds = true ∧ ReservedMode c i) → row.func bus c i = .ok e →
    e.ret.isSuccess = true ∨ e.ret.cause ≠ excIllegalInstruction

namespace FpRow.Ends

variable {func : Handler} {dest : Bool}

theorem total (plain : Plain 4 func)
    (success : ∀ bus c i e, func bus c i = .ok e → e.ret.isSuccess = true) : Ends ⟨func, false, dest⟩ :=
  ⟨⟨4, plain⟩, fun _ _ _ rounds => absurd rounds Bool.false_ne_true, fun bus c i e _ ok => .inl (success bus c i e ok)⟩

theorem rounding {val : Bus → Core → InstructionData → Word} (rounds : Rounds val func) :
    Ends ⟨func, true, dest⟩ where
  plain := ⟨4, rounds.plain⟩
  refuses bus c i _ reserved := rounds.refuses bus c i (rmFunc_eq_none_iff.mpr reserved)
  runs bus c i e valid ok := by
    cases mode : rmFunc bus.fpu c i.rm (val bus c i) with
    | none => exact absurd ⟨rfl, rmFunc_eq_none_iff.mp mode⟩ valid
    | some p =>
      obtain ⟨c', done, -⟩ := rounds.runs bus c i p mode
      exact .inl (Except.ok.inj (done.symm.trans ok) ▸ rfl)

theorem load {n : Nat} {box : Word → Word} {size : Word}
    {rd rs1 : InstructionData → BitVec 5}
    (is : func = fun bus c i => fpLoadTo n box size (rd i) (rs1 i) i.imm bus c) : Ends ⟨func, false, dest⟩ := by
  subst is
  refine ⟨⟨size, fun _ _ _ _ => fpLoadTo_ends⟩, fun _ _ _ rounds => absurd rounds Bool.false_ne_true,
    fun bus c i e _ ok => ?_⟩
  unfold fpLoadTo at ok
  obtain ⟨a, read, ok⟩ := bind_eq_ok.mp ok
  cases success : a.ret.isSuccess with
  | true =>
    simp only [success, if_true, pure_eq_ok] at ok
    exact .inl (ok ▸ rfl)
  | false =>
    simp only [success, Bool.false_eq_true, if_false, pure_eq_ok] at ok
    subst ok
    right
    rcases (mmioRead_fault read success).cause with page | access
    · exact fun illegal => absurd (page.symm.trans illegal) (by decide)
    · exact fun illegal => absurd (access.symm.trans illegal) (by decide)

theorem store {n : Nat} {size : Word} {rs1 rs2 : InstructionData → BitVec 5}
    (is : func = fun bus c i => fpStoreFrom n size (rs1 i) (rs2 i) i.imm bus c) : Ends ⟨func, false, dest⟩ := by
  subst is
  refine ⟨⟨size, fun _ _ _ _ => fpStoreFrom_ends⟩, fun _ _ _ rounds => absurd rounds Bool.false_ne_true,
    fun bus c i e _ ok => ?_⟩
  unfold fpStoreFrom at ok
  obtain ⟨a, wrote, ok⟩ := bind_eq_ok.mp ok
  obtain rfl := pure_eq_ok.mp ok
  cases success : a.ret.isSuccess with
  | true => exact .inl rfl
  | false =>
    right
    rcases (mmioWrite_fault wrote success).cause with page | access
    · exact fun illegal => absurd (page.symm.trans illegal) (by decide)
    · exact fun illegal => absurd (access.symm.trans illegal) (by decide)

theorem widening : Ends ⟨execFCVTDS, false, true⟩ := by
  refine total plain_FCVTDS fun bus c i e ok => ?_
  unfold execFCVTDS at ok
  dsimp only at ok
  split at ok <;> cases ok <;> rfl

theorem compare {w : Nat} (invalid : BitVec w → Bool) (read : Core → BitVec 5 → BitVec w)
    (holds : HostFpu → BitVec w → BitVec w → Bool) : Ends ⟨floatCompare invalid read holds, false, false⟩ := by
  refine total (plain_floatCompare ..) fun bus c i e ok => ?_
  unfold floatCompare at ok
  dsimp only at ok
  split at ok <;> cases ok <;> rfl

theorem compareS (invalid : BitVec 32 → Bool) (holds : HostFpu → Word → Word → Bool) :
    Ends ⟨compareS invalid holds, false, false⟩ := compare ..
theorem compareD (invalid : Word → Bool) (holds : HostFpu → Word → Word → Bool) :
    Ends ⟨compareD invalid holds, false, false⟩ := compare ..

theorem simple (plain : Plain 4 func)
    (result : ∃ g : Bus → Core → InstructionData → Core, func = fun bus c i => .ok ⟨{}, g bus c i⟩) :
    Ends ⟨func, false, dest⟩ := by
  obtain ⟨g, rfl⟩ := result
  exact total plain fun _ _ _ _ ok => Except.ok.inj ok ▸ rfl

end FpRow.Ends

theorem fpRows_end : ∀ row ∈ fpRows, row.Ends := by
  simp only [← List.forall_iff_forall_mem, fpRows, List.Forall]
  have opS (res : HostFpu → Core → InstructionData → Word) := @FpRow.Ends.rounding _ true _ (rounds_floatOp res)
  have opD (op : HostFpu → Core → InstructionData → Word × Raised) := @FpRow.Ends.rounding _ true _ (rounds_doubleOp op)
  have toS (range : IntRange) (finish : Word → Word) := @FpRow.Ends.rounding _ false _ (rounds_fcvtToIntS range finish)
  have toD (range : IntRange) (finish : Word → Word) := @FpRow.Ends.rounding _ false _ (rounds_fcvtToIntD range finish)
  have fromS (src : Word → Int) := @FpRow.Ends.rounding _ true _ (rounds_fcvtFromIntS src)
  have fromD (sampled : Bool) (src : Word → Int) := @FpRow.Ends.rounding _ true _ (rounds_fcvtFromIntD sampled src)
  exact ⟨opS _, opS _, opS _, opS _, opS _, opS _, opS _, opS _, opS _,
    .simple (plain_signInject _) ⟨_, rfl⟩, .simple (plain_signInject _) ⟨_, rfl⟩, .simple plain_FSGNJXS ⟨_, rfl⟩,
    .simple (plain_minMaxS ..) ⟨_, rfl⟩, .simple (plain_minMaxS ..) ⟨_, rfl⟩, toS .., toS .., fromS _,
    fromS _, toS .., toS .., fromS _, fromS _, .simple plain_FMVXW ⟨_, rfl⟩,
    .simple plain_FMVWX ⟨_, rfl⟩, .compareS .., .compareS .., .compareS .., .simple plain_FCLASSS ⟨_, rfl⟩, .load rfl,
    .store rfl,
    opD _, opD _, opD _, opD _, opD _, opD _, opD _, opD _, opD _,
    .simple (plain_doubleBits _) ⟨_, rfl⟩, .simple (plain_doubleBits _) ⟨_, rfl⟩, .simple (plain_doubleBits _) ⟨_, rfl⟩,
    .simple (plain_minMaxD ..) ⟨_, rfl⟩, .simple (plain_minMaxD ..) ⟨_, rfl⟩, .rounding rounds_FCVTSD, .widening,
    toD .., toD ..,
    fromD .., fromD .., toD .., toD .., fromD .., fromD .., .simple plain_FMVXD ⟨_, rfl⟩,
    .simple plain_FMVDX ⟨_, rfl⟩, .compareD .., .compareD .., .compareD .., .simple plain_FCLASSD ⟨_, rfl⟩, .load rfl,
    .store rfl,
    .load rfl, .store rfl, .load rfl, .store rfl⟩

/-! ## Instructions and the state -/

theorem FpRow.Ends.status {row : FpRow} (ends : row.Ends) {bus : Bus} {c : Core} {i : InstructionData} {e : Executed}
    (ok : row.func bus c i = .ok e) : e.core.hart.status = c.hart.status ∧ e.core.hart.traps = c.hart.traps := by
  obtain ⟨size, plain⟩ := ends.plain
  have frame := (plain ok).userFrame.hart
  exact ⟨by rw [frame], by rw [frame]⟩

/-- An instruction keeps the law exactly if it refuses to run while the unit is off, which only the reserved rounding
    modes make it do, or the state is dirty before it makes it dirty. -/
theorem FpRow.Ends.law_iff {row : FpRow} (ends : row.Ends) (bus : Bus) (c : Core) (i : InstructionData) :
    FpLaw row.dest c (row.func bus c i) ↔ if Status.fs c.hart.status = 0 then row.rounds = true ∧ ReservedMode c i
      else AlreadyDirty row.dest c (row.func bus c i) := by
  unfold FpLaw
  by_cases off : Status.fs c.hart.status = 0
  · rw [if_pos off, if_pos off]
    constructor
    · rintro ⟨e, ok, gated⟩
      by_contra valid
      have once := gated.once
      rw [(ends.status ok).2] at once
      cases success : e.ret.isSuccess with
      | true =>
        rw [success, if_pos rfl] at once
        omega
      | false =>
        rcases ends.runs bus c i e valid ok with ran | other
        · exact absurd (success.symm.trans ran) nofun
        · exact other (gated.cause success)
    · rintro ⟨rounds, reserved⟩
      exact ⟨_, ends.refuses bus c i rounds reserved, rfl, fun _ => rfl, rfl, fun _ _ => rfl, rfl, rfl⟩
  · rw [if_neg off, if_neg off]
    refine forall_congr' fun e => imp_congr_right fun ok => ?_
    rw [(ends.status ok).1]
    exact and_iff_left fun _ _ => rfl

/-! ## The registers of the unit -/

/-- A CSR instruction and its form. -/
structure CsrRow where
  func : Handler
  form : CsrForm

def csrRows : List CsrRow := [
  ⟨execCSRRW, .rw⟩, ⟨execCSRRS, .rs⟩, ⟨execCSRRC, .rc⟩, ⟨execCSRRWI, .rwi⟩, ⟨execCSRRSI, .rsi⟩, ⟨execCSRRCI, .rci⟩]

theorem csrRows_complete : csrRows.map (·.func) = initZicsr.map (·.func) := rfl

theorem csrRows_run : ∀ row ∈ csrRows, row.form.Runs row.func := by
  simp only [← List.forall_iff_forall_mem, csrRows, List.Forall]
  exact ⟨csrRW_runs, csrModify_runs _ _, csrModify_runs _ _, csrRWI_runs, csrModify_runs _ _, csrModify_runs _ _⟩

/-- While the unit is off an allowed access traps once only where it reads or writes alone, and its destination must
    be 0 already. -/
theorem CsrForm.gated_iff (form : CsrForm) (c : Core) (i : InstructionData) :
    Gated c ⟨{}, form.trapped c i⟩ ↔ form.traps i = 1 ∧ (form.links i = true → i.rd = 0 ∨ c.gpr i.rd = 0) := by
  have frame := fpCsrTraps_frame i.csr (form.traps i) c.hart
  have registers (r : BitVec 5) : (form.trapped c i).gpr r = if form.links i = true ∧ r = i.rd then 0 else c.gpr r := by
    unfold CsrForm.trapped
    cases form.links i with
    | false =>
      simp only [Bool.false_eq_true, false_and, if_false]
      exact congrFun frame.gpr r
    | true =>
      simp only [true_and, if_true]
      exact (Function.update_apply ..).trans (ite_congr rfl (fun _ => rfl) fun _ => congrFun frame.gpr r)
  obtain ⟨g, after⟩ := form.trapped_eq c i
  have count : (form.trapped c i).hart.traps = c.hart.traps + form.traps i := after ▸ frame.traps
  constructor
  · intro gated
    have once := gated.once
    rw [count, if_pos rfl] at once
    refine ⟨by omega, fun links => ?_⟩
    by_cases zero : i.rd = 0
    · exact .inl zero
    · have same := gated.gpr i.rd zero
      rw [registers, if_pos ⟨links, rfl⟩] at same
      exact .inr same.symm
  · rintro ⟨one, cleared⟩
    refine ⟨?_, nofun, ?_, fun r nonzero => ?_, ?_, ?_⟩
    · rw [count, one, if_pos rfl]
    · exact after ▸ frame.fpr
    · rw [registers]
      refine ite_eq_right_iff.mpr fun here => ?_
      rcases cleared here.1 with zero | zero
      · exact absurd (here.2.trans zero) nonzero
      · rw [here.2, zero]
    · exact after ▸ frame.fcsr
    · rw [after]
      rfl

theorem fpCsr_status {h : Hart} {csr : BitVec 12} (fp : fpCsr csr = true) (val : Word) :
    (Status.fs (statusAfter h csr val) = 3 ↔ Status.fs h.status = 3 ∨ csr = Csr.fcsr) ∧
      Status.sd (statusAfter h csr val) = Status.sd h.status := by
  have set : Status.fs (putBits2 h.status 13 3) = 3 ∧ Status.sd (putBits2 h.status 13 3) = Status.sd h.status := by
    refine ⟨field_putBits2 _ _ (by omega), ?_⟩
    rw [Status.sd, getLsbD_putBits2 _ _ _ (by decide), if_neg (by decide), if_neg (by decide), Status.sd]
  simp only [fpCsr, Bool.or_eq_true, beq_iff_eq] at fp
  rcases fp with (rfl | rfl) | rfl
  · exact ⟨iff_of_true set.1 (.inr rfl), set.2⟩
  · exact ⟨(or_iff_left (by decide)).symm, rfl⟩
  · exact ⟨(or_iff_left (by decide)).symm, rfl⟩

/-- A CSR access keeps the law exactly if, the unit being off, it is refused or traps once without clearing a
    register, or otherwise `SD` is set and `FS` dirty, or set by the write of `fcsr`, before it writes. -/
theorem CsrForm.Runs.law_iff {form : CsrForm} {f : Handler} (runs : form.Runs f) (bus : Bus) (c : Core)
    (i : InstructionData) (fp : fpCsr i.csr = true) :
    FpLaw (form.writes i) c (f bus c i) ↔ if Status.fs c.hart.status = 0
      then csrAllowed c.hart i.csr (form.checked i) = false ∨
        (form.traps i = 1 ∧ (form.links i = true → i.rd = 0 ∨ c.gpr i.rd = 0))
      else csrAllowed c.hart i.csr (form.checked i) = true → form.writes i = true →
        (Status.fs c.hart.status = 3 ∨ i.csr = Csr.fcsr) ∧ Status.sd c.hart.status = true := by
  obtain ⟨e, ok, does⟩ := runs bus c i
  rw [FpLaw, ok]
  by_cases off : Status.fs c.hart.status = 0
  · rw [if_pos off, if_pos off]
    simp only [Except.ok.injEq, exists_eq_left']
    cases does with
    | refused denied same =>
      subst same
      exact iff_of_true ⟨rfl, fun _ => rfl, rfl, fun _ _ => rfl, rfl, rfl⟩ (.inl denied)
    | trapped allowed _ same =>
      subst same
      rw [form.gated_iff, allowed]
      simp only [Bool.true_eq_false, false_or]
    | read _ on | written _ on => exact absurd ⟨fp, off⟩ on
  · rw [if_neg off, if_neg off]
    simp only [Except.ok.injEq, forall_eq']
    have on : ¬ FpCsrOff c.hart i.csr := fun both => off both.2
    cases does with
    | refused denied same =>
      subst same
      refine iff_of_true ⟨fun writes => absurd writes.1 nofun, nofun⟩ fun allowed => ?_
      exact absurd (denied.symm.trans allowed) nofun
    | trapped _ both => exact absurd both on
    | read _ _ idle same =>
      subst same
      refine iff_of_true ⟨fun writes => ?_, fun _ _ => rfl⟩ fun _ writes => ?_
      · rcases writes.2 with dest | changed
        · exact absurd (idle.symm.trans dest) nofun
        · exact absurd rfl changed
      · exact absurd (idle.symm.trans writes) nofun
    | written allowed _ writes g _ same =>
      subst same
      have status := (csrWrite_frame on (form.value c i (csrRead c.hart i.csr).1)).status
      have after := fpCsr_status (h := c.hart) fp (form.value c i (csrRead c.hart i.csr).1)
      rw [← status] at after
      constructor
      · rintro ⟨dirty, -⟩ _ _
        have both := dirty ⟨rfl, .inl writes⟩
        exact ⟨after.1.mp both.1, after.2.symm.trans both.2⟩
      · intro before
        have both := before allowed writes
        exact ⟨fun _ => ⟨after.1.mpr both.1, after.2.trans both.2⟩, fun _ clean => absurd ⟨rfl, .inl writes⟩ clean⟩

/-! ## All of them -/

/-- An access to floating-point state: an instruction of F or D, or a CSR instruction on one of the three registers. -/
inductive FpAccess (i : InstructionData) where
  | op (row : FpRow) (mem : row ∈ fpRows)
  | csr (row : CsrRow) (mem : row ∈ csrRows) (fp : fpCsr i.csr = true)

namespace FpAccess

variable {i : InstructionData}

def func : FpAccess i → Handler
  | op row _ => row.func
  | csr row _ _ => row.func

def dest : FpAccess i → Bool
  | op row _ => row.dest
  | csr row _ _ => row.form.writes i

/-- What the state before has to be like. -/
def Kept (bus : Bus) (c : Core) : FpAccess i → Prop
  | op row _ => if Status.fs c.hart.status = 0 then row.rounds = true ∧ ReservedMode c i
      else AlreadyDirty row.dest c (row.func bus c i)
  | csr row _ _ => if Status.fs c.hart.status = 0
      then csrAllowed c.hart i.csr (row.form.checked i) = false ∨
        (row.form.traps i = 1 ∧ (row.form.links i = true → i.rd = 0 ∨ c.gpr i.rd = 0))
      else csrAllowed c.hart i.csr (row.form.checked i) = true → row.form.writes i = true →
        (Status.fs c.hart.status = 3 ∨ i.csr = Csr.fcsr) ∧ Status.sd c.hart.status = true

theorem law_iff (bus : Bus) (c : Core) (access : FpAccess i) :
    FpLaw access.dest c (access.func bus c i) ↔ access.Kept bus c := by
  cases access with
  | op row mem => exact (fpRows_end row mem).law_iff bus c i
  | csr row mem fp => exact (csrRows_run row mem).law_iff bus c i fp

/-- The accesses are what is registered for floating point, and the registered CSR instructions. -/
theorem registered_iff (f : Handler) : (∃ access : FpAccess i, access.func = f) ↔
    f ∈ fpHandlers ∨ fpCsr i.csr = true ∧ f ∈ initZicsr.map (·.func) := by
  rw [← fpRows_complete, ← csrRows_complete]
  constructor
  · rintro ⟨access, rfl⟩
    cases access with
    | op row mem => exact .inl (List.mem_map_of_mem mem)
    | csr row mem fp => exact .inr ⟨fp, List.mem_map_of_mem mem⟩
  · rintro (listed | ⟨fp, listed⟩)
    · obtain ⟨row, mem, rfl⟩ := List.mem_map.mp listed
      exact ⟨op row mem, rfl⟩
    · obtain ⟨row, mem, rfl⟩ := List.mem_map.mp listed
      exact ⟨csr row mem fp, rfl⟩

/-- `fmv.w.x`, which runs in every state and writes a register. -/
def fmvwx : FpAccess i :=
  op ⟨execFMVWX, false, true⟩ (by simp only [fpRows, List.mem_cons, true_or, or_true])

theorem kept_fmvwx_iff (bus : Bus) (c : Core) : (fmvwx (i := i)).Kept bus c ↔
    Status.fs c.hart.status = 3 ∧ Status.sd c.hart.status = true := by
  dsimp only [Kept, fmvwx]
  split
  case isTrue off =>
    rw [off]
    exact ⟨fun both => absurd both.1 nofun, fun both => absurd both.1 (by decide)⟩
  case isFalse => exact ⟨fun dirty => dirty _ rfl ⟨rfl, .inl rfl⟩, fun dirty _ _ _ => dirty⟩

theorem kept_of_dirty {bus : Bus} {c : Core} (dirty : Status.fs c.hart.status = 3 ∧ Status.sd c.hart.status = true)
    (access : FpAccess i) : access.Kept bus c := by
  have on : Status.fs c.hart.status ≠ 0 := dirty.1 ▸ by decide
  cases access with
  | op row mem =>
    dsimp only [Kept]
    rw [if_neg on]
    exact fun _ _ _ => dirty
  | csr row mem fp =>
    dsimp only [Kept]
    rw [if_neg on]
    exact fun _ _ => ⟨.inl dirty.1, dirty.2⟩

end FpAccess

/-- The law holds of all accesses exactly in the states that are dirty already; `Kept` says which accesses keep it in
    the others. The accesses are all that the tables have. -/
theorem fp_state_iff (bus : Bus) (c : Core) :
    ((∀ i (access : FpAccess i), FpLaw access.dest c (access.func bus c i)) ↔
      Status.fs c.hart.status = 3 ∧ Status.sd c.hart.status = true) ∧
    (∀ i (access : FpAccess i), FpLaw access.dest c (access.func bus c i) ↔ access.Kept bus c) ∧
    ∀ (i : InstructionData) (f : Handler), (∃ access : FpAccess i, access.func = f) ↔
      f ∈ fpHandlers ∨ fpCsr i.csr = true ∧ f ∈ initZicsr.map (·.func) := by
  refine ⟨⟨fun all => ?_, fun dirty i access => ?_⟩, fun i access => access.law_iff bus c,
    fun i f => FpAccess.registered_iff f⟩
  · have moved := all ⟨0, 0, 0, 0, 0, 0, 0, 4⟩ FpAccess.fmvwx
    exact (FpAccess.kept_fmvwx_iff bus c).mp ((FpAccess.law_iff bus c _).mp moved)
  · exact (access.law_iff bus c).mpr (FpAccess.kept_of_dirty dirty access)

/-- `fmv.w.x f0, x0` runs with the unit off. -/
theorem moves_while_off : Status.fs onePageCore.hart.status = 0 ∧
    ¬ FpLaw true onePageCore (execFMVWX Bus.empty onePageCore ⟨0, 0, 0, 0, 0, 0, 0, 4⟩) := by
  have off : Status.fs onePageCore.hart.status = 0 := by decide
  refine ⟨off, fun law => ?_⟩
  have kept := ((FpAccess.fmvwx (i := ⟨0, 0, 0, 0, 0, 0, 0, 4⟩)).law_iff Bus.empty onePageCore).mp law
  have dirty := (FpAccess.kept_fmvwx_iff Bus.empty onePageCore).mp kept
  exact absurd (off.symm.trans dirty.1) (by decide)

end Rv64Vm
