import Rv64Vm.Exec.Fetch
import Rv64Vm.Exec.Handlers

/-! # CSR accesses

What a CSR write changes, by the address it is made to, and when an access traps
inside `csr_read` or `csr_write`.
-/

namespace Rv64Vm

open Lib

/-! ## Writes -/

/-- `mstatus` after a write that does not trap. -/
def statusAfter (h : Hart) (csr : BitVec 12) (val : Word) : Word :=
  if csr = Csr.mstatus then (h.status &&& mstatusRoMask) ||| (val &&& ~~~mstatusRoMask)
  else if csr = Csr.sstatus then (h.status &&& ~~~sstatusMask) ||| (val &&& sstatusMask)
  else if csr = Csr.fcsr then putBits2 h.status 13 3
  else h.status

/-- `mip` after a write. -/
def ipAfter (h : Hart) (csr : BitVec 12) (val : Word) : BitVec 16 :=
  if csr = Csr.mip then val.setWidth 16
  else if csr = Csr.sip then (h.ip &&& ~~~seMask) ||| (val.setWidth 16 &&& seMask)
  else h.ip

/-- `mie` after a write. -/
def ieAfter (h : Hart) (csr : BitVec 12) (val : Word) : BitVec 16 :=
  if csr = Csr.mie then val.setWidth 16
  else if csr = Csr.sie then (h.ie &&& ~~~seMask) ||| (val.setWidth 16 &&& seMask)
  else h.ie

def Core.withGpr (c : Core) (g : BitVec 5 → Word) : Core := c.mapHart fun h => { h with gpr := g }

/-- What a write of `val` to `csr` changes as long as it does not trap. -/
structure CsrFrame (csr : BitVec 12) (val : Word) (c c' : Core) : Prop where
  hart : c'.hart = { c.hart with
    gpr := c'.hart.gpr
    status := c'.hart.status
    ie := c'.hart.ie
    ip := c'.hart.ip
    stimecmp := c'.hart.stimecmp
    fcsr := c'.hart.fcsr
    satp := c'.hart.satp
    csrs := c'.hart.csrs
    tlb := c'.hart.tlb }
  status : c'.hart.status = statusAfter c.hart csr val
  ie : c'.hart.ie = ieAfter c.hart csr val
  ip : c'.hart.ip = ipAfter c.hart csr val
  csrs : ∀ a, a ≠ csr → c'.hart.csrs a = c.hart.csrs a
  stimecmp : csr ≠ Csr.stimecmp → c'.hart.stimecmp = c.hart.stimecmp
  satp : csr ≠ Csr.satp → c'.hart.satp = c.hart.satp
  io : c'.io = c.io

theorem CsrFrame.withGpr {csr : BitVec 12} {val : Word} {c c' : Core} (frame : CsrFrame csr val c c')
    (g : BitVec 5 → Word) : CsrFrame csr val c (c'.withGpr g) :=
  { frame with hart := congrArg (fun h : Hart => { h with gpr := g }) frame.hart }

/-- The floating-point CSRs need FS; others never trap. -/
def fpCsr (csr : BitVec 12) : Bool := csr == Csr.fcsr || csr == Csr.fflags || csr == Csr.frm

/-- An access to a floating-point CSR while FS is off. -/
def FpCsrOff (h : Hart) (csr : BitVec 12) : Prop := fpCsr csr = true ∧ Status.fs h.status = 0

instance (h : Hart) (csr : BitVec 12) : Decidable (FpCsrOff h csr) := inferInstanceAs (Decidable (_ ∧ _))

theorem csrWriteSatp_frame (c : Core) (val : Word) : CsrFrame Csr.satp val c (csrWriteSatp c val) := by
  unfold csrWriteSatp
  dsimp only
  refine iteInduction (fun _ => ?_) fun _ => iteInduction (fun _ => ?_) fun _ => ?_
  all_goals constructor <;> intros <;> first | rfl | contradiction

theorem csrWrite_frame {c : Core} {csr : BitVec 12} (on : ¬ FpCsrOff c.hart csr) (val : Word) :
    CsrFrame csr val c (csrWrite c csr val) := by
  have gated {f : Hart → Hart} (fp : fpCsr csr = true) : withFs c csr f = c.mapHart f :=
    if_neg fun off => on ⟨fp, off⟩
  unfold csrWrite
  dsimp only
  refine iteInduction (fun h => by subst h; constructor <;> intros <;> rfl) fun mstatus => ?_
  refine iteInduction (fun h => by subst h; constructor <;> intros <;> rfl) fun sstatus => ?_
  refine iteInduction (fun h => by subst h; constructor <;> intros <;> rfl) fun sie => ?_
  refine iteInduction (fun h => by subst h; constructor <;> intros <;> rfl) fun sip => ?_
  refine iteInduction (fun h => by subst h; constructor <;> intros <;> rfl) fun mie => ?_
  refine iteInduction (fun h => by subst h; constructor <;> intros <;> rfl) fun mip => ?_
  refine iteInduction (fun h => by subst h; constructor <;> intros <;> first | rfl | contradiction) fun _ => ?_
  refine iteInduction (fun h => h ▸ csrWriteSatp_frame c val) fun _ => ?_
  refine iteInduction (fun h => ?fcsr) fun fcsr => iteInduction (fun h => ?fflags) fun _ =>
    iteInduction (fun h => ?frm) fun _ => ?_
  case fcsr | fflags | frm =>
    rw [gated (by rw [h]; rfl)]
    subst h
    constructor <;> intros <;> rfl
  have same : CsrFrame csr val c c := by
    constructor <;> intros <;>
      first | rfl | simp only [statusAfter, ieAfter, ipAfter, mstatus, sstatus, fcsr, sie, mie, sip, mip, if_false]
  refine iteInduction (fun _ => same) fun _ => ?_
  exact { same with hart := rfl, csrs := fun a other => Function.update_of_ne other .. }

/-! ## Accesses that trap -/

theorem trap_traps (h : Hart) (cause : Nat) (tval : Word) (interrupt : Bool) :
    (h.trap cause tval interrupt).traps = h.traps + 1 := by
  by_cases delegated : h.delegateToS cause interrupt = true
  · rw [Hart.trap, if_pos delegated]
    rfl
  · rw [Hart.trap, if_neg delegated]
    rfl

theorem csrRead_hart (h : Hart) (csr : BitVec 12) :
    (csrRead h csr).2 =
      if FpCsrOff h csr then h.trap excIllegalInstruction (csr.setWidth 64) false else h := by
  have gated (fp : fpCsr csr = true) (v : Word) :
      (if Status.fs h.status = 0 then ((0 : Word), h.trap excIllegalInstruction (csr.setWidth 64) false)
        else (v, h)).2 = if FpCsrOff h csr then h.trap excIllegalInstruction (csr.setWidth 64) false else h := by
    by_cases off : Status.fs h.status = 0
    · rw [if_pos off, if_pos ⟨fp, off⟩]
    · rw [if_neg off, if_neg fun both => off both.2]
  by_cases fp : fpCsr csr = true
  · simp only [fpCsr, Bool.or_eq_true, beq_iff_eq] at fp
    rcases fp with (rfl | rfl) | rfl <;> exact gated rfl _
  · have other : ¬ FpCsrOff h csr := fun both => fp both.1
    simp only [fpCsr, Bool.or_eq_true, beq_iff_eq, not_or] at fp
    rw [if_neg other]
    unfold csrRead
    simp only [fp.1.1, fp.1.2, fp.2, if_false]
    -- every other register is read from the unchanged hart
    iterate 12 refine iteInduction (motive := fun p : Word × Hart => p.2 = h) (fun _ => rfl) fun _ => ?_
    rfl

theorem Core.csrRead_core (c : Core) (csr : BitVec 12) :
    (c.csrRead csr).2 = if FpCsrOff c.hart csr then
      c.mapHart (·.trap excIllegalInstruction (csr.setWidth 64) false) else c := by
  show { c with hart := (Rv64Vm.csrRead c.hart csr).2 } = _
  rw [csrRead_hart]
  by_cases off : FpCsrOff c.hart csr
  · rw [if_pos off, if_pos off]
    rfl
  · rw [if_neg off, if_neg off]

theorem csrRead_on {c : Core} {csr : BitVec 12} (on : ¬ FpCsrOff c.hart csr) : (c.csrRead csr).2 = c := by
  rw [Core.csrRead_core, if_neg on]

theorem compatible_of_allowed {h : Hart} {csr : BitVec 12} {write : Bool} (allowed : csrAllowed h csr write = true) :
    compatibleMode (csrLevel csr) h.mode = true := by
  simp only [csrAllowed, Bool.and_eq_true, csrAccessible] at allowed
  cases level : compatibleMode (csrLevel csr) h.mode with
  | true => rfl
  | false => simp [level] at allowed

end Rv64Vm
