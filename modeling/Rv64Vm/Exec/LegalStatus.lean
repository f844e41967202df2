import Rv64Vm.Exec.Events

/-! # Legal values of the status register

Three writers share `status`: trap entry, the returns, and CSR writes. The first two keep
it legal. The CSR writes keep the width fields or not by their masks and take MPP and SD as
they come, so that a run keeps the register legal exactly if every CSR write in it does.
-/

namespace Rv64Vm

open Lib

namespace Status

def uxl (status : Word) : BitVec 2 := status.extractLsb' 32 2
def sxl (status : Word) : BitVec 2 := status.extractLsb' 34 2
def xs (status : Word) : BitVec 2 := status.extractLsb' 15 2
def vs (status : Word) : BitVec 2 := status.extractLsb' 9 2
def sd (status : Word) : Bool := status.getLsbD 63

/-- SD says whether one of FS, XS and VS is dirty. -/
def Summary (status : Word) : Prop := sd status = true ↔ fs status = 3 ∨ xs status = 3 ∨ vs status = 3

instance (status : Word) : Decidable (Summary status) := inferInstanceAs (Decidable (_ ↔ _))

structure Legal (status : Word) : Prop where
  uxl : uxl status = 2
  sxl : sxl status = 2
  mpp : mpp status ≠ 2
  summary : Summary status

end Status

/-- The register is legal, and no access is made with the reserved mode. -/
structure LegalStatus (h : Hart) : Prop where
  status : Status.Legal h.status
  effective : ∀ type, h.getEffectiveMode type ≠ .hypervisor

theorem ofBits_ne_hypervisor {b : BitVec 2} (legal : b ≠ 2) : PrivilegeMode.ofBits b ≠ .hypervisor := by
  revert legal
  revert b
  decide

variable {i : Nat} {h : Hart}

theorem legalStatus_iff : LegalStatus h ↔ Status.Legal h.status ∧ h.mode ≠ .hypervisor := by
  constructor
  · intro legal
    have exec := legal.effective .exec
    rw [Hart.getEffectiveMode, if_neg (by simp)] at exec
    exact ⟨legal.status, exec⟩
  · rintro ⟨status, mode⟩
    refine ⟨status, fun type => ?_⟩
    rw [Hart.getEffectiveMode]
    split
    · exact ofBits_ne_hypervisor status.mpp
    · exact mode

/-! ## Fields and bits -/

theorem field_congr {x y : Word} (low : x.getLsbD i = y.getLsbD i) (high : x.getLsbD (i + 1) = y.getLsbD (i + 1)) :
    x.extractLsb' i 2 = y.extractLsb' i 2 := by
  apply BitVec.eq_of_getLsbD_eq
  intro j inside
  simp only [BitVec.getLsbD_extractLsb', inside, decide_true, Bool.true_and]
  obtain rfl | rfl : j = 0 ∨ j = 1 := by omega
  · exact low
  · exact high

theorem Status.summary_congr {x y : Word} (sd : y.getLsbD 63 = x.getLsbD 63)
    (field : ∀ i ∈ [9, 13, 15], y.extractLsb' i 2 = x.extractLsb' i 2) : Summary y ↔ Summary x := by
  rw [Summary, Summary, Status.sd, Status.sd, Status.fs, Status.fs, Status.xs, Status.xs, Status.vs, Status.vs, sd,
    field 13 (by decide), field 15 (by decide), field 9 (by decide)]

/-- Trap entry and return touch none of the fields but MPP. -/
theorem Status.Legal.of_trapBits {x y : Word} (legal : Legal x)
    (same : ∀ j < 64, j ∉ trapBits → y.getLsbD j = x.getLsbD j)
    (mpp : Status.mpp y ≠ 2) : Legal y := by
  have field (i : Nat) (fits : i + 1 < 64) (low : i ∉ trapBits) (high : i + 1 ∉ trapBits) :
      y.extractLsb' i 2 = x.extractLsb' i 2 := field_congr (same i (by omega) low) (same (i + 1) fits high)
  refine ⟨(field 32 (by omega) (by decide) (by decide)).trans legal.uxl,
    (field 34 (by omega) (by decide) (by decide)).trans legal.sxl, mpp, ?_⟩
  refine (summary_congr (same 63 (by omega) (by decide)) ?_).mpr legal.summary
  simp only [List.forall_mem_cons, List.not_mem_nil, false_implies, implies_true, and_true]
  exact ⟨field 9 (by omega) (by decide) (by decide), field 13 (by omega) (by decide) (by decide),
    field 15 (by omega) (by decide) (by decide)⟩

theorem ne_of_kept {j k : Nat} (kept : j ∉ trapBits) (listed : k ∈ trapBits) : j ≠ k := fun here => kept (here ▸ listed)

theorem getLsbD_putBits2 (x : Word) (i : Nat) (b : BitVec 2) {j : Nat} (inside : j < 64) :
    (putBits2 x i b).getLsbD j =
      if j = i + 1 then b.getLsbD 1 else if j = i then b.getLsbD 0 else x.getLsbD j := by
  rw [putBits2, getLsbD_putBit _ _ _ inside, getLsbD_putBit _ _ _ inside]

theorem field_putBits2 (x : Word) (b : BitVec 2) (fits : i + 1 < 64) : (putBits2 x i b).extractLsb' i 2 = b := by
  apply BitVec.eq_of_getLsbD_eq
  intro j inside
  simp only [BitVec.getLsbD_extractLsb', inside, decide_true, Bool.true_and]
  rw [getLsbD_putBits2 _ _ _ (by omega)]
  obtain rfl | rfl : j = 0 ∨ j = 1 := by omega
  · rw [if_neg (by omega), if_pos (Nat.add_zero i)]
  · rw [if_pos rfl]

theorem field_putBits2_of_away (x : Word) {i k : Nat} (b : BitVec 2) (fits : i + 1 < 64)
    (away : i + 1 < k ∨ k + 1 < i) : (putBits2 x k b).extractLsb' i 2 = x.extractLsb' i 2 := by
  apply field_congr
  · rw [getLsbD_putBits2 _ _ _ (by omega), if_neg (by omega), if_neg (by omega)]
  · rw [getLsbD_putBits2 _ _ _ fits, if_neg (by omega), if_neg (by omega)]

theorem mpp_putBit (x : Word) (b : Bool) (low : i ≠ 11) (high : i ≠ 12) :
    Status.mpp (putBit x i b) = Status.mpp x := by
  apply field_congr
  · rw [getLsbD_putBit _ _ _ (by omega), if_neg low.symm]
  · rw [getLsbD_putBit _ _ _ (by omega), if_neg high.symm]

/-! ## Traps and returns -/

theorem trap_mode (h : Hart) (cause : Nat) (tval : Word) (interrupt : Bool) :
    (h.trap cause tval interrupt).mode ≠ .hypervisor := by
  unfold Hart.trap
  split
  · exact nofun
  · exact nofun

theorem mode_bits {m : PrivilegeMode} (legal : m ≠ .hypervisor) : BitVec.ofNat 2 m.toNat ≠ 2 := by
  cases m with
  | hypervisor => exact absurd rfl legal
  | user | supervisor | machine => decide

theorem trap_legal (legal : LegalStatus h) (cause : Nat) (tval : Word) (interrupt : Bool) :
    LegalStatus (h.trap cause tval interrupt) := by
  obtain ⟨status, mode⟩ := legalStatus_iff.mp legal
  refine legalStatus_iff.mpr ⟨?_, trap_mode h cause tval interrupt⟩
  refine status.of_trapBits (fun j inside kept => trap_status h cause tval interrupt inside kept) ?_
  unfold Hart.trap
  split
  · simp only [Hart.trapToS, Hart.setCsr]
    rw [mpp_putBit _ _ (by decide) (by decide), mpp_putBit _ _ (by decide) (by decide),
      mpp_putBit _ _ (by decide) (by decide), mpp_putBit _ _ (by decide) (by decide)]
    exact status.mpp
  · simp only [Hart.trapToM, Hart.setCsr]
    rw [Status.mpp, field_putBits2 _ _ (by omega)]
    exact mode_bits mode

theorem traps_legal (legal : LegalStatus h) (csr : BitVec 12) (n : Nat) : LegalStatus ((fpCsrTrap csr)^[n] h) := by
  induction n generalizing h with
  | zero => exact legal
  | succ n ih => exact ih (trap_legal legal ..)

theorem mretMode_spec (h : Hart) :
    (∀ j < 64, j ∉ trapBits → (mretMode h).status.getLsbD j = h.status.getLsbD j) ∧
      ((mretMode h).mode = h.mode ∨ (mretMode h).mode ≠ .hypervisor) := by
  have put : ∀ j < 64, j ∉ trapBits → (putBit h.status 17 false).getLsbD j = h.status.getLsbD j := by
    intro j inside kept
    rw [getLsbD_putBit _ _ _ inside, if_neg (ne_of_kept kept (by decide))]
  unfold mretMode
  dsimp only
  split
  · exact ⟨put, .inr nofun⟩
  split
  · exact ⟨put, .inr nofun⟩
  split
  · exact ⟨fun _ _ _ => rfl, .inr nofun⟩
  · exact ⟨fun _ _ _ => rfl, .inl rfl⟩

theorem execMRET_legal {bus : Bus} {c : Core} {i : InstructionData} {e : Executed} (legal : LegalStatus c.hart)
    (ok : execMRET bus c i = .ok e) : LegalStatus e.core.hart := by
  obtain ⟨status, mode⟩ := legalStatus_iff.mp legal
  obtain ⟨kept, level⟩ := mretMode_spec { c.hart with pc := c.hart.csrs Csr.mepc }
  obtain rfl := Except.ok.inj ok
  refine legalStatus_iff.mpr ⟨status.of_trapBits (fun j inside outside => ?_) ?_, ?_⟩
  · have ne {k : Nat} := @ne_of_kept j k outside
    dsimp only
    rw [getLsbD_putBits2 _ _ _ inside, if_neg (ne (by decide)), if_neg (ne (by decide)), getLsbD_putBit _ _ _ inside,
      if_neg (ne (by decide)), getLsbD_putBit _ _ _ inside, if_neg (ne (by decide)), kept j inside outside]
  · dsimp only
    rw [Status.mpp, field_putBits2 _ _ (by omega)]
    decide
  · rcases level with same | other
    · exact same ▸ mode
    · exact other

theorem execSRET_legal {bus : Bus} {c : Core} {i : InstructionData} {e : Executed} (legal : LegalStatus c.hart)
    (ok : execSRET bus c i = .ok e) : LegalStatus e.core.hart := by
  obtain ⟨status, mode⟩ := legalStatus_iff.mp legal
  unfold execSRET at ok
  split at ok
  · obtain rfl := Except.ok.inj ok
    exact legal
  · obtain rfl := Except.ok.inj ok
    refine legalStatus_iff.mpr ⟨status.of_trapBits (fun j inside outside => ?_) ?_, ?_⟩
    · have ne {k : Nat} := @ne_of_kept j k outside
      dsimp only
      rw [getLsbD_putBit _ _ _ inside, if_neg (ne (by decide)), getLsbD_putBit _ _ _ inside, if_neg (ne (by decide)),
        getLsbD_putBit _ _ _ inside, if_neg (ne (by decide)), getLsbD_putBit _ _ _ inside, if_neg (ne (by decide))]
    · dsimp only
      rw [mpp_putBit _ _ (by decide) (by decide), mpp_putBit _ _ (by decide) (by decide),
        mpp_putBit _ _ (by decide) (by decide), mpp_putBit _ _ (by decide) (by decide)]
      exact status.mpp
    · dsimp only
      split
      · exact nofun
      · exact nofun

/-! ## CSR writes -/

/-- What a CSR write has to respect. -/
structure LegalWrite (h : Hart) (csr : BitVec 12) (val : Word) : Prop where
  mstatus : csr = Csr.mstatus → Status.mpp val ≠ 2 ∧ Status.Summary val
  sstatus : csr = Csr.sstatus → Status.uxl val = 2 ∧ Status.Summary val
  /-- A write of `fcsr` makes FS dirty and leaves SD. -/
  fcsr : csr = Csr.fcsr → Status.sd h.status = true

/-- A field inside the mask is the new one, a field outside it the old one. -/
theorem field_merge {x y m : Word} (fits : i + 1 < 64) :
    (m.getLsbD i = true → m.getLsbD (i + 1) = true → ((x &&& ~~~m) ||| (y &&& m)).extractLsb' i 2 = y.extractLsb' i 2) ∧
    (m.getLsbD i = false → m.getLsbD (i + 1) = false →
      ((x &&& ~~~m) ||| (y &&& m)).extractLsb' i 2 = x.extractLsb' i 2) := by
  constructor
  · intro low high
    apply field_congr
    · rw [getLsbD_merge _ _ _ (by omega), low, if_pos rfl]
    · rw [getLsbD_merge _ _ _ fits, high, if_pos rfl]
  · intro low high
    apply field_congr
    · rw [getLsbD_merge _ _ _ (by omega), low, if_neg Bool.false_ne_true]
    · rw [getLsbD_merge _ _ _ fits, high, if_neg Bool.false_ne_true]

/-- The mask covers SD and the fields it summarises. -/
theorem summary_merge {x y m : Word} (mask : m &&& 0x800000000001E600#64 = 0x800000000001E600#64) :
    Status.Summary ((x &&& ~~~m) ||| (y &&& m)) ↔ Status.Summary y := by
  have bit {j : Nat} (listed : (0x800000000001E600#64).getLsbD j = true) : m.getLsbD j = true := by
    have here := congrArg (BitVec.getLsbD · j) mask
    simp only [BitVec.getLsbD_and, listed, Bool.and_true] at here
    exact here
  apply Status.summary_congr
  · rw [getLsbD_merge _ _ _ (by omega), bit (by decide), if_pos rfl]
  · simp only [List.forall_mem_cons, List.not_mem_nil, false_implies, implies_true, and_true]
    exact ⟨(field_merge (by omega)).1 (bit (by decide)) (bit (by decide)),
      (field_merge (by omega)).1 (bit (by decide)) (bit (by decide)),
      (field_merge (by omega)).1 (bit (by decide)) (bit (by decide))⟩

theorem mstatus_legal_iff {status : Word} (legal : Status.Legal status) (val : Word) :
    Status.Legal ((status &&& mstatusRoMask) ||| (val &&& ~~~mstatusRoMask)) ↔
      Status.mpp val ≠ 2 ∧ Status.Summary val := by
  have flip : mstatusRoMask = ~~~(~~~mstatusRoMask) := by decide
  rw [show status &&& mstatusRoMask = status &&& ~~~(~~~mstatusRoMask) by rw [← flip]]
  have field {i : Nat} (fits : i + 1 < 64) := @field_merge i status val (~~~mstatusRoMask) fits
  have uxl := (field (i := 32) (by omega)).2 (by decide) (by decide)
  have sxl := (field (i := 34) (by omega)).2 (by decide) (by decide)
  have mpp := (field (i := 11) (by omega)).1 (by decide) (by decide)
  have summary := @summary_merge status val (~~~mstatusRoMask) (by decide)
  constructor
  · intro after
    exact ⟨fun bad => after.mpp (mpp.trans bad), summary.mp after.summary⟩
  · rintro ⟨level, summed⟩
    exact ⟨uxl.trans legal.uxl, sxl.trans legal.sxl, fun bad => level (mpp.symm.trans bad), summary.mpr summed⟩

theorem sstatus_legal_iff {status : Word} (legal : Status.Legal status) (val : Word) :
    Status.Legal ((status &&& ~~~sstatusMask) ||| (val &&& sstatusMask)) ↔
      Status.uxl val = 2 ∧ Status.Summary val := by
  have field {i : Nat} (fits : i + 1 < 64) := @field_merge i status val sstatusMask fits
  have uxl := (field (i := 32) (by omega)).1 (by decide) (by decide)
  have sxl := (field (i := 34) (by omega)).2 (by decide) (by decide)
  have mpp := (field (i := 11) (by omega)).2 (by decide) (by decide)
  have summary := @summary_merge status val sstatusMask (by decide)
  constructor
  · intro after
    exact ⟨uxl.symm.trans after.uxl, summary.mp after.summary⟩
  · rintro ⟨width, summed⟩
    exact ⟨uxl.trans width, sxl.trans legal.sxl, fun bad => legal.mpp (mpp.symm.trans bad), summary.mpr summed⟩

theorem putFs_legal_iff {status : Word} (legal : Status.Legal status) :
    Status.Legal (putBits2 status 13 3) ↔ Status.sd status = true := by
  have field {i : Nat} := @field_putBits2_of_away status i 13 3
  have dirty : Status.fs (putBits2 status 13 3) = 3 := field_putBits2 _ _ (by omega)
  have summary : Status.Summary (putBits2 status 13 3) ↔ Status.sd status = true := by
    rw [Status.Summary, Status.sd, getLsbD_putBits2 _ _ _ (by omega), dirty]
    simp [Status.sd]
  constructor
  · intro after
    exact summary.mp after.summary
  · intro set
    refine ⟨(field (by omega) (by omega)).trans legal.uxl, (field (by omega) (by omega)).trans legal.sxl, ?_,
      summary.mpr set⟩
    rw [Status.mpp, field (by omega) (by omega)]
    exact legal.mpp

theorem statusAfter_legal_iff (legal : Status.Legal h.status) (csr : BitVec 12) (val : Word) :
    Status.Legal (statusAfter h csr val) ↔ LegalWrite h csr val := by
  have apart {a b : BitVec 12} (ne : a ≠ b) (here : csr = a) : csr ≠ b := here ▸ ne
  unfold statusAfter
  split
  case isTrue here =>
    rw [mstatus_legal_iff legal]
    exact ⟨fun good => ⟨fun _ => good, fun other => absurd other (apart (by decide) here),
      fun other => absurd other (apart (by decide) here)⟩, fun write => write.mstatus here⟩
  case isFalse notM =>
    split
    case isTrue here =>
      rw [sstatus_legal_iff legal]
      exact ⟨fun good => ⟨fun other => absurd other notM, fun _ => good,
        fun other => absurd other (apart (by decide) here)⟩, fun write => write.sstatus here⟩
    case isFalse notS =>
      split
      case isTrue here =>
        rw [putFs_legal_iff legal]
        exact ⟨fun good => ⟨fun other => absurd other notM, fun other => absurd other notS, fun _ => good⟩,
          fun write => write.fcsr here⟩
      case isFalse notF =>
        exact ⟨fun _ => ⟨fun other => absurd other notM, fun other => absurd other notS,
          fun other => absurd other notF⟩, fun _ => legal⟩

/-! ## Events -/

/-- The CSR write of an instruction, if it makes one, is legal. -/
def LegalEvent (c : Core) : Event → Prop
  | .instruction w => ∀ csr val, CsrWrites c w csr val → LegalWrite c.hart csr val
  | _ => True

theorem LegalStatus.of_eq {h h' : Hart} (legal : LegalStatus h) (status : h'.status = h.status)
    (mode : h'.mode = h.mode) :
    LegalStatus h' := by
  rw [legalStatus_iff] at legal ⊢
  rw [status, mode]
  exact legal

theorem finish_legal {out : Executed} (legal : LegalStatus out.core.hart) : LegalStatus (finish out).hart := by
  unfold finish
  split
  · exact trap_legal legal ..
  · exact legal.of_eq rfl rfl

section Step

variable {bus : Bus} {c : Core} {w : Inst} {k : Fin instructions.length} {out : Executed}

theorem CsrWrites.entry {csr : BitVec 12} {val : Word} (writes : CsrWrites c w csr val) (chosen : selected w = some k) :
    instructions.get k ∈ initZicsr ∧ csr = (decoded w k).csr ∧
      csrAllowed c.hart (decoded w k).csr ((csrForm w).checked (decoded w k)) = true ∧
      (csrForm w).writes (decoded w k) = true ∧
      val = (csrForm w).value c (decoded w k) (csrRead c.hart (decoded w k).csr).1 := by
  obtain ⟨⟨k', chosen', mem, rfl, rest⟩, -⟩ := writes
  obtain rfl := Option.some.inj (chosen'.symm.trans chosen)
  exact ⟨mem, rfl, rest⟩

theorem csr_legal_iff (legal : LegalStatus c.hart) (chosen : selected w = some k) (mem : instructions.get k ∈ initZicsr)
    (ran : (instructions.get k).func bus c (decoded w k) = .ok out) :
    LegalStatus (finish out).hart ↔ LegalEvent c (.instruction w) := by
  have hit : (instructions.get k).Matches w := (selected_eq_some_iff.mp chosen).1.1
  cases zicsr_does mem hit ran with
  | refused denied same =>
    refine ⟨fun _ csr val writes => ?_, fun _ => finish_legal (same ▸ legal)⟩
    obtain ⟨-, -, allowed, -⟩ := writes.entry chosen
    rw [denied] at allowed
    cases allowed
  | trapped _ off same =>
    refine ⟨fun _ csr val writes => ?_, fun _ => finish_legal ?_⟩
    · obtain ⟨-, rfl, -⟩ := writes.entry chosen
      exact absurd off writes.on
    · obtain ⟨g, after⟩ := (csrForm w).trapped_eq c (decoded w k)
      rw [same, after]
      exact (traps_legal legal (decoded w k).csr _).of_eq rfl rfl
  | read _ _ idle same =>
    refine ⟨fun _ csr val writes => ?_, fun _ => finish_legal ?_⟩
    · obtain ⟨-, -, -, active, -⟩ := writes.entry chosen
      rw [idle] at active
      cases active
    · rw [same]
      exact legal.of_eq rfl rfl
  | written allowed on writes g _ same =>
    obtain ⟨status, mode⟩ := legalStatus_iff.mp legal
    have frame := csrWrite_frame on ((csrForm w).value c (decoded w k) (csrRead c.hart (decoded w k).csr).1)
    have level : (finish out).hart.mode = c.hart.mode := by
      rw [same]
      change (csrWrite c (decoded w k).csr _).hart.mode = _
      rw [frame.hart]
    have after : (finish out).hart.status = statusAfter c.hart (decoded w k).csr
        ((csrForm w).value c (decoded w k) (csrRead c.hart (decoded w k).csr).1) := by
      rw [same]
      exact frame.status
    rw [legalStatus_iff, level, after, statusAfter_legal_iff status]
    constructor
    · rintro ⟨write, -⟩ csr val writes'
      obtain ⟨-, rfl, -, -, rfl⟩ := writes'.entry chosen
      exact write
    · intro event
      exact ⟨event _ _ ⟨⟨k, chosen, mem, rfl, allowed, writes, rfl⟩, on⟩, mode⟩

theorem handler_legal (legal : LegalStatus c.hart) (other : instructions.get k ∉ initZicsr)
    (ran : (instructions.get k).func bus c (decoded w k) = .ok out) : LegalStatus out.core.hart := by
  have frame (same : UserFrame c out.core) : LegalStatus out.core.hart :=
    legal.of_eq (by rw [same.hart]) (by rw [same.hart])
  rcases unprivileged_or (instructions.get k) (List.get_mem ..) with plain | priv | csr
  · exact frame (plain.userFrame ran)
  · generalize instructions.get k = ins at priv ran
    simp only [initPriv, List.mem_cons, List.not_mem_nil, or_false] at priv
    rcases priv with rfl | rfl | rfl | rfl
    case inl => exact @execMRET_legal bus c (decoded w k) out legal ran
    case inr.inl => exact @execSRET_legal bus c (decoded w k) out legal ran
    case inr.inr.inl =>
      rw [@execWFI_core bus c _ out ran]
      exact legal.of_eq rfl rfl
    case inr.inr.inr => exact frame (@execSFENCEVMA_ends bus c _ out ran).1
  · exact absurd csr other

theorem step_legal_iff (e : Event) (next : Core) (legal : LegalStatus c.hart) (taken : Event.step bus c e = some next) :
    LegalStatus next.hart ↔ LegalEvent c e := by
  cases e with
  | exception cause tval =>
    obtain rfl := Option.some.inj taken
    exact ⟨fun _ => trivial, fun _ => trap_legal legal ..⟩
  | interrupt irq =>
    obtain rfl := Option.some.inj taken
    exact ⟨fun _ => trivial, fun _ => trap_legal legal ..⟩
  | around x =>
    obtain rfl := Option.some.inj taken
    exact ⟨fun _ => trivial, fun _ => legal.of_eq rfl rfl⟩
  | instruction w =>
    rcases step_instruction taken with ⟨k, out, chosen, ran, rfl⟩ | ⟨none, rfl⟩
    · by_cases csr : instructions.get k ∈ initZicsr
      · exact csr_legal_iff legal chosen csr ran
      · refine ⟨fun _ csr' val writes => ?_, fun _ => finish_legal (handler_legal legal csr ran)⟩
        exact absurd (writes.entry chosen).1 csr
    · refine ⟨fun _ csr val writes => ?_, fun _ => trap_legal legal ..⟩
      obtain ⟨⟨k, chosen, -⟩, -⟩ := writes
      rw [none] at chosen
      cases chosen

end Step

/-- `Hart::init` sets the width fields; the rest of the register is what the constructor left. -/
theorem init_legal_iff (h : Hart) (id : BitVec 8) (dtbPosAtMemory entryPc : Word) :
    LegalStatus (h.init id dtbPosAtMemory entryPc) ↔ Status.mpp h.status ≠ 2 ∧ Status.Summary h.status := by
  change LegalStatus { h.init id dtbPosAtMemory entryPc with status := putBits2 (putBits2 h.status 34 2) 32 2 } ↔ _
  have kept {i : Nat} (low : i + 1 < 32) :
      (putBits2 (putBits2 h.status 34 2) 32 2).extractLsb' i 2 = h.status.extractLsb' i 2 :=
    (field_putBits2_of_away _ _ (by omega) (by omega)).trans (field_putBits2_of_away _ _ (by omega) (by omega))
  have summary : Status.Summary (putBits2 (putBits2 h.status 34 2) 32 2) ↔ Status.Summary h.status := by
    apply Status.summary_congr
    · rw [getLsbD_putBits2 _ _ _ (by omega), getLsbD_putBits2 _ _ _ (by omega)]
      rfl
    · simp only [List.forall_mem_cons, List.not_mem_nil, false_implies, implies_true, and_true]
      exact ⟨kept (by omega), kept (by omega), kept (by omega)⟩
  have mpp : Status.mpp (putBits2 (putBits2 h.status 34 2) 32 2) = Status.mpp h.status := kept (by omega)
  have uxl : Status.uxl (putBits2 (putBits2 h.status 34 2) 32 2) = 2 := field_putBits2 _ _ (by omega)
  have sxl : Status.sxl (putBits2 (putBits2 h.status 34 2) 32 2) = 2 :=
    (field_putBits2_of_away _ _ (by omega) (by omega)).trans (field_putBits2 _ _ (by omega))
  have machine : (h.init id dtbPosAtMemory entryPc).mode = .machine := rfl
  rw [legalStatus_iff]
  constructor
  · rintro ⟨legal, -⟩
    exact ⟨mpp ▸ legal.mpp, summary.mp legal.summary⟩
  · rintro ⟨level, summed⟩
    exact ⟨⟨uxl, sxl, mpp ▸ level, summary.mpr summed⟩, machine ▸ by decide⟩

/-- In every run from `Hart::init` the register is legal throughout exactly if it was so before
    but for the width fields, and every CSR write on the way is legal. -/
theorem legal_status_iff (bus : Bus) (h : Hart) (id : BitVec 8) (dtbPosAtMemory entryPc : Word) (c final : Core)
    (boot : c.hart = h.init id dtbPosAtMemory entryPc) (events : List Event)
    (ran : run (Event.step bus) c events = some final) :
    Holds (Event.step bus) (fun c => LegalStatus c.hart) c events ↔
      (Status.mpp h.status ≠ 2 ∧ Status.Summary h.status) ∧ Along (Event.step bus) LegalEvent c events := by
  have start : LegalStatus c.hart ↔ Status.mpp h.status ≠ 2 ∧ Status.Summary h.status := boot ▸ init_legal_iff ..
  constructor
  · intro holds
    have legal := holds.start
    exact ⟨start.mp legal,
      (holds_iff_along_of_run (fun s a next legal taken => step_legal_iff a next legal taken) legal ran).mp holds⟩
  · rintro ⟨first, along⟩
    exact (holds_iff_along_of_run (fun s a next legal taken => step_legal_iff a next legal taken)
      (start.mpr first) ran).mpr along

/-- `csrrw x0, mstatus, a1` -/
def csrrwMstatus : Inst := 0x30059073#32

theorem legal_status_ecall :
    Holds (Event.step Bus.empty) (fun c => LegalStatus c.hart) (bootedCore 0) [.exception excEnvCallFromM 0] := by
  refine (legal_status_iff Bus.empty {} 0 0 0x80000000#64 (bootedCore 0) _ rfl _ rfl).mpr ⟨?_, ?_⟩
  · decide
  · exact ⟨trivial, fun _ _ => trivial⟩

/-- The reserved MPP is taken, and with MPRV the next load is made in that mode. -/
theorem mstatus_takes_reserved_mpp :
    ∃ final, run (Event.step Bus.empty) (bootedCore 0x21000#64) [.instruction csrrwMstatus] = some final ∧
      final.hart.getEffectiveMode .load = .hypervisor ∧
      ¬ Holds (Event.step Bus.empty) (fun c => LegalStatus c.hart)
        (bootedCore 0x21000#64) [.instruction csrrwMstatus] := by
  obtain ⟨final, taken, here⟩ : ∃ final,
      Event.step Bus.empty (bootedCore 0x21000#64) (.instruction csrrwMstatus) = some final ∧
        final.hart.getEffectiveMode .load = .hypervisor :=
    ⟨_, step_CSRRW Bus.empty (bootedCore 0x21000#64) (by decide), by decide +kernel⟩
  refine ⟨final, by rw [run, taken]; rfl, here, ?_⟩
  rintro ⟨-, next, taken', legal⟩
  obtain rfl := Option.some.inj (taken'.symm.trans taken)
  exact LegalStatus.effective legal .load here

end Rv64Vm
