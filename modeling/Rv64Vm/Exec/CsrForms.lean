import Rv64Vm.Exec.CsrEffects

/-! # The six CSR instructions, exactly

The handlers differ in what they check, in whether they write, in the value they write, and in
how they get on after a trap. `CsrForm` holds the differences, and `CsrDoes` says what an
instruction of a form does: the register it reads, the write it makes, and nothing else.
-/

namespace Rv64Vm

open Lib

variable {j : Nat} {csr : BitVec 12} {val : Word} {c : Core} {ins : Instruction} {w : Inst}

/-! ## Traps -/

theorem getLsbD_putBit (x : Word) (i : Nat) (b : Bool) {j : Nat} (inside : j < 64) :
    (putBit x i b).getLsbD j = if j = i then b else x.getLsbD j := by
  have bit : (1#64 <<< i).getLsbD j = decide (j = i) := by
    rw [BitVec.getLsbD_shiftLeft, BitVec.getLsbD_one]
    grind
  cases b <;> simp only [putBit, Bool.false_eq_true, if_false, if_true, BitVec.getLsbD_and, BitVec.getLsbD_or,
    BitVec.getLsbD_not, inside, bit, decide_true, Bool.true_and] <;> grind

theorem getLsbD_merge {n : Nat} (x y m : BitVec n) (inside : j < n) :
    ((x &&& ~~~m) ||| (y &&& m)).getLsbD j = if m.getLsbD j then y.getLsbD j else x.getLsbD j := by
  simp only [BitVec.getLsbD_or, BitVec.getLsbD_and, BitVec.getLsbD_not, inside, decide_true, Bool.true_and]
  cases m.getLsbD j <;> simp

/-- The bits of `mstatus` that trap entry and return may change. -/
def trapBits : List Nat := [1, 3, 5, 7, 8, 11, 12, 17]

theorem trap_status (h : Hart) (cause : Nat) (tval : Word) (interrupt : Bool) (inside : j < 64)
    (kept : j ∉ trapBits) : (h.trap cause tval interrupt).status.getLsbD j = h.status.getLsbD j := by
  simp only [trapBits, List.mem_cons, List.not_mem_nil, or_false, not_or] at kept
  have put (x : Word) (i : Nat) (b : Bool) (other : j ≠ i) : (putBit x i b).getLsbD j = x.getLsbD j := by
    rw [getLsbD_putBit x i b inside, if_neg other]
  unfold Hart.trap
  split
  · simp only [Hart.trapToS, Hart.setCsr]
    rw [put _ 8 _ (by omega), put _ 1 _ (by omega), put _ 5 _ (by omega), put _ 17 _ (by omega)]
  · simp only [Hart.trapToM, Hart.setCsr, putBits2]
    rw [put _ 12 _ (by omega), put _ 11 _ (by omega), put _ 3 _ (by omega), put _ 7 _ (by omega), put _ 17 _ (by omega)]

theorem trap_gpr (h : Hart) (g : BitVec 5 → Word) (cause : Nat) (tval : Word) (interrupt : Bool) :
    ({ h with gpr := g } : Hart).trap cause tval interrupt = { h.trap cause tval interrupt with gpr := g } := by
  have same : ({ h with gpr := g } : Hart).delegateToS cause interrupt = h.delegateToS cause interrupt := rfl
  unfold Hart.trap
  rw [same]
  split <;> rfl

/-! ## Writes and the general registers -/

theorem Core.setGpr_eq_withGpr (c : Core) (r : BitVec 5) (v : Word) :
    c.setGpr r v = c.withGpr (Function.update c.hart.gpr r v) := rfl

theorem withFs_withGpr (c : Core) (g : BitVec 5 → Word) (csr : BitVec 12) (f : Hart → Hart)
    (blind : ∀ h : Hart, f { h with gpr := g } = { f h with gpr := g }) :
    withFs (c.withGpr g) csr f = (withFs c csr f).withGpr g := by
  have same : Status.fs (c.withGpr g).hart.status = Status.fs c.hart.status := rfl
  unfold withFs
  rw [same]
  split
  · simp only [Core.mapHart, Core.withGpr, trap_gpr]
  · simp only [Core.mapHart, Core.withGpr, blind]

theorem csrWriteSatp_withGpr (c : Core) (g : BitVec 5 → Word) (val : Word) :
    csrWriteSatp (c.withGpr g) val = (csrWriteSatp c val).withGpr g := by
  unfold csrWriteSatp
  dsimp only
  rw [apply_ite (Core.withGpr · g), apply_ite (Core.withGpr · g)]
  rfl

/-- A write neither reads nor changes the general registers. -/
theorem csrWrite_withGpr (c : Core) (g : BitVec 5 → Word) (csr : BitVec 12) (val : Word) :
    csrWrite (c.withGpr g) csr val = (csrWrite c csr val).withGpr g := by
  unfold csrWrite
  dsimp only
  iterate 12 rw [apply_ite (Core.withGpr · g)]
  iterate 7 refine ite_congr rfl (fun _ => rfl) fun _ => ?_
  refine ite_congr rfl (fun _ => csrWriteSatp_withGpr c g val) fun _ => ?_
  iterate 3 refine ite_congr rfl (fun _ => withFs_withGpr c g csr _ fun _ => rfl) fun _ => ?_
  exact ite_congr rfl (fun _ => rfl) fun _ => rfl

theorem csrWrite_eq_withGpr (c : Core) (csr : BitVec 12) (val : Word) :
    csrWrite c csr val = (csrWrite c csr val).withGpr c.hart.gpr := csrWrite_withGpr c c.hart.gpr csr val

theorem csrWrite_gpr (c : Core) (csr : BitVec 12) (val : Word) : (csrWrite c csr val).hart.gpr = c.hart.gpr := by
  rw [csrWrite_eq_withGpr]
  rfl

/-! ## The forms -/

/-- What distinguishes the CSR instructions. -/
structure CsrForm where
  /-- The access is checked as a write. -/
  checked : InstructionData → Bool
  writes : InstructionData → Bool
  /-- The value that is written, from the one that is read. -/
  value : Core → InstructionData → Word → Word
  /-- How many traps it takes at a floating-point CSR while FS is off. -/
  traps : InstructionData → Nat
  /-- It then clears `rd`. -/
  links : InstructionData → Bool

namespace CsrForm

def rw : CsrForm := ⟨fun _ => true, fun _ => true, fun c i _ => c.gpr i.rs1, fun _ => 2, fun i => i.rd ≠ 0⟩

/-- The forms that write only if their operand field is not 0. -/
def modify (mask : Core → InstructionData → Word) (f : Word → Word → Word) : CsrForm :=
  ⟨fun i => i.rs1 ≠ 0, fun i => i.rs1 ≠ 0, fun c i old => f old (mask c i), fun i => if i.rs1 ≠ 0 then 2 else 1,
    fun _ => true⟩

def rs : CsrForm := modify maskReg (· ||| ·)
def rc : CsrForm := modify maskReg fun init mask => init &&& ~~~mask
def rwi : CsrForm :=
  ⟨fun i => i.rs1 ≠ 0, fun _ => true, fun _ i _ => i.uimm, fun i => if i.rd ≠ 0 then 2 else 1, fun i => i.rd ≠ 0⟩
def rsi : CsrForm := modify maskImm (· ||| ·)
def rci : CsrForm := modify maskImm fun init mask => init &&& ~~~mask

end CsrForm

/-- The trap that a floating-point CSR takes while FS is off. -/
def fpCsrTrap (csr : BitVec 12) (h : Hart) : Hart := h.trap excIllegalInstruction (csr.setWidth 64) false

/-- The machine after the traps of an instruction, which goes on. -/
def CsrForm.trapped (form : CsrForm) (c : Core) (i : InstructionData) : Core :=
  let c := c.mapHart (fpCsrTrap i.csr)^[form.traps i]
  if form.links i then c.setGpr i.rd 0 else c

theorem CsrForm.trapped_eq (form : CsrForm) (c : Core) (i : InstructionData) :
    ∃ g, form.trapped c i = (c.mapHart (fpCsrTrap i.csr)^[form.traps i]).withGpr g := by
  unfold trapped
  split <;> exact ⟨_, rfl⟩

/-- What an instruction of a form does. -/
inductive CsrDoes (form : CsrForm) (c : Core) (i : InstructionData) (e : Executed) : Prop
  | refused (denied : csrAllowed c.hart i.csr (form.checked i) = false) (same : e = illegal c i)
  | trapped (allowed : csrAllowed c.hart i.csr (form.checked i) = true) (off : FpCsrOff c.hart i.csr)
      (same : e = ⟨{}, form.trapped c i⟩)
  | read (allowed : csrAllowed c.hart i.csr (form.checked i) = true) (on : ¬ FpCsrOff c.hart i.csr)
      (idle : form.writes i = false) (same : e = ⟨{}, c.setGpr i.rd (csrRead c.hart i.csr).1⟩)
  | written (allowed : csrAllowed c.hart i.csr (form.checked i) = true) (on : ¬ FpCsrOff c.hart i.csr)
      (writes : form.writes i = true) (g : BitVec 5 → Word)
      (reads : ∀ r, r ≠ 0 → g r = if r = i.rd then (csrRead c.hart i.csr).1 else c.gpr r)
      (same : e = ⟨{}, (csrWrite c i.csr (form.value c i (csrRead c.hart i.csr).1)).withGpr g⟩)

/-- A handler of the form: it ends. -/
def CsrForm.Runs (form : CsrForm) (f : Handler) : Prop := ∀ bus c i, ∃ e, f bus c i = .ok e ∧ CsrDoes form c i e

theorem CsrForm.Runs.does {form : CsrForm} {f : Handler} (runs : form.Runs f) {bus : Bus} {i : InstructionData}
    {e : Executed} (ok : f bus c i = .ok e) : CsrDoes form c i e := by
  obtain ⟨e', ok', does⟩ := runs bus c i
  exact Except.ok.inj (ok.symm.trans ok') ▸ does

/-- What `n` of these traps leave alone. -/
structure FpTrapped (n : Nat) (h h' : Hart) : Prop where
  traps : h'.traps = h.traps + n
  gpr : h'.gpr = h.gpr
  fpr : h'.fpr = h.fpr
  fcsr : h'.fcsr = h.fcsr
  ip : h'.ip = h.ip
  ie : h'.ie = h.ie
  instret : h'.instret = h.instret
  wfi : h'.wfi = true → h.wfi = true

theorem fpCsrTraps_frame (csr : BitVec 12) (n : Nat) (h : Hart) : FpTrapped n h ((fpCsrTrap csr)^[n] h) := by
  have once (h : Hart) : FpTrapped 1 h (fpCsrTrap csr h) := by
    unfold fpCsrTrap Hart.trap
    split <;> constructor <;> first | rfl | exact fun asleep => absurd asleep Bool.false_ne_true
  induction n generalizing h with
  | zero => exact ⟨rfl, rfl, rfl, rfl, rfl, rfl, rfl, id⟩
  | succ n ih =>
    have later := ih (fpCsrTrap csr h)
    have first := once h
    rw [Function.iterate_succ_apply]
    exact ⟨by rw [later.traps, first.traps, Nat.add_assoc, Nat.add_comm 1], later.gpr.trans first.gpr,
      later.fpr.trans first.fpr, later.fcsr.trans first.fcsr, later.ip.trans first.ip, later.ie.trans first.ie,
      later.instret.trans first.instret, first.wfi ∘ later.wfi⟩

/-- A second access traps again: a trap does not turn FS on. -/
theorem FpCsrOff.again {h : Hart} (off : FpCsrOff h csr) : FpCsrOff (fpCsrTrap csr h) csr := by
  refine ⟨off.1, ?_⟩
  rw [← off.2]
  apply BitVec.eq_of_getLsbD_eq
  intro j inside
  simp only [Status.fs, BitVec.getLsbD_extractLsb', fpCsrTrap]
  rw [trap_status _ _ _ _ (by omega) (by simp [trapBits]; omega)]

theorem csrWrite_off (off : FpCsrOff c.hart csr) (val : Word) : csrWrite c csr val = c.mapHart (fpCsrTrap csr) := by
  obtain ⟨fp, off⟩ := off
  have gated (f : Hart → Hart) : withFs c csr f = c.mapHart (fpCsrTrap csr) := if_pos off
  simp only [fpCsr, Bool.or_eq_true, beq_iff_eq] at fp
  rcases fp with (rfl | rfl) | rfl <;> exact gated _

/-- The write after a read that has trapped. -/
theorem csrWrite_trapped (off : FpCsrOff c.hart csr) (val : Word) :
    csrWrite (c.mapHart (fpCsrTrap csr)) csr val = c.mapHart (fpCsrTrap csr)^[2] := by
  have again : FpCsrOff (c.mapHart (fpCsrTrap csr)).hart csr := off.again
  rw [csrWrite_off again]
  rfl

section Handlers

variable {i : InstructionData}

theorem csrRead_trap (off : FpCsrOff c.hart csr) : c.csrRead csr = (0, c.mapHart (fpCsrTrap csr)) := by
  have value : (c.csrRead csr).1 = 0 := by
    obtain ⟨fp, off⟩ := off
    have gated (v : Word) (h h' : Hart) : (if Status.fs c.hart.status = 0 then ((0 : Word), h) else (v, h')).1 = 0 := by
      rw [if_pos off]
    simp only [fpCsr, Bool.or_eq_true, beq_iff_eq] at fp
    rcases fp with (rfl | rfl) | rfl <;> exact gated ..
  have core : (c.csrRead csr).2 = c.mapHart (fpCsrTrap csr) := by
    rw [Core.csrRead_core, if_pos off]
    rfl
  exact Prod.ext value core

theorem Core.csrRead_value (c : Core) (csr : BitVec 12) : (c.csrRead csr).1 = (Rv64Vm.csrRead c.hart csr).1 := rfl

theorem update_reads (old : Word) (r : BitVec 5) :
    Function.update c.hart.gpr i.rd old r = if r = i.rd then old else c.gpr r := Function.update_apply ..

/-- A write that also puts the old value into `rd`, or not. -/
theorem CsrDoes.write (form : CsrForm) (allowed : csrAllowed c.hart i.csr (form.checked i) = true)
    (on : ¬ FpCsrOff c.hart i.csr) (writes : form.writes i = true)
    (value : form.value c i (csrRead c.hart i.csr).1 = val) :
    CsrDoes form c i ⟨{}, (csrWrite c i.csr val).setGpr i.rd (csrRead c.hart i.csr).1⟩ ∧
      (i.rd = 0 → CsrDoes form c i ⟨{}, csrWrite c i.csr val⟩) := by
  subst value
  constructor
  · refine .written allowed on writes _ (fun r _ => update_reads _ r) ?_
    rw [Core.setGpr_eq_withGpr, csrWrite_gpr]
  · intro none
    refine .written allowed on writes c.hart.gpr (fun r nonzero => ?_) ?_
    · rw [none, if_neg nonzero]
      rfl
    · rw [← csrWrite_eq_withGpr]

theorem csrRW_runs : CsrForm.rw.Runs execCSRRW := by
  intro bus c i
  unfold execCSRRW
  dsimp only
  cases allowed : csrAllowed c.hart i.csr true with
  | false => exact ⟨_, rfl, .refused allowed rfl⟩
  | true =>
    refine ⟨_, rfl, ?_⟩
    by_cases off : FpCsrOff c.hart i.csr
    · rw [csrRead_trap off]
      dsimp only
      rw [csrWrite_trapped off]
      refine .trapped allowed off ?_
      by_cases link : i.rd ≠ 0
      · simp only [CsrForm.trapped, CsrForm.rw, if_pos link, decide_eq_true link, if_true]
      · simp only [CsrForm.trapped, CsrForm.rw, if_neg link, decide_eq_false link, Bool.false_eq_true, if_false]
    · obtain ⟨linked, plain⟩ := CsrDoes.write .rw allowed off rfl rfl
      rw [csrRead_on off, Core.csrRead_value]
      by_cases link : i.rd ≠ 0
      · rw [if_pos link]
        exact linked
      · rw [if_neg link]
        exact plain (Decidable.not_not.mp link)

theorem csrModify_runs (mask : Core → InstructionData → Word) (f : Word → Word → Word) :
    (CsrForm.modify mask f).Runs (csrModify mask f) := by
  intro bus c i
  unfold csrModify
  dsimp only
  cases allowed : csrAllowed c.hart i.csr (i.rs1 ≠ 0) with
  | false => exact ⟨_, rfl, .refused allowed rfl⟩
  | true =>
    refine ⟨_, rfl, ?_⟩
    by_cases off : FpCsrOff c.hart i.csr
    · rw [csrRead_trap off]
      refine .trapped allowed off ?_
      by_cases writes : i.rs1 ≠ 0
      · simp only [CsrForm.trapped, CsrForm.modify, if_pos writes, csrWrite_trapped off, if_true]
      · simp only [CsrForm.trapped, CsrForm.modify, if_neg writes, if_true]
        rfl
    · rw [csrRead_on off, Core.csrRead_value]
      by_cases writes : i.rs1 ≠ 0
      · rw [if_pos writes]
        exact (CsrDoes.write (.modify mask f) allowed off (decide_eq_true writes) rfl).1
      · rw [if_neg writes]
        exact .read allowed off (decide_eq_false writes) rfl

theorem csrRWI_runs : CsrForm.rwi.Runs execCSRRWI := by
  intro bus c i
  unfold execCSRRWI
  dsimp only
  cases allowed : csrAllowed c.hart i.csr (i.rs1 ≠ 0) with
  | false => exact ⟨_, rfl, .refused allowed rfl⟩
  | true =>
    refine ⟨_, rfl, ?_⟩
    by_cases off : FpCsrOff c.hart i.csr
    · refine .trapped allowed off ?_
      by_cases link : i.rd ≠ 0
      · rw [if_pos link, csrRead_trap off]
        dsimp only
        rw [Core.setGpr_eq_withGpr, csrWrite_withGpr, csrWrite_trapped off]
        simp only [CsrForm.trapped, CsrForm.rwi, if_pos link, decide_eq_true link, if_true, Core.setGpr_eq_withGpr]
        have kept : ((fpCsrTrap i.csr)^[2] c.hart).gpr = (fpCsrTrap i.csr c.hart).gpr :=
          (fpCsrTraps_frame i.csr 1 (fpCsrTrap i.csr c.hart)).gpr
        simp only [Core.mapHart, Core.withGpr, kept]
      · rw [if_neg link, csrWrite_off off]
        simp only [CsrForm.trapped, CsrForm.rwi, if_neg link, decide_eq_false link, Bool.false_eq_true, if_false]
        rfl
    · obtain ⟨linked, plain⟩ := CsrDoes.write .rwi allowed off rfl rfl
      by_cases link : i.rd ≠ 0
      · rw [if_pos link, csrRead_on off, Core.csrRead_value, Core.setGpr_eq_withGpr, csrWrite_withGpr,
          ← csrWrite_gpr c i.csr i.uimm]
        exact linked
      · rw [if_neg link]
        exact plain (Decidable.not_not.mp link)

end Handlers

/-! ## From the instruction word -/

/-- The form that a minor opcode stands for. -/
def CsrForm.ofMinor (minor : BitVec 3) : CsrForm :=
  match minor.toNat with
  | 1 => .rw
  | 2 => .rs
  | 3 => .rc
  | 5 => .rwi
  | 6 => .rsi
  | _ => .rci

/-- The form of a CSR instruction. -/
def csrForm (w : Inst) : CsrForm := .ofMinor (w.extractLsb' 12 3)

theorem Instruction.Matches.and_eq (hit : ins.Matches w) {m : Inst} (inside : ins.mask &&& m = m) :
    w &&& m = ins.matchBits &&& m := by
  rw [← inside, ← BitVec.and_assoc, show w &&& ins.mask = ins.matchBits from hit, inside]

theorem minor_of_matches (hit : ins.Matches w) (mask : ins.mask = 0x707F) :
    w.extractLsb' 12 3 = ins.matchBits.extractLsb' 12 3 := by
  have bits : w &&& 0x7000 = ins.matchBits &&& 0x7000 := hit.and_eq (by rw [mask]; decide)
  have field (x : Inst) : x.extractLsb' 12 3 = (x &&& 0x7000).extractLsb' 12 3 := by
    apply BitVec.eq_of_getLsbD_eq
    intro j inside
    obtain rfl | rfl | rfl : j = 0 ∨ j = 1 ∨ j = 2 := by omega
    · simp
    · simp
    · simp
  rw [field w, bits, ← field]

/-- What the CSR entries of the table have in common: the handler is of the form that the minor opcode says. -/
structure CsrEntry (ins : Instruction) : Prop where
  imm : ins.immDecode = some immZicsr
  mask : ins.mask = 0x707F
  value : ins.matchBits &&& 0x7F = 0x73 ∧ ins.matchBits &&& 0x3000 ≠ 0
  runs : (CsrForm.ofMinor (ins.matchBits.extractLsb' 12 3)).Runs ins.func
  traps : ∀ i, (CsrForm.ofMinor (ins.matchBits.extractLsb' 12 3)).traps i ≠ 0
  /-- `CSRRW` and `CSRRWI` always write, the others if their operand field is not 0. -/
  writes : ∀ i, (CsrForm.ofMinor (ins.matchBits.extractLsb' 12 3)).writes i = true →
    ins.matchBits &&& 0x3000 = 0x1000 ∨ i.rs1 ≠ 0

/-- An access that traps is counted. -/
theorem CsrEntry.trapped_traps (entry : CsrEntry ins) (c : Core) (i : InstructionData) :
    c.hart.traps < ((CsrForm.ofMinor (ins.matchBits.extractLsb' 12 3)).trapped c i).hart.traps := by
  obtain ⟨g, after⟩ := (CsrForm.ofMinor (ins.matchBits.extractLsb' 12 3)).trapped_eq c i
  have taken := entry.traps i
  rw [after]
  exact (fpCsrTraps_frame ..).traps ▸ Nat.lt_add_of_pos_right (Nat.pos_of_ne_zero taken)

theorem CsrEntry.of_value (v : Inst) (bits : ins.mask = 0x707F ∧ ins.matchBits = v)
    (value : v &&& 0x7F = 0x73 ∧ v &&& 0x3000 ≠ 0) (imm : ins.immDecode = some immZicsr)
    (runs : (CsrForm.ofMinor (v.extractLsb' 12 3)).Runs ins.func)
    (traps : ∀ i, (CsrForm.ofMinor (v.extractLsb' 12 3)).traps i ≠ 0)
    (writes : ∀ i, (CsrForm.ofMinor (v.extractLsb' 12 3)).writes i = true → v &&& 0x3000 = 0x1000 ∨ i.rs1 ≠ 0) :
    CsrEntry ins := by
  obtain ⟨mask, rfl⟩ := bits
  exact ⟨imm, mask, value, runs, traps, writes⟩

theorem zicsr_entries : ∀ ins ∈ initZicsr, CsrEntry ins := by
  have always {v : Inst} (here : v &&& 0x3000 = 0x1000) {p : InstructionData → Prop} :
      ∀ i : InstructionData, p i → v &&& 0x3000 = 0x1000 ∨ i.rs1 ≠ 0 := fun _ _ => .inl here
  have operand {v : Inst} : ∀ i : InstructionData, decide (i.rs1 ≠ 0) = true → v &&& 0x3000 = 0x1000 ∨ i.rs1 ≠ 0 :=
    fun _ active => .inr (of_decide_eq_true active)
  have oneOrTwo {p : Prop} [Decidable p] : (if p then 2 else 1) ≠ 0 := by split <;> decide
  simp only [← List.forall_iff_forall_mem, initZicsr, List.Forall]
  refine ⟨?_, ?_, ?_, ?_, ?_, ?_⟩
  · exact .of_value 0x1073 (by decide +kernel) (by decide) rfl csrRW_runs nofun (always (by decide))
  · exact .of_value 0x2073 (by decide +kernel) (by decide) rfl (csrModify_runs _ _) (fun _ => oneOrTwo) operand
  · exact .of_value 0x3073 (by decide +kernel) (by decide) rfl (csrModify_runs _ _) (fun _ => oneOrTwo) operand
  · exact .of_value 0x5073 (by decide +kernel) (by decide) rfl csrRWI_runs (fun _ => oneOrTwo) (always (by decide))
  · exact .of_value 0x6073 (by decide +kernel) (by decide) rfl (csrModify_runs _ _) (fun _ => oneOrTwo) operand
  · exact .of_value 0x7073 (by decide +kernel) (by decide) rfl (csrModify_runs _ _) (fun _ => oneOrTwo) operand

theorem zicsr_does (mem : ins ∈ initZicsr) (hit : ins.Matches w) {bus : Bus}
    {i : InstructionData} {e : Executed} (ok : ins.func bus c i = .ok e) : CsrDoes (csrForm w) c i e := by
  have entry := zicsr_entries ins mem
  rw [csrForm, minor_of_matches hit entry.mask]
  exact entry.runs.does ok

end Rv64Vm
