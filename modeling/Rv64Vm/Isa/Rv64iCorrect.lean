import Rv64Vm.Isa.Rv64iSpec

/-! # RV64I against the manual

Every RV64I word, decoded and run with `x0` cleared before and after it as the
interpreter loops do, has the effect that the manual gives it.
-/

namespace Rv64Vm.Rv64i

open Encoding Lib
open Rv64Vm.Core (clearX0)

/-! ## The table -/

def Register.handler : Register → Handler
  | .add => execADD
  | .addw => execADDW
  | .sub => execSUB
  | .subw => execSUBW
  | .xor => execXOR
  | .or => execOR
  | .and => execAND
  | .sll => execSLL
  | .sllw => execSLLW
  | .srl => execSRL
  | .srlw => execSRLW
  | .sra => execSRA
  | .sraw => execSRAW
  | .slt => execSLT
  | .sltu => execSLTU

def Immediate.handler : Immediate → Handler
  | .addi => execADDI
  | .addiw => execADDIW
  | .xori => execXORI
  | .ori => execORI
  | .andi => execANDI
  | .slti => execSLTI
  | .sltiu => execSLTIU

def Shift.handler : Shift → Handler
  | .slli => execSLLI
  | .srli => execSRLI
  | .srai => execSRAI

def ShiftW.handler : ShiftW → Handler
  | .slliw => execSLLIW
  | .srliw => execSRLIW
  | .sraiw => execSRAIW

def Load.handler : Load → Handler
  | .lb => execLB
  | .lh => execLH
  | .lw => execLW
  | .ld => execLD
  | .lbu => execLBU
  | .lhu => execLHU
  | .lwu => execLWU

def Store.handler : Store → Handler
  | .sb => execSB
  | .sh => execSH
  | .sw => execSW
  | .sd => execSD

def Branch.handler : Branch → Handler
  | .beq => execBEQ
  | .bne => execBNE
  | .blt => execBLT
  | .bge => execBGE
  | .bltu => execBLTU
  | .bgeu => execBGEU

theorem held_families :
    (∀ op : Register, op.encoding.Held op.handler none) ∧
    (∀ op : Immediate, op.encoding.Held op.handler (some immI)) ∧
    (∀ op : Shift, op.encoding.Held op.handler (some shamt64)) ∧
    (∀ op : ShiftW, (op.encoding 0).Held op.handler (some shamt)) ∧
    (∀ op : Load, op.encoding.Held op.handler (some immI)) ∧
    (∀ op : Store, op.encoding.Held op.handler (some immS)) ∧
    (∀ op : Branch, op.encoding.Held op.handler (some immB)) := by
  refine ⟨?_, ?_, ?_, ?_, ?_, ?_, ?_⟩
  · intro op
    cases op with
    | add => exact held_at mem_rv64i 0 rfl
    | addw => exact held_at mem_rv64i 1 rfl
    | sub => exact held_at mem_rv64i 2 rfl
    | subw => exact held_at mem_rv64i 3 rfl
    | xor => exact held_at mem_rv64i 4 rfl
    | or => exact held_at mem_rv64i 5 rfl
    | and => exact held_at mem_rv64i 6 rfl
    | sll => exact held_at mem_rv64i 7 rfl
    | sllw => exact held_at mem_rv64i 8 rfl
    | srl => exact held_at mem_rv64i 9 rfl
    | srlw => exact held_at mem_rv64i 10 rfl
    | sra => exact held_at mem_rv64i 11 rfl
    | sraw => exact held_at mem_rv64i 12 rfl
    | slt => exact held_at mem_rv64i 13 rfl
    | sltu => exact held_at mem_rv64i 14 rfl
  · intro op
    cases op with
    | addi => exact held_at mem_rv64i 15 rfl
    | addiw => exact held_at mem_rv64i 16 rfl
    | xori => exact held_at mem_rv64i 17 rfl
    | ori => exact held_at mem_rv64i 18 rfl
    | andi => exact held_at mem_rv64i 19 rfl
    | slti => exact held_at mem_rv64i 26 rfl
    | sltiu => exact held_at mem_rv64i 27 rfl
  · intro op
    cases op with
    | slli => exact held_at mem_rv64i 20 rfl
    | srli => exact held_at mem_rv64i 24 rfl
    | srai => exact held_at mem_rv64i 25 rfl
  · intro op
    cases op with
    | slliw => exact held_at mem_rv64i 21 rfl
    | srliw => exact held_at mem_rv64i 22 rfl
    | sraiw => exact held_at mem_rv64i 23 rfl
  · intro op
    cases op with
    | lb => exact held_at mem_rv64i 28 rfl
    | lh => exact held_at mem_rv64i 29 rfl
    | lw => exact held_at mem_rv64i 30 rfl
    | ld => exact held_at mem_rv64i 31 rfl
    | lbu => exact held_at mem_rv64i 32 rfl
    | lhu => exact held_at mem_rv64i 33 rfl
    | lwu => exact held_at mem_rv64i 34 rfl
  · intro op
    cases op with
    | sb => exact held_at mem_rv64i 35 rfl
    | sh => exact held_at mem_rv64i 36 rfl
    | sw => exact held_at mem_rv64i 37 rfl
    | sd => exact held_at mem_rv64i 38 rfl
  · intro op
    cases op with
    | beq => exact held_at mem_rv64i 39 rfl
    | bne => exact held_at mem_rv64i 40 rfl
    | blt => exact held_at mem_rv64i 41 rfl
    | bge => exact held_at mem_rv64i 42 rfl
    | bltu => exact held_at mem_rv64i 43 rfl
    | bgeu => exact held_at mem_rv64i 44 rfl

theorem Register.held (op : Register) : op.encoding.Held op.handler none := held_families.1 op
theorem Immediate.held (op : Immediate) : op.encoding.Held op.handler (some immI) := held_families.2.1 op
theorem Shift.held (op : Shift) : op.encoding.Held op.handler (some shamt64) := held_families.2.2.1 op
theorem ShiftW.held (op : ShiftW) : (op.encoding 0).Held op.handler (some shamt) := held_families.2.2.2.1 op
theorem Load.held (op : Load) : op.encoding.Held op.handler (some immI) := held_families.2.2.2.2.1 op
theorem Store.held (op : Store) : op.encoding.Held op.handler (some immS) := held_families.2.2.2.2.2.1 op
theorem Branch.held (op : Branch) : op.encoding.Held op.handler (some immB) := held_families.2.2.2.2.2.2 op

theorem held_JAL : Instr.jal.encoding.Held execJAL (some immJ) := held_at mem_rv64i 45 rfl
theorem held_JALR : Instr.jalr.encoding.Held execJALR (some immI) := held_at mem_rv64i 46 rfl
theorem held_LUI : Instr.lui.encoding.Held execLUI (some immU) := held_at mem_rv64i 47 rfl
theorem held_AUIPC : Instr.auipc.encoding.Held execAUIPC (some immU) := held_at mem_rv64i 48 rfl

theorem instructions_apart : (instructions.map (·.fields)).all (fun f =>
    [ShiftW.slliw, .srliw, .sraiw].all fun op => !overlapB f (op.encoding 1).fields) = true := by
  rw [fields_eq_spelling]
  decide +kernel

/-- No registered encoding has the reserved bit. -/
theorem ShiftW.unknown (op : ShiftW) {w : Inst} (is : (op.encoding 1).Is w) : selected w = none := by
  apply is.unknown
  intro f mem
  have row := List.all_eq_true.mp instructions_apart f mem
  have listed : op ∈ [ShiftW.slliw, .srliw, .sraiw] := by cases op <;> decide
  simpa using List.all_eq_true.mp row op listed

/-! ## Values -/

section Values

variable (a b : Word)

theorem flag_slt : flag (a.slt b) = if a.toInt < b.toInt then 1 else 0 := by
  rw [flag, BitVec.slt_eq_decide]
  simp only [decide_eq_true_eq]

theorem flag_ult : flag (a.ult b) = if a.toNat < b.toNat then 1 else 0 := by
  rw [flag, BitVec.ult_eq_decide]
  simp only [decide_eq_true_eq]

theorem toNat_low_and_31 : (low b &&& 0x1F).toNat = shiftAmountW b := by
  have narrow : (low b &&& 0x1F).toNat = (low b).toNat % 32 := by
    rw [BitVec.toNat_and]
    exact Nat.and_two_pow_sub_one_eq_mod _ 5
  rw [narrow, ← shiftAmountW_eq, toNat_and_31, low, BitVec.toNat_setWidth]
  omega

theorem addiw_eq (imm : Word) : sextW (low ((low a).setWidth 64 + imm)) = word32 ((a + imm).extractLsb' 0 32) := by
  have sum : low ((low a).setWidth 64 + imm) = low (a + imm) := by
    rw [low, BitVec.setWidth_add _ _ (by decide), BitVec.setWidth_setWidth_of_le _ (by decide), BitVec.setWidth_eq,
      low, low, BitVec.setWidth_add _ _ (by decide)]
  rw [sum, extract_low, sextW, word32]

end Values

theorem Register.handler_eq (op : Register) (bus : Bus) (c : Core) (i : InstructionData) :
    op.handler bus c i = .ok ⟨{}, c.setGpr i.rd (op.value (c.gpr i.rs1) (c.gpr i.rs2))⟩ := by
  cases op with
  | add | addw | sub | subw | xor | or | and => rfl
  | sll => exact written_congr (congrArg (fun n : Nat => c.gpr i.rs1 <<< n) (shiftAmount_eq _))
  | srl => exact written_congr (congrArg (fun n : Nat => c.gpr i.rs1 >>> n) (shiftAmount_eq _))
  | sra => exact written_congr (congrArg (c.gpr i.rs1).sshiftRight (shiftAmount_eq _))
  | sllw => exact written_congr (congrArg (fun n : Nat => sextW (low (c.gpr i.rs1) <<< n)) (toNat_low_and_31 _))
  | srlw => exact written_congr (congrArg (fun n : Nat => sextW (low (c.gpr i.rs1) >>> n)) (toNat_low_and_31 _))
  | sraw => exact written_congr (congrArg (fun n : Nat => sextW ((low (c.gpr i.rs1)).sshiftRight n))
      (toNat_low_and_31 _))
  | slt => exact written_congr (flag_slt ..)
  | sltu => exact written_congr (flag_ult ..)

theorem Immediate.handler_eq (op : Immediate) (bus : Bus) (c : Core) (w : Inst) :
    op.handler bus c (.ofInst w (some immI)) = .ok ⟨{}, c.setGpr (dRd w) (op.value (c.gpr (dRs1 w)) (iImm w))⟩ := by
  rw [iImm, ← immI_eq]
  cases op with
  | addi | xori | ori | andi => rfl
  | addiw => exact written_congr (addiw_eq ..)
  | slti => exact written_congr (flag_slt ..)
  | sltiu => exact written_congr (flag_ult ..)

theorem shamt64_eq (w : Inst) : (shamt64 w).toNat = (w.extractLsb' 20 6).toNat := by
  have code : Joins shamt64 :=
    ((((Joins.id.shiftRight 20).shiftLeft 20).sshiftRight 20).signExtend 64).and _
  have spec : Joins fun w : Inst => (w.extractLsb' 20 6).setWidth 64 := (Joins.field 20 6).setWidth 64
  rw [code.ext spec rfl (by decide) w, BitVec.toNat_setWidth_of_le (by decide)]

theorem shamt_eq (w : Inst) : (shamt w).toNat = (w.extractLsb' 20 5).toNat := by
  have code : Joins shamt :=
    ((((Joins.id.shiftRight 20).shiftLeft 20).sshiftRight 20).signExtend 64).and _
  have spec : Joins fun w : Inst => (w.extractLsb' 20 5).setWidth 64 := (Joins.field 20 5).setWidth 64
  rw [code.ext spec rfl (by decide) w, BitVec.toNat_setWidth_of_le (by decide)]

theorem Shift.handler_eq (op : Shift) (bus : Bus) (c : Core) (w : Inst) :
    op.handler bus c (.ofInst w (some shamt64)) =
      .ok ⟨{}, c.setGpr (dRd w) (op.value (c.gpr (dRs1 w)) (w.extractLsb' 20 6).toNat)⟩ := by
  rw [← shamt64_eq]
  cases op with
  | slli | srli | srai => rfl

theorem ShiftW.handler_eq (op : ShiftW) (bus : Bus) (c : Core) (w : Inst) :
    op.handler bus c (.ofInst w (some shamt)) =
      .ok ⟨{}, c.setGpr (dRd w) (op.value (c.gpr (dRs1 w)) (w.extractLsb' 20 5).toNat)⟩ := by
  rw [← shamt_eq]
  cases op with
  | slliw | srliw | sraiw => rfl

theorem Load.handler_eq (op : Load) :
    ∃ signed, op.handler = load op.bytes signed ∧ ∀ v, widen op.bytes signed v = op.value v := by
  cases op with
  | lb | lh | lw => exact ⟨true, rfl, fun _ => rfl⟩
  | lbu | lhu | lwu => exact ⟨false, rfl, fun _ => rfl⟩
  | ld =>
    refine ⟨false, rfl, fun v => ?_⟩
    change (v.setWidth 64).setWidth 64 = (v.extractLsb' 0 64).signExtend 64
    rw [BitVec.setWidth_eq, BitVec.setWidth_eq, BitVec.signExtend_eq]
    exact (BitVec.extractLsb'_eq_self).symm

theorem Store.handler_eq (op : Store) : op.handler = store op.bytes := by
  cases op with
  | sb | sh | sw | sd => rfl

theorem Branch.handler_eq (op : Branch) : op.handler = branchIf fun a b => op.taken a b := by
  have same {f g : Word → Word → Bool} (eq : ∀ a b, f a b = g a b) : branchIf f = branchIf g := by
    rw [funext fun a => funext (eq a)]
  have atLeast {a b : Word} : (!a.slt b) = decide (b.toInt ≤ a.toInt) := by
    rw [BitVec.slt_eq_decide, ← decide_not]
    simp only [not_lt]
  have atLeastU {a b : Word} : (!a.ult b) = decide (b.toNat ≤ a.toNat) := by
    rw [BitVec.ult_eq_decide, ← decide_not]
    simp only [not_lt]
  have differs (a b : Word) : (a != b) = decide (a ≠ b) := by
    rw [bne_eq, beq_eq_decide, decide_not]
  cases op with
  | beq => exact same fun a b => beq_eq_decide a b
  | bne => exact same (f := fun a b => a != b) differs
  | blt => exact same (f := fun a b => a.slt b) fun a b => BitVec.slt_eq_decide
  | bge => exact same (f := fun a b => !a.slt b) fun a b => atLeast
  | bltu => exact same (f := fun a b => a.ult b) fun a b => BitVec.ult_eq_decide
  | bgeu => exact same (f := fun a b => !a.ult b) fun a b => atLeastU

/-! ## Steps -/

section Steps

variable {bus : Bus} {c : Core} {w : Inst}

theorem registers_eq (c : Core) (r : BitVec 5) : registers c r = (clearX0 c).gpr r := by
  rw [registers, clearX0, Core.gpr, Core.setGpr, Core.mapHart]
  exact (Function.update_apply c.hart.gpr 0 0 r).symm

theorem clearX0_setGpr (c : Core) (rd : BitVec 5) (v : Word) :
    clearX0 (c.setGpr rd v) = clearX0 (writeRegister c rd v) := by
  by_cases zero : rd = 0
  · rw [writeRegister, if_pos zero, zero]
    simp [clearX0, Core.setGpr, Core.mapHart]
  · rw [writeRegister, if_neg zero]

theorem runWord_of_exec {e : Executed} (ran : execWord bus (clearX0 c) w = .ok e) :
    runWord bus c w = .ok (outcome e).clearX0 := by
  rw [runWord, ran]
  rfl

theorem run_write {v : Word} (ran : execWord bus (clearX0 c) w = .ok ⟨{}, (clearX0 c).setGpr (dRd w) v⟩) :
    runWord bus c w = ((Effect.write (dRd w) v).apply (machine bus) (clearX0 c)).map Step.clearX0 := by
  rw [runWord_of_exec ran]
  exact congrArg (fun d => Except.ok (Step.retired (d.setPc (c.hart.pc + 4)))) (clearX0_setGpr ..)

theorem run_load {n : Nat} {signed : Bool} {imm : Word} {value : Word → Word} {rs1 : BitVec 5}
    (same : ∀ v, widen n signed v = value v)
    (ran : execWord bus (clearX0 c) w = loadTo n signed 4 (dRd w) rs1 imm bus (clearX0 c)) :
    runWord bus c w =
      ((Effect.load (dRd w) ((clearX0 c).gpr rs1 + imm) n value).apply (machine bus) (clearX0 c)).map Step.clearX0 := by
  rw [runWord, ran, loadTo, Effect.apply_load, show (machine bus).read = mmioRead bus from rfl]
  cases mmioRead bus (clearX0 c) ((clearX0 c).gpr rs1 + imm) n with
  | error e => rfl
  | ok a =>
    cases done : a.ret.isSuccess with
    | false =>
      simp only [bind, Except.bind, done, pure, Except.pure, Except.map]
      rfl
    | true =>
      simp only [bind, Except.bind, done, pure, Except.pure, Except.map, if_true, same]
      exact congrArg (fun d => Except.ok (Step.retired (d.setPc (a.core.hart.pc + 4)))) (clearX0_setGpr ..)

theorem run_store {n : Nat} {imm : Word} {rs1 rs2 : BitVec 5}
    (ran : execWord bus (clearX0 c) w = storeFrom n 4 rs1 rs2 imm bus (clearX0 c)) :
    runWord bus c w =
      ((Effect.store ((clearX0 c).gpr rs1 + imm) n ((clearX0 c).gpr rs2)).apply (machine bus) (clearX0 c)).map
        Step.clearX0 := by
  rw [runWord, ran, storeFrom, Effect.apply_store, show (machine bus).write = mmioWrite bus from rfl]
  cases mmioWrite bus (clearX0 c) ((clearX0 c).gpr rs1 + imm) n ((clearX0 c).gpr rs2) with
  | error e => rfl
  | ok a =>
    cases done : a.ret.isSuccess with
    | false =>
      simp only [bind, Except.bind, done, pure, Except.pure, Except.map]
      rfl
    | true =>
      simp only [bind, Except.bind, done, pure, Except.pure, Except.map]
      rfl

theorem run_branch {taken : Word → Word → Bool} {i : InstructionData}
    (ran : execWord bus (clearX0 c) w = branchIf taken bus (clearX0 c) i) :
    runWord bus c w = ((if taken ((clearX0 c).gpr i.rs1) ((clearX0 c).gpr i.rs2) then Effect.goto (c.hart.pc + i.imm)
      else .next).apply (machine bus) (clearX0 c)).map Step.clearX0 := by
  rw [runWord, ran, branchIf]
  cases taken ((clearX0 c).gpr i.rs1) ((clearX0 c).gpr i.rs2) with
  | false => rfl
  | true =>
    have pc : (clearX0 c).hart.pc = c.hart.pc := rfl
    have here : (c.hart.pc + i.imm) + 0#64 = c.hart.pc + i.imm := BitVec.add_zero _
    by_cases odd : (c.hart.pc + i.imm) % 2 ≠ 0
    · simp only [if_true, pc, if_pos odd, Effect.apply_goto, jumpTo]
      rfl
    · simp only [if_true, pc, if_neg odd, Effect.apply_goto, jumpTo, Except.map]
      exact congrArg (fun target => Except.ok (Step.retired ((clearX0 (clearX0 c)).setPc target))) here

theorem run_link {rd : BitVec 5} {v target : Word}
    (ran : execWord bus (clearX0 c) w =
      if target % 2 ≠ 0 then .ok ⟨⟨false, true, 0, excInstAddrMisaligned, target⟩, clearX0 c⟩
      else .ok (linkTo (clearX0 c) rd target v)) :
    runWord bus c w = ((Effect.link rd v target).apply (machine bus) (clearX0 c)).map Step.clearX0 := by
  rw [runWord, ran]
  by_cases odd : target % 2 ≠ 0
  · simp only [if_pos odd, Effect.apply, jumpTo]
    rfl
  · have here : target + 0#64 = target := BitVec.add_zero _
    have linked : (outcome (linkTo (clearX0 c) rd target v)).clearX0 =
        .retired (clearX0 (((clearX0 c).setPc target).setGpr rd v)) :=
      congrArg (fun pc => Step.retired (((clearX0 ((clearX0 c).setGpr rd v)).setPc pc))) here
    simp only [if_neg odd, Effect.apply, jumpTo, Except.map, linked, clearX0_setGpr]
    rfl

end Steps

/-- Every RV64I word does what the manual says on the memory of the machine: its registers, immediates, shift amounts
and reserved encodings, the next instruction and the link, and the address and value of an access. -/
theorem runWord_eq_runOn (i : Instr) (bus : Bus) (c : Core) (w : Inst) (is : i.encoding.Is w) :
    runWord bus c w = i.runOn (machine bus) c w := by
  rw [Instr.runOn]
  cases i with
  | register op =>
    simp only [Instr.effect, registers_eq]
    exact run_write ((op.held.exec is ..).trans (op.handler_eq ..))
  | immediate op =>
    simp only [Instr.effect, registers_eq]
    exact run_write ((op.held.exec is ..).trans (op.handler_eq ..))
  | shift op =>
    simp only [Instr.effect, registers_eq]
    exact run_write ((op.held.exec is ..).trans (op.handler_eq ..))
  | shiftW op =>
    simp only [Instr.effect, registers_eq]
    exact run_write ((op.held.exec is ..).trans (op.handler_eq ..))
  | reserved op =>
    have illegal : execWord bus (clearX0 c) w =
        .ok ⟨⟨false, false, 0, excIllegalInstruction, w.setWidth 64⟩, clearX0 c⟩ := by
      rw [execWord, op.unknown is]
    rw [runWord_of_exec illegal]
    rfl
  | load op =>
    obtain ⟨signed, handler, same⟩ := op.handler_eq
    simp only [Instr.effect, registers_eq]
    rw [iImm, ← immI_eq]
    exact run_load same ((op.held.exec is ..).trans (by rw [handler]; rfl))
  | store op =>
    simp only [Instr.effect, registers_eq]
    rw [sImm, ← immS_eq]
    exact run_store ((op.held.exec is ..).trans (by rw [op.handler_eq]; rfl))
  | branch op =>
    simp only [Instr.effect, registers_eq]
    rw [bImm, ← immB_eq]
    exact run_branch ((op.held.exec is ..).trans (by rw [op.handler_eq]))
  | lui =>
    simp only [Instr.effect]
    rw [uImm, ← immU_eq]
    exact run_write (held_LUI.exec is ..)
  | auipc =>
    simp only [Instr.effect]
    rw [uImm, ← immU_eq]
    exact run_write (held_AUIPC.exec is ..)
  | jal =>
    simp only [Instr.effect]
    rw [jImm, ← immJ_eq]
    exact run_link (held_JAL.exec is ..)
  | jalr =>
    simp only [Instr.effect, registers_eq]
    rw [iImm, ← immI_eq]
    exact run_link (held_JALR.exec is ..)

/-! ## Memory -/

/-- The access of an effect loses bytes, and a register or memory shows it. -/
def Effect.Loses (bus : Bus) (c : Core) : Effect → Prop
  | .load rd addr n _ => rd ≠ 0 ∧ LosesRead bus c addr n
  | .store addr n v => LosesWrite bus c addr n v
  | _ => False

def Instr.accesses : Instr → Bool
  | .load _ | .store _ => true
  | _ => false

/-- Loads do not mix up what they read. -/
theorem Load.value_inj (op : Load) {v v' : Word} (same : op.value v = op.value v') :
    v.extractLsb' 0 (8 * op.bytes) = v'.extractLsb' 0 (8 * op.bytes) := by
  have width : 8 * op.bytes ≤ 64 := by cases op <;> decide
  have back {x y : BitVec (8 * op.bytes)} {signed : Bool}
      (eq : (if signed then x.signExtend 64 else x.setWidth 64) = if signed then y.signExtend 64 else y.setWidth 64) :
      x = y := by
    apply BitVec.eq_of_getLsbD_eq
    intro b inside
    have bit := congrArg (BitVec.getLsbD · b) eq
    have early : b < 64 := by omega
    cases signed with
    | false => simpa [BitVec.getLsbD_setWidth, early] using bit
    | true => simpa only [BitVec.getLsbD_signExtend, early, inside, if_true, decide_true, Bool.true_and] using bit
  exact back same

section Accesses

variable {bus : Bus} {c : Core} {addr : Word} {rd : BitVec 5}

theorem load_iff (op : Load) (ram : RamOk c) :
    ((Effect.load rd addr op.bytes op.value).apply (machine bus) c).map Step.clearX0 =
        ((Effect.load rd addr op.bytes op.value).apply (bytewise bus) c).map Step.clearX0 ↔
      ¬ (rd ≠ 0 ∧ LosesRead bus c addr op.bytes) := by
  have size : op.bytes ∈ dramSizes := by cases op <;> decide
  rw [Effect.apply_load, Effect.apply_load, machine, bytewise]
  dsimp only
  rcases wholeRead_cases bus addr ram size with ⟨kept, same⟩ | ⟨loses, v, v', c', read, whole, differ⟩
  · exact iff_of_true (by rw [same]) fun both => kept both.2
  · rw [read, whole]
    by_cases zero : rd = 0
    · refine iff_of_true ?_ fun both => both.1 zero
      subst zero
      rfl
    · refine iff_of_false (fun same => ?_) fun not => not ⟨zero, loses⟩
      have value := congrArg (fun c : Core => c.gpr rd) (Step.retired.inj (Except.ok.inj same))
      simp only [writeRegister, if_neg zero, Core.clearX0, Core.setPc, Core.setGpr, Core.gpr, Core.mapHart,
        Function.update_of_ne zero, Function.update_self] at value
      exact differ (op.value_inj value).symm

theorem store_iff (op : Store) {val : Word} (reachable : c.hart.tlb.GenOk ∧ ShapeOk c) (ram : RamOk c) :
    ((Effect.store addr op.bytes val).apply (machine bus) c).map Step.clearX0 =
        ((Effect.store addr op.bytes val).apply (bytewise bus) c).map Step.clearX0 ↔
      ¬ LosesWrite bus c addr op.bytes val := by
  have size : op.bytes ∈ dramSizes := by cases op <;> decide
  rw [Effect.apply_store, Effect.apply_store, machine, bytewise]
  dsimp only
  rcases wholeWrite_cases bus addr val reachable.1 reachable.2 ram size with
    ⟨kept, same⟩ | ⟨loses, c', c'', wrote, whole, pc, gpr, differ⟩
  · exact iff_of_true (by rw [same]) kept
  · refine iff_of_false (fun same => ?_) fun not => not loses
    rw [wrote, whole] at same
    -- the registers and the program counter are the same after both
    have undone := congrArg (fun d : Core => d.mapHart fun h => { h with pc := c'.hart.pc, gpr := c'.hart.gpr })
      (Step.retired.inj (Except.ok.inj same))
    have other : c''.mapHart (fun h => { h with pc := c'.hart.pc, gpr := c'.hart.gpr }) = c'' := by
      rw [← pc, ← gpr]
      rfl
    exact differ (other.symm.trans undone.symm)

end Accesses

/-- Two pages, and `x1` at byte `off` of them. -/
def pointerCore (off : BitVec 12) : Core :=
  { twoPageCore with
    hart := { twoPageCore.hart with
      gpr := fun r => if r = 1 then 0x80000000 + off.setWidth 64 else if r = 2 then 0x1122334455667788 else 0 } }

theorem pointerCore_reachable (off : BitVec 12) : MmuReachable (pointerCore off) := ⟨pointerCore off, [], rfl, rfl⟩

theorem pointerCore_ramOk (off : BitVec 12) : RamOk (pointerCore off) := twoPageCore_ramOk

end Rv64Vm.Rv64i
