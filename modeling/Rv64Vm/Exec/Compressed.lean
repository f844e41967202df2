import Rv64Vm.Exec.Faults
import Rv64Vm.Isa.CompressedFields
import Rv64Vm.Isa.Rv64iCorrect

/-! # Compressed instructions

The handler of a compressed encoding against that of the instruction it expands to:
the same registers, memory, target and trap, with 2 for the length of the instruction.
-/

namespace Rv64Vm

open Lib Encoding
open Rv64i (held_JAL held_JALR held_LUI Register Immediate Shift Load Store Branch)

/-! ## The same effect -/

/-- The next `pc` of an instruction that succeeds. -/
def Executed.nextPc (e : Executed) : Word := e.core.hart.pc + e.ret.increasePc

/-- The word writes a link register. -/
def links (w : Inst) : Bool := opcode w == 0x67 || opcode w == 0x6F

/-- `short` is what `long`, the effect of `w` on `c`, is for an encoding of two bytes. -/
structure SameEffect (c : Core) (w : Inst) (short long : Executed) : Prop where
  success : short.ret.isSuccess = long.ret.isSuccess
  trap : long.ret.isSuccess = false → short.ret.cause = long.ret.cause ∧ short.ret.tval = long.ret.tval ∧
    short.core.hart.pc = long.core.hart.pc
  next : long.ret.isSuccess = true →
    short.nextPc = if long.ret.increasePc = 4 then c.hart.pc + 2 else long.nextPc
  gpr : ∀ r, r ≠ 0 → short.core.gpr r =
    if long.ret.isSuccess ∧ links w ∧ r = dRd w then c.hart.pc + 2 else long.core.gpr r
  rest : short.core =
    { long.core with hart := { long.core.hart with gpr := short.core.hart.gpr, pc := short.core.hart.pc } }

def SameOutcome (c : Core) (w : Inst) : Except HostError Executed → Except HostError Executed → Prop
  | .ok short, .ok long => SameEffect c w short long
  | .error e, .error e' => e = e'
  | _, _ => False

section Families

variable {bus : Bus} {c : Core} {w : Inst} (plain : links w = false)
include plain

/-- Handlers that differ in the length only. -/
theorem SameEffect.of_core {ret ret' : ExecReturn} {d : Core} (success : ret.isSuccess = ret'.isSuccess)
    (trap : ret'.isSuccess = false → ret.cause = ret'.cause ∧ ret.tval = ret'.tval)
    (short : ret.increasePc = 2) (long : ret'.increasePc = 4)
    (pc : ret'.isSuccess = true → d.hart.pc = c.hart.pc) : SameEffect c w ⟨ret, d⟩ ⟨ret', d⟩ where
  success := success
  trap failed := ⟨(trap failed).1, (trap failed).2, rfl⟩
  next worked := by rw [if_pos long, Executed.nextPc, pc worked, short]
  gpr r _ := by rw [if_neg (by simp [plain])]
  rest := rfl

theorem same_write {rd rd' : BitVec 5} {v v' : Word} (reg : rd = rd') (val : v = v') :
    SameOutcome c w (writeC rd v c) (.ok ⟨{}, c.setGpr rd' v'⟩) := by
  subst reg val
  exact SameEffect.of_core plain rfl nofun rfl rfl fun _ => rfl

theorem same_loaded {addr : Word} {n : Nat} {put : Access → Core} (kept : ∀ a, (put a).hart.pc = a.core.hart.pc) :
    SameOutcome c w
      (do
        let a ← mmioRead bus c addr n
        let ret : ExecReturn := ⟨a.ret.isSuccess, false, 2, a.ret.excCode, a.ret.tval⟩
        if a.ret.isSuccess then return ⟨ret, put a⟩ else return ⟨ret, a.core⟩)
      (do
        let a ← mmioRead bus c addr n
        let ret : ExecReturn := ⟨a.ret.isSuccess, false, 4, a.ret.excCode, a.ret.tval⟩
        if a.ret.isSuccess then return ⟨ret, put a⟩ else return ⟨ret, a.core⟩) := by
  cases read : mmioRead bus c addr n with
  | error e => exact rfl
  | ok a =>
    cases success : a.ret.isSuccess <;>
      simp only [bind, Except.bind, success, if_true, Bool.false_eq_true, if_false]
    · exact .of_core plain rfl (fun _ => ⟨rfl, rfl⟩) rfl rfl nofun
    · exact .of_core plain rfl nofun rfl rfl fun _ => (kept a).trans (mmioRead_unwritten read).accessed.pc

theorem same_stored {addr val : Word} {n : Nat} :
    SameOutcome c w
      (do
        let a ← mmioWrite bus c addr n val
        return ⟨⟨a.ret.isSuccess, false, 2, a.ret.excCode, a.ret.tval⟩, a.core⟩)
      (do
        let a ← mmioWrite bus c addr n val
        return ⟨⟨a.ret.isSuccess, false, 4, a.ret.excCode, a.ret.tval⟩, a.core⟩) := by
  cases wrote : mmioWrite bus c addr n val with
  | error e => exact rfl
  | ok a => exact SameEffect.of_core plain rfl (fun _ => ⟨rfl, rfl⟩) rfl rfl fun _ => (mmioWrite_accessed wrote).pc

section Operands

variable {n : Nat} {r r' rs1 rs1' : BitVec 5} {imm imm' : Word}
variable (reg : r = r') (base : rs1 = rs1') (offset : imm = imm')
include reg base offset

theorem same_load {signed : Bool} :
    SameOutcome c w (loadTo n signed 2 r rs1 imm bus c) (loadTo n signed 4 r' rs1' imm' bus c) := by
  subst reg base offset
  exact same_loaded plain fun _ => rfl

theorem same_fpLoad {box : Word → Word} :
    SameOutcome c w (fpLoadTo n box 2 r rs1 imm bus c) (fpLoadTo n box 4 r' rs1' imm' bus c) := by
  subst reg base offset
  exact same_loaded plain fun _ => rfl

theorem same_store : SameOutcome c w (storeFrom n 2 rs1 r imm bus c) (storeFrom n 4 rs1' r' imm' bus c) := by
  subst reg base offset
  exact same_stored plain

theorem same_fpStore : SameOutcome c w (fpStoreFrom n 2 rs1 r imm bus c) (fpStoreFrom n 4 rs1' r' imm' bus c) := by
  subst reg base offset
  exact same_stored plain

end Operands

end Families

/-! ## The entries of the table -/

theorem held_EBREAK : (⟨0xFFFFFFFF, 0x100073⟩ : Encoding).Held execEBREAK none := held_at mem_rv64i 50 rfl
theorem held_FLD : (minor 0b0000111 0b011).Held execFLD (some immI) := held_at mem_rv64d 30 rfl
theorem held_FSD : (minor 0b0100111 0b011).Held execFSD (some immS) := held_at mem_rv64d 31 rfl

theorem registered_CADDI4SPN : Registered execCADDI4SPN (some dCUimm) (2, 0xE003, 0x0) :=
  registered_at mem_rv64c 0 rfl rfl

section Short

variable {func : Handler} {immDecode : Option (Inst → Word)} {m v half : BitVec 16}

/-- A compressed encoding that is apart from its neighbours. -/
theorem Registered.short (registered : Registered func immDecode (2, m.toNat, v.toNat)) (is : half &&& m = v)
    (alone : ∀ q ∈ neighbours (2, m.toNat, v.toNat), half.toNat &&& q.1 ≠ q.2) (bus : Bus) (c : Core) :
    execWord bus c (Rvc.fetched half) = func bus c (.ofInst (Rvc.fetched half) immDecode) := by
  have same : (Rvc.fetched half).toNat = half.toNat := BitVec.toNat_setWidth_of_le (by decide)
  apply registered.exec
  · rw [same, ← BitVec.toNat_and, is]
  · rwa [same]

/-- What a word of a row of the compressed table does. -/
theorem execWord_row (k : Fin initRv64c.length) (is : half &&& m = v) {chars : List Char} {jit : Option Jit.JitFunc}
    (row : initRv64c.get k = ⟨String.ofList chars, func, immDecode, jit⟩)
    (fields : fieldsOf chars = (2, m.toNat, v.toNat))
    (alone : ∀ q ∈ neighbours (2, m.toNat, v.toNat), half.toNat &&& q.1 ≠ q.2) (bus : Bus) (c : Core) :
    execWord bus c (Rvc.fetched half) = func bus c (.ofInst (Rvc.fetched half) immDecode) := by
  have registered := registered_at mem_rv64c k (congrArg (·.pattern) row) fields
  rw [row] at registered
  exact registered.short is alone bus c

end Short

/-! ## The rows -/

namespace Rvc

/-- The 16-bit word does what the 32-bit word does. -/
def Expands (bus : Bus) (c : Core) (half : BitVec 16) (w : Inst) : Prop :=
  SameOutcome c w (execWord bus c (fetched half)) (execWord bus c w)

theorem Expands.of_eq {bus : Bus} {c : Core} {half : BitVec 16} {w : Inst} {s l : Except HostError Executed}
    (short : execWord bus c (fetched half) = s) (long : execWord bus c w = l) (same : SameOutcome c w s l) :
    Expands bus c half w := by
  rw [Expands, short, long]
  exact same

attribute [simp] dRd_fetched dCRs2_fetched lowC_fetched highC_fetched rdC_fetched dCNzimm_fetched
  dCUimmArith_fetched dCUimm_fetched offsetW_fetched offsetD_fetched offsetLwsp_fetched offsetLdsp_fetched
  offsetSwsp_fetched offsetSdsp_fetched

section Rows

variable {bus : Bus} {c : Core} {half : BitVec 16}

theorem and_covered {m v m' : BitVec 16} (is : half &&& m = v) (covers : m &&& m' = m') :
    half &&& m' = v &&& m' := by rw [← is, BitVec.and_assoc, covers]

theorem low_add (a b : Word) : low (a + b) = low a + low b := BitVec.setWidth_add _ _ (by decide)

theorem low_sub (a b : Word) : low (a - b) = low a - low b := by
  rw [low, BitVec.sub_eq_add_neg, BitVec.setWidth_add _ _ (by decide), BitVec.setWidth_neg_of_le (by decide),
    ← BitVec.sub_eq_add_neg]
  rfl

theorem low_setWidth (x : BitVec 32) : low (x.setWidth 64) = x := BitVec.setWidth_setWidth_of_le x (by decide)

theorem same_nop (zero : c.gpr 0 = 0) {w : Inst} {rd : BitVec 5} {v : Word} (plain : links w = false)
    (reg : rd = 0) (val : v = 0) : SameOutcome c w (.ok ⟨retired2, c⟩) (.ok ⟨{}, c.setGpr rd v⟩) := by
  have same : c.setGpr rd v = c := by
    rw [reg, val, ← zero]
    show { c with hart := { c.hart with gpr := Function.update c.hart.gpr 0 (c.hart.gpr 0) } } = c
    rw [Function.update_eq_self]
  rw [same]
  exact SameEffect.of_core plain rfl nofun rfl rfl fun _ => rfl

/-- `C.NOP` has a handler of its own that writes nothing. -/
theorem expands_CADDI (zero : c.gpr 0 = 0) (is : half &&& 0xE003 = 0x0001) :
    Expands bus c half (iType (rd half) (rd half) 0 0x13 ((immCi half).signExtend 12)) := by
  by_cases nop : half = 0x0001
  · have reg : rd half = 0 := by rw [nop]; rfl
    have imm : immCi half = 0 := by rw [nop]; rfl
    have only : half &&& 0xFFFF = 0x0001 := by rw [nop]; rfl
    refine .of_eq (execWord_row 5 only rfl rfl nofun ..) (Immediate.addi.held.exec (iType_and ..) ..)
      (same_nop zero (by simp [links]) (by simp [reg]) ?_)
    simpa [reg, imm] using zero
  · refine .of_eq (execWord_row 6 is rfl rfl ?_ ..) (Immediate.addi.held.exec (iType_and ..) ..)
      (same_write (by simp [links]) (by simp) (by simp))
    intro q mem
    obtain rfl : q = (0xFFFF, 0x0001) := List.mem_singleton.mp mem
    intro same
    exact nop (BitVec.eq_of_toNat_eq ((Nat.and_two_pow_sub_one_of_lt_two_pow half.isLt).symm.trans same))

theorem joins_rd : Joins rd := Joins.field 7 5

theorem rd_eq_two_iff (is : half &&& 0xE003 = 0x6001) : rd half = 2 ↔ half &&& 0xEF83 = 0x6101 := by
  have parts : half &&& (0xEF83 : BitVec 16) = (half &&& (0xE003 : BitVec 16)) ||| ((rd half).setWidth 16 <<< 7) :=
    (Joins.id.and 0xEF83).ext ((Joins.id.and 0xE003).or ((joins_rd.setWidth 16).shiftLeft 7)) rfl (by decide) half
  rw [parts, is]
  generalize rd half = r
  revert r
  decide

theorem expands_CADDI16SP (is : half &&& 0xEF83 = 0x6101) :
    Expands bus c half (iType 2 2 0 0x13 ((immAddi16sp half).signExtend 12)) := by
  have wide : half &&& 0xE003 = 0x6001 := and_covered is rfl
  refine .of_eq ((execWord_row 9 wide rfl rfl nofun ..).trans
    (if_pos ((dRd_fetched half).trans ((rd_eq_two_iff wide).mpr is)))) (Immediate.addi.held.exec (iType_and ..) ..)
    (same_write (by simp [links]) (by simp) ?_)
  simp [addi16sp_fetched]

theorem expands_CLUI (is : half &&& 0xE003 = 0x6001) (apart : half &&& 0xEF83 ≠ 0x6101) :
    Expands bus c half (uType (rd half) 0x37 ((immCi half).signExtend 20)) := by
  refine .of_eq ((execWord_row 9 is rfl rfl nofun ..).trans
    (if_neg fun two => apart ((rd_eq_two_iff is).mp ((dRd_fetched half).symm.trans two))))
    (held_LUI.exec (uType_and ..) ..)
    (same_write (by simp [links]) (by simp) ?_)
  show dCNzimm (fetched half) <<< 12 = _
  simp only [lui_fetched, InstructionData.ofInst_imm, immU_uType]

theorem expands_CSRLI (is : half &&& 0xEC03 = 0x8001) :
    Expands bus c half (iType (rs1Short half) (rs1Short half) 5 0x13 (0b000000#6 ++ immCi half)) := by
  have high : rd half = (half &&& 0xEC03).extractLsb' 10 2 ++ half.extractLsb' 7 3 :=
    joins_rd.ext (((Joins.id.and 0xEC03).extract 10 2).append (.field 7 3)) rfl (by decide) half
  rw [is] at high
  have small : (rd half).toNat < 24 ∧ 8 + rd half = rs1Short half := by
    rw [high, rs1Short]
    generalize half.extractLsb' 7 3 = r
    revert r
    decide
  refine .of_eq ((execWord_row 10 is rfl rfl (fun _ mem => absurd mem List.not_mem_nil) ..).trans (if_pos ?_))
    (Shift.srli.held.exec (iType_and_shift ..) ..)
    (same_write (by simp [links]) ?_ ?_)
  · rw [InstructionData.ofInst_rd, dRd_fetched]
    exact small.1
  · rw [InstructionData.ofInst_rd, dRd_fetched, small.2, InstructionData.ofInst_rd, dRd_iType]
  · rw [InstructionData.ofInst_rd, dRd_fetched, small.2]
    simp [shamt64_iType]

theorem expands_CMV (zero : c.gpr 0 = 0) (is : half &&& 0xF003 = 0x8002) (apart : half &&& 0xF07F ≠ 0x8002) :
    Expands bus c half (rType (rd half) 0 (rs2 half) 0 0x00 0x33) := by
  refine .of_eq (execWord_row 26 is rfl rfl ?_ ..) (Register.add.held.exec (rType_and ..) ..)
    (same_write (by simp [links]) (by simp) ?_)
  · intro q mem
    obtain rfl : q = (0xF07F, 0x8002) := List.mem_singleton.mp mem
    exact fun same => apart (BitVec.eq_of_toNat_eq same)
  · simpa using zero

theorem expands_CADD (is : half &&& 0xF003 = 0x9002) (apart : half &&& 0xF07F ≠ 0x9002) :
    Expands bus c half (rType (rd half) (rd half) (rs2 half) 0 0x00 0x33) := by
  have notBreak : half &&& 0xFFFF ≠ 0x9002 := fun same => apart (and_covered same rfl)
  refine .of_eq (execWord_row 29 is rfl rfl ?_ ..) (Register.add.held.exec (rType_and ..) ..)
    (same_write (by simp [links]) (by simp) (by simp))
  intro q mem
  rcases List.mem_pair.mp mem with rfl | rfl
  · exact fun same => notBreak (BitVec.eq_of_toNat_eq same)
  · exact fun same => apart (BitVec.eq_of_toNat_eq same)

theorem expands_CEBREAK (is : half &&& 0xFFFF = 0x9002) : Expands bus c half 0x00100073 := by
  have whole : (0x00100073 : Inst) &&& 0xFFFFFFFF = 0x00100073 := rfl
  have same : SameEffect c 0x00100073 ⟨⟨false, true, 0, excBreakpoint, c.hart.pc⟩, c⟩
      ⟨⟨false, true, 0, excBreakpoint, c.hart.pc⟩, c⟩ :=
    ⟨rfl, fun _ => ⟨rfl, rfl, rfl⟩, nofun, fun _ _ => rfl, rfl⟩
  have long : execWord bus c 0x00100073 = execEBREAK bus c _ := held_EBREAK.exec whole bus c
  exact .of_eq (execWord_row 27 is rfl rfl nofun bus c) long same

/-- A jump that links to `x0` leaves the other registers. -/
theorem same_jump {w : Inst} {r : BitVec 5} {target target' : Word} (reg : r = 0) (dest : dRd w = 0)
    (same : target = target') :
    SameEffect c w ⟨jumped, c.setPc target⟩ (linkTo c r target' (c.hart.pc + 4)) where
  success := rfl
  trap := nofun
  next _ := by
    subst same
    rfl
  gpr q nonzero := by
    rw [if_neg fun linked => nonzero (linked.2.2.trans dest), reg]
    exact (Function.update_of_ne nonzero ..).symm
  rest := by
    subst same
    rfl

/-- The link register gets the address after two bytes. -/
theorem same_link {w : Inst} {r r' : BitVec 5} {target target' : Word} (linking : links w = true)
    (reg : r = dRd w) (reg' : r' = dRd w) (same : target = target') :
    SameEffect c w (linkTo c r target (c.hart.pc + 2)) (linkTo c r' target' (c.hart.pc + 4)) where
  success := rfl
  trap := nofun
  next _ := by
    subst same
    rfl
  gpr q _ := by
    subst reg reg' same
    by_cases here : q = dRd w
    · rw [if_pos ⟨rfl, linking, here⟩, here]
      exact Function.update_self ..
    · rw [if_neg fun linked => here linked.2.2]
      exact (Function.update_of_ne here ..).trans (Function.update_of_ne here ..).symm
  rest := by
    subst reg reg' same
    rfl

theorem odd_iff {x : Word} : x % 2 ≠ 0 ↔ x.getLsbD 0 = true := by
  rw [BitVec.getLsbD, Nat.testBit_zero, decide_eq_true_iff, ne_eq, ← BitVec.toNat_inj, BitVec.toNat_umod]
  show ¬ x.toNat % 2 = 0 ↔ _
  omega

/-- Clearing bit 0 makes the target of `JALR` even. -/
theorem even_target (x : Word) : ¬ ((x &&& ~~~1) % 2 ≠ 0) := by
  rw [odd_iff, BitVec.getLsbD_and]
  simp

theorem execJALR_eq {i : InstructionData} :
    execJALR bus c i = .ok (linkTo c i.rd ((c.gpr i.rs1 + i.imm) &&& ~~~1) (c.hart.pc + 4)) :=
  if_neg (even_target _)

theorem expands_CJALR (is : half &&& 0xF07F = 0x9002) (apart : half &&& 0xFFFF ≠ 0x9002) :
    Expands bus c half (iType 1 (rd half) 0 0x67 0) := by
  have alone : ∀ q ∈ neighbours (2, 0xF07F, 0x9002), half.toNat &&& q.1 ≠ q.2 := by
    intro q mem
    obtain rfl : q = (0xFFFF, 0x9002) := List.mem_singleton.mp mem
    exact fun same => apart (BitVec.eq_of_toNat_eq same)
  have short : execWord bus c (fetched half) = execCJALR bus c _ := execWord_row 28 is rfl rfl alone bus c
  exact .of_eq short ((held_JALR.exec (iType_and ..) ..).trans execJALR_eq)
    (same_link (by simp [links]) (by simp) (by simp) (by simp))

theorem odd_add {a b : Word} (even : b.getLsbD 0 = false) : (a + b) % 2 ≠ 0 ↔ a.getLsbD 0 = true := by
  have bit (x : Word) : x.getLsbD 0 = decide (x.toNat % 2 = 1) := by rw [BitVec.getLsbD, Nat.testBit_zero]
  rw [odd_iff, bit, bit, decide_eq_true_iff, decide_eq_true_iff, BitVec.toNat_add]
  rw [bit, decide_eq_false_iff_not] at even
  omega

theorem even_signExtend {n m : Nat} {x : BitVec n} (pos : 0 < n) (even : x.getLsbD 0 = false) :
    (x.signExtend m).getLsbD 0 = false := by
  rw [BitVec.getLsbD_signExtend, if_pos pos, even, Bool.and_false]

theorem offsetJ_even : (offsetJ half).getLsbD 0 = false := by rw [offsetJ, BitVec.getLsbD_append]; rfl
theorem offsetB_even : (offsetB half).getLsbD 0 = false := by rw [offsetB, BitVec.getLsbD_append]; rfl

/-- `JAL` refuses an odd target, which `C.J` takes. -/
theorem expands_CJ_iff (is : half &&& 0xE003 = 0xA001) :
    Expands bus c half (jType 0 0x6F ((offsetJ half).signExtend 21)) ↔ c.hart.pc.getLsbD 0 = false := by
  have even21 : ((offsetJ half).signExtend 21).getLsbD 0 = false := even_signExtend (by decide) offsetJ_even
  have short : execWord bus c (fetched half) = execCJ bus c _ := execWord_row 19 is rfl rfl nofun bus c
  have long : execWord bus c _ = execJAL bus c _ := held_JAL.exec (jType_and 0 0x6F ((offsetJ half).signExtend 21))
    bus c
  have odd := odd_add (a := c.hart.pc) (even_signExtend (m := 64) (by decide) even21)
  rw [Expands, short, long, execJAL, InstructionData.ofInst_imm, immJ_jType _ _ _ even21]
  cases bit : c.hart.pc.getLsbD 0 with
  | true =>
    rw [if_pos (odd.mpr bit)]
    exact iff_of_false (fun same => absurd same.success nofun) nofun
  | false =>
    rw [if_neg (fun taken => absurd (bit.symm.trans (odd.mp taken)) nofun)]
    refine iff_of_true (same_jump (by simp) (by simp) ?_) rfl
    rw [InstructionData.ofInst_imm, offsetJ_fetched]

/-- The compressed branches against zero: the same but for an odd target. -/
theorem same_branch_iff {w : Inst} (plain : links w = false) {f : Word → Word → Bool} {g : Word → Bool}
    {i j : InstructionData} (source : i.rdC = j.rs1) (test : g (c.gpr j.rs1) = f (c.gpr j.rs1) (c.gpr j.rs2))
    (offset : sextW (low i.imm) = j.imm) (even : j.imm.getLsbD 0 = false) :
    SameOutcome c w (branchC g bus c i) (branchIf f bus c j) ↔
      ¬ (g (c.gpr i.rdC) = true ∧ c.hart.pc.getLsbD 0 = true) := by
  have odd := odd_add (a := c.hart.pc) even
  rw [source, branchC, branchIf, source, ← test]
  cases taken : g (c.gpr j.rs1) with
  | false =>
    exact iff_of_true (SameEffect.of_core plain rfl Bool.noConfusion rfl rfl fun _ => rfl)
      fun no => Bool.noConfusion no.1
  | true =>
    rw [if_pos rfl, if_pos rfl]
    cases bit : c.hart.pc.getLsbD 0 with
    | true =>
      rw [if_pos (odd.mpr bit)]
      exact iff_of_false (fun same => Bool.noConfusion same.success) fun no => no ⟨rfl, rfl⟩
    | false =>
      rw [if_neg fun misaligned => Bool.noConfusion (bit.symm.trans (odd.mp misaligned))]
      refine iff_of_true ?_ fun no => Bool.noConfusion no.2
      rw [jumpC, offset]
      exact ⟨rfl, Bool.noConfusion, fun _ => rfl, fun _ _ => by rw [if_neg (by simp [plain])], rfl⟩

section Branch

variable (zero : c.gpr 0 = 0)
include zero

/-- A compressed branch and the branch against `x0` that it stands for. -/
theorem expands_branch_iff {f : Word → Word → Bool} {g : Word → Bool} {minor : BitVec 3} (test : ∀ x, g x = f x 0)
    (short : execWord bus c (fetched half) = branchC g bus c (.ofInst (fetched half) (some dCBImm)))
    (long : execWord bus c (bType (rs1Short half) 0 minor 0x63 ((offsetB half).signExtend 13)) =
      branchIf f bus c (.ofInst (bType (rs1Short half) 0 minor 0x63 ((offsetB half).signExtend 13)) (some immB))) :
    Expands bus c half (bType (rs1Short half) 0 minor 0x63 ((offsetB half).signExtend 13)) ↔
      ¬ (g (c.gpr (rs1Short half)) = true ∧ c.hart.pc.getLsbD 0 = true) := by
  have even13 : ((offsetB half).signExtend 13).getLsbD 0 = false := even_signExtend (by decide) offsetB_even
  rw [Expands, short, long]
  refine (same_branch_iff (by simp [links]) (by simp) ?_ ?_ ?_).trans ?_
  · rw [InstructionData.ofInst_rs2, dRs2_bType, zero, test]
  · rw [InstructionData.ofInst_imm, InstructionData.ofInst_imm, offsetB_fetched, immB_bType _ _ _ _ _ even13]
  · rw [InstructionData.ofInst_imm, immB_bType _ _ _ _ _ even13]
    exact even_signExtend (by decide) even13
  · rw [rdC_fetched]

theorem expands_CBEQZ_iff (is : half &&& 0xE003 = 0xC001) :
    Expands bus c half (bType (rs1Short half) 0 0 0x63 ((offsetB half).signExtend 13)) ↔
      ¬ (c.gpr (rs1Short half) = 0 ∧ c.hart.pc.getLsbD 0 = true) := by
  rw [← beq_iff_eq]
  exact expands_branch_iff zero (fun _ => rfl) (execWord_row 20 is rfl rfl nofun ..)
    (Branch.beq.held.exec (bType_and ..) ..)

theorem expands_CBNEZ_iff (is : half &&& 0xE003 = 0xE001) :
    Expands bus c half (bType (rs1Short half) 0 1 0x63 ((offsetB half).signExtend 13)) ↔
      ¬ (c.gpr (rs1Short half) ≠ 0 ∧ c.hart.pc.getLsbD 0 = true) := by
  rw [← bne_iff_ne]
  exact expands_branch_iff zero (fun _ => rfl) (execWord_row 21 is rfl rfl nofun ..)
    (Branch.bne.held.exec (bType_and ..) ..)

end Branch

end Rows

/-! ## Words of no row -/

/-- Mask and value of the compressed encodings that the table has. -/
def codes : List (Nat × Nat) := (0xFFFF, 0x0001) :: rows.map fun r => (r.mask.toNat, r.value.toNat)

def shortsB (ps : List Fields) : Bool := ps.all fun p => bif Nat.beq p.1 2 then codes.contains p.2 else true

theorem instructions_shorts : shortsB (instructions.map (·.fields)) = true := by
  rw [fields_eq_spelling]
  decide +kernel

theorem mem_codes {ins : Instruction} (mem : ins ∈ instructions) (short : ins.size = 2) : ins.fields.2 ∈ codes := by
  have entry := List.all_eq_true.mp instructions_shorts _ (List.mem_map_of_mem mem)
  rw [show Nat.beq ins.fields.1 2 = true from Nat.beq_eq.mpr short, cond_true] at entry
  exact List.contains_iff_mem.mp entry

section Illegal

variable {half : BitVec 16} {r : Row}

theorem Row.applies_of_is (is : half &&& r.mask = r.value) (apart : r.apart.any (Is half) = false) :
    r.Applies half = true := by
  rw [Row.Applies, Is, is, beq_self_eq_true, apart]
  rfl

/-- The row of `p` in a table. -/
def hasRow (p : BitVec 16 × BitVec 16) (also : Row → Bool) : Bool :=
  rows.any fun r => r.mask == p.1 && r.value == p.2 && also r

theorem hasRow_iff {p : BitVec 16 × BitVec 16} {also : Row → Bool} :
    hasRow p also = true ↔ ∃ r ∈ rows, (r.mask, r.value) = p ∧ also r = true := by
  simp only [hasRow, List.any_eq_true, Bool.and_eq_true, beq_iff_eq, Prod.ext_iff]

/-- An instruction that a row leaves to another is in a row of its own, and so once more. -/
theorem apart_hasRow : ∀ r ∈ rows, r.apart.all (fun p => hasRow p fun r' =>
    r'.apart.all fun p' => hasRow p' fun r'' => r''.apart.isNone) = true := by decide

theorem exists_apart (other : r.apart.any (Is half) = true) : ∃ p, r.apart = some p ∧ half &&& p.1 = p.2 := by
  cases which : r.apart with
  | none =>
    rw [which] at other
    cases other
  | some p =>
    rw [which, Option.any_some] at other
    exact ⟨p, rfl, beq_iff_eq.mp other⟩

theorem exists_row_of_is (mem : r ∈ rows) (is : half &&& r.mask = r.value) : ∃ r ∈ rows, r.Applies half = true := by
  have chain := apart_hasRow r mem
  cases first : r.apart.any (Is half) with
  | false => exact ⟨r, mem, Row.applies_of_is is first⟩
  | true =>
    obtain ⟨p, picked, isP⟩ := exists_apart first
    rw [picked, Option.all_some, hasRow_iff] at chain
    obtain ⟨r', mem', rfl, chain⟩ := chain
    cases second : r'.apart.any (Is half) with
    | false => exact ⟨r', mem', Row.applies_of_is isP second⟩
    | true =>
      obtain ⟨p', some_', isP'⟩ := exists_apart second
      rw [some_', Option.all_some, hasRow_iff] at chain
      obtain ⟨r'', mem'', rfl, last⟩ := chain
      refine ⟨r'', mem'', Row.applies_of_is isP' ?_⟩
      rw [Option.isNone_iff_eq_none.mp last]
      rfl

/-- A word that matches a compressed encoding of the table is in a row. -/
theorem exists_row {q : Nat × Nat} (mem : q ∈ codes) (is : half.toNat &&& q.1 = q.2) :
    ∃ r ∈ rows, r.Applies half = true := by
  rcases List.mem_cons.mp mem with rfl | listed
  · -- `C.NOP` is in the row of `C.ADDI`
    have nop : half = 0x0001 :=
      BitVec.eq_of_toNat_eq ((Nat.and_two_pow_sub_one_of_lt_two_pow half.isLt).symm.trans is)
    have found : rows.any (·.Applies 0x0001) = true := by decide
    exact nop ▸ List.any_eq_true.mp found
  · obtain ⟨r, inRows, rfl⟩ := List.mem_map.mp listed
    exact exists_row_of_is inRows (BitVec.eq_of_toNat_eq is)

theorem execWord_illegal (bus : Bus) (c : Core) (short : half &&& 3 ≠ 3)
    (none : ∀ r ∈ rows, r.Applies half = false) :
    execWord bus c (fetched half) = .ok ⟨⟨false, false, 0, excIllegalInstruction, (fetched half).setWidth 64⟩, c⟩ := by
  have nothing : selected (fetched half) = .none := by
    rw [selected_eq_none_iff]
    intro k applies
    have isShort : fetched half &&& 3 ≠ 3 := by
      intro long
      apply short
      have cut := congrArg (BitVec.setWidth 16) long
      rwa [BitVec.setWidth_and, fetched, BitVec.setWidth_setWidth_of_le _ (by decide)] at cut
    have code := mem_codes (List.get_mem ..) (applies.2.mpr isShort)
    have same : (fetched half).toNat = half.toNat := BitVec.toNat_setWidth_of_le (by decide)
    obtain ⟨r, mem, yes⟩ := exists_row code (same ▸ applies.1.fields)
    rw [none r mem] at yes
    cases yes
  rw [execWord, nothing]

end Illegal

/-! ## All encodings -/

/-- The jump goes to an odd address: `pc` is odd, as nothing keeps `mepc` even. -/
def Misaligns (c : Core) (half : BitVec 16) : Prop :=
  c.hart.pc.getLsbD 0 = true ∧
    (half &&& 0xE003 = 0xA001 ∨ (half &&& 0xE003 = 0xC001 ∧ c.gpr (rs1Short half) = 0) ∨
      (half &&& 0xE003 = 0xE001 ∧ c.gpr (rs1Short half) ≠ 0))

section Rows

variable {bus : Bus} {c : Core} {half : BitVec 16} {r : Row}

theorem Row.is (row : r.Applies half = true) : half &&& r.mask = r.value := by
  rw [Row.Applies, Bool.and_eq_true] at row
  exact beq_iff_eq.mp row.1

theorem Row.apart_ne {p : BitVec 16 × BitVec 16} (row : r.Applies half = true) (apart : r.apart = some p) :
    half &&& p.1 ≠ p.2 := by
  rw [Row.Applies, Bool.and_eq_true, apart, Option.any_some, Bool.not_eq_true'] at row
  exact fun same => absurd (row.2.symm.trans (beq_iff_eq.mpr same)) nofun

theorem not_misaligns {m v : BitVec 16} (is : half &&& m = v) (covers : m &&& 0xE003 = 0xE003)
    (other : v &&& 0xE003 ≠ 0xA001 ∧ v &&& 0xE003 ≠ 0xC001 ∧ v &&& 0xE003 ≠ 0xE001) : ¬ Misaligns c half := by
  rintro ⟨-, which⟩
  rw [and_covered is covers] at which
  rcases which with j | ⟨b, -⟩ | ⟨b, -⟩
  · exact other.1 j
  · exact other.2.1 b
  · exact other.2.2 b

/-- A row does what its word does unless it jumps to an odd address. -/
def Row.Correct (r : Row) (bus : Bus) (c : Core) : Prop :=
  ∀ half, r.Applies half = true → (Expands bus c half (r.word half) ↔ ¬ Misaligns c half)

theorem Row.Correct.plain
    (expands : ∀ half, r.Applies half = true → Expands bus c half (r.word half))
    (covers : r.mask &&& 0xE003 = 0xE003)
    (other : r.value &&& 0xE003 ≠ 0xA001 ∧ r.value &&& 0xE003 ≠ 0xC001 ∧ r.value &&& 0xE003 ≠ 0xE001) :
    r.Correct bus c := fun half row =>
  iff_of_true (expands half row) (not_misaligns (Row.is row) covers other)

theorem Row.Correct.only (expands : ∀ {half}, half &&& r.mask = r.value → Expands bus c half (r.word half))
    (covers : r.mask &&& 0xE003 = 0xE003)
    (other : r.value &&& 0xE003 ≠ 0xA001 ∧ r.value &&& 0xE003 ≠ 0xC001 ∧ r.value &&& 0xE003 ≠ 0xE001) :
    r.Correct bus c := .plain (fun _ row => expands (Row.is row)) covers other

theorem Row.Correct.jump
    (expands : ∀ {half}, half &&& r.mask = r.value → (Expands bus c half (r.word half) ↔ ¬ Misaligns c half)) :
    r.Correct bus c := fun _ row => expands (Row.is row)

theorem cj_correct (is : half &&& 0xE003 = 0xA001) :
    Expands bus c half (jType 0 0x6F ((offsetJ half).signExtend 21)) ↔ ¬ Misaligns c half := by
  rw [expands_CJ_iff is, Misaligns, is]
  simp

theorem cbeqz_correct (zero : c.gpr 0 = 0) (is : half &&& 0xE003 = 0xC001) :
    Expands bus c half (bType (rs1Short half) 0 0 0x63 ((offsetB half).signExtend 13)) ↔ ¬ Misaligns c half := by
  rw [expands_CBEQZ_iff zero is, Misaligns, is]
  simp [and_comm]

theorem cbnez_correct (zero : c.gpr 0 = 0) (is : half &&& 0xE003 = 0xE001) :
    Expands bus c half (bType (rs1Short half) 0 1 0x63 ((offsetB half).signExtend 13)) ↔ ¬ Misaligns c half := by
  rw [expands_CBNEZ_iff zero is, Misaligns, is]
  simp [and_comm]

theorem quadrant0_correct : ∀ r ∈ quadrant0, r.Correct bus c := by
  simp only [← List.forall_iff_forall_mem, quadrant0, List.Forall]
  exact ⟨
    .only (fun is => .of_eq (registered_CADDI4SPN.short is nofun ..) (Immediate.addi.held.exec (iType_and ..) ..)
      (same_write (by simp [links]) (by simp) (by simp))) rfl (by decide),
    .only (fun is => .of_eq (execWord_row 32 is rfl rfl nofun ..) (held_FLD.exec (iType_and ..) ..)
      (same_fpLoad (by simp [links]) (by simp) (by simp) (by simp))) rfl (by decide),
    .only (fun is => .of_eq (execWord_row 1 is rfl rfl nofun ..) (Load.lw.held.exec (iType_and ..) ..)
      (same_load (by simp [links]) (by simp) (by simp) (by simp))) rfl (by decide),
    .only (fun is => .of_eq (execWord_row 2 is rfl rfl nofun ..) (Load.ld.held.exec (iType_and ..) ..)
      (same_load (by simp [links]) (by simp) (by simp) (by simp))) rfl (by decide),
    .only (fun is => .of_eq (execWord_row 33 is rfl rfl nofun ..) (held_FSD.exec (sType_and ..) ..)
      (same_fpStore (by simp [links]) (by simp) (by simp) (by simp))) rfl (by decide),
    .only (fun is => .of_eq (execWord_row 3 is rfl rfl nofun ..) (Store.sw.held.exec (sType_and ..) ..)
      (same_store (by simp [links]) (by simp) (by simp) (by simp))) rfl (by decide),
    .only (fun is => .of_eq (execWord_row 4 is rfl rfl nofun ..) (Store.sd.held.exec (sType_and ..) ..)
      (same_store (by simp [links]) (by simp) (by simp) (by simp))) rfl (by decide)⟩

theorem quadrant1_correct (zero : c.gpr 0 = 0) : ∀ r ∈ quadrant1, r.Correct bus c := by
  simp only [← List.forall_iff_forall_mem, quadrant1, List.Forall]
  exact ⟨
    .only (expands_CADDI zero) rfl (by decide),
    .only (fun is => .of_eq (execWord_row 7 is rfl rfl nofun ..) (Immediate.addiw.held.exec (iType_and ..) ..)
      (same_write (by simp [links]) (by simp) (by simp [low_add, low_setWidth]))) rfl (by decide),
    .only (fun is => .of_eq (execWord_row 8 is rfl rfl nofun ..) (Immediate.addi.held.exec (iType_and ..) ..)
      (same_write (by simp [links]) (by simp) (by simpa using zero))) rfl (by decide),
    .only expands_CADDI16SP rfl (by decide),
    .plain (fun _ row => expands_CLUI (Row.is row) (Row.apart_ne row rfl)) rfl (by decide),
    .only expands_CSRLI rfl (by decide),
    .only (fun is => .of_eq (execWord_row 11 is rfl rfl nofun ..) (Shift.srai.held.exec (iType_and_shift ..) ..)
      (same_write (by simp [links]) (by simp) (by simp [shamt64_iType]))) rfl (by decide),
    .only (fun is => .of_eq (execWord_row 12 is rfl rfl nofun ..) (Immediate.andi.held.exec (iType_and ..) ..)
      (same_write (by simp [links]) (by simp) (by simp [andi_fetched]))) rfl (by decide),
    .only (fun is => .of_eq (execWord_row 13 is rfl rfl nofun ..) (Register.sub.held.exec (rType_and ..) ..)
      (same_write (by simp [links]) (by simp) (by simp))) rfl (by decide),
    .only (fun is => .of_eq (execWord_row 14 is rfl rfl nofun ..) (Register.xor.held.exec (rType_and ..) ..)
      (same_write (by simp [links]) (by simp) (by simp))) rfl (by decide),
    .only (fun is => .of_eq (execWord_row 15 is rfl rfl nofun ..) (Register.or.held.exec (rType_and ..) ..)
      (same_write (by simp [links]) (by simp) (by simp))) rfl (by decide),
    .only (fun is => .of_eq (execWord_row 16 is rfl rfl nofun ..) (Register.and.held.exec (rType_and ..) ..)
      (same_write (by simp [links]) (by simp) (by simp))) rfl (by decide),
    .only (fun is => .of_eq (execWord_row 17 is rfl rfl nofun ..) (Register.subw.held.exec (rType_and ..) ..)
      (same_write (by simp [links]) (by simp) (by simp [low_sub]))) rfl (by decide),
    .only (fun is => .of_eq (execWord_row 18 is rfl rfl nofun ..) (Register.addw.held.exec (rType_and ..) ..)
      (same_write (by simp [links]) (by simp) (by simp [low_add]))) rfl (by decide),
    .jump cj_correct,
    .jump (cbeqz_correct zero),
    .jump (cbnez_correct zero)⟩

theorem quadrant2_correct (zero : c.gpr 0 = 0) : ∀ r ∈ quadrant2, r.Correct bus c := by
  simp only [← List.forall_iff_forall_mem, quadrant2, List.Forall]
  exact ⟨
    .only (fun is => .of_eq (execWord_row 22 is rfl rfl nofun ..) (Shift.slli.held.exec (iType_and_shift ..) ..)
      (same_write (by simp [links]) (by simp) (by simp [shamt64_iType]))) rfl (by decide),
    .only (fun is => .of_eq (execWord_row 34 is rfl rfl nofun ..) (held_FLD.exec (iType_and ..) ..)
      (same_fpLoad (by simp [links]) (by simp) (by simp) (by simp))) rfl (by decide),
    .only (fun is => .of_eq (execWord_row 23 is rfl rfl nofun ..) (Load.lw.held.exec (iType_and ..) ..)
      (same_load (by simp [links]) (by simp) (by simp) (by simp))) rfl (by decide),
    .only (fun is => .of_eq (execWord_row 24 is rfl rfl nofun ..) (Load.ld.held.exec (iType_and ..) ..)
      (same_load (by simp [links]) (by simp) (by simp) (by simp))) rfl (by decide),
    .only (fun is => .of_eq (execWord_row 25 is rfl rfl nofun ..) ((held_JALR.exec (iType_and ..) ..).trans execJALR_eq)
      (same_jump (by simp) (by simp) (by simp))) rfl (by decide),
    .plain (fun _ row => expands_CMV zero (Row.is row) (Row.apart_ne row rfl)) rfl (by decide),
    .only expands_CEBREAK rfl (by decide),
    .plain (fun _ row => expands_CJALR (Row.is row) (Row.apart_ne row rfl)) rfl (by decide),
    .plain (fun _ row => expands_CADD (Row.is row) (Row.apart_ne row rfl)) rfl (by decide),
    .only (fun is => .of_eq (execWord_row 35 is rfl rfl nofun ..) (held_FSD.exec (sType_and ..) ..)
      (same_fpStore (by simp [links]) (by simp) (by simp) (by simp))) rfl (by decide),
    .only (fun is => .of_eq (execWord_row 30 is rfl rfl nofun ..) (Store.sw.held.exec (sType_and ..) ..)
      (same_store (by simp [links]) (by simp) (by simp) (by simp))) rfl (by decide),
    .only (fun is => .of_eq (execWord_row 31 is rfl rfl nofun ..) (Store.sd.held.exec (sType_and ..) ..)
      (same_store (by simp [links]) (by simp) (by simp) (by simp))) rfl (by decide)⟩

theorem rows_correct (zero : c.gpr 0 = 0) : ∀ r ∈ rows, r.Correct bus c := by
  simp only [rows, List.forall_mem_append]
  exact ⟨⟨quadrant0_correct, quadrant1_correct zero⟩, quadrant2_correct zero⟩

/-- Executing the word raises an illegal-instruction exception. -/
def RaisesIllegal (bus : Bus) (c : Core) (half : BitVec 16) : Prop :=
  ∃ e, execWord bus c (fetched half) = .ok e ∧ e.ret.isSuccess = false ∧ e.ret.cause = excIllegalInstruction

theorem not_raises_of_success {s : Except HostError Executed} (ran : execWord bus c (fetched half) = s)
    (success : ∀ e, s = .ok e → e.ret.isSuccess = true) : ¬ RaisesIllegal bus c half := by
  rintro ⟨e, ok, failed, -⟩
  rw [success e (ran ▸ ok)] at failed
  cases failed

theorem not_raises_of_load {n : Nat} {signed : Bool} {size imm : Word} {r rs1 : BitVec 5}
    (ran : execWord bus c (fetched half) = loadTo n signed size r rs1 imm bus c) : ¬ RaisesIllegal bus c half := by
  rintro ⟨e, ok, failed, cause⟩
  rw [ran] at ok
  unfold loadTo at ok
  obtain ⟨a, read, ⟨success, rfl⟩ | ⟨success, rfl⟩⟩ := bind_ite_eq_ok.mp ok
  · exact absurd (success.symm.trans failed) nofun
  rcases (mmioRead_fault read success).cause with page | access
  · exact absurd (cause.symm.trans page) (by decide)
  · exact absurd (cause.symm.trans access) (by decide)

/-- None of the reserved operands is refused. -/
theorem reserved_executes {p : BitVec 16 × BitVec 16} (mem : p ∈ reserved) (is : half &&& p.1 = p.2) :
    ¬ RaisesIllegal bus c half := by
  simp only [reserved, List.mem_cons, List.not_mem_nil, or_false] at mem
  rcases mem with rfl | rfl | rfl | rfl | rfl | rfl
  · have wide : half &&& 0xE003 = 0x0000 := and_covered is rfl
    exact not_raises_of_success (registered_CADDI4SPN.short wide (by rintro _ ⟨⟩) bus c) fun e ok => by cases ok; rfl
  · have wide : half &&& 0xE003 = 0x6001 := and_covered is rfl
    refine not_raises_of_success (execWord_row 9 wide rfl rfl (by rintro _ ⟨⟩) bus c) fun e ok => ?_
    unfold execCLUIADDI16SP at ok
    split at ok <;> cases ok <;> rfl
  · have wide : half &&& 0xE003 = 0x2001 := and_covered is rfl
    exact not_raises_of_success (execWord_row 7 wide rfl rfl (by rintro _ ⟨⟩) bus c) fun e ok => by cases ok; rfl
  · have wide : half &&& 0xE003 = 0x4002 := and_covered is rfl
    exact not_raises_of_load (execWord_row 23 wide rfl rfl (by rintro _ ⟨⟩) bus c)
  · have wide : half &&& 0xE003 = 0x6002 := and_covered is rfl
    exact not_raises_of_load (execWord_row 24 wide rfl rfl (by rintro _ ⟨⟩) bus c)
  · have wide : half &&& 0xF07F = 0x8002 := and_covered is rfl
    exact not_raises_of_success (execWord_row 25 wide rfl rfl (by rintro _ ⟨⟩) bus c) fun e ok => by cases ok; rfl

/-- The compressed jumps are in rows. -/
theorem not_misaligns_of_outside (outside : ∀ r ∈ rows, r.Applies half = false) : ¬ Misaligns c half := by
  have contra {v : BitVec 16} (mem : (0xE003, v.toNat) ∈ codes) (is : half &&& 0xE003 = v) : False := by
    obtain ⟨r, inRows, row⟩ := exists_row mem (show half.toNat &&& (0xE003 : BitVec 16).toNat = _ by
      rw [← BitVec.toNat_and, is])
    rw [outside r inRows] at row
    cases row
  rintro ⟨-, j | ⟨b, -⟩ | ⟨b, -⟩⟩
  · exact contra (by decide) j
  · exact contra (by decide) b
  · exact contra (by decide) b

end Rows

/-- A 16-bit word does what the word that it expands to does, and raises an
    illegal-instruction exception if it is reserved. -/
def Correct (bus : Bus) (c : Core) (half : BitVec 16) : Prop :=
  match expand half with
  | some w => Expands bus c half w
  | none => RaisesIllegal bus c half

/-- The compressed handlers agree with the expansions of the architecture up to the
    reserved operands, which are all executed, and the targets at odd addresses. -/
theorem compressed_correct_iff (bus : Bus) (c : Core) (half : BitVec 16) (short : half &&& 3 ≠ 3)
    (zero : c.gpr 0 = 0) :
    Correct bus c half ↔ reserved.any (Is half) = false ∧ ¬ Misaligns c half := by
  unfold Correct expand
  cases held : reserved.any (Is half) with
  | true =>
    obtain ⟨p, mem, is⟩ := List.any_eq_true.mp held
    rw [if_pos rfl]
    exact iff_of_false (reserved_executes mem (beq_iff_eq.mp is)) fun no => absurd no.1 nofun
  | false =>
    rw [if_neg nofun]
    cases found : rows.find? (·.Applies half) with
    | some r =>
      have row : r.Applies half = true := List.find?_some (p := fun r : Row => r.Applies half) found
      have mem := List.mem_of_find?_eq_some found
      exact (rows_correct zero r mem half row).trans (and_iff_right rfl).symm
    | none =>
      have outside : ∀ r ∈ rows, r.Applies half = false := fun r mem =>
        Bool.eq_false_iff.mpr (List.find?_eq_none.mp found r mem)
      have raises : RaisesIllegal bus c half := ⟨_, execWord_illegal bus c short outside, rfl, rfl⟩
      exact iff_of_true raises ⟨rfl, not_misaligns_of_outside outside⟩

/-- `li a0, 0` on a machine at an even `pc`. -/
theorem compressed_li_correct : onePageCore.gpr 0 = 0 ∧ Correct Bus.empty onePageCore 0x4501 := by
  have zero : onePageCore.gpr 0 = 0 := rfl
  have even : onePageCore.hart.pc.getLsbD 0 = false := rfl
  have used : reserved.any (Is 0x4501) = false := by decide
  have aligned : ¬ Misaligns onePageCore 0x4501 := fun odd => absurd (even.symm.trans odd.1) nofun
  refine ⟨zero, ?_⟩
  rw [compressed_correct_iff Bus.empty onePageCore 0x4501 (by decide) zero]
  exact ⟨used, aligned⟩

/-- The all-zero word, which is defined to be illegal, is executed as `addi x8, x2, 0`. -/
theorem zero_word_is_executed :
    expand 0x0000 = none ∧ onePageCore.gpr 0 = 0 ∧ ¬ Correct Bus.empty onePageCore 0x0000 ∧
      execWord Bus.empty onePageCore (fetched 0x0000) = .ok ⟨retired2, onePageCore.setGpr 8 0⟩ := by
  have illegal : expand 0x0000 = none := by decide
  have ran : execWord Bus.empty onePageCore (fetched 0x0000) = execCADDI4SPN Bus.empty onePageCore _ :=
    registered_CADDI4SPN.short (show (0x0000 : BitVec 16) &&& 0xE003 = 0x0000 from rfl) nofun Bus.empty onePageCore
  refine ⟨illegal, rfl, ?_, ran.trans rfl⟩
  rw [Correct, illegal]
  exact reserved_executes (List.mem_cons_self ..) rfl

end Rvc

end Rv64Vm
