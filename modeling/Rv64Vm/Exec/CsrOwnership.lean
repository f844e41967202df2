import Rv64Vm.Exec.Events
import Mathlib.Tactic.IntervalCases

/-! # Who may change what

Some bits of the interrupt registers belong to devices, some to the machine level unless it
delegates them, and a quarter of the CSR addresses is read-only. `csr_write` masks by address only,
so that a CSR instruction keeps to its own bits exactly if its operands happen to.
-/

namespace Rv64Vm

open Lib

variable {w : Inst} {c : Core} {out : Executed} {j : Nat}

/-! ## CSR instructions -/

/-- The word of a CSR instruction: SYSTEM, and a minor opcode that is not the privileged or the hypervisor one. -/
structure CsrWord (w : Inst) : Prop where
  major : w.extractLsb' 0 7 = 0x73
  minor : w.extractLsb' 12 3 ≠ 0 ∧ w.extractLsb' 12 3 ≠ 4

/-- Its operands; the `rs1` field is also the immediate. -/
def csrData (w : Inst) : InstructionData := .ofInst w (some immZicsr)

theorem opcode_fields (w : Inst) :
    w &&& 0x707F#32 = (w.extractLsb' 12 3).setWidth 32 <<< 12 ||| (w.extractLsb' 0 7).setWidth 32 := by
  apply BitVec.eq_of_getLsbD_eq
  intro j inside
  interval_cases j <;> simp

theorem execWord_zicsr (bus : Bus) (c : Core) {v : Inst} (k : Fin 6) {chars : List Char}
    (pattern : (initZicsr.get k).pattern = String.ofList chars) (fields : fieldsOf chars = (4, 0x707F, v.toNat))
    (hit : w &&& 0x707F#32 = v) : ∃ out, execWord bus c w = .ok out ∧ CsrDoes (csrForm w) c (csrData w) out := by
  have here : (initZicsr.get k).fields = (4, 0x707F, v.toNat) := (fields_eq_fieldsOf pattern).trans fields
  have mem : initZicsr.get k ∈ initZicsr := List.get_mem ..
  have code : w.toNat &&& (initZicsr.get k).fields.2.1 = (initZicsr.get k).fields.2.2 := by
    rw [here, ← hit, BitVec.toNat_and]
    rfl
  have hit : (initZicsr.get k).Matches w := Instruction.matches_code.mp code
  have alone : ∀ q ∈ neighbours (initZicsr.get k).fields, w.toNat &&& q.1 ≠ q.2 := by
    rw [here]
    exact nofun
  have entry := zicsr_entries _ mem
  obtain ⟨k', here', best⟩ := best_of_matches (mem_zicsr _ mem) hit alone
  obtain ⟨out, ran, -⟩ := entry.runs bus c (csrData w)
  refine ⟨out, ?_, zicsr_does mem hit ran⟩
  rw [execWord_of_best best, here', entry.imm]
  exact ran

/-- A CSR instruction ends, and does what its form says. -/
theorem CsrWord.exec (csr : CsrWord w) (bus : Bus) (c : Core) :
    ∃ out, execWord bus c w = .ok out ∧ CsrDoes (csrForm w) c (csrData w) out := by
  have forms : ∀ minor : BitVec 3, minor ≠ 0 ∧ minor ≠ 4 →
      minor = 1 ∨ minor = 2 ∨ minor = 3 ∨ minor = 5 ∨ minor = 6 ∨ minor = 7 := by decide
  have fields := opcode_fields w
  rw [csr.major] at fields
  rcases forms _ csr.minor with minor | minor | minor | minor | minor | minor <;> rw [minor] at fields
  · exact execWord_zicsr bus c 0 rfl rfl fields
  · exact execWord_zicsr bus c 1 rfl rfl fields
  · exact execWord_zicsr bus c 2 rfl rfl fields
  · exact execWord_zicsr bus c 3 rfl rfl fields
  · exact execWord_zicsr bus c 4 rfl rfl fields
  · exact execWord_zicsr bus c 5 rfl rfl fields

/-- The access that the instruction makes passes the tests. -/
def Admitted (c : Core) (w : Inst) : Prop := csrAllowed c.hart (csrData w).csr ((csrForm w).checked (csrData w)) = true

/-- `CSRRW` and `CSRRWI`, and the other forms with a nonzero operand field. -/
def Attempts (w : Inst) : Prop := (csrForm w).writes (csrData w) = true

/-- What is written, if the instruction writes. -/
def csrValue (c : Core) (w : Inst) : Word := (csrForm w).value c (csrData w) (csrRead c.hart (csrData w).csr).1

theorem trap_ip (h : Hart) (cause : Nat) (tval : Word) (interrupt : Bool) :
    (h.trap cause tval interrupt).ip = h.ip := by
  unfold Hart.trap
  split <;> rfl

/-- The interrupt registers and `rd` after a CSR instruction. -/
structure IntsAfter (c : Core) (w : Inst) (out : Executed) : Prop where
  denied : ¬ Admitted c w → out = illegal c (csrData w)
  success : Admitted c w → out.ret.isSuccess = true
  written : Admitted c w → Attempts w → fpCsr (csrData w).csr = false →
    out.core.hart.ip = ipAfter c.hart (csrData w).csr (csrValue c w) ∧
      out.core.hart.ie = ieAfter c.hart (csrData w).csr (csrValue c w)
  kept : ¬ (Admitted c w ∧ Attempts w) ∨ fpCsr (csrData w).csr = true →
    out.core.hart.ip = c.hart.ip ∧ out.core.hart.ie = c.hart.ie
  rd : Admitted c w → fpCsr (csrData w).csr = false → (csrData w).rd ≠ 0 →
    out.core.gpr (csrData w).rd = (csrRead c.hart (csrData w).csr).1

theorem ints_of_fpCsr {h : Hart} {csr : BitVec 12} (fp : fpCsr csr = true) (val : Word) :
    ipAfter h csr val = h.ip ∧ ieAfter h csr val = h.ie := by
  simp only [fpCsr, Bool.or_eq_true, beq_iff_eq] at fp
  rcases fp with (rfl | rfl) | rfl
  · exact ⟨rfl, rfl⟩
  · exact ⟨rfl, rfl⟩
  · exact ⟨rfl, rfl⟩

theorem CsrDoes.ints (does : CsrDoes (csrForm w) c (csrData w) out) : IntsAfter c w out := by
  cases does with
  | refused denied same =>
    have no : ¬ Admitted c w := Bool.eq_false_iff.mp denied
    subst same
    exact ⟨fun _ => rfl, fun yes => absurd yes no, fun yes => absurd yes no, fun _ => ⟨rfl, rfl⟩,
      fun yes => absurd yes no⟩
  | trapped allowed off same =>
    obtain ⟨g, after⟩ := (csrForm w).trapped_eq c (csrData w)
    have traps := fpCsrTraps_frame (csrData w).csr ((csrForm w).traps (csrData w)) c.hart
    rw [after] at same
    subst same
    have notFp (other : fpCsr (csrData w).csr = false) : False := Bool.false_ne_true (other.symm.trans off.1)
    exact ⟨absurd allowed, fun _ => rfl, fun _ _ other => (notFp other).elim, fun _ => ⟨traps.ip, traps.ie⟩,
      fun _ other => (notFp other).elim⟩
  | read allowed on idle same =>
    subst same
    refine ⟨absurd allowed, fun _ => rfl, fun _ yes => ?_, fun _ => ⟨rfl, rfl⟩, fun _ _ _ => Function.update_self ..⟩
    exact absurd yes (Bool.eq_false_iff.mp idle)
  | written allowed on writes g reads same =>
    subst same
    have regs := csrWrite_frame on (csrValue c w)
    refine ⟨absurd allowed, fun _ => rfl, fun _ _ _ => ⟨regs.ip, regs.ie⟩, ?_, fun _ _ link => ?_⟩
    · rintro (no | fp)
      · exact absurd ⟨allowed, writes⟩ no
      · obtain ⟨ip, ie⟩ := @ints_of_fpCsr c.hart _ fp (csrValue c w)
        exact ⟨regs.ip.trans ip, regs.ie.trans ie⟩
    · exact (reads _ link).trans (if_pos rfl)

/-! ## Ownership -/

/-- MSIP, MTIP and MEIP, which devices set and clear. -/
def deviceBits : List Nat := [3, 7, 11]

/-- SSI, STI and SEI. -/
def superBits : List Nat := [1, 5, 9]

/-- The machine level has delegated the interrupt. -/
def Delegated (h : Hart) (j : Nat) : Prop := (h.csrs Csr.mideleg).getLsbD j = true

/-- A CSR instruction that keeps to what it may read and change. -/
structure Owned (c : Core) (w : Inst) (out : Executed) : Prop where
  devices : ∀ j ∈ deviceBits, out.core.hart.ip.getLsbD j = c.hart.ip.getLsbD j
  sip : (csrData w).csr = Csr.sip → ∀ j < 16, j ≠ 1 → out.core.hart.ip.getLsbD j = c.hart.ip.getLsbD j
  affects : (csrData w).csr = Csr.sie ∨ (csrData w).csr = Csr.sip → ∀ j < 16, ¬ Delegated c.hart j →
    out.core.hart.ie.getLsbD j = c.hart.ie.getLsbD j ∧ out.core.hart.ip.getLsbD j = c.hart.ip.getLsbD j
  exposes : (csrData w).csr = Csr.sie ∨ (csrData w).csr = Csr.sip → out.ret.isSuccess = true → (csrData w).rd ≠ 0 →
    ∀ j < 64, ¬ Delegated c.hart j → (out.core.gpr (csrData w).rd).getLsbD j = false
  readOnly : (csrData w).csr.extractLsb' 10 2 = 3 → Attempts w → out = illegal c (csrData w)

/-- What the operands of a CSR instruction have to be for that. -/
structure Respects (c : Core) (w : Inst) : Prop where
  mip : (csrData w).csr = Csr.mip → Admitted c w → Attempts w →
    ∀ j ∈ deviceBits, (csrValue c w).getLsbD j = c.hart.ip.getLsbD j
  sip : (csrData w).csr = Csr.sip → Admitted c w → Attempts w →
    ∀ j ∈ superBits, ¬ (j = 1 ∧ Delegated c.hart 1) → (csrValue c w).getLsbD j = c.hart.ip.getLsbD j
  sie : (csrData w).csr = Csr.sie → Admitted c w → Attempts w →
    ∀ j ∈ superBits, ¬ Delegated c.hart j → (csrValue c w).getLsbD j = c.hart.ie.getLsbD j
  readsSip : (csrData w).csr = Csr.sip → Admitted c w → (csrData w).rd ≠ 0 →
    ∀ j ∈ superBits, c.hart.ip.getLsbD j = true → Delegated c.hart j
  readsSie : (csrData w).csr = Csr.sie → Admitted c w → (csrData w).rd ≠ 0 →
    ∀ j ∈ superBits, c.hart.ie.getLsbD j = true → Delegated c.hart j
  readOnly : (csrData w).csr.extractLsb' 10 2 = 3 → Attempts w → ¬ Admitted c w

theorem seMask_bit (inside : j < 16) : seMask.getLsbD j = decide (j ∈ superBits) := by
  interval_cases j <;> rfl

theorem superBits_lt (mem : j ∈ superBits) : j < 16 := by
  simp only [superBits, List.mem_cons, List.not_mem_nil, or_false] at mem
  omega

theorem deviceBits_lt (mem : j ∈ deviceBits) : j < 16 ∧ j ∉ superBits := by
  simp only [deviceBits, superBits, List.mem_cons, List.not_mem_nil, or_false] at mem ⊢
  omega

theorem shown_bit (x : BitVec 16) (j : Nat) :
    ((x &&& seMask).setWidth 64).getLsbD j = (decide (j ∈ superBits) && x.getLsbD j) := by
  by_cases inside : j < 16
  · rw [BitVec.getLsbD_setWidth, BitVec.getLsbD_and, seMask_bit inside, decide_eq_true (by omega : j < 64),
      Bool.true_and, Bool.and_comm]
  · rw [BitVec.getLsbD_setWidth, BitVec.getLsbD_of_ge _ _ (by omega), BitVec.getLsbD_of_ge x _ (by omega),
      Bool.and_false,
      Bool.and_false]

theorem stored_bit (x : BitVec 16) (val : Word) (inside : j < 16) :
    ((x &&& ~~~seMask) ||| (val.setWidth 16 &&& seMask)).getLsbD j =
      if j ∈ superBits then val.getLsbD j else x.getLsbD j := by
  rw [getLsbD_merge _ _ _ inside, seMask_bit inside, BitVec.getLsbD_setWidth, decide_eq_true inside, Bool.true_and]
  simp only [decide_eq_true_eq]

namespace IntsAfter

variable {c : Core} {w : Inst} {out : Executed} (after : IntsAfter c w out)
include after

theorem ip_mip (here : (csrData w).csr = Csr.mip) (admitted : Admitted c w) (attempts : Attempts w)
    (inside : j < 16) : out.core.hart.ip.getLsbD j = (csrValue c w).getLsbD j := by
  rw [(after.written admitted attempts (by rw [here]; rfl)).1, ipAfter, if_pos here, BitVec.getLsbD_setWidth,
    decide_eq_true inside, Bool.true_and]

theorem ip_sip (here : (csrData w).csr = Csr.sip) (admitted : Admitted c w) (attempts : Attempts w) (inside : j < 16) :
    out.core.hart.ip.getLsbD j = if j ∈ superBits then (csrValue c w).getLsbD j else c.hart.ip.getLsbD j := by
  rw [(after.written admitted attempts (by rw [here]; rfl)).1, ipAfter, if_neg (by rw [here]; decide), if_pos here,
    stored_bit _ _ inside]

theorem ie_sie (here : (csrData w).csr = Csr.sie) (admitted : Admitted c w) (attempts : Attempts w) (inside : j < 16) :
    out.core.hart.ie.getLsbD j = if j ∈ superBits then (csrValue c w).getLsbD j else c.hart.ie.getLsbD j := by
  rw [(after.written admitted attempts (by rw [here]; rfl)).2, ieAfter, if_neg (by rw [here]; decide), if_pos here,
    stored_bit _ _ inside]

theorem ip_kept (other : ¬ ((csrData w).csr = Csr.mip ∨ (csrData w).csr = Csr.sip)) : out.core.hart.ip = c.hart.ip := by
  by_cases stores : (Admitted c w ∧ Attempts w) ∧ fpCsr (csrData w).csr = false
  · rw [(after.written stores.1.1 stores.1.2 stores.2).1, ipAfter, if_neg fun h => other (.inl h),
      if_neg fun h => other (.inr h)]
  · refine (after.kept ?_).1
    rwa [not_and_or, Bool.not_eq_false] at stores

theorem ie_kept (other : ¬ ((csrData w).csr = Csr.mie ∨ (csrData w).csr = Csr.sie)) : out.core.hart.ie = c.hart.ie := by
  by_cases stores : (Admitted c w ∧ Attempts w) ∧ fpCsr (csrData w).csr = false
  · rw [(after.written stores.1.1 stores.1.2 stores.2).2, ieAfter, if_neg fun h => other (.inl h),
      if_neg fun h => other (.inr h)]
  · refine (after.kept ?_).2
    rwa [not_and_or, Bool.not_eq_false] at stores

theorem rd_sip (here : (csrData w).csr = Csr.sip) (admitted : Admitted c w) (link : (csrData w).rd ≠ 0) (j : Nat) :
    (out.core.gpr (csrData w).rd).getLsbD j = (decide (j ∈ superBits) && c.hart.ip.getLsbD j) := by
  rw [after.rd admitted (by rw [here]; rfl) link, here]
  exact shown_bit c.hart.ip j

theorem rd_sie (here : (csrData w).csr = Csr.sie) (admitted : Admitted c w) (link : (csrData w).rd ≠ 0) (j : Nat) :
    (out.core.gpr (csrData w).rd).getLsbD j = (decide (j ∈ superBits) && c.hart.ie.getLsbD j) := by
  rw [after.rd admitted (by rw [here]; rfl) link, here]
  exact shown_bit c.hart.ie j

end IntsAfter

theorem respects_of_owned (after : IntsAfter c w out) (owned : Owned c w out) : Respects c w where
  mip here admitted attempts j mem := by
    rw [← after.ip_mip here admitted attempts (deviceBits_lt mem).1]
    exact owned.devices j mem
  sip here admitted attempts j mem free := by
    have stored := after.ip_sip here admitted attempts (superBits_lt mem)
    rw [if_pos mem] at stored
    rw [← stored]
    by_cases first : j = 1
    · exact (owned.affects (.inr here) j (superBits_lt mem) fun yes => free ⟨first, first ▸ yes⟩).2
    · exact owned.sip here j (superBits_lt mem) first
  sie here admitted attempts j mem free := by
    have stored := after.ie_sie here admitted attempts (superBits_lt mem)
    rw [if_pos mem] at stored
    rw [← stored]
    exact (owned.affects (.inl here) j (superBits_lt mem) free).1
  readsSip here admitted link j mem set := by
    by_contra free
    have hidden := owned.exposes (.inr here) (after.success admitted) link j
      (by have := superBits_lt mem; omega) free
    rw [after.rd_sip here admitted link j, decide_eq_true mem, set] at hidden
    cases hidden
  readsSie here admitted link j mem set := by
    by_contra free
    have hidden := owned.exposes (.inl here) (after.success admitted) link j
      (by have := superBits_lt mem; omega) free
    rw [after.rd_sie here admitted link j, decide_eq_true mem, set] at hidden
    cases hidden
  readOnly high attempts admitted := by
    have success := after.success admitted
    rw [owned.readOnly high attempts] at success
    cases success

theorem owned_of_respects (after : IntsAfter c w out) (respects : Respects c w) : Owned c w out := by
  have sipBit (here : (csrData w).csr = Csr.sip) {j : Nat} (inside : j < 16) (free : ¬ (j = 1 ∧ Delegated c.hart 1)) :
      out.core.hart.ip.getLsbD j = c.hart.ip.getLsbD j := by
    by_cases stores : Admitted c w ∧ Attempts w
    · rw [after.ip_sip here stores.1 stores.2 inside]
      split
      case isTrue mem => exact respects.sip here stores.1 stores.2 j mem free
      case isFalse => rfl
    · rw [(after.kept (.inl stores)).1]
  have sieBit (here : (csrData w).csr = Csr.sie) {j : Nat} (inside : j < 16) (free : ¬ Delegated c.hart j) :
      out.core.hart.ie.getLsbD j = c.hart.ie.getLsbD j := by
    by_cases stores : Admitted c w ∧ Attempts w
    · rw [after.ie_sie here stores.1 stores.2 inside]
      split
      case isTrue mem => exact respects.sie here stores.1 stores.2 j mem free
      case isFalse => rfl
    · rw [(after.kept (.inl stores)).2]
  have admitted_of (success : out.ret.isSuccess = true) : Admitted c w := by
    by_contra no
    rw [after.denied no] at success
    cases success
  refine ⟨fun j mem => ?_, fun here j inside ne => sipBit here inside fun both => ne both.1, ?_, ?_, ?_⟩
  · obtain ⟨inside, apart⟩ := deviceBits_lt mem
    by_cases mip : (csrData w).csr = Csr.mip
    · by_cases stores : Admitted c w ∧ Attempts w
      · rw [after.ip_mip mip stores.1 stores.2 inside]
        exact respects.mip mip stores.1 stores.2 j mem
      · rw [(after.kept (.inl stores)).1]
    by_cases sip : (csrData w).csr = Csr.sip
    · exact sipBit sip inside fun both => apart (both.1 ▸ List.mem_cons_self)
    · rw [after.ip_kept (by simp [mip, sip])]
  · rintro (here | here) j inside free
    · exact ⟨sieBit here inside free, by rw [after.ip_kept (by rw [here]; decide)]⟩
    · exact ⟨by rw [after.ie_kept (by rw [here]; decide)], sipBit here inside fun both => free (both.1 ▸ both.2)⟩
  · rintro (here | here) success link j inside free
    · rw [after.rd_sie here (admitted_of success) link j, Bool.and_eq_false_iff, decide_eq_false_iff_not]
      by_contra shown
      obtain ⟨mem, set⟩ := not_or.mp shown
      exact free (respects.readsSie here (admitted_of success) link j (not_not.mp mem) (Bool.not_eq_false _ ▸ set))
    · rw [after.rd_sip here (admitted_of success) link j, Bool.and_eq_false_iff, decide_eq_false_iff_not]
      by_contra shown
      obtain ⟨mem, set⟩ := not_or.mp shown
      exact free (respects.readsSip here (admitted_of success) link j (not_not.mp mem) (Bool.not_eq_false _ ▸ set))
  · intro high attempts
    exact after.denied (respects.readOnly high attempts)

/-! ## Sequences of CSR instructions -/

def csrStep (bus : Bus) (c : Core) (w : Inst) : Option Core := Event.step bus c (.instruction w)

/-- A sequence of CSR instructions leaves the devices' bits, and each of them keeps to what it may read and change. -/
structure Ownership (bus : Bus) (c : Core) (words : List Inst) : Prop where
  devices : Holds (csrStep bus) (fun s => ∀ j ∈ deviceBits, s.hart.ip.getLsbD j = c.hart.ip.getLsbD j) c words
  each : Along (csrStep bus) (fun s w => ∃ out, execWord bus s w = .ok out ∧ Owned s w out) c words

theorem finish_ip (out : Executed) : (finish out).hart.ip = out.core.hart.ip := by
  unfold finish
  split
  · exact trap_ip ..
  · rfl

theorem csr_ownership_iff (bus : Bus) (c : Core) (words : List Inst) (csr : ∀ w ∈ words, CsrWord w) :
    Ownership bus c words ↔ Along (csrStep bus) Respects c words := by
  have pointwise : ∀ w ∈ words, ∀ s, (∃ out, execWord bus s w = .ok out ∧ Owned s w out) ↔ Respects s w := by
    intro w mem s
    obtain ⟨out, ran, does⟩ := (csr w mem).exec bus s
    constructor
    · rintro ⟨out', ran', owned⟩
      obtain rfl := Except.ok.inj (ran'.symm.trans ran)
      exact respects_of_owned does.ints owned
    · intro respects
      exact ⟨out, ran, owned_of_respects does.ints respects⟩
  constructor
  · intro owned
    exact (along_congr pointwise).mp owned.each
  · intro respects
    have each := (along_congr pointwise).mpr respects
    refine ⟨each.holds ?_ fun _ _ => rfl, each⟩
    rintro w - s ⟨out, ran, owned⟩ same
    refine ⟨finish out, by rw [csrStep, step_eq_execWord, ran]; rfl, fun j mem => ?_⟩
    rw [finish_ip, owned.devices j mem, same j mem]

/-- `csrrw a0, sip, a1` -/
def csrrwSip : Inst := 0x14459573#32

/-- SSI is delegated, and `a1` holds its bit. -/
def delegating : Core := (bootedCore 2).mapHart (·.setCsr Csr.mideleg 2)

theorem sip_ownership : CsrWord csrrwSip ∧ Ownership Bus.empty delegating [csrrwSip] ∧
    ∃ next, csrStep Bus.empty delegating csrrwSip = some next ∧ next.hart.ip = 2 := by
  have word : CsrWord csrrwSip := ⟨by decide, by decide⟩
  have elsewhere {csr : BitVec 12} (other : (csrData csrrwSip).csr ≠ csr) {p : Prop} :
      (csrData csrrwSip).csr = csr → p := fun here => absurd here other
  -- STI and SEI are written as they were, and nothing is pending that the read could show.
  have others : ∀ j ∈ superBits, j ≠ 1 → (csrValue delegating csrrwSip).getLsbD j = delegating.hart.ip.getLsbD j := by
    decide
  have quiet : ∀ j ∈ superBits, delegating.hart.ip.getLsbD j ≠ true := by decide
  have respects : Respects delegating csrrwSip :=
    { mip := elsewhere (by decide)
      sip := fun _ _ _ j mem free => others j mem fun one => free ⟨one, rfl⟩
      sie := elsewhere (by decide)
      readsSip := fun _ _ _ j mem set => absurd set (quiet j mem)
      readsSie := elsewhere (by decide)
      readOnly := fun high => absurd high (by decide) }
  refine ⟨word, (csr_ownership_iff Bus.empty delegating [csrrwSip] ?_).mpr ⟨respects, fun _ _ => trivial⟩,
    _, step_CSRRW Bus.empty delegating (by decide), by decide +kernel⟩
  rintro w mem
  rw [List.mem_singleton.mp mem]
  exact word

/-- `csrrw x0, mip, a1` -/
def csrrwMip : Inst := 0x34459073#32

/-- Machine software raises its own software interrupt without the CLINT. -/
theorem mip_write_sets_msip :
    CsrWord csrrwMip ∧ (∃ next, csrStep Bus.empty (bootedCore 8) csrrwMip = some next ∧
      (bootedCore 8).hart.ip.getLsbD 3 = false ∧ next.hart.ip.getLsbD 3 = true) ∧
      ¬ Ownership Bus.empty (bootedCore 8) [csrrwMip] := by
  obtain ⟨next, taken, set⟩ : ∃ next, csrStep Bus.empty (bootedCore 8) csrrwMip = some next ∧
      next.hart.ip.getLsbD 3 = true :=
    ⟨_, step_CSRRW Bus.empty (bootedCore 8) (by decide), by decide +kernel⟩
  refine ⟨⟨by decide, by decide⟩, ⟨next, taken, by decide, set⟩, ?_⟩
  intro owned
  obtain ⟨-, next', taken', same⟩ := owned.devices
  obtain rfl := Option.some.inj (taken'.symm.trans taken)
  have kept := same 3 (by decide)
  rw [set] at kept
  exact absurd kept (by decide)

end Rv64Vm
