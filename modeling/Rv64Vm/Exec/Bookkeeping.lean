import Rv64Vm.Exec.CsrOwnership

/-! # What the handlers leave to the loops

No handler counts retired instructions, and only `WFI` puts a hart to sleep, when no
enabled interrupt is pending.
-/

namespace Rv64Vm

open Lib

structure Bookkept (c c' : Core) : Prop where
  instret : c'.hart.instret = c.hart.instret
  asleep : c'.hart.wfi = true → c.hart.wfi = true ∨ c.hart.ip &&& c.hart.ie = 0

theorem Bookkept.of_eq {c c' : Core} (instret : c'.hart.instret = c.hart.instret) (wfi : c'.hart.wfi = c.hart.wfi) :
    Bookkept c c' :=
  ⟨instret, fun asleep => .inl (wfi ▸ asleep)⟩

theorem UserFrame.bookkept {c c' : Core} (frame : UserFrame c c') : Bookkept c c' :=
  .of_eq (by rw [frame.hart]) (by rw [frame.hart])

/-! ## Traps -/

section Traps

variable (h : Hart) (cause : Nat) (tval : Word) (interrupt : Bool)

theorem trap_instret : (h.trap cause tval interrupt).instret = h.instret := by
  unfold Hart.trap
  split <;> rfl

theorem trap_wfi : (h.trap cause tval interrupt).wfi = false := by
  unfold Hart.trap
  split <;> rfl

theorem trap_ie : (h.trap cause tval interrupt).ie = h.ie := by
  unfold Hart.trap
  split <;> rfl

theorem checkInts_instret : h.checkInts.instret = h.instret := by
  unfold Hart.checkInts
  split
  · exact trap_instret ..
  · rfl

end Traps

/-! ## Handlers -/

section Handlers

variable {bus : Bus} {c : Core} {i : InstructionData} {out : Executed}

theorem CsrDoes.bookkept {form : CsrForm} (does : CsrDoes form c i out) : Bookkept c out.core := by
  cases does with
  | refused _ same =>
    subst same
    exact .of_eq rfl rfl
  | trapped _ _ same =>
    obtain ⟨g, after⟩ := form.trapped_eq c i
    have traps := fpCsrTraps_frame i.csr (form.traps i) c.hart
    rw [same, after]
    exact ⟨traps.instret, fun asleep => .inl (traps.wfi asleep)⟩
  | read _ _ _ same =>
    subst same
    exact .of_eq rfl rfl
  | written _ on _ g _ same =>
    subst same
    have frame := csrWrite_frame on (form.value c i (csrRead c.hart i.csr).1)
    have instret : (csrWrite c i.csr (form.value c i (csrRead c.hart i.csr).1)).hart.instret = c.hart.instret := by
      rw [frame.hart]
    have wfi : (csrWrite c i.csr (form.value c i (csrRead c.hart i.csr).1)).hart.wfi = c.hart.wfi := by
      rw [frame.hart]
    exact .of_eq instret wfi

theorem return_bookkept {f : Handler} (isReturn : f = execMRET ∨ f = execSRET) (ran : f bus c i = .ok out) :
    Bookkept c out.core := by
  have kept := return_hart isReturn ran
  exact .of_eq (by rw [kept]) (by rw [kept])

theorem execWFI_bookkept (ran : execWFI bus c i = .ok out) : Bookkept c out.core := by
  rcases execWFI_cases ran with ⟨same, -⟩ | ⟨idle, same⟩
  · rw [same]
    exact .of_eq rfl rfl
  · rw [same]
    exact ⟨rfl, fun _ => .inr idle⟩

theorem handler_bookkept {ins : Instruction} (mem : ins ∈ instructions) (ran : ins.func bus c i = .ok out) :
    Bookkept c out.core := by
  rcases unprivileged_or ins mem with plain | priv | csr
  · exact (plain.userFrame ran).bookkept
  · simp only [initPriv, List.mem_cons, List.not_mem_nil, or_false] at priv
    rcases priv with rfl | rfl | rfl | rfl
    case inl => exact @return_bookkept bus c i out _ (.inl rfl) ran
    case inr.inl => exact @return_bookkept bus c i out _ (.inr rfl) ran
    case inr.inr.inl => exact @execWFI_bookkept bus c i out ran
    case inr.inr.inr => exact (@execSFENCEVMA_ends bus c i out ran).1.bookkept
  · exact ((zicsr_entries ins csr).runs.does ran).bookkept

theorem singleInst_bookkept {cache : InstructionCache} (ran : singleInst bus c cache = .ok out) :
    Bookkept c out.core := by
  unfold singleInst at ran
  split at ran
  case h_1 ins found =>
    obtain ⟨k, -, there⟩ := Option.bind_eq_some_iff.mp found
    exact handler_bookkept (List.mem_of_getElem? there) ran
  case h_2 => cases ran

end Handlers

/-! ## One instruction -/

section Step

variable {bus : Bus} {c c' : Core}

theorem fetchInstruction_hart {va : Word} {f : Fetched} (ok : fetchInstruction c va = .ok f) :
    f.core.hart = { c.hart with tlb := f.core.hart.tlb } := by
  unfold fetchInstruction at ok
  obtain ⟨w, fetched, ok⟩ := bind_eq_ok.mp ok
  obtain ⟨translated, -⟩ := fetchWord_translated fetched
  cases success : w.ret.isSuccess with
  | false =>
    simp only [success, Bool.not_false, if_true, pure_eq_ok] at ok
    subst ok
    exact translated.hart
  | true =>
    simp only [success, Bool.not_true, Bool.false_eq_true, if_false] at ok
    split at ok
    all_goals
      rw [pure_eq_ok] at ok
      subst ok
      exact translated.hart

/-- An instruction retires or traps; it sleeps only if it is `WFI`. -/
theorem executeOne_bookkept (ok : executeOne bus c = .ok c') :
    (c'.hart.instret = c.hart.instret ∨ c'.hart.instret = c.hart.instret + 1) ∧
      (c'.hart.wfi = true → c.hart.wfi = true ∨ c.hart.ip &&& c.hart.ie = 0) := by
  obtain ⟨f, fetched, ok⟩ := bind_eq_ok.mp ok
  have hart := fetchInstruction_hart fetched
  have trapped (h : Hart) (instret : h.instret = c.hart.instret) (cause : Nat) (tval : Word) :
      ((h.trap cause tval false).instret = c.hart.instret ∨ (h.trap cause tval false).instret = c.hart.instret + 1) ∧
        ((h.trap cause tval false).wfi = true → c.hart.wfi = true ∨ c.hart.ip &&& c.hart.ie = 0) := by
    refine ⟨.inl ((trap_instret ..).trans instret), fun asleep => ?_⟩
    rw [trap_wfi] at asleep
    cases asleep
  cases success : f.ret.isSuccess with
  | false =>
    simp only [success, Bool.not_false, if_true, pure_eq_ok] at ok
    subst ok
    exact trapped _ (by rw [hart]) ..
  | true =>
    simp only [success, Bool.not_true, Bool.false_eq_true, if_false] at ok
    obtain ⟨out, ran, ok⟩ := bind_eq_ok.mp ok
    obtain rfl := pure_eq_ok.mp ok
    have kept := singleInst_bookkept ran
    have instret : out.core.hart.instret = c.hart.instret := kept.instret.trans (by rw [hart])
    have asleep : out.core.hart.wfi = true → c.hart.wfi = true ∨ c.hart.ip &&& c.hart.ie = 0 := by
      intro asleep
      have before := kept.asleep asleep
      rw [hart] at before
      exact before
    unfold finish
    split
    case isTrue => exact trapped _ instret ..
    case isFalse => exact ⟨.inr (congrArg (· + 1) instret), asleep⟩

end Step

end Rv64Vm
