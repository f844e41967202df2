import Rv64Vm.Exec.Events

/-! # Where execution goes on

Steps are of 2 or 4 bytes, branches and jumps check or mask their target, and trap vectors are
masked. Only `MRET` and `SRET` take an address as the guest has written it.
-/

namespace Rv64Vm

open Lib

section Instructions

variable {bus : Bus} {c : Core} {w : Inst} {i : InstructionData} {out : Executed}

theorem trap_halfword (h : Hart) (cause : Nat) (tval : Word) (interrupt : Bool) :
    Halfword (h.trap cause tval interrupt).pc := by
  have vector (tvec : Word) : Halfword (Hart.trapVector tvec cause interrupt) := by
    unfold Hart.trapVector
    apply (halfword_and_not_three tvec).add
    split
    · rw [Halfword, BitVec.toNat_mul]
      simp only [BitVec.toNat_ofNat]
      omega
    · decide
  unfold Hart.trap
  split
  · exact vector _
  · exact vector _

theorem finish_halfword (even : out.ret.isSuccess = true → Halfword (out.core.hart.pc + out.ret.increasePc)) :
    Halfword (finish out).hart.pc := by
  unfold finish
  cases success : out.ret.isSuccess with
  | false => exact trap_halfword ..
  | true => exact even success

theorem Known.halfword {ins : Instruction} {size : Word} (known : Known size ins) (step : Halfword size)
    (ran : ins.func bus c (.ofInst w ins.immDecode) = .ok out) (even : Halfword c.hart.pc) :
    Halfword (finish out).hart.pc := by
  apply finish_halfword
  intro success
  rcases known with plain | ⟨jump, -⟩
  · cases plain ran with
    | retired frame _ size => exact size ▸ frame.pc ▸ even.add step
    | failed _ failure => exact absurd success (Bool.eq_false_iff.mp failure)
    | store _ _ same =>
      rw [same] at success
      cases success
  · exact jump.even ran success even

/-- A CSR instruction steps by 4, also after the traps that `csr_read` and `csr_write` take. -/
theorem CsrDoes.halfword {form : CsrForm} (does : CsrDoes form c i out) (even : Halfword c.hart.pc) :
    Halfword (finish out).hart.pc := by
  have four {a : Word} (here : Halfword a) : Halfword (a + 4#64) := here.add (by decide)
  apply finish_halfword
  cases does with
  | refused _ same =>
    subst same
    exact nofun
  | trapped _ off same =>
    subst same
    intro _
    apply four
    obtain ⟨g, after⟩ := form.trapped_eq c i
    rw [after]
    change Halfword ((fpCsrTrap i.csr)^[form.traps i] c.hart).pc
    cases form.traps i with
    | zero => exact even
    | succ n =>
      rw [Function.iterate_succ_apply']
      exact trap_halfword ..
  | read _ _ _ same =>
    subst same
    exact fun _ => four even
  | written _ on _ g _ same =>
    subst same
    intro _
    apply four
    change Halfword (csrWrite c i.csr _).hart.pc
    rw [(csrWrite_frame on _).hart]
    exact even

/-- A return goes to an even address. -/
def EvenReturn (c : Core) : Event → Prop
  | .instruction w =>
    (w = mretWord → Halfword (c.hart.csrs Csr.mepc)) ∧ (w = sretWord → Halfword (c.hart.csrs Csr.sepc))
  | _ => True

theorem priv_halfword {ins : Instruction} (mem : ins ∈ initPriv) (hit : ins.Matches w)
    (ran : ins.func bus c i = .ok out) (even : Halfword c.hart.pc) (returns : EvenReturn c (.instruction w)) :
    Halfword (finish out).hart.pc := by
  apply finish_halfword
  intro success
  simp only [initPriv, List.mem_cons, List.not_mem_nil, or_false] at mem
  rcases mem with rfl | rfl | rfl | rfl
  case inl =>
    obtain rfl := Except.ok.inj ran
    obtain rfl : w = mretWord := hit.eq (by decide +kernel)
    apply halfword_jumped
    unfold mretMode
    dsimp only
    split_ifs <;> exact returns.1 rfl
  case inr.inl =>
    simp only [execSRET] at ran
    split at ran
    · obtain rfl := Except.ok.inj ran
      cases success
    · obtain rfl := Except.ok.inj ran
      obtain rfl : w = sretWord := hit.eq (by decide +kernel)
      exact halfword_jumped (returns.2 rfl)
  case inr.inr.inl =>
    rcases @execWFI_cases bus c _ out ran with ⟨same, step⟩ | ⟨-, same⟩
    · rw [same, step success]
      exact even.add (by decide)
    · rw [same]
      exact even.add (by decide : Halfword 4#64)
  case inr.inr.inr =>
    obtain ⟨-, pc, step⟩ := @execSFENCEVMA_ends bus c _ out ran
    rw [pc, step success]
    exact even.add (by decide)

theorem event_halfword {e : Event} {next : Core} (returns : EvenReturn c e) (taken : Event.step bus c e = some next)
    (even : Halfword c.hart.pc) : Halfword next.hart.pc := by
  cases e with
  | exception | interrupt =>
    obtain rfl := Option.some.inj taken
    exact trap_halfword ..
  | around x =>
    obtain rfl := Option.some.inj taken
    exact even
  | instruction w =>
    rcases step_instruction taken with ⟨k, out, chosen, ran, rfl⟩ | ⟨-, rfl⟩
    · have hit : (instructions.get k).Matches w := (selected_eq_some_iff.mp chosen).1.1
      rcases known_or (instructions.get k) (List.get_mem ..) with (known | known) | priv | csr
      · exact known.halfword (by decide) ran even
      · exact known.halfword (by decide) ran even
      · exact priv_halfword priv hit ran even returns
      · exact (zicsr_does csr hit ran).halfword even
    · exact trap_halfword ..

end Instructions

/-- From an even address on, execution stays at even addresses as long as no return goes to an odd one. -/
theorem pc_stays_even (bus : Bus) (c final : Core) (events : List Event) (even : Halfword c.hart.pc)
    (returns : Along (Event.step bus) EvenReturn c events) (ran : run (Event.step bus) c events = some final) :
    Halfword final.hart.pc :=
  run_invariant (fun _ _ _ returns taken => event_halfword returns taken) returns even ran

/-- A jump, a breakpoint in front of its target, and the return there. -/
theorem pc_even_after_return :
    ∃ final, run (Event.step Bus.empty) (bootedCore 0)
        [.instruction 0x0080006F, .exception excBreakpoint 0, .instruction mretWord] = some final ∧
      final.hart.pc = 0x80000008 ∧ Halfword final.hart.pc := by
  have jal : Registered execJAL (some immJ) (4, 0x7F, 0x6F) := registered_at mem_rv64i 45 rfl rfl
  have mret : Registered execMRET none (4, 0xFFFFFFFF, 0x30200073) := registered_at mem_priv 0 rfl rfl
  have jump : Event.step Bus.empty (bootedCore 0) (.instruction 0x0080006F) =
      some (finish (linkTo (bootedCore 0) 0 0x80000008 0x80000004)) := by
    rw [step_eq_execWord, jal.long (m := 0x7F) (v := 0x6F) rfl rfl]
    rfl
  have back (c : Core) : Event.step Bus.empty c (.instruction mretWord) =
      ((execMRET Bus.empty c (.ofInst mretWord none)).map finish).toOption := by
    rw [step_eq_execWord, mret.long (m := 0xFFFFFFFF) (v := 0x30200073) rfl rfl]
  obtain ⟨final, ran, pc⟩ : ∃ final, run (Event.step Bus.empty) (bootedCore 0)
      [.instruction 0x0080006F, .exception excBreakpoint 0, .instruction mretWord] = some final ∧
      final.hart.pc = 0x80000008 := by
    simp only [run, jump, back]
    exact ⟨_, rfl, rfl⟩
  refine ⟨final, ran, pc, pc_stays_even Bus.empty (bootedCore 0) final _ (by decide) ?_ ran⟩
  have other : EvenReturn (bootedCore 0) (.instruction 0x0080006F) :=
    ⟨fun same => absurd same (by decide), fun same => absurd same (by decide)⟩
  refine ⟨other, fun c₁ taken => ⟨trivial, fun c₂ trapped => ⟨?_, fun _ _ => trivial⟩⟩⟩
  obtain rfl := Option.some.inj (jump.symm.trans taken)
  obtain rfl := Option.some.inj trapped
  exact ⟨fun _ => by decide, fun other => absurd other (by decide)⟩

end Rv64Vm
