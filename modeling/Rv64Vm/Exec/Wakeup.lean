import Rv64Vm.Exec.Bookkeeping
import Rv64Vm.Exec.Interrupts
import Rv64Vm.Exec.RunBlocks

/-! # Waking up

What a hart that waits for an interrupt does when it is run. `int_local_pending` decides
whether it wakes up; it differs from "some enabled interrupt is pending" in that it looks
at delegation and at the mode.
-/

namespace Rv64Vm

open Lib

namespace Hart

variable (h : Hart)

/-! ## The condition -/

/-- The interrupts that wake a hart: those for Machine mode and, below it, the delegated ones that
    Supervisor mode knows. -/
def LocallyPending : Prop :=
  h.pendingForM ≠ 0 ∨ h.mode.toNat ≤ PrivilegeMode.supervisor.toNat ∧ h.pendingForS &&& seMask ≠ 0

instance : Decidable h.LocallyPending := inferInstanceAs (Decidable (_ ∨ _))

theorem none_and {w : Nat} (mask : BitVec w) : 0 &&& mask = 0 := BitVec.zero_and

theorem intLocalPending_iff : h.intLocalPending = true ↔ h.LocallyPending := by
  have quiet : h.pendingAll = 0 → ¬ h.LocallyPending := by
    intro zero pending
    have machine : h.pendingForM = 0 := setWidth_eq_zero.mp (by rw [← pendingM_eq, zero, none_and])
    have super : h.pendingForS &&& seMask = 0 := setWidth_eq_zero.mp (by rw [← pendingS_eq, zero, none_and, none_and])
    exact pending.elim (fun some => some machine) (fun some => some.2 super)
  simp only [intLocalPending, pendingM_eq, pendingS_eq, ne_eq, setWidth_eq_zero]
  by_cases zero : h.pendingAll = 0
  · rw [if_pos zero]
    exact ⟨Bool.noConfusion, fun pending => absurd pending (quiet zero)⟩
  · rw [if_neg zero]
    by_cases machine : h.pendingForM = 0
    · rw [if_neg (not_not.mpr machine), decide_eq_true_iff]
      exact ⟨.inr, fun pending => pending.resolve_left (not_not.mpr machine)⟩
    · rw [if_pos machine]
      exact ⟨fun _ => .inl machine, fun _ => rfl⟩

theorem pending_of_locallyPending (pending : h.LocallyPending) : h.ip &&& h.ie ≠ 0 := by
  intro zero
  rcases pending with machine | ⟨-, super⟩
  · exact machine (by rw [pendingForM, zero, none_and])
  · exact super (by rw [pendingForS, zero, none_and, none_and])

theorem locallyPending_of_pickInt {irq : Nat} (picked : h.pickInt = some irq) : h.LocallyPending := by
  rw [pickInt_eq] at picked
  split_ifs at picked with machine enabled super
  · exact .inl machine.2
  · refine .inr ⟨?_, super⟩
    unfold enabledForS at enabled
    cases mode : h.mode <;> simp_all [PrivilegeMode.toNat]

end Hart

/-! ## The calls -/

section Calls

variable {J : Type} (E : JitEngine J) (bus : Bus) (maxInsts : Word)

/-- `tick` on a waiting hart goes on behind its `WFI`, or takes an interrupt and executes the first
    instruction of the handler. -/
def WakesUp (c : Core) : Prop :=
  tick bus c = .ok (c.mapHart fun h => { h.counted with wfi := false }) ∨
    ∃ irq, tick bus c = executeOne bus (c.mapHart (·.counted.trap irq 0 true)) ∧
      ∀ c', tick bus c = .ok c' → c'.hart.wfi = false

/-- A waiting hart wakes up when an enabled interrupt is pending, and otherwise keeps its pc and
    its registers: `x0` is cleared and the cycle counted. -/
structure WaitsProperly (r : HartRun J) : Prop where
  tickWakes : r.core.hart.ip &&& r.core.hart.ie ≠ 0 → WakesUp bus r.core
  runWakes : r.core.hart.ip &&& r.core.hart.ie ≠ 0 →
    r.runBlocks E bus maxInsts = .ok (some (r.mapHart ({ · with wfi := false }), 0))
  tickWaits : r.core.hart.ip &&& r.core.hart.ie = 0 → tick bus r.core = .ok (r.core.mapHart Hart.counted)
  runWaits : r.core.hart.ip &&& r.core.hart.ie = 0 → r.runBlocks E bus maxInsts = .ok (some (r, 0))

variable {bus} {c : Core} {r : HartRun J}

theorem tick_waiting (asleep : c.hart.wfi = true) (quiet : c.hart.beginTick = c.hart.counted) :
    tick bus c =
      .ok (if c.hart.LocallyPending then c.mapHart fun h => { h.counted with wfi := false }
        else c.mapHart Hart.counted) := by
  have begun : c.mapHart Hart.beginTick = c.mapHart Hart.counted := by
    rw [Core.mapHart, quiet]
    rfl
  have waiting : (c.mapHart Hart.counted).hart.wfi = true := asleep
  rw [tick, begun]
  simp only [waiting, if_true]
  by_cases pending : c.hart.LocallyPending
  · have seen : (c.mapHart Hart.counted).hart.intLocalPending = true := (Hart.intLocalPending_iff _).mpr pending
    rw [if_pos pending, if_pos seen]
    rfl
  · have seen : ¬ (c.mapHart Hart.counted).hart.intLocalPending = true := fun yes =>
      pending ((Hart.intLocalPending_iff _).mp yes)
    rw [if_neg pending, if_neg seen]

theorem runBlocks_waiting (asleep : r.core.hart.wfi = true) :
    r.runBlocks E bus maxInsts =
      .ok (some (if r.core.hart.LocallyPending then r.mapHart ({ · with wfi := false }) else r, 0)) := by
  rw [HartRun.runBlocks, if_pos asleep, HartRun.wake, HartRun.mapHart, Core.mapHart]
  by_cases pending : r.core.hart.LocallyPending
  · rw [if_pos pending, if_pos ((Hart.intLocalPending_iff _).mpr pending)]
    rfl
  · rw [if_neg pending, if_neg fun yes => pending ((Hart.intLocalPending_iff _).mp yes)]

/-- The first instruction of a handler does not put the hart to sleep again. -/
theorem tick_taken (pending : c.hart.ip &&& c.hart.ie ≠ 0) {irq : Nat}
    (taken : c.hart.beginTick = c.hart.counted.trap irq 0 true) : WakesUp bus c := by
  have begun : c.mapHart Hart.beginTick = c.mapHart (·.counted.trap irq 0 true) := by
    rw [Core.mapHart, taken]
    rfl
  have awake : (c.mapHart (·.counted.trap irq 0 true)).hart.wfi = false := trap_wfi ..
  have executes : tick bus c = executeOne bus (c.mapHart (·.counted.trap irq 0 true)) := by
    rw [tick, begun]
    exact if_neg (ne_true_of_eq_false awake)
  refine .inr ⟨irq, executes, fun c' ends => Bool.eq_false_iff.mpr fun asleep => ?_⟩
  rcases (executeOne_bookkept (executes ▸ ends)).2 asleep with before | idle
  · exact absurd (before.symm.trans awake) Bool.noConfusion
  · refine pending ?_
    rw [← idle]
    exact congrArg₂ (· &&& ·) (trap_ip c.hart.counted irq 0 true).symm (trap_ie c.hart.counted irq 0 true).symm

/-- The hart waits as the architecture has it exactly if nothing is pending for it, or something
    that `int_local_pending` counts. -/
theorem waits_properly_iff (asleep : r.core.hart.wfi = true) :
    WaitsProperly E bus maxInsts r ↔ r.core.hart.ip &&& r.core.hart.ie = 0 ∨ r.core.hart.LocallyPending := by
  constructor
  · intro proper
    by_cases idle : r.core.hart.ip &&& r.core.hart.ie = 0
    · exact .inl idle
    · right
      by_contra pending
      have woken := proper.runWakes idle
      rw [runBlocks_waiting E maxInsts asleep, if_neg pending] at woken
      have same : r = r.mapHart ({ · with wfi := false }) := (Prod.mk.inj (Option.some.inj (Except.ok.inj woken))).1
      have awake : r.core.hart.wfi = false := congrArg (fun r : HartRun J => r.core.hart.wfi) same
      exact absurd (asleep.symm.trans awake) Bool.noConfusion
  · intro condition
    have wakes (busy : r.core.hart.ip &&& r.core.hart.ie ≠ 0) : r.core.hart.LocallyPending :=
      condition.resolve_left busy
    have waits (idle : r.core.hart.ip &&& r.core.hart.ie = 0) : ¬ r.core.hart.LocallyPending := fun pending =>
      Hart.pending_of_locallyPending _ pending idle
    refine ⟨fun busy => ?_, fun busy => ?_, fun idle => ?_, fun idle => ?_⟩
    · rcases beginTick_picks r.core.hart with quiet | ⟨irq, -, taken⟩
      · left
        rw [tick_waiting asleep quiet, if_pos (wakes busy)]
      · exact tick_taken busy taken
    · rw [runBlocks_waiting E maxInsts asleep, if_pos (wakes busy)]
    · rcases beginTick_picks r.core.hart with quiet | ⟨irq, picked, -⟩
      · rw [tick_waiting asleep quiet, if_neg (waits idle)]
      · exact absurd (Hart.locallyPending_of_pickInt _ picked) (waits idle)
    · rw [runBlocks_waiting E maxInsts asleep, if_neg (waits idle)]

/-! ## What never wakes up -/

/-- Nothing that the hart itself does wakes it from an interrupt that is not for it. -/
theorem ticks_waiting (asleep : c.hart.wfi = true) (pending : ¬ c.hart.LocallyPending) (n : Nat) :
    ∃ c', (fun ended : Except HostError Core => ended >>= tick bus)^[n] (.ok c) = .ok c' ∧
      c'.hart.wfi = true ∧ ¬ c'.hart.LocallyPending := by
  induction n generalizing c with
  | zero => exact ⟨c, rfl, asleep, pending⟩
  | succ n ih =>
    have quiet : c.hart.beginTick = c.hart.counted := by
      rcases beginTick_picks c.hart with quiet | ⟨irq, picked, -⟩
      · exact quiet
      · exact absurd (Hart.locallyPending_of_pickInt _ picked) pending
    have once : tick bus c = .ok (c.mapHart Hart.counted) := by rw [tick_waiting asleep quiet, if_neg pending]
    rw [Function.iterate_succ_apply]
    show ∃ c', _^[n] (tick bus c) = .ok c' ∧ _
    rw [once]
    exact ih asleep pending

/-- A hart in Machine mode waits, and the supervisor software interrupt is enabled and pending. -/
def softwareInterrupt (mideleg : Word) : Core :=
  ⟨{ mode := .machine, wfi := true, ip := 2, ie := 2, csrs := Function.update (fun _ => 0) Csr.mideleg mideleg },
    MemoryMap.empty, {}, [], {}, .nearest⟩

theorem waits_properly_undelegated :
    WaitsProperly .absent Bus.empty 100 (.fresh (softwareInterrupt 0) {} : HartRun Unit) :=
  (waits_properly_iff .absent 100 rfl).mpr (.inr (by decide))

/-- Delegated, it never wakes the hart, however often this is run. -/
theorem sleeps_while_delegated_pending :
    (softwareInterrupt 2).hart.ip &&& (softwareInterrupt 2).hart.ie ≠ 0 ∧
      (HartRun.fresh (softwareInterrupt 2) {} : HartRun Unit).runBlocks .absent Bus.empty 100 =
        .ok (some (.fresh (softwareInterrupt 2) {}, 0)) ∧
      ∀ n, ∃ c', (fun ended : Except HostError Core => ended >>= tick Bus.empty)^[n] (.ok (softwareInterrupt 2)) =
        .ok c' ∧ c'.hart.wfi = true := by
  have pending : ¬ (softwareInterrupt 2).hart.LocallyPending := by decide
  refine ⟨by decide, ?_, fun n => ?_⟩
  · refine (runBlocks_waiting .absent 100 rfl).trans ?_
    exact congrArg (fun r => Except.ok (some (r, 0))) (if_neg pending)
  · obtain ⟨c', ran, asleep, -⟩ := ticks_waiting rfl pending n
    exact ⟨c', ran, asleep⟩

end Calls

end Rv64Vm
