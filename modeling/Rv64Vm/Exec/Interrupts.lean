import Rv64Vm.Exec.TrapReturn

/-! # Interrupt selection

`archInterrupt` is the interrupt the privileged architecture takes: the first in the
order MEI, MSI, MTI, SEI, SSI, STI among those that are pending, enabled and destined
to the most privileged level that is enabled. `check_ints` takes the one with the
highest number instead. `Ordered` says for which registers the two agree.
-/

namespace Rv64Vm

/-! ## The architecture -/

/-- The interrupt numbers in the order of their priority: MEI, MSI, MTI, SEI, SSI, STI. -/
def interruptOrder : List Nat := [11, 3, 7, 9, 1, 5]

def TrapLevel.cause : TrapLevel → BitVec 12
  | s => Csr.scause
  | m => Csr.mcause

namespace Hart

/-- Pending and enabled, and not delegated to Supervisor mode. -/
def pendingForM (h : Hart) : BitVec 16 := h.ip &&& h.ie &&& ~~~(h.csrs Csr.mideleg).setWidth 16

/-- Pending and enabled, and delegated to Supervisor mode. -/
def pendingForS (h : Hart) : BitVec 16 := h.ip &&& h.ie &&& (h.csrs Csr.mideleg).setWidth 16

def enabledForM (h : Hart) : Bool := decide (h.mode.toNat < PrivilegeMode.machine.toNat) || h.status.getLsbD 3

def enabledForS (h : Hart) : Bool :=
  decide (h.mode.toNat < PrivilegeMode.supervisor.toNat) || (h.mode == .supervisor && h.status.getLsbD 1)

/-- The first pending interrupt in the order of priority. -/
def firstOf (pending : BitVec 16) : Option Nat := interruptOrder.find? pending.getLsbD

/-- The interrupt the architecture takes, with the level it is taken at. -/
def archInterrupt (h : Hart) : Option (TrapLevel × Nat) :=
  match if h.enabledForM then firstOf h.pendingForM else none with
  | some n => some (.m, n)
  | none => (if h.enabledForS then firstOf h.pendingForS else none).map (.s, ·)

/-- `check_ints` takes the interrupt of the architecture: none where there is none, and
    else the same number, by a trap into its level with that number as its cause. -/
def TakesArchInterrupt (h : Hart) : Prop :=
  match h.archInterrupt with
  | none => h.pickInt = none
  | some (l, n) =>
    h.pickInt = some n ∧ h.checkInts.mode = l.mode ∧ h.checkInts.csrs l.cause = causeWord n true

end Hart

/-! ## Highest number against order of priority -/

variable (pending : BitVec 16)

/-- The highest-numbered bit is an interrupt, and none that goes before it is set. -/
def OrderedM : Prop :=
  pending >>> 11 = 1 ∨
  (pending >>> 9 = 1 ∧ ¬ pending.getLsbD 7 ∧ ¬ pending.getLsbD 3) ∨
  (pending >>> 7 = 1 ∧ ¬ pending.getLsbD 3) ∨
  (pending >>> 5 = 1 ∧ ¬ pending.getLsbD 3 ∧ ¬ pending.getLsbD 1) ∨
  pending >>> 3 = 1 ∨
  pending >>> 1 = 1

/-- No interrupt of Machine mode is delegated, and SSI and STI do not come without SEI. -/
def OrderedS : Prop :=
  ¬ pending.getLsbD 11 ∧ ¬ pending.getLsbD 7 ∧ ¬ pending.getLsbD 3 ∧
    (pending.getLsbD 1 → pending.getLsbD 5 → pending.getLsbD 9)

theorem shiftRight_eq_one_iff (k : Nat) (nonzero : pending ≠ 0) : pending >>> k = 1 ↔ Nat.log2 pending.toNat = k := by
  have positive : pending.toNat ≠ 0 := fun zero => nonzero (BitVec.eq_of_toNat_eq zero)
  rw [Nat.log2_eq_iff positive, ← BitVec.toNat_inj, BitVec.toNat_ushiftRight, Nat.shiftRight_eq_div_pow]
  have power : 0 < 2 ^ k := Nat.two_pow_pos k
  rw [show BitVec.toNat (1 : BitVec 16) = 1 from rfl, Nat.div_eq_iff power, Nat.pow_succ]
  omega

theorem clear_above_log2 {j : Nat} (above : Nat.log2 pending.toNat < j) : pending.getLsbD j = false := by
  rw [← BitVec.testBit_toNat]
  apply Nat.testBit_lt_two_pow
  exact Nat.lt_of_lt_of_le Nat.lt_log2_self (Nat.pow_le_pow_right (by decide) above)

theorem set_log2 {pending : BitVec 16} (nonzero : pending ≠ 0) : pending.getLsbD (Nat.log2 pending.toNat) = true := by
  have positive : pending.toNat ≠ 0 := fun zero => nonzero (BitVec.eq_of_toNat_eq zero)
  rw [← BitVec.testBit_toNat]
  exact Nat.testBit_log2 positive

/-- The search for the first interrupt, as a chain of tests. -/
theorem firstOf_eq :
    Hart.firstOf pending =
      if pending.getLsbD 11 then some 11 else if pending.getLsbD 3 then some 3
      else if pending.getLsbD 7 then some 7 else if pending.getLsbD 9 then some 9
      else if pending.getLsbD 1 then some 1 else if pending.getLsbD 5 then some 5 else none := by
  simp only [Hart.firstOf, interruptOrder, List.find?_cons, List.find?_nil]
  grind

/-- The highest number is the first in the order of priority. -/
theorem firstOf_eq_highest_iff {pending : BitVec 16} (nonzero : pending ≠ 0) :
    Hart.firstOf pending = some (Nat.log2 pending.toNat) ↔ OrderedM pending := by
  have set := set_log2 nonzero
  have clear := fun j => clear_above_log2 pending (j := j)
  simp only [OrderedM, shiftRight_eq_one_iff pending _ nonzero, firstOf_eq]
  generalize Nat.log2 pending.toNat = k at set clear
  generalize pending.getLsbD = bit at set clear
  by_cases listed : k ∈ interruptOrder
  · -- Each of the six: the higher ones are clear, so the order looks at the lower ones only.
    simp only [interruptOrder, List.mem_cons, List.not_mem_nil, or_false] at listed
    rcases listed with is | is | is | is | is | is
    · subst is
      simp [set]
    · subst is
      simp [set, clear 11]
    · subst is
      cases bit 3 <;> simp [set, clear 11]
    · subst is
      cases bit 3 <;> cases bit 7 <;> simp [set, clear 11]
    · subst is
      simp [set, clear 11, clear 9, clear 7, clear 3]
    · subst is
      cases bit 3 <;> cases bit 1 <;> simp [set, clear 11, clear 9, clear 7]
  · simp only [interruptOrder, List.mem_cons, List.not_mem_nil, or_false, not_or] at listed
    obtain ⟨n11, n3, n7, n9, n1, n5⟩ := listed
    simp only [n11, n3, n7, n9, n1, n5, false_and, or_self, iff_false]
    split_ifs <;> simp only [Option.some.injEq, not_false_eq_true] <;> omega

/-- What Supervisor mode looks at: SEI, STI and SSI. -/
theorem getLsbD_seMask (j : Nat) :
    (pending &&& seMask).getLsbD j = (pending.getLsbD j && decide (j = 1 ∨ j = 5 ∨ j = 9)) := by
  rw [BitVec.getLsbD_and]
  by_cases inside : j < 16
  · have mask : ∀ k : Fin 16, seMask.getLsbD k = decide (k.val = 1 ∨ k.val = 5 ∨ k.val = 9) := by decide
    rw [mask ⟨j, inside⟩]
  · rw [BitVec.getLsbD_of_ge _ _ (Nat.le_of_not_lt inside), Bool.false_and, Bool.false_and]

/-- The highest number among SEI, STI and SSI, as a chain of tests. -/
theorem highest_seMask :
    (if pending &&& seMask ≠ 0 then some (Nat.log2 (pending &&& seMask).toNat) else none) =
      if pending.getLsbD 9 then some 9 else if pending.getLsbD 5 then some 5
      else if pending.getLsbD 1 then some 1 else none := by
  have bits := getLsbD_seMask pending
  by_cases nonzero : pending &&& seMask ≠ 0
  · have set := set_log2 nonzero
    have clear := fun j => clear_above_log2 (pending &&& seMask) (j := j)
    rw [if_pos nonzero]
    generalize Nat.log2 (pending &&& seMask).toNat = k at set clear
    simp only [bits, Bool.and_eq_true, decide_eq_true_eq, Bool.and_eq_false_iff, decide_eq_false_iff_not] at set clear
    generalize pending.getLsbD = bit at set clear
    obtain ⟨set, is | is | is⟩ := set
    · subst is
      have nine := (clear 9 (by decide)).resolve_right (by decide)
      have five := (clear 5 (by decide)).resolve_right (by decide)
      simp [set, nine, five]
    · subst is
      have nine := (clear 9 (by decide)).resolve_right (by decide)
      simp [set, nine]
    · subst is
      simp [set]
  · have zero := not_not.mp nonzero
    have none_set : ∀ j, j = 1 ∨ j = 5 ∨ j = 9 → pending.getLsbD j = false := by
      intro j listed
      have bit := bits j
      rw [zero] at bit
      simpa [listed] using bit.symm
    rw [if_neg nonzero, none_set 9 (by decide), none_set 5 (by decide), none_set 1 (by decide)]
    rfl

theorem highestS_eq_firstOf_iff :
    (if pending &&& seMask ≠ 0 then some (Nat.log2 (pending &&& seMask).toNat) else none) =
      Hart.firstOf pending ↔ OrderedS pending := by
  rw [highest_seMask, firstOf_eq, OrderedS]
  generalize pending.getLsbD = bit
  cases bit 11 <;> cases bit 3 <;> cases bit 7 <;> cases bit 9 <;> cases bit 1 <;> cases bit 5 <;> decide

/-! ## `check_ints` -/

namespace Hart

variable (h : Hart)

theorem pendingM_eq : h.pendingAll &&& ~~~(h.csrs Csr.mideleg) = h.pendingForM.setWidth 64 := by
  apply BitVec.eq_of_getLsbD_eq
  intro j inside
  simp only [pendingAll, pendingForM, BitVec.getLsbD_and, BitVec.getLsbD_setWidth, BitVec.getLsbD_not, inside,
    decide_true, Bool.true_and]
  by_cases low : j < 16
  · simp [low]
  · simp [BitVec.getLsbD_of_ge _ _ (Nat.le_of_not_lt low)]

theorem pendingS_eq :
    h.pendingAll &&& seMaskWord &&& h.csrs Csr.mideleg = (h.pendingForS &&& seMask).setWidth 64 := by
  apply BitVec.eq_of_getLsbD_eq
  intro j inside
  simp only [pendingAll, seMaskWord, pendingForS, BitVec.getLsbD_and, BitVec.getLsbD_setWidth, inside, decide_true,
    Bool.true_and]
  by_cases low : j < 16
  · simp only [low, decide_true, Bool.true_and]
    exact Bool.and_right_comm ..
  · simp [BitVec.getLsbD_of_ge _ _ (Nat.le_of_not_lt low)]

theorem enabledForM_eq :
    (if h.mode = .machine then h.status.getLsbD 3 else decide (h.mode.toNat < PrivilegeMode.machine.toNat)) =
      h.enabledForM := by
  unfold enabledForM
  cases mode : h.mode <;> simp [PrivilegeMode.toNat]

theorem enabledForS_eq :
    (if h.mode = .supervisor then h.status.getLsbD 1
      else decide (h.mode.toNat < PrivilegeMode.supervisor.toNat)) = h.enabledForS := by
  unfold enabledForS
  cases mode : h.mode <;> simp [PrivilegeMode.toNat]

theorem setWidth_eq_zero {x : BitVec 16} : x.setWidth 64 = 0 ↔ x = 0 := by
  rw [← BitVec.toNat_inj, ← BitVec.toNat_inj, BitVec.toNat_setWidth]
  have := x.isLt
  simp only [BitVec.ofNat_eq_ofNat, BitVec.toNat_ofNat]
  omega

theorem highestIrq_setWidth (x : BitVec 16) : highestIrq (x.setWidth 64) = Nat.log2 x.toNat := by
  rw [highestIrq, BitVec.toNat_setWidth, Nat.mod_eq_of_lt (Nat.lt_of_lt_of_le x.isLt (by decide))]

/-- The interrupt `check_ints` takes, over the interrupts of the two levels. -/
theorem pickInt_eq :
    h.pickInt =
      if h.enabledForM ∧ h.pendingForM ≠ 0 then some (Nat.log2 h.pendingForM.toNat)
      else if h.enabledForS then
        if h.pendingForS &&& seMask ≠ 0 then some (Nat.log2 (h.pendingForS &&& seMask).toNat) else none
      else none := by
  have quiet : h.pendingAll = 0 → h.pendingForM = 0 ∧ h.pendingForS &&& seMask = 0 := by
    intro zero
    rw [← setWidth_eq_zero, ← setWidth_eq_zero, ← pendingM_eq, ← pendingS_eq, zero]
    simp
  simp only [pickInt, pendingM_eq, pendingS_eq, enabledForM_eq, enabledForS_eq, ne_eq, setWidth_eq_zero,
    highestIrq_setWidth]
  by_cases zero : h.pendingAll = 0
  · obtain ⟨m, s⟩ := quiet zero
    simp [zero, m, s]
  · rw [if_neg zero]
    split_ifs <;> simp_all

/-- A trap for the interrupt enters the level it is destined to, with its number as the cause. -/
theorem checkInts_enters {l : TrapLevel} {n : Nat} (picked : h.pickInt = some n)
    (level : h.trapLevel n true = l) :
    h.checkInts.mode = l.mode ∧ h.checkInts.csrs l.cause = causeWord n true := by
  have taken : h.checkInts = h.trap n 0 true := by rw [checkInts, picked]
  rw [taken, trap_mode_eq, level]
  refine ⟨rfl, ?_⟩
  unfold trapLevel at level
  by_cases delegated : h.delegateToS n true = true
  · rw [if_pos delegated] at level
    subst level
    rw [trap, if_pos delegated]
    rfl
  · rw [if_neg delegated] at level
    subst level
    rw [trap, if_neg delegated]
    rfl

theorem trapLevel_of_pendingForM {n : Nat} (set : h.pendingForM.getLsbD n = true) : h.trapLevel n true = .m := by
  have stays : (h.csrs Csr.mideleg).getLsbD n = false := by
    simp only [pendingForM, BitVec.getLsbD_and, BitVec.getLsbD_not, BitVec.getLsbD_setWidth, Bool.and_eq_true,
      decide_eq_true_eq, Bool.not_eq_true', Bool.and_eq_false_iff, decide_eq_false_iff_not] at set
    exact set.2.2.resolve_left (not_not.mpr set.2.1)
  rw [trapLevel, delegateToS, if_pos rfl, stays, Bool.and_false]
  rfl

theorem trapLevel_of_pendingForS {n : Nat} (set : h.pendingForS.getLsbD n = true) (enabled : h.enabledForS = true) :
    h.trapLevel n true = .s := by
  have goes : (h.csrs Csr.mideleg).getLsbD n = true := by
    simp only [pendingForS, BitVec.getLsbD_and, BitVec.getLsbD_setWidth, Bool.and_eq_true] at set
    exact set.2.2
  have below : (h.mode != PrivilegeMode.machine) = true := by
    unfold enabledForS at enabled
    cases mode : h.mode with
    | user | supervisor | hypervisor => rfl
    | machine => rw [mode] at enabled; cases enabled
  rw [trapLevel, delegateToS, if_pos rfl, goes, below]
  rfl

/-- While the interrupts of Machine mode are enabled, the pending ones are ordered: those
    of Machine mode if there are any, else those of Supervisor mode if they are enabled. -/
def Ordered : Prop :=
  h.enabledForM →
    if h.pendingForM ≠ 0 then OrderedM h.pendingForM else h.enabledForS → OrderedS h.pendingForS

theorem getLsbD_of_firstOf {pending : BitVec 16} {n : Nat} (first : firstOf pending = some n) :
    pending.getLsbD n = true ∧ n ∈ interruptOrder :=
  ⟨List.find?_some first, List.mem_of_find?_eq_some first⟩

theorem enabledForM_of_enabledForS (enabled : h.enabledForS = true) : h.enabledForM = true := by
  unfold enabledForS at enabled
  unfold enabledForM
  cases mode : h.mode with
  | user | supervisor | hypervisor => rfl
  | machine => rw [mode] at enabled; cases enabled

end Hart

/-- `check_ints` takes the interrupt of the architecture exactly when the pending
    interrupts are ordered. -/
theorem takes_arch_interrupt_iff (h : Hart) : h.TakesArchInterrupt ↔ h.Ordered := by
  unfold Hart.TakesArchInterrupt Hart.Ordered Hart.archInterrupt
  by_cases machine : h.enabledForM = true
  case neg =>
    have super : ¬ h.enabledForS = true := fun enabled => machine (h.enabledForM_of_enabledForS enabled)
    have nothing : h.pickInt = none := by
      rw [h.pickInt_eq, if_neg fun both => machine both.1, if_neg super]
    simp [machine, super, nothing]
  case pos =>
    simp only [machine, if_true, forall_const]
    by_cases pending : h.pendingForM ≠ 0
    case pos =>
      have picked : h.pickInt = some (Nat.log2 h.pendingForM.toNat) := by
        rw [h.pickInt_eq, if_pos ⟨machine, pending⟩]
      rw [if_pos pending, ← firstOf_eq_highest_iff pending]
      cases first : Hart.firstOf h.pendingForM with
      | some n =>
        constructor
        · intro takes
          rw [← takes.1, picked]
        · intro same
          have is : h.pickInt = some n := picked.trans same.symm
          exact ⟨is, h.checkInts_enters is (h.trapLevel_of_pendingForM (Hart.getLsbD_of_firstOf first).1)⟩
      | none =>
        -- Only bits that are no interrupts are set, and `check_ints` takes one of them.
        have unlisted : Nat.log2 h.pendingForM.toNat ∉ interruptOrder := by
          intro listed
          exact absurd (set_log2 pending) (List.find?_eq_none.mp first _ listed)
        refine iff_of_false ?_ (Option.some_ne_none _).symm
        cases second : if h.enabledForS then Hart.firstOf h.pendingForS else none with
        | none =>
          rw [Option.map_none, picked]
          exact Option.some_ne_none _
        | some n =>
          intro takes
          have is : Nat.log2 h.pendingForM.toNat = n := Option.some.inj (picked.symm.trans takes.1)
          split at second
          · exact unlisted (is ▸ (Hart.getLsbD_of_firstOf second).2)
          · cases second
    case neg =>
      have zero : h.pendingForM = 0 := not_not.mp pending
      have empty : Hart.firstOf h.pendingForM = none := by rw [zero]; rfl
      rw [if_neg pending, empty]
      by_cases super : h.enabledForS = true
      case neg =>
        have nothing : h.pickInt = none := by
          rw [h.pickInt_eq, if_neg fun both => pending both.2, if_neg super]
        simp [super, nothing]
      case pos =>
        simp only [super, if_true, forall_const]
        rw [← highestS_eq_firstOf_iff]
        have picked := h.pickInt_eq
        rw [if_neg fun both => pending both.2, if_pos super] at picked
        rw [← picked]
        cases first : Hart.firstOf h.pendingForS with
        | none => exact Iff.rfl
        | some n =>
          refine and_iff_left_of_imp fun is => ?_
          exact h.checkInts_enters is (h.trapLevel_of_pendingForS (Hart.getLsbD_of_firstOf first).1 super)

/-- With a software and a timer interrupt of Machine mode pending, the timer goes first. -/
theorem timer_before_software : ¬ Hart.TakesArchInterrupt { status := 8#64, ie := 0x88, ip := 0x88 } := by
  intro takes
  have second : Hart.pickInt { status := 8#64, ie := 0x88, ip := 0x88 } = some 3 := takes.1
  revert second
  decide

end Rv64Vm
