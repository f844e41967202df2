import Rv64Vm.Exec.LegalStatus

/-! # Trap entry and return

A trap stacks the program counter, the mode and the interrupt enable of the level
it enters; the return instruction of that level takes them back. `Suspended l h d`
says that a return from level `l` in `d` resumes `h`. A trap sets it up, a return
uses it, and a trap into Machine mode that is returned from leaves what Supervisor
mode has stacked alone.
-/

namespace Rv64Vm

/-- The levels that take traps. -/
inductive TrapLevel where
  | s
  | m
  deriving DecidableEq, Repr

namespace TrapLevel

def mode : TrapLevel → PrivilegeMode
  | s => .supervisor
  | m => .machine

def epc : TrapLevel → BitVec 12
  | s => Csr.sepc
  | m => Csr.mepc

/-- Position of SIE or MIE. -/
def ieBit : TrapLevel → Nat
  | s => 1
  | m => 3

/-- Position of SPIE or MPIE. -/
def pieBit : TrapLevel → Nat
  | s => 5
  | m => 7

/-- SPP or MPP as a mode. -/
def previous : TrapLevel → Word → PrivilegeMode
  | s, status => if status.getLsbD 8 then .supervisor else .user
  | m, status => .ofBits (Status.mpp status)

/-- The status bits in which a return differs from the state before the trap: the
    previous-state fields of the level, and MPRV. -/
def spent : TrapLevel → List Nat
  | s => [5, 8, 17]
  | m => [7, 11, 12, 17]

/-- The return instruction of the level. -/
def xret : TrapLevel → Handler
  | s => execSRET
  | m => execMRET

end TrapLevel

/-- The level a trap enters. -/
def Hart.trapLevel (h : Hart) (cause : Nat) (interrupt : Bool) : TrapLevel :=
  if h.delegateToS cause interrupt then .s else .m

/-- A return from level `l` in `d` resumes `h`. -/
structure Suspended (l : TrapLevel) (h d : Hart) : Prop where
  pc : d.csrs l.epc = h.pc
  mode : l.previous d.status = h.mode
  ie : d.status.getLsbD l.pieBit = h.status.getLsbD l.ieBit

/-- Equal status bits outside a list of positions. -/
def SameStatus (but : List Nat) (x y : Word) : Prop := ∀ j < 64, j ∉ but → y.getLsbD j = x.getLsbD j

/-! ## Entry -/

section Entry

variable (h : Hart) (cause : Nat) (tval : Word) (interrupt : Bool)

theorem trap_mode_eq : (h.trap cause tval interrupt).mode = (h.trapLevel cause interrupt).mode := by
  unfold Hart.trap Hart.trapLevel
  split <;> rfl

/-- A trap taken in Machine mode is not delegated. -/
theorem trapLevel_machine (machine : h.mode = .machine) : h.trapLevel cause interrupt = .m := by
  unfold Hart.trapLevel Hart.delegateToS
  rw [machine]
  rfl

/-- The status register after a trap, bit by bit. -/
theorem trap_bits {j : Nat} (inside : j < 64) :
    (h.trap cause tval interrupt).status.getLsbD j =
      match h.trapLevel cause interrupt with
      | .s => if j = 8 then h.mode != PrivilegeMode.user else if j = 1 then false
          else if j = 5 then h.status.getLsbD 1 else if j = 17 then false else h.status.getLsbD j
      | .m => if j = 12 then (BitVec.ofNat 2 h.mode.toNat).getLsbD 1
          else if j = 11 then (BitVec.ofNat 2 h.mode.toNat).getLsbD 0 else if j = 3 then false
          else if j = 7 then h.status.getLsbD 3 else if j = 17 then false else h.status.getLsbD j := by
  unfold Hart.trap Hart.trapLevel
  split
  · simp only [Hart.trapToS, Hart.setCsr]
    rw [getLsbD_putBit _ _ _ inside, getLsbD_putBit _ _ _ inside, getLsbD_putBit _ _ _ inside,
      getLsbD_putBit _ _ _ inside, getLsbD_putBit _ _ _ (by decide)]
    rfl
  · simp only [Hart.trapToM, Hart.setCsr]
    rw [getLsbD_putBits2 _ _ _ inside, getLsbD_putBit _ _ _ inside, getLsbD_putBit _ _ _ inside,
      getLsbD_putBit _ _ _ inside, getLsbD_putBit _ _ _ (by decide)]
    rfl

theorem previous_m_eq (status : Word) {mode : PrivilegeMode} (known : mode ≠ .hypervisor)
    (low : status.getLsbD 11 = (BitVec.ofNat 2 mode.toNat).getLsbD 0)
    (high : status.getLsbD 12 = (BitVec.ofNat 2 mode.toNat).getLsbD 1) : TrapLevel.m.previous status = mode := by
  have field : Status.mpp status = BitVec.ofNat 2 mode.toNat := by
    apply BitVec.eq_of_getLsbD_eq
    intro j inside
    obtain rfl | rfl : j = 0 ∨ j = 1 := by omega
    · exact (BitVec.getLsbD_extractLsb' ..).trans low
    · exact (BitVec.getLsbD_extractLsb' ..).trans high
  rw [TrapLevel.previous, field]
  cases mode with
  | hypervisor => exact absurd rfl known
  | user | supervisor | machine => rfl

theorem trap_suspends (known : h.mode ≠ .hypervisor) :
    Suspended (h.trapLevel cause interrupt) h (h.trap cause tval interrupt) := by
  have bits := fun {j : Nat} => trap_bits h cause tval interrupt (j := j)
  cases level : h.trapLevel cause interrupt with
  | s =>
    simp only [level] at bits
    have delegated : h.delegateToS cause interrupt = true := by
      by_contra stays
      rw [Hart.trapLevel, if_neg stays] at level
      cases level
    refine ⟨?_, ?_, bits (by decide)⟩
    · rw [Hart.trap, if_pos delegated]
      rfl
    · -- Only the modes below Machine are delegated from, so one bit holds the mode.
      have below : h.mode ≠ .machine := by
        intro machine
        rw [trapLevel_machine h cause interrupt machine] at level
        cases level
      rw [TrapLevel.previous, bits (by decide), if_pos rfl]
      cases mode : h.mode with
      | user | supervisor => rfl
      | hypervisor => exact absurd mode known
      | machine => exact absurd mode below
  | m =>
    simp only [level] at bits
    have stays : ¬ h.delegateToS cause interrupt = true := by
      intro delegated
      rw [Hart.trapLevel, if_pos delegated] at level
      cases level
    refine ⟨?_, previous_m_eq _ known (bits (by decide)) (bits (by decide)), bits (by decide)⟩
    rw [Hart.trap, if_neg stays]
    rfl

/-- A trap into Machine mode leaves what Supervisor mode has stacked alone. -/
theorem Suspended.trap {h₀ : Hart} (suspended : Suspended .s h₀ h) (level : h.trapLevel cause interrupt = .m) :
    Suspended .s h₀ (h.trap cause tval interrupt) := by
  have bits := fun {j : Nat} => trap_bits h cause tval interrupt (j := j)
  simp only [level] at bits
  have stays : ¬ h.delegateToS cause interrupt = true := by
    intro delegated
    rw [Hart.trapLevel, if_pos delegated] at level
    cases level
  refine ⟨?_, ?_, ?_⟩
  · rw [Hart.trap, if_neg stays]
    exact suspended.pc
  · rw [TrapLevel.previous, bits (by decide)]
    exact suspended.mode
  · rw [TrapLevel.pieBit, bits (by decide)]
    exact suspended.ie

theorem trap_status_same {l : TrapLevel} (level : h.trapLevel cause interrupt = l) :
    SameStatus (l.ieBit :: l.spent) h.status (h.trap cause tval interrupt).status := by
  intro j inside kept
  rw [trap_bits h cause tval interrupt inside, level]
  cases l with
  | s =>
    simp only [TrapLevel.ieBit, TrapLevel.spent, List.mem_cons, List.not_mem_nil, or_false, not_or] at kept
    simp only [kept, if_false]
  | m =>
    simp only [TrapLevel.ieBit, TrapLevel.spent, List.mem_cons, List.not_mem_nil, or_false, not_or] at kept
    simp only [kept, if_false]

end Entry

/-! ## Return -/

/-- The hart is back where it was suspended. -/
structure Resumed (l : TrapLevel) (h d d' : Hart) : Prop where
  pc : d'.pc = h.pc
  mode : d'.mode = h.mode
  ie : d'.status.getLsbD l.ieBit = h.status.getLsbD l.ieBit
  status : SameStatus (l.ieBit :: l.spent) d.status d'.status
  csrs : d'.csrs = d.csrs

section Return

variable (bus : Bus) {h : Hart} {c : Core} {i : InstructionData}

/-- The `switch` of `MRET`: the mode is that of MPP, and of the status only MPRV can change. -/
theorem mretMode_eq (known : TrapLevel.m.previous h.status ≠ .hypervisor) :
    (mretMode h).mode = TrapLevel.m.previous h.status ∧ (mretMode h).pc = h.pc ∧ (mretMode h).csrs = h.csrs ∧
      SameStatus [17] h.status (mretMode h).status := by
  have cleared : SameStatus [17] h.status (putBit h.status 17 false) := by
    intro j inside kept
    rw [getLsbD_putBit _ _ _ inside, if_neg (fun here => kept (List.mem_singleton.mpr here))]
  rw [TrapLevel.previous] at known ⊢
  have values : Status.mpp h.status = 0 ∨ Status.mpp h.status = 1 ∨ Status.mpp h.status = 3 := by
    revert known
    generalize Status.mpp h.status = mpp
    revert mpp
    decide
  unfold mretMode
  rcases values with is | is | is
  · simp only [is]
    exact ⟨rfl, rfl, rfl, cleared⟩
  · simp only [is]
    exact ⟨rfl, rfl, rfl, cleared⟩
  · simp only [is]
    exact ⟨rfl, rfl, rfl, fun _ _ _ => rfl⟩

theorem execMRET_resumes (suspended : Suspended .m h c.hart) (known : h.mode ≠ .hypervisor) :
    ∃ c', execMRET bus c i = .ok ⟨jumped, c'⟩ ∧ Resumed .m h c.hart c'.hart := by
  obtain ⟨mode, pc, csrs, same⟩ := mretMode_eq (h := { c.hart with pc := c.hart.csrs Csr.mepc })
    (suspended.mode ▸ known)
  refine ⟨_, rfl, pc.trans suspended.pc, mode.trans suspended.mode, ?_, ?_, csrs⟩
  · dsimp only [TrapLevel.ieBit]
    rw [getLsbD_putBits2 _ _ _ (by decide), getLsbD_putBit _ _ _ (by decide), getLsbD_putBit _ _ _ (by decide),
      same 7 (by decide) (by decide)]
    exact suspended.ie
  · intro j inside kept
    simp only [TrapLevel.ieBit, TrapLevel.spent, List.mem_cons, List.not_mem_nil, or_false, not_or] at kept
    obtain ⟨ie, pie, low, high, mprv⟩ := kept
    dsimp only
    rw [getLsbD_putBits2 _ _ _ inside, if_neg high, if_neg low, getLsbD_putBit _ _ _ inside, if_neg pie,
      getLsbD_putBit _ _ _ inside, if_neg ie, same j inside fun here => mprv (List.mem_singleton.mp here)]

theorem execSRET_resumes (suspended : Suspended .s h c.hart)
    (allowed : ¬ (c.hart.mode = .user ∨ (c.hart.mode = .supervisor ∧ Status.tsr c.hart.status))) :
    ∃ c', execSRET bus c i = .ok ⟨jumped, c'⟩ ∧ Resumed .s h c.hart c'.hart := by
  refine ⟨_, if_neg allowed, suspended.pc, ?_, ?_, ?_, rfl⟩
  · dsimp only
    rw [getLsbD_putBit _ _ _ (by decide)]
    exact suspended.mode
  · dsimp only [TrapLevel.ieBit]
    rw [getLsbD_putBit _ _ _ (by decide), getLsbD_putBit _ _ _ (by decide), getLsbD_putBit _ _ _ (by decide),
      getLsbD_putBit _ _ _ (by decide)]
    exact suspended.ie
  · intro j inside kept
    simp only [TrapLevel.ieBit, TrapLevel.spent, List.mem_cons, List.not_mem_nil, or_false, not_or] at kept
    obtain ⟨ie, pie, pp, mprv⟩ := kept
    dsimp only
    rw [getLsbD_putBit _ _ _ inside, if_neg pp, getLsbD_putBit _ _ _ inside, if_neg pie,
      getLsbD_putBit _ _ _ inside, if_neg ie, getLsbD_putBit _ _ _ inside, if_neg mprv]

end Return

/-! ## Entry and return -/

/-- The same program counter, mode and status, the positions in `but` apart. -/
structure Restored (but : List Nat) (h h' : Hart) : Prop where
  pc : h'.pc = h.pc
  mode : h'.mode = h.mode
  status : SameStatus but h.status h'.status

theorem SameStatus.trans {but : List Nat} {x y z : Word} (first : SameStatus but x y)
    (second : SameStatus but y z) : SameStatus but x z :=
  fun j inside kept => (second j inside kept).trans (first j inside kept)

theorem SameStatus.mono {but more : List Nat} {x y : Word} (same : SameStatus but x y) (sub : but ⊆ more) :
    SameStatus more x y := fun j inside kept => same j inside fun mem => kept (sub mem)

theorem SameStatus.of_ie {l : TrapLevel} {x y : Word} (same : SameStatus (l.ieBit :: l.spent) x y)
    (ie : y.getLsbD l.ieBit = x.getLsbD l.ieBit) : SameStatus l.spent x y := by
  intro j inside kept
  by_cases here : j = l.ieBit
  · rw [here, ie]
  · exact same j inside (List.not_mem_cons_of_ne_of_not_mem here kept)

theorem Resumed.restored {l : TrapLevel} {h d d' : Hart} (resumed : Resumed l h d d')
    (entered : SameStatus (l.ieBit :: l.spent) h.status d.status) : Restored l.spent h d' where
  pc := resumed.pc
  mode := resumed.mode
  status := (entered.trans resumed.status).of_ie resumed.ie

section Inverse

variable (bus : Bus) {i : InstructionData} {c : Core} {cause : Nat} (tval : Word) {interrupt : Bool}

theorem return_restores (known : c.hart.mode ≠ .hypervisor)
    (tsr : c.hart.trapLevel cause interrupt = .s → Status.tsr c.hart.status = false) :
    ∃ c', (c.hart.trapLevel cause interrupt).xret bus (c.mapHart (·.trap cause tval interrupt)) i =
        .ok ⟨jumped, c'⟩ ∧
      Restored (c.hart.trapLevel cause interrupt).spent c.hart c'.hart := by
  have suspended := trap_suspends c.hart cause tval interrupt known
  have same := trap_status_same c.hart cause tval interrupt rfl
  cases level : c.hart.trapLevel cause interrupt with
  | m =>
    rw [level] at suspended same
    obtain ⟨c', ran, resumed⟩ := execMRET_resumes bus (i := i)
      (c := c.mapHart (·.trap cause tval interrupt)) suspended known
    exact ⟨c', ran, resumed.restored same⟩
  | s =>
    rw [level] at suspended same
    have mode : (c.hart.trap cause tval interrupt).mode = .supervisor := by rw [trap_mode_eq, level]; rfl
    have kept : Status.tsr (c.hart.trap cause tval interrupt).status = false :=
      (same 22 (by decide) (by decide)).trans (tsr level)
    have allowed : ¬ ((c.hart.trap cause tval interrupt).mode = .user ∨
        ((c.hart.trap cause tval interrupt).mode = .supervisor ∧
          Status.tsr (c.hart.trap cause tval interrupt).status = true)) := by
      rw [mode, kept]
      decide
    obtain ⟨c', ran, resumed⟩ := execSRET_resumes bus (i := i)
      (c := c.mapHart (·.trap cause tval interrupt)) suspended allowed
    exact ⟨c', ran, resumed.restored same⟩

/-- A trap into Machine mode inside a handler of Supervisor mode: `MRET` goes back to the
    handler, and what the handler came from is still stacked. -/
theorem mret_keeps_suspended {h : Hart} (inner : Suspended .s h c.hart) (super : c.hart.mode = .supervisor)
    (level : c.hart.trapLevel cause interrupt = .m) :
    ∃ c', execMRET bus (c.mapHart (·.trap cause tval interrupt)) i = .ok ⟨jumped, c'⟩ ∧
      Restored TrapLevel.m.spent c.hart c'.hart ∧ Suspended .s h c'.hart := by
  have known : c.hart.mode ≠ .hypervisor := by rw [super]; decide
  have suspended := trap_suspends c.hart cause tval interrupt known
  have same := trap_status_same c.hart cause tval interrupt level
  have kept := inner.trap c.hart cause tval interrupt level
  rw [level] at suspended
  obtain ⟨c', ran, resumed⟩ := execMRET_resumes bus (i := i)
    (c := c.mapHart (·.trap cause tval interrupt)) suspended known
  refine ⟨c', ran, resumed.restored same, ?_, ?_, ?_⟩
  · rw [resumed.csrs]
    exact kept.pc
  · rw [TrapLevel.previous, resumed.status 8 (by decide) (by decide)]
    exact kept.mode
  · rw [TrapLevel.pieBit, resumed.status 5 (by decide) (by decide)]
    exact kept.ie

end Inverse

/-- Trap entry and return are inverse: the return of the level a trap enters restores the
    program counter, the mode and every status bit but the previous-state fields of that
    level and MPRV; no trap of Machine mode is delegated; and a trap into Machine mode in
    the middle of a Supervisor handler `d` unwinds by `MRET` and `SRET`. -/
theorem trap_return_inverse (bus : Bus) (i j : InstructionData) (c : Core) (cause : Nat) (tval : Word)
    (interrupt : Bool) (known : c.hart.mode ≠ .hypervisor)
    (tsr : (c.hart.trap cause tval interrupt).mode = .supervisor → Status.tsr c.hart.status = false) :
    (c.hart.mode = .machine → (c.hart.trap cause tval interrupt).mode = .machine) ∧
      (∃ l : TrapLevel, (c.hart.trap cause tval interrupt).mode = l.mode ∧
        (∃ c', l.xret bus (c.mapHart (·.trap cause tval interrupt)) i = .ok ⟨jumped, c'⟩ ∧
          Restored l.spent c.hart c'.hart) ∧
        Suspended l c.hart (c.hart.trap cause tval interrupt)) ∧
      ∀ (d : Core) (cause₂ : Nat) (tval₂ : Word) (interrupt₂ : Bool), d.hart.mode = .supervisor →
        Suspended .s c.hart d.hart → Status.tsr d.hart.status = false →
        (d.hart.trap cause₂ tval₂ interrupt₂).mode = .machine →
        ∃ c₁, execMRET bus (d.mapHart (·.trap cause₂ tval₂ interrupt₂)) i = .ok ⟨jumped, c₁⟩ ∧
          Restored TrapLevel.m.spent d.hart c₁.hart ∧
          ∃ c₂, execSRET bus c₁ j = .ok ⟨jumped, c₂⟩ ∧ c₂.hart.pc = c.hart.pc ∧ c₂.hart.mode = c.hart.mode ∧
            c₂.hart.status.getLsbD 1 = c.hart.status.getLsbD 1 ∧
            SameStatus (1 :: TrapLevel.s.spent ++ TrapLevel.m.spent) d.hart.status c₂.hart.status := by
  have mode := trap_mode_eq c.hart cause tval interrupt
  refine ⟨?_, ⟨c.hart.trapLevel cause interrupt, mode, ?_, trap_suspends _ _ _ _ known⟩, ?_⟩
  · intro machine
    rw [mode, trapLevel_machine c.hart cause interrupt machine]
    rfl
  · apply return_restores bus tval known
    intro level
    apply tsr
    rw [mode, level]
    rfl
  · intro d cause₂ tval₂ interrupt₂ super suspended untrapped entered
    have level : d.hart.trapLevel cause₂ interrupt₂ = .m := by
      rw [trap_mode_eq] at entered
      cases is : d.hart.trapLevel cause₂ interrupt₂ with
      | m => rfl
      | s => rw [is] at entered; cases entered
    obtain ⟨c₁, back, restored, still⟩ := mret_keeps_suspended bus tval₂ (i := i) suspended super level
    refine ⟨c₁, back, restored, ?_⟩
    have allowed : ¬ (c₁.hart.mode = .user ∨ (c₁.hart.mode = .supervisor ∧ Status.tsr c₁.hart.status = true)) := by
      rw [restored.mode, super, Status.tsr, restored.status 22 (by decide) (by decide)]
      rw [Status.tsr] at untrapped
      rw [untrapped]
      decide
    obtain ⟨c₂, out, resumed⟩ := execSRET_resumes bus (i := j) still allowed
    refine ⟨c₂, out, resumed.pc, resumed.mode, resumed.ie, ?_⟩
    exact (restored.status.mono (by decide)).trans (resumed.status.mono (by decide))

/-- An environment call of User mode and its return. -/
theorem trap_return_inverse_ecall :
    (Hart.trap { mode := .user } 8 0 false).mode = .machine ∧
      ∃ c', execMRET Bus.empty (Core.mapHart ⟨{ mode := .user }, MemoryMap.empty, {}, [], {}, .nearest⟩
          (·.trap 8 0 false)) ⟨0, 0, 0, 0, 0, mretWord, 0, 4⟩ = .ok ⟨jumped, c'⟩ ∧ c'.hart.mode = .user := by
  obtain ⟨-, ⟨l, mode, ⟨c', ran, restored⟩, -⟩, -⟩ := trap_return_inverse Bus.empty ⟨0, 0, 0, 0, 0, mretWord, 0, 4⟩
    ⟨0, 0, 0, 0, 0, sretWord, 0, 4⟩
    ⟨{ mode := .user }, MemoryMap.empty, {}, [], {}, .nearest⟩ 8 0 false (by decide) (fun _ => rfl)
  cases l with
  | s => cases mode
  | m => exact ⟨rfl, c', ran, restored.mode⟩

end Rv64Vm
