import Rv64Vm.Lib.Runs
import Rv64Vm.Exec.Privilege

/-! # What happens to a hart

A hart's life is a run of events: an instruction is executed, an exception or an interrupt is
taken, or something else happens around it (counters, `x0`, devices, memory, caches), which
leaves its architectural control state alone. `tick` is such a run.
-/

namespace Rv64Vm

open Lib

/-- `Hart::init` on a hart with the given number. -/
def Hart.init (h : Hart) (id : BitVec 8) (dtbPosAtMemory entryPc : Word) : Hart :=
  let gpr := Function.update (Function.update h.gpr 10 (id.setWidth 64)) 11 dtbPosAtMemory
  let csrs := Function.update (Function.update h.csrs 0x301 0x800000000014112F#64) 0xF14 (id.setWidth 64)
  { h with
    pc := entryPc
    mode := .machine
    gpr := gpr
    csrs := csrs
    status := putBits2 (putBits2 h.status 34 2) 32 2 }

/-- A hart of zeros after `Hart::init`, with the given device tree address in `a1`. -/
def bootedCore (dtbPosAtMemory : Word) : Core where
  hart := Hart.init {} 0 dtbPosAtMemory 0x80000000#64
  mmap := .empty
  smc := {}

/-- Everything that may change around a hart between two of its events. -/
structure Surroundings where
  x0 : Word
  cycle : Word
  instret : Word
  ctime : Word
  ip : BitVec 16
  wfi : Bool
  tlb : Tlb
  mmap : MemoryMap
  smc : SelfMod
  io : List DeviceAccess
  decoder : DecodeCache
  rounding : Rounding

/-- The hart with other surroundings. -/
def Surroundings.apply (x : Surroundings) (c : Core) : Core where
  hart := { c.hart with
    gpr := Function.update c.hart.gpr 0 x.x0
    cycle := x.cycle
    instret := x.instret
    ctime := x.ctime
    ip := x.ip
    wfi := x.wfi
    tlb := x.tlb }
  mmap := x.mmap
  smc := x.smc
  io := x.io
  decoder := x.decoder
  rounding := x.rounding

inductive Event where
  | instruction (w : Inst)
  | exception (cause : Nat) (tval : Word)
  | interrupt (irq : Nat)
  | around (x : Surroundings)

/-- One event; an instruction that leaves the host's abstract machine has no successor. -/
def Event.step (bus : Bus) (c : Core) : Event → Option Core
  | .instruction w =>
    match selected w with
    | some k => (((instructions.get k).func bus c (decoded w k)).map finish).toOption
    | none => some (c.mapHart (·.trap excIllegalInstruction (w.setWidth 64) false))
  | .exception cause tval => some (c.mapHart (·.trap cause tval false))
  | .interrupt irq => some (c.mapHart (·.trap irq 0 true))
  | .around x => some (x.apply c)

theorem step_instruction {bus : Bus} {c next : Core} {w : Inst}
    (taken : Event.step bus c (.instruction w) = some next) :
    (∃ k out, selected w = some k ∧ (instructions.get k).func bus c (decoded w k) = .ok out ∧ next = finish out) ∨
      (selected w = none ∧ next = c.mapHart (·.trap excIllegalInstruction (w.setWidth 64) false)) := by
  rw [Event.step] at taken
  cases chosen : selected w with
  | none =>
    rw [chosen] at taken
    exact .inr ⟨rfl, (Option.some.inj taken).symm⟩
  | some k =>
    rw [chosen] at taken
    cases ran : (instructions.get k).func bus c (decoded w k) with
    | error e =>
      simp only [ran] at taken
      cases taken
    | ok out =>
      simp only [ran] at taken
      exact .inl ⟨k, out, rfl, ran, (Option.some.inj taken).symm⟩

/-- An instruction event is the execution of its word, with what `tick` does after it. -/
theorem step_eq_execWord (bus : Bus) (c : Core) (w : Inst) :
    Event.step bus c (.instruction w) = ((execWord bus c w).map finish).toOption := by
  rw [Event.step, execWord]
  cases selected w with
  | none => rfl
  | some k => rfl

theorem step_CSRRW (bus : Bus) (c : Core) {w : Inst} (hit : w &&& 0x707F#32 = 0x1073#32) :
    Event.step bus c (.instruction w) = ((execCSRRW bus c (.ofInst w (some immZicsr))).map finish).toOption := by
  rw [step_eq_execWord, Registered.long (m := 0x707F#32) (v := 0x1073#32) registered_CSRRW hit rfl]

/-- In state `c` the word is a CSR instruction that writes `val` to `csr`. -/
structure CsrWrites (c : Core) (w : Inst) (csr : BitVec 12) (val : Word) : Prop where
  decodes : ∃ k, selected w = some k ∧ instructions.get k ∈ initZicsr ∧ csr = (decoded w k).csr ∧
    csrAllowed c.hart csr ((csrForm w).checked (decoded w k)) = true ∧ (csrForm w).writes (decoded w k) = true ∧
    val = (csrForm w).value c (decoded w k) (csrRead c.hart csr).1
  /-- It is not a floating-point CSR while FS is off: that would trap. -/
  on : ¬ FpCsrOff c.hart csr

/-! ## Exceptions -/

section Exceptions

variable {bus : Bus} {c c' : Core} {out : Executed}

/-- What an instruction leaves behind that raises an exception: what its translations and device
    reads have changed, or the first part of a store whose second page nobody claims. -/
inductive LeftBy (bus : Bus) (c c' : Core) : Prop
  | unwritten (same : Unwritten c c')
  | halfStored {addr val : Word} {n : Nat} {a : Access} (split : crossPage c.hart addr n = true)
      (wrote : mmioWrite bus c addr n val = .ok a) (fault : a.ret = ⟨false, excStoreAccessFault, secondAddr addr⟩)
      (same : a.core = c')

theorem leftBy_of_mmioWrite {addr val : Word} {n : Nat} {a : Access} (ok : mmioWrite bus c addr n val = .ok a)
    (failed : a.ret.isSuccess = false) : LeftBy bus c a.core := by
  cases mmioWrite_ends ok with
  | fault first _ same => exact same ▸ .unwritten (translate_unwritten first)
  | unclaimed page _ same => exact same ▸ .unwritten (translate_unwritten page.first)
  | secondFault _ first _ second _ same =>
    exact same ▸ .unwritten ((translate_unwritten first).trans (translate_unwritten second))
  | firstUnclaimed split _ same =>
    exact same ▸ .unwritten ((translate_unwritten split.first).trans (translate_unwritten split.second))
  | secondUnclaimed split _ _ same => exact .halfStored split.crosses ok (by rw [same]) rfl
  | stored _ _ same | storedBoth _ _ _ same => exact absurd failed (same ▸ nofun)

theorem Ends.leftBy {size : Word} (ends : Ends bus size c out) (raised : out.ret.isSuccess = false) :
    LeftBy bus c out.core := by
  cases ends with
  | retired _ success => exact absurd success (Bool.eq_false_iff.mp raised)
  | failed same => exact .unwritten same
  | store wrote failed same => exact same ▸ leftBy_of_mmioWrite wrote failed

theorem LeftBy.accessed (left : LeftBy bus c c') : Accessed c c' := by
  cases left with
  | unwritten same => exact same.accessed
  | halfStored _ wrote _ same => exact same ▸ mmioWrite_accessed wrote

theorem priv_refused {ins : Instruction} {i : InstructionData} (mem : ins ∈ initPriv)
    (ran : ins.func bus c i = .ok out) (raised : out.ret.isSuccess = false) : out.core = c := by
  simp only [initPriv, List.mem_cons, List.not_mem_nil, or_false] at mem
  rcases mem with rfl | rfl | rfl | rfl
  case inl =>
    obtain rfl := Except.ok.inj ran
    cases raised
  case inr.inr.inl =>
    rcases @execWFI_cases bus c _ out ran with ⟨same, -⟩ | ⟨-, same⟩
    · exact same
    · rw [same] at raised
      cases raised
  case inr.inl | inr.inr.inr =>
    simp only [execSRET, execSFENCEVMA] at ran
    split at ran
    · exact Except.ok.inj ran ▸ rfl
    · obtain rfl := Except.ok.inj ran
      cases raised

/-- Exceptions are precise: the trap is taken from the state before the instruction, up to what it leaves behind. -/
theorem exceptions_precise (bus : Bus) (c : Core) (w : Inst) (out : Executed) (ran : execWord bus c w = .ok out)
    (raised : out.ret.isSuccess = false) : ∃ before, LeftBy bus c before ∧ Accessed c before ∧
      finish out = before.mapHart (·.trap out.ret.cause out.ret.tval false) := by
  suffices left : LeftBy bus c out.core from ⟨_, left, left.accessed, by rw [finish, raised]; rfl⟩
  have here : LeftBy bus c c := .unwritten (.refl c)
  unfold execWord at ran
  cases chosen : selected w with
  | none =>
    simp only [chosen, Except.ok.injEq] at ran
    exact ran ▸ here
  | some k =>
    simp only [chosen] at ran
    have hit : (instructions.get k).Matches w := (selected_eq_some_iff.mp chosen).1.1
    rcases unprivileged_or (instructions.get k) (List.get_mem ..) with (plain | plain | jumping) | priv | csr
    · exact (plain ran).leftBy raised
    · exact (plain ran).leftBy raised
    · rcases jumping ran with ⟨-, success⟩ | ⟨same, -⟩
      · exact absurd success (Bool.eq_false_iff.mp raised)
      · exact same ▸ here
    · exact priv_refused priv ran raised ▸ here
    · cases zicsr_does csr hit ran with
      | refused _ same => exact same ▸ here
      | trapped _ _ same | read _ _ _ same | written _ _ _ _ _ same => exact absurd raised (same ▸ nofun)

/-- `csrrw x0, mvendorid, x0` is refused. -/
theorem refused_write_precise : ∃ out, execWord Bus.empty (bootedCore 0) 0xF1101073#32 = .ok out ∧
    ∃ before, LeftBy Bus.empty (bootedCore 0) before ∧ Accessed (bootedCore 0) before ∧
      finish out = before.mapHart (·.trap out.ret.cause out.ret.tval false) := by
  have ran := Registered.long (m := 0x707F#32) (v := 0x1073#32) registered_CSRRW (w := 0xF1101073#32) (by decide) rfl
    Bus.empty (bootedCore 0)
  exact ⟨_, ran, exceptions_precise Bus.empty (bootedCore 0) 0xF1101073#32 _ ran (by decide)⟩

end Exceptions

/-! ## `tick` -/

section Tick

variable {bus : Bus} {c c' : Core}

/-- `tick` before the interrupts are looked at. -/
def Hart.counted (h : Hart) : Hart := { h with gpr := Function.update h.gpr 0 0, cycle := h.cycle + 1 }

theorem beginTick_picks (h : Hart) : h.beginTick = h.counted ∨
    ∃ irq, h.counted.pickInt = some irq ∧ h.beginTick = h.counted.trap irq 0 true := by
  have polls : h.beginTick =
      if h.instret &&& 0x2FFF = 0 ∧ h.ip &&& h.ie ≠ 0 then h.counted.checkInts else h.counted := rfl
  rw [polls]
  split
  case isTrue =>
    unfold Hart.checkInts
    cases picked : h.counted.pickInt with
    | none => exact .inl rfl
    | some irq => exact .inr ⟨irq, rfl, rfl⟩
  case isFalse => exact .inl rfl

def Core.surroundings (c : Core) : Surroundings :=
  ⟨c.hart.gpr 0, c.hart.cycle, c.hart.instret, c.hart.ctime, c.hart.ip, c.hart.wfi, c.hart.tlb, c.mmap, c.smc, c.io,
    c.decoder, c.rounding⟩

/-- Two machines whose harts differ in their surroundings only. -/
theorem step_around (hart : c'.hart = { c.hart with
      gpr := Function.update c.hart.gpr 0 (c'.hart.gpr 0)
      cycle := c'.hart.cycle
      wfi := c'.hart.wfi
      tlb := c'.hart.tlb }) : Event.step bus c (.around c'.surroundings) = some c' := by
  have instret : c'.hart.instret = c.hart.instret := by rw [hart]
  have ctime : c'.hart.ctime = c.hart.ctime := by rw [hart]
  have ip : c'.hart.ip = c.hart.ip := by rw [hart]
  simp only [Event.step, Surroundings.apply, Core.surroundings, instret, ctime, ip]
  rw [← hart]

theorem beginTick_run (bus : Bus) (c : Core) :
    ∃ events, run (Event.step bus) c events = some (c.mapHart Hart.beginTick) := by
  have counts : Event.step bus c (.around (c.mapHart Hart.counted).surroundings) = some (c.mapHart Hart.counted) :=
    step_around (by simp [Core.mapHart, Hart.counted])
  rcases beginTick_picks c.hart with same | ⟨irq, -, taken⟩
  · exact ⟨[.around (c.mapHart Hart.counted).surroundings], by rw [run, counts, Core.mapHart, Core.mapHart, same]; rfl⟩
  · exact ⟨[.around (c.mapHart Hart.counted).surroundings, .interrupt irq],
      by rw [run, counts, Core.mapHart, Core.mapHart, taken]; rfl⟩

/-- A fetch, and the instruction or an exception. -/
theorem executeOne_run (good : c.decoder.Good) (ends : executeOne bus c = .ok c') :
    ∃ events, run (Event.step bus) c events = some c' := by
  obtain ⟨f, fetched, ends⟩ := bind_eq_ok.mp ends
  have delivered := fetchInstruction_ends good fetched
  have hart : f.core.hart = { c.hart with tlb := f.core.hart.tlb } := delivered.translated.hart
  have reached : Event.step bus c (.around f.core.surroundings) = some f.core := step_around (by rw [hart]; simp)
  cases success : f.ret.isSuccess with
  | false =>
    simp only [success, Bool.not_false, if_true, pure_eq_ok] at ends
    exact ⟨[.around f.core.surroundings, .exception f.ret.excCode f.ret.tval], by rw [run, reached, ← ends]; rfl⟩
  | true =>
    simp only [success, Bool.not_true, Bool.false_eq_true, if_false] at ends
    obtain ⟨k, best, inst, data⟩ := delivered.decoded success
    rw [singleInst_decoded ⟨best, inst, data⟩] at ends
    obtain ⟨out, ran, ends⟩ := bind_eq_ok.mp ends
    obtain rfl := pure_eq_ok.mp ends
    rw [data] at ran
    refine ⟨[.around f.core.surroundings, .instruction f.cache.data.inst], ?_⟩
    rw [run, reached]
    simp only [Option.bind_some, run, Event.step, selected_eq_some_iff.mpr best, decoded, ran]
    rfl

theorem tick_run (good : c.decoder.Good) (ends : tick bus c = .ok c') :
    ∃ events, run (Event.step bus) c events = some c' := by
  obtain ⟨first, begun⟩ := beginTick_run bus c
  suffices later : ∃ events, run (Event.step bus) (c.mapHart Hart.beginTick) events = some c' by
    obtain ⟨events, ran⟩ := later
    exact ⟨first ++ events, by rw [run_append, begun]; exact ran⟩
  have cached : (c.mapHart Hart.beginTick).decoder.Good := good
  rw [tick] at ends
  generalize c.mapHart Hart.beginTick = d at ends cached
  split_ifs at ends
  · obtain rfl := Except.ok.inj ends
    exact ⟨[.around (d.mapHart ({ · with wfi := false })).surroundings],
      by rw [run, step_around (by simp [Core.mapHart])]; rfl⟩
  · exact ⟨[], congrArg some (Except.ok.inj ends)⟩
  · exact executeOne_run cached ends

end Tick

end Rv64Vm
