import Rv64Vm.Core.Csr
import Rv64Vm.Lib.Runs
import Rv64Vm.Mmu.TlbLemmas
import Rv64Vm.Mmu.Walk

/-! # Histories of one MMU

Everything that can happen to a hart's translation state: translations of any
kind, changes of mode, `mstatus` and `satp`, the four TLB flushes, the flush of
a page that starts hosting code, and changes of guest memory and of the
self-modifying-code tables made by anyone.
-/

namespace Rv64Vm

open Lib

inductive MmuOp where
  | translate (type : AccessType) (va : Word)
  /-- Traps, returns and status writes. -/
  | setPrivilege (mode : PrivilegeMode) (status : Word)
  | csrWrite (csr : BitVec 12) (val : Word)
  | flushAll
  | flushAddr (va : Word)
  | flushAsid (asid : BitVec 16)
  | flushAddrAsid (va : Word) (asid : BitVec 16)
  | noteExec (phys : Word)
  /-- Marks, stores and invalidations seen by the self-modifying-code tables. -/
  | setSelfMod (smc : SelfMod)
  /-- New bytes for region `i`. -/
  | poke (i : Nat) (data : Nat → Byte)

variable (c : Core)

def Core.mapTlb (f : Tlb → Tlb) : Core := c.mapHart fun h => { h with tlb := f h.tlb }

@[simp] theorem Core.mapTlb_tlb (f : Tlb → Tlb) : (c.mapTlb f).hart.tlb = f c.hart.tlb := rfl

@[simp] theorem Core.mapTlb_mmap (f : Tlb → Tlb) : (c.mapTlb f).mmap = c.mmap := rfl

/-- One operation; a translation that leaves the C++ abstract machine ends the history. -/
def mmuStep : MmuOp → Option Core
  | .translate type va => (translate c type va).toOption.map (·.core)
  | .setPrivilege mode status => some (c.mapHart fun h => { h with mode := mode, status := status })
  | .csrWrite csr val => some (csrWrite c csr val)
  | .flushAll => some (c.mapTlb (·.flushAll))
  | .flushAddr va => some (c.mapTlb (·.flushAddr va))
  | .flushAsid asid => some (c.mapTlb (·.flushAsid asid))
  | .flushAddrAsid va asid => some (c.mapTlb (·.flushAddrAsid va asid))
  | .noteExec phys => some (c.mapTlb (·.noteExec phys))
  | .setSelfMod smc => some { c with smc := smc }
  | .poke i data => some { c with mmap := c.mmap.setData i data }

/-- States that some history from a fresh TLB leads to. -/
def MmuReachable : Prop :=
  ∃ init ops, init.hart.tlb = {} ∧ run mmuStep init ops = some c

@[simp] theorem Hart.trap_tlb (h : Hart) (cause : Nat) (tval : Word) (interrupt : Bool) :
    (h.trap cause tval interrupt).tlb = h.tlb := by
  simp only [Hart.trap]
  split <;> rfl

/-- Same TLB, memory and self-modifying-code tables. -/
structure SameMmu (before after : Core) : Prop where
  tlb : after.hart.tlb = before.hart.tlb
  mmap : after.mmap = before.mmap
  smc : after.smc = before.smc

theorem SameMmu.refl : SameMmu c c := ⟨rfl, rfl, rfl⟩

theorem SameMmu.mapHart {f : Hart → Hart} (frame : (f c.hart).tlb = c.hart.tlb) :
    SameMmu c (c.mapHart f) := ⟨frame, rfl, rfl⟩

theorem SameMmu.ite {c a b : Core} {p : Prop} [Decidable p] (yes : SameMmu c a) (no : SameMmu c b) :
    SameMmu c (if p then a else b) := by
  split
  · exact yes
  · exact no

/-- A `satp` write never reaches its flush: the register already holds the
    value it is compared with. -/
theorem csrWriteSatp_eq (val : Word) :
    csrWriteSatp c val =
      if Satp.mode val = satpModeSv48 ∨ Satp.mode val = satpModeSv57 then c
      else c.mapHart ({ · with satp := val }) := by
  simp only [csrWriteSatp, Core.mapHart, ne_eq, not_true_eq_false, if_false]

/-- No CSR write touches the TLB, memory or the self-modifying-code tables. -/
theorem csrWrite_sameMmu (csr : BitVec 12) (val : Word) : SameMmu c (csrWrite c csr val) := by
  unfold csrWrite
  rw [csrWriteSatp_eq]
  have fs : ∀ {f : Hart → Hart}, (f c.hart).tlb = c.hart.tlb → SameMmu c (withFs c csr f) :=
    fun frame => .ite (.mapHart c (Hart.trap_tlb _ _ _ _)) (.mapHart c frame)
  have here : ∀ {f : Hart → Hart}, (f c.hart).tlb = c.hart.tlb → SameMmu c (c.mapHart f) :=
    SameMmu.mapHart c
  -- one alternative per case of the `switch`, in its order
  exact .ite (here rfl) <| .ite (here rfl) <| .ite (here rfl) <| .ite (here rfl) <| .ite (here rfl) <|
    .ite (here rfl) <| .ite (here rfl) <| .ite (.ite (.refl c) (here rfl)) <| .ite (fs rfl) <|
    .ite (fs rfl) <| .ite (fs rfl) <| .ite (.refl c) (here rfl)

/-- What one operation can do to the TLB and to memory. -/
inductive MmuEffect (c next : Core) : MmuOp → Prop
  | evicts {op : MmuOp} (tlb : Tlb.OnlyEvicts c.hart.tlb next.hart.tlb) (mmap : next.mmap = c.mmap) :
      MmuEffect c next op
  | flushes {op : MmuOp} (tlb : next.hart.tlb = c.hart.tlb.flushAll) (mmap : next.mmap = c.mmap) :
      MmuEffect c next op
  | pokes {i : Nat} {data : Nat → Byte} (same : next = { c with mmap := c.mmap.setData i data }) :
      MmuEffect c next (.poke i data)
  | identity {type : AccessType} {va : Word} (mapped : identityMapped c.hart type = true)
      (same : next = (translateIdentity c va).core) : MmuEffect c next (.translate type va)
  | walk {type : AccessType} {va : Word} (paged : identityMapped c.hart type = false)
      {reads : List Word} {addr pte : Word} {level : Nat} {m : MemoryMap}
      (valid : VirtualAddress.isValid va = true)
      (found : walkLoop c.mmap va 2 (rootTable (Satp.ppn c.hart.satp)) =
        .ok ⟨reads, .leaf addr pte level⟩)
      (usable : leafUsable c.hart type pte level = true)
      (updated : updateLeaf c.mmap addr pte type = .ok m)
      (same : next = walked c m type va (updatedPte pte type) level) :
      MmuEffect c next (.translate type va)

theorem MmuEffect.none {c : Core} {op : MmuOp} : MmuEffect c c op := .evicts (.refl _) rfl

theorem translate_effect {c : Core} {type : AccessType} {va : Word} {t : Translation}
    (ok : translate c type va = .ok t) : MmuEffect c t.core (.translate type va) := by
  rcases translate_cases ok with ⟨mapped, rfl⟩ | ⟨paged, pa, probed, rfl⟩ | ⟨paged, -, -, impl⟩
  · exact .identity mapped rfl
  · exact .none
  · rcases translateImpl_cases impl with
      ⟨reads, rfl⟩ | ⟨reads, addr, pte, level, m, valid, found, usable, updated, rfl⟩
    · exact .none
    · exact .walk paged valid found usable updated rfl

theorem mmuStep_effect {c next : Core} {op : MmuOp} (taken : mmuStep c op = some next) : MmuEffect c next op := by
  cases op with
  | translate type va =>
    simp only [mmuStep, Option.map_eq_some_iff] at taken
    obtain ⟨t, ok, rfl⟩ := taken
    cases result : translate c type va with
    | error e => simp [result, Except.toOption] at ok
    | ok t' =>
      simp only [result, Except.toOption, Option.some.injEq] at ok
      subst ok
      exact translate_effect result
  | setPrivilege mode status =>
    cases taken
    exact .evicts (.refl _) rfl
  | csrWrite csr val =>
    cases taken
    have same := csrWrite_sameMmu c csr val
    exact .evicts (by rw [same.tlb]; exact .refl _) same.mmap
  | flushAll =>
    cases taken
    exact .flushes (Core.mapTlb_tlb c _) (Core.mapTlb_mmap c _)
  | flushAddr va =>
    cases taken
    refine .evicts ?_ (Core.mapTlb_mmap c _)
    rw [Core.mapTlb_tlb]
    exact Tlb.flushAddr_onlyEvicts _ va
  | flushAsid asid =>
    cases taken
    refine .evicts ?_ (Core.mapTlb_mmap c _)
    rw [Core.mapTlb_tlb]
    exact Tlb.flushAsid_onlyEvicts _ asid
  | flushAddrAsid va asid =>
    cases taken
    refine .evicts ?_ (Core.mapTlb_mmap c _)
    rw [Core.mapTlb_tlb]
    exact Tlb.flushAddrAsid_onlyEvicts _ va asid
  | noteExec phys =>
    cases taken
    rcases Tlb.noteExec_cases c.hart.tlb phys with same | flushed
    · refine .evicts ?_ (Core.mapTlb_mmap c _)
      rw [Core.mapTlb_tlb, same]
      exact .refl _
    · exact .flushes ((Core.mapTlb_tlb c _).trans flushed) (Core.mapTlb_mmap c _)
  | setSelfMod smc =>
    cases taken
    exact .evicts (.refl _) rfl
  | poke i data =>
    cases taken
    exact .pokes rfl

theorem translateIdentity_tlb (c : Core) (va : Word) :
    (translateIdentity c va).core.hart.tlb = identityFill c va := rfl

theorem walked_tlb (c : Core) (m : MemoryMap) (type : AccessType) (va pte : Word) (level : Nat) :
    (walked c m type va pte level).hart.tlb = fillTlb c m type va pte level := rfl

theorem MmuEffect.genOk {c next : Core} {op : MmuOp} (effect : MmuEffect c next op)
    (ok : c.hart.tlb.GenOk) : next.hart.tlb.GenOk := by
  cases effect with
  | evicts tlb _ => exact ok.onlyEvicts tlb
  | flushes tlb _ => exact tlb ▸ ok.flushAll
  | pokes same => rwa [same]
  | identity _ same =>
    rw [same, translateIdentity_tlb]
    unfold identityFill
    exact ok.insert _ _ _ _ _ _ _ _
  | walk _ _ _ _ _ same =>
    rw [same, walked_tlb]
    unfold fillTlb
    exact ok.insert _ _ _ _ _ _ _ _

section Reachable

variable {c : Core} (reachable : MmuReachable c)

include reachable

/-- In every reachable state no TLB slot is ahead of the generation, and what every operation then keeps holds. -/
theorem MmuReachable.keeps {I : Core → Prop} (start : ∀ init : Core, init.hart.tlb = {} → I init)
    (step : ∀ {c next : Core} {op : MmuOp}, MmuEffect c next op → c.hart.tlb.GenOk → I c → I next) :
    c.hart.tlb.GenOk ∧ I c := by
  obtain ⟨init, ops, fresh, ran⟩ := reachable
  refine run_invariant_of_step (I := fun c => c.hart.tlb.GenOk ∧ I c) ?_ ⟨?_, start init fresh⟩ ran
  · intro c op next taken inv
    exact ⟨(mmuStep_effect taken).genOk inv.1, step (mmuStep_effect taken) inv.1 inv.2⟩
  · rw [fresh]
    exact Tlb.genOk_initial

theorem MmuReachable.genOk : c.hart.tlb.GenOk :=
  (reachable.keeps (I := fun _ => True) (fun _ _ => trivial) fun _ _ _ => trivial).1

end Reachable

end Rv64Vm
