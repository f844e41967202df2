import Rv64Vm.Mmu.Run
import Rv64Vm.Mmu.TlbEntries
import Rv64Vm.Mmu.WalkCorrect

/-! # Soundness of TLB hits

A TLB slot is backed if its entry is the image of a leaf that a walk of the
page tables finds. Walks fill backed entries and the flushes keep them, but the
identity branch seeds entries that no page table backs, and a slot may outlive
the root table it was filled from. Along histories that do neither to a slot,
every hit on the slot is confirmed by the walk of the current root.
-/

namespace Rv64Vm

open Lib

variable {spaces : Spaces} {m m' origin : MemoryMap} {asid : BitVec 16} {root : BitVec 44} {va addr pte : Word}
  {level : Nat} {reads : List Word} {c : Core} {type : AccessType}

/-- Root pages of the address spaces in use, by ASID. -/
abbrev Spaces := BitVec 16 → Option (BitVec 44)

/-- The walk of a root page. -/
def walkFrom (m : MemoryMap) (root : BitVec 44) (va : Word) : Except HostError Walk :=
  walkLoop m va 2 (rootTable root)

theorem rootTable_aligned (root : BitVec 44) : (rootTable root).toNat % 8 = 0 := tableBase_aligned _

/-- The entry is the image of a leaf of one of the address spaces. -/
inductive Backed (m : MemoryMap) (spaces : Spaces) (e : TlbEntry) : Prop
  | intro {root : BitVec 44} {va addr pte : Word} {level : Nat} {reads : List Word}
      (space : spaces e.asid = some root) (valid : VirtualAddress.isValid va = true)
      (found : walkFrom m root va = .ok ⟨reads, .leaf addr pte level⟩)
      (aligned : misaligned pte level = false) (global : e.global = Pte.g pte)
      (bits : e.pageBits = leafBits level) (vbase : e.vpageBase = va &&& ~~~(pageMask (leafBits level)))
      (pbase : e.ppageBase = Pte.getSolidPpn pte <<< 12)
      (perm : ∀ {type mode mxr sum}, Tlb.permits e.perm type mode mxr sum = true →
        leafAllowed pte type mode mxr sum = true)

/-- Global leaves are identical, up to A and D, in every address space. -/
def GlobalsAgree (m : MemoryMap) (spaces : Spaces) : Prop :=
  ∀ asid root asid' root', spaces asid = some root → spaces asid' = some root' →
    ∀ va reads addr pte level, walkFrom m root va = .ok ⟨reads, .leaf addr pte level⟩ →
      Pte.g pte = true →
        ∃ reads' addr' pte', walkFrom m root' va = .ok ⟨reads', .leaf addr' pte' level⟩ ∧
          SamePte pte pte'

/-- The tables of all address spaces are the same in both memories. -/
def SameSpaces (spaces : Spaces) (m m' : MemoryMap) : Prop :=
  ∀ asid root, spaces asid = some root → ∀ va, SameWalk (walkFrom m root va) (walkFrom m' root va)

theorem SameSpaces.of_sameTables (tables : SameTables m m') : SameSpaces spaces m m' :=
  fun _ root _ va => walkLoop_same tables va 2 (rootTable root) (rootTable_aligned root)

theorem SameSpaces.trans {m'' : MemoryMap} (first : SameSpaces spaces m m')
    (second : SameSpaces spaces m' m'') : SameSpaces spaces m m'' :=
  fun asid root space va => (first asid root space va).trans (second asid root space va)

/-- The step does not undermine `slot`: a translation into it goes through the
    page tables, from the root recorded for its ASID, and memory changes leave
    the page tables alone. -/
def KeepsSlot (spaces : Spaces) (slot : Nat) (c : Core) : MmuOp → Prop
  | .translate type va => Tlb.index va = slot → identityMapped c.hart type = false ∧
      spaces (Satp.asid c.hart.satp) = some (Satp.ppn c.hart.satp)
  | .poke i data => SameSpaces spaces c.mmap (c.mmap.setData i data)
  | _ => True

/-- What holds between two full flushes, `origin` being the memory at the first. -/
structure SlotInv (origin : MemoryMap) (spaces : Spaces) (slot : Nat) (c : Core) : Prop where
  gen : c.hart.tlb.GenOk
  tables : SameSpaces spaces origin c.mmap
  backed : (c.hart.tlb.entries slot).generation = c.hart.tlb.generation →
    Backed origin spaces (c.hart.tlb.entries slot)

/-- A leaf found in the current memory is, up to A and D, in the original one. -/
theorem found_in_origin (tables : SameSpaces spaces origin m) (space : spaces asid = some root)
    (found : walkFrom m root va = .ok ⟨reads, .leaf addr pte level⟩) :
    ∃ pte', walkFrom origin root va = .ok ⟨reads, .leaf addr pte' level⟩ ∧ SamePte pte' pte := by
  have same := tables asid root space va
  rw [found] at same
  generalize walk : walkFrom origin root va = w at same
  cases same with
  | leaf same => exact ⟨_, rfl, same⟩

theorem leafEntry_backed (tables : SameSpaces spaces origin c.mmap)
    (space : spaces (Satp.asid c.hart.satp) = some (Satp.ppn c.hart.satp)) (valid : VirtualAddress.isValid va = true)
    (found : walkFrom c.mmap (Satp.ppn c.hart.satp) va = .ok ⟨reads, .leaf addr pte level⟩)
    (usable : leafUsable c.hart type pte level = true) :
    Backed origin spaces (leafEntry c m type va (updatedPte pte type) level) := by
  obtain ⟨pte', found', same⟩ := found_in_origin tables space found
  have le : level ≤ 2 := (walkLoop_leaf (rootTable_aligned _) found).2.2
  have updated := SamePte.updatedPte pte type
  have both := same.trans updated.symm
  have aligned : misaligned pte level = false := by
    have checks := (Bool.and_eq_true _ _).mp usable
    simpa using checks.1
  have aligned' : misaligned pte' level = false := by rw [same.misaligned, aligned]
  refine .intro space valid found' aligned' ?_ rfl rfl ?_ ?_
  · rw [leafEntry_global, both.g]
  · rw [leafEntry_ppageBase _ _ _ _ _ _ le (by rw [updated.misaligned, aligned]), both.solidPpn]
  · intro type' mode mxr sum permitted
    have allowed := leafEntry_perm _ _ _ _ _ _ permitted
    simpa only [leafAllowed, both.u, both.r_eq, both.w, both.x] using allowed

theorem SlotInv.step {slot : Nat} {next : Core} {op : MmuOp}
    (keeps : KeepsSlot spaces slot c op) (taken : mmuStep c op = some next)
    (inv : SlotInv origin spaces slot c) : SlotInv origin spaces slot next := by
  have effect := mmuStep_effect taken
  refine ⟨effect.genOk inv.gen, ?_, ?_⟩
  · cases effect with
    | evicts _ mmap => exact mmap ▸ inv.tables
    | flushes _ mmap => exact mmap ▸ inv.tables
    | pokes same =>
      rw [same]
      exact inv.tables.trans keeps
    | identity _ same =>
      rw [same]
      exact inv.tables
    | walk _ _ found _ updated same =>
      obtain ⟨loaded, aligned, -⟩ := walkLoop_leaf (rootTable_aligned _) found
      rw [same]
      exact inv.tables.trans (.of_sameTables (updateLeaf_sameTables loaded aligned updated))
  · cases effect with
    | evicts tlb _ =>
      rcases tlb.2 slot with same | cleared
      · rw [same, tlb.1]
        exact inv.backed
      · rw [cleared, tlb.1]
        intro current
        exact absurd current (Nat.ne_of_lt inv.gen.positive)
    | flushes tlb _ =>
      rw [tlb]
      intro current
      exact absurd current (inv.gen.flushAll_stale slot)
    | pokes same =>
      rw [same]
      exact inv.backed
    | @identity type va mapped same =>
      have elsewhere : slot ≠ Tlb.index va := by
        intro here
        rw [(keeps here.symm).1] at mapped
        cases mapped
      rw [same, translateIdentity_tlb]
      simp only [identityFill, Tlb.insert_entries, Tlb.insert_generation]
      rw [Function.update_of_ne elsewhere]
      exact inv.backed
    | @walk type va _ _ _ _ _ m valid found usable _ same =>
      rw [same, walked_tlb, fillTlb_entries, fillTlb_generation]
      by_cases here : slot = Tlb.index va
      · rw [here, Function.update_self]
        intro _
        exact leafEntry_backed inv.tables (keeps here.symm).2 valid found usable
      · rw [Function.update_of_ne here]
        exact inv.backed

/-- A usable leaf under the current root makes the walk succeed at its address. -/
theorem translateImpl_of_leaf (valid : VirtualAddress.isValid va = true)
    (found : walkFrom c.mmap (Satp.ppn c.hart.satp) va = .ok ⟨reads, .leaf addr pte level⟩)
    (usable : leafUsable c.hart type pte level = true) :
    ∃ t, translateImpl c type va = .ok t ∧ t.ret = ⟨true, 0, 0⟩ ∧ t.pa = leafPa va pte level := by
  obtain ⟨loaded, -, -⟩ := walkLoop_leaf (rootTable_aligned _) found
  obtain ⟨m, updated⟩ := updateLeaf_of_loadPte type loaded
  rw [walkFrom] at found
  have same := (SamePte.updatedPte pte type).leafPa va level
  refine ⟨⟨⟨true, 0, 0⟩, leafPa va (updatedPte pte type) level,
    walked c m type va (updatedPte pte type) level, reads⟩, ?_, rfl, same⟩
  simp only [translateImpl, valid, found, bind, Except.bind, Bool.not_true, Bool.false_eq_true,
    if_false, finishWalk_eq, usable, if_true, updated, Except.map]

/-- A hit on a backed slot is what the walk of the current root gives. -/
theorem SlotInv.hit_sound {pa : Word} (inv : SlotInv origin spaces (Tlb.index va) c)
    (globals : GlobalsAgree origin spaces) (space : spaces (Satp.asid c.hart.satp) = some (Satp.ppn c.hart.satp))
    (hit : probe c.hart type va = some pa) :
    ∃ t, translateImpl c type va = .ok t ∧ t.ret = ⟨true, 0, 0⟩ ∧ t.pa = pa := by
  obtain ⟨current, inside, owned, permitted, address⟩ := Tlb.lookup_eq_some_iff.mp hit
  cases inv.backed current with
  | @intro root va' addr pte level reads space' valid found aligned global bits vbase pbase perm =>
    have le : level ≤ 2 := (walkLoop_leaf (rootTable_aligned _) found).2.2
    have small : leafBits level < 64 := by simp only [leafBits]; omega
    rw [bits, vbase] at inside
    rw [bits, pbase] at address
    -- `va` lies in the page of the walk that filled the slot
    have shifted := ((and_not_lowMask_eq_iff small va va').mp inside).symm
    have here : walkFrom origin root va = .ok ⟨reads, .leaf addr pte level⟩ :=
      walkLoop_va_congr shifted found
    have valid' : VirtualAddress.isValid va = true := by
      rw [← isValid_congr (by simp only [leafBits]; omega) shifted, valid]
    -- the current root reaches the same leaf: it is the filling root, or the leaf is global
    have there : ∃ reads' addr' pte', walkFrom origin (Satp.ppn c.hart.satp) va =
        .ok ⟨reads', .leaf addr' pte' level⟩ ∧ SamePte pte pte' := by
      rcases owned with isGlobal | sameAsid
      · exact globals _ _ _ _ space' space va _ _ _ _ here (global ▸ isGlobal)
      · rw [sameAsid, space] at space'
        cases space'
        exact ⟨_, _, _, here, .refl _⟩
    obtain ⟨reads', addr', pte', origin', same⟩ := there
    have now := inv.tables _ _ space va
    rw [origin'] at now
    generalize walk : walkFrom c.mmap (Satp.ppn c.hart.satp) va = w at now
    cases now with
    | leaf same' =>
      have whole := same.trans same'
      have usable : leafUsable c.hart type pte level = true := by
        simp only [leafUsable, aligned, Bool.not_false, Bool.true_and]
        exact perm permitted
      obtain ⟨t, ok, success, pa'⟩ :=
        translateImpl_of_leaf valid' walk (by rw [← whole.leafUsable]; exact usable)
      refine ⟨t, ok, success, ?_⟩
      rw [pa', ← whole.leafPa, address, leafPa]

/-- In every history: after the last full flush, a slot that is never filled by
    the identity branch, nor from two roots under one ASID, gives only hits that
    the walk of the current root confirms. -/
theorem tlb_hit_sound (spaces : Spaces) (init before after : Core) (pre post : List MmuOp)
    (type : AccessType) (va pa : Word) (fresh : init.hart.tlb = {})
    (start : run mmuStep init (pre ++ [.flushAll]) = some before)
    (globals : GlobalsAgree before.mmap spaces)
    (keeps : Along mmuStep (KeepsSlot spaces (Tlb.index va)) before post)
    (ran : run mmuStep before post = some after)
    (space : spaces (Satp.asid after.hart.satp) = some (Satp.ppn after.hart.satp))
    (hit : probe after.hart type va = some pa) :
    ∃ t, translateImpl after type va = .ok t ∧ t.ret = ⟨true, 0, 0⟩ ∧ t.pa = pa := by
  rw [run_append, Option.bind_eq_some_iff] at start
  obtain ⟨mid, reached, flushed⟩ := start
  have ok : mid.hart.tlb.GenOk := MmuReachable.genOk ⟨init, pre, fresh, reached⟩
  obtain rfl : mid.mapTlb (·.flushAll) = before := by simpa [run, mmuStep] using flushed
  have inv : SlotInv mid.mmap spaces (Tlb.index va) (mid.mapTlb (·.flushAll)) := by
    refine ⟨?_, fun _ root _ va => .refl _, ?_⟩
    · rw [Core.mapTlb_tlb]
      exact ok.flushAll
    · rw [Core.mapTlb_tlb]
      intro current
      exact absurd current (ok.flushAll_stale _)
  have final := run_invariant (fun s a next keeps taken => SlotInv.step keeps taken) keeps inv ran
  exact final.hit_sound globals space hit

/-- The one address space of `gigapageCore`. -/
def gigapageSpaces : Spaces := fun asid => if asid = 0 then some 0x80000 else none

theorem gigapageSpaces_root (space : gigapageSpaces asid = some root) : root = 0x80000 := by
  unfold gigapageSpaces at space
  split at space
  · exact (Option.some.inj space).symm
  · cases space

theorem gigapage_hit_sound :
    ∃ after t, run mmuStep gigapageCore [.flushAll, .translate .load 0x80000123#64] = some after ∧
      translateImpl after .load 0x80000ABC#64 = .ok t ∧ t.ret = ⟨true, 0, 0⟩ ∧
      t.pa = 0x80000ABC#64 := by
  have globals : GlobalsAgree gigapageCore.mmap gigapageSpaces := by
    intro asid root asid' root' space space' va reads addr pte level found _
    rw [gigapageSpaces_root space] at found
    rw [gigapageSpaces_root space']
    exact ⟨_, _, _, found, .refl _⟩
  obtain ⟨t, sound⟩ := tlb_hit_sound gigapageSpaces gigapageCore (gigapageCore.mapTlb (·.flushAll)) _
    [] [.translate .load 0x80000123#64] .load 0x80000ABC#64 0x80000ABC#64 rfl rfl globals
    ⟨fun _ => ⟨by decide, by decide⟩, fun _ _ => trivial⟩ rfl (by decide +kernel) (by decide +kernel)
  exact ⟨_, t, rfl, sound⟩

/-- Machine mode at reset over one page of zeroed RAM. -/
def resetCore : Core where
  hart := {}
  mmap := MemoryMap.empty.addRegion 0x80000000#64 0x1000#64 0x700000000000#64
  smc := {}

/-- Machine mode loads from `0x80000000`; then `satp` selects the all-zero page
    there as an Sv39 root table and User mode is entered. -/
def seedOps : List MmuOp :=
  [.flushAll, .translate .load 0x80000000#64, .csrWrite Csr.satp 0x8000000000080000#64,
    .setPrivilege .user 0#64]

/-- User mode hits the entry that the identity branch seeded, although no page
    is mapped. -/
theorem identity_seed_hits_unmapped_page :
    ∃ c t, run mmuStep resetCore seedOps = some c ∧
      c.hart.getEffectiveMode .load = .user ∧ Satp.mode c.hart.satp = satpModeSv39 ∧
      probe c.hart .load 0x80000000#64 = some 0x80000000#64 ∧
      translateImpl c .load 0x80000000#64 = .ok t ∧
      t.ret = ⟨false, excLoadPageFault, 0x80000000#64⟩ := by
  refine ⟨_, _, rfl, ?_, ?_, ?_, rfl, ?_⟩
  · decide
  · decide
  · decide +kernel
  · decide +kernel

end Rv64Vm
