import Rv64Vm.Lib.Results
import Rv64Vm.Mmu.PteAccess

/-! # The walk and `translate`, case by case

One lemma per function: what an iteration of the walk loop does with the entry
it read, what the code after the leaf does, and the ways a translation can end.
The second half compares walks of two memories whose page-table entries agree
up to the accessed and dirty bits.
-/

namespace Rv64Vm

open Lib

variable {m : MemoryMap} {va a addr pte : Word} {i level : Nat} {reads : List Word} {c : Core} {type : AccessType}
  {t : Translation}

/-- The entry address of every level is a multiple of eight. -/
theorem pteAddr_aligned (va a : Word) (i : Nat) (aligned : a.toNat % 8 = 0) :
    (a + VirtualAddress.getVpn va i * 8#64).toNat % 8 = 0 := by
  have eight : (8#64).toNat = 8 := rfl
  rw [BitVec.toNat_add, BitVec.toNat_mul, eight]
  omega

theorem tableBase_aligned (page : Word) : (page * pageSize).toNat % 8 = 0 := by
  have size : pageSize.toNat = 4096 := rfl
  rw [BitVec.toNat_mul, size]
  omega

/-- Continue below a pointer entry read at level `i`. -/
def walkBelow (m : MemoryMap) (va addr pte : Word) : Nat → Except HostError Walk
  | 0 => .ok ⟨[addr], .fault⟩
  | i + 1 => (walkLoop m va i (Pte.getSolidPpn pte * pageSize)).map
      (fun rest => ⟨addr :: rest.reads, rest.ending⟩)

theorem walkLoop_of_load (place : addr = a + VirtualAddress.getVpn va i * 8#64) (loaded : loadPte m addr = .ok pte) :
    walkLoop m va i a = if !Pte.v pte || (Pte.w pte && !Pte.r pte) then .ok ⟨[addr], .fault⟩
      else if Pte.r pte || Pte.x pte then .ok ⟨[addr], .leaf addr pte i⟩ else walkBelow m va addr pte i := by
  subst place
  cases i with
  | zero =>
    rw [walkLoop]
    simp only [loaded, bind, Except.bind, pure, Except.pure, walkBelow]
  | succ j =>
    rw [walkLoop]
    simp only [loaded, bind, Except.bind, pure, Except.pure, walkBelow]
    cases walkLoop m va j (Pte.getSolidPpn pte * pageSize) <;> rfl

/-- The leaf of a walk from the table at `a`: where it was read and what it passed. -/
structure FoundLeaf (m : MemoryMap) (a : Word) (i : Nat) (addr pte : Word) (level : Nat) : Prop where
  loaded : loadPte m addr = .ok pte
  aligned : a.toNat % 8 = 0 → addr.toNat % 8 = 0
  level_le : level ≤ i
  readable : (Pte.r pte || Pte.x pte) = true
  valid : Pte.v pte = true
  writable : Pte.w pte = true → Pte.r pte = true

theorem walkLoop_found
    (walked : walkLoop m va i a = .ok ⟨reads, .leaf addr pte level⟩) : FoundLeaf m a i addr pte level := by
  induction i using Nat.strongRecOn generalizing a reads with
  | ind i ih =>
    cases loaded : loadPte m (a + VirtualAddress.getVpn va i * 8#64) with
    | error e =>
      rw [walkLoop] at walked
      simp [loaded, bind, Except.bind] at walked
    | ok pte' =>
      rw [walkLoop_of_load rfl loaded] at walked
      split at walked
      case isTrue => cases walked
      case isFalse good =>
        split at walked
        case isTrue readable =>
          cases walked
          obtain ⟨valid, writable⟩ : Pte.v pte = true ∧ (Pte.w pte = true → Pte.r pte = true) := by simpa using good
          exact ⟨loaded, pteAddr_aligned va a _, Nat.le_refl _, readable, valid, writable⟩
        case isFalse =>
          cases i with
          | zero => cases walked
          | succ j =>
            obtain ⟨rest, deeper, same⟩ := map_eq_ok.mp walked
            obtain ⟨reads', ending⟩ := rest
            cases same
            have leaf := ih j (Nat.lt_succ_self j) deeper
            exact { leaf with aligned := fun _ => leaf.aligned (tableBase_aligned _),
                              level_le := Nat.le_succ_of_le leaf.level_le }

/-- A leaf that the loop returns was read where the loop says, at an aligned
    address, no higher than the level it started from. -/
theorem walkLoop_leaf (aligned : a.toNat % 8 = 0) (walked : walkLoop m va i a = .ok ⟨reads, .leaf addr pte level⟩) :
    loadPte m addr = .ok pte ∧ addr.toNat % 8 = 0 ∧ level ≤ i := by
  have leaf := walkLoop_found walked
  exact ⟨leaf.loaded, leaf.aligned aligned, leaf.level_le⟩

/-- The checks after the leaf, in one condition. -/
def leafUsable (h : Hart) (type : AccessType) (pte : Word) (level : Nat) : Bool :=
  !misaligned pte level &&
    leafAllowed pte type (h.getEffectiveMode type) (Status.mxr h.status) (Status.sum h.status)

/-- The state after a successful walk. -/
def walked (c : Core) (m : MemoryMap) (type : AccessType) (va pte : Word) (level : Nat) : Core :=
  { c with hart := { c.hart with tlb := fillTlb c m type va pte level }, mmap := m }

theorem finishWalk_eq (c : Core) (type : AccessType) (va : Word) (reads : List Word)
    (addr pte : Word) (level : Nat) :
    finishWalk c type va reads addr pte level =
      if leafUsable c.hart type pte level then
        (updateLeaf c.mmap addr pte type).map (fun m =>
          ⟨⟨true, 0, 0⟩, leafPa va (updatedPte pte type) level,
            walked c m type va (updatedPte pte type) level, reads⟩)
      else .ok (pageFault c type va reads) := by
  unfold finishWalk leafUsable
  by_cases bad : misaligned pte level
  · simp [bad]; rfl
  · by_cases allowed : leafAllowed pte type (c.hart.getEffectiveMode type)
        (Status.mxr c.hart.status) (Status.sum c.hart.status)
    · simp only [bad, allowed, Bool.not_true, Bool.not_false, Bool.false_eq_true, if_false,
        Bool.and_self, if_true, bind, Except.bind, pure, Except.pure]
      cases updateLeaf c.mmap addr pte type <;> rfl
    · simp [bad, allowed]; rfl

/-- The ways `translateImpl` returns: a page fault that changes nothing, or a
    walk to a usable leaf whose A/D update went through. -/
theorem translateImpl_cases (ok : translateImpl c type va = .ok t) : (∃ reads, t = pageFault c type va reads) ∨
    ∃ reads addr pte level m, VirtualAddress.isValid va = true ∧
      walkLoop c.mmap va 2 (rootTable (Satp.ppn c.hart.satp)) = .ok ⟨reads, .leaf addr pte level⟩ ∧
      leafUsable c.hart type pte level = true ∧ updateLeaf c.mmap addr pte type = .ok m ∧
      t = ⟨⟨true, 0, 0⟩, leafPa va (updatedPte pte type) level,
        walked c m type va (updatedPte pte type) level, reads⟩ := by
  by_cases valid : VirtualAddress.isValid va
  · cases looped : walkLoop c.mmap va 2 (rootTable (Satp.ppn c.hart.satp)) with
    | error e => simp [translateImpl, valid, looped, bind, Except.bind] at ok
    | ok walk =>
      obtain ⟨reads, ending⟩ := walk
      simp only [translateImpl, valid, looped, bind, Except.bind, pure, Except.pure,
        Bool.not_true, Bool.false_eq_true, if_false] at ok
      cases ending with
      | fault => exact .inl ⟨reads, (Except.ok.inj ok).symm⟩
      | leaf addr pte level =>
        simp only [finishWalk_eq] at ok
        split at ok
        · rename_i usable
          cases updated : updateLeaf c.mmap addr pte type with
          | error e => simp [updated, Except.map] at ok
          | ok m =>
            simp only [updated, Except.map, Except.ok.injEq] at ok
            exact .inr ⟨reads, addr, pte, level, m, valid, rfl, usable, updated, ok.symm⟩
        · exact .inl ⟨reads, (Except.ok.inj ok).symm⟩
  · simp only [translateImpl, valid, Bool.not_false, if_true] at ok
    exact .inl ⟨[], (Except.ok.inj ok).symm⟩

/-- The TLB probe that `translate` makes. -/
def probe (h : Hart) (type : AccessType) (va : Word) : Option Word :=
  h.tlb.lookup va type (Satp.asid h.satp) (h.getEffectiveMode type) (Status.mxr h.status)
    (Status.sum h.status)

/-- The three ways through `translate`. -/
theorem translate_cases (ok : translate c type va = .ok t) :
    (identityMapped c.hart type = true ∧ t = translateIdentity c va) ∨
    (identityMapped c.hart type = false ∧ ∃ pa, probe c.hart type va = some pa ∧ t = ⟨⟨true, 0, 0⟩, pa, c, []⟩) ∨
    (identityMapped c.hart type = false ∧ probe c.hart type va = none ∧
      Satp.mode c.hart.satp = satpModeSv39 ∧ translateImpl c type va = .ok t) := by
  unfold translate at ok
  cases identity : identityMapped c.hart type with
  | true =>
    simp only [identity, if_true] at ok
    exact .inl ⟨rfl, (Except.ok.inj ok).symm⟩
  | false =>
    simp only [identity, Bool.false_eq_true, if_false] at ok
    cases probed : probe c.hart type va with
    | some pa =>
      simp only [probe] at probed
      simp only [probed] at ok
      exact .inr (.inl ⟨rfl, pa, rfl, (Except.ok.inj ok).symm⟩)
    | none =>
      simp only [probe] at probed
      simp only [probed] at ok
      split at ok
      · exact .inr (.inr ⟨rfl, rfl, by assumption, ok⟩)
      · cases ok

/-- A translation fails with a page fault at its address. -/
theorem translate_fault (ok : translate c type va = .ok t)
    (failed : t.ret.isSuccess = false) : t.ret = ⟨false, accessTypeToFault type, va⟩ := by
  rcases translate_cases ok with ⟨-, rfl⟩ | ⟨-, pa, -, rfl⟩ | ⟨-, -, -, impl⟩
  · cases failed
  · cases failed
  · rcases translateImpl_cases impl with ⟨reads, rfl⟩ | ⟨reads, addr, pte, level, m, -, -, -, -, rfl⟩
    · rfl
    · cases failed

end Rv64Vm
