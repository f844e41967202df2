import Rv64Vm.Mmu.Room
import Rv64Vm.Mmu.Run

/-! # When translation returns

A translation can leave the C++ abstract machine: `unsupported_mode` throws when
`satp` names a mode without a walk, `MemoryMap` throws when an entry on the
path of the walk lies in no region, and the census of writable pages throws when
the host cannot give it the cells it asks for. Every other translation returns.
-/

namespace Rv64Vm

open Lib Sv39

variable {m : MemoryMap} {i : Nat} {addr : Word} {r : MemoryRegion}

/-- The region that serves the address holds the eight bytes of an entry there. -/
def InMemory (m : MemoryMap) (addr : Word) : Prop :=
  m.getRamDirect.isSome ∧ ∃ i r, m.findRegion addr = .ok i ∧ m.regions[i]? = some r ∧
    r.baseAddr ≤ addr ∧ (addr - r.baseAddr).toNat + pteSize ≤ r.size.toNat

theorem findRegion_of_high (position : m.ramDirect = some i) (high : dramBase ≤ addr) : m.findRegion addr = .ok i := by
  simp only [MemoryMap.findRegion, high, if_true, position]

theorem inMemory_of_ptePlace {off : Nat} (placed : ptePlace m addr = .ok (i, r, off)) : InMemory m addr := by
  have place := ptePlace_sound placed
  unfold ptePlace at placed
  split at placed
  case h_2 => cases placed
  case h_1 k ram position direct =>
    refine ⟨by simp [direct], i, r, ?_, place.region, place.above, place.offset ▸ place.inside⟩
    split at placed
    case isTrue fast =>
      split at placed
      case isFalse => cases placed
      case isTrue =>
        cases placed
        exact findRegion_of_high position
          (BitVec.le_trans (MemoryMap.dramBase_le_of_getRamDirect direct) place.above)
    case isFalse =>
      cases found : m.findRegion addr with
      | error e => simp [MemoryMap.resolve, found, bind, Except.bind] at placed
      | ok j =>
        cases region : m.regions[j]? with
        | none => simp [MemoryMap.resolve, found, region, bind, Except.bind] at placed
        | some r' =>
          cases pointer : r'.ptr addr with
          | error e => simp [MemoryMap.resolve, found, region, pointer, bind, Except.bind] at placed
          | ok off' =>
            simp only [MemoryMap.resolve, found, region, pointer, bind, Except.bind] at placed
            split at placed
            case isFalse => cases placed
            case isTrue => cases placed; rfl

/-- Below the RAM base the search itself checks the bounds that `ptr` checks again. -/
theorem ptr_of_findRegion
    (below : ¬ dramBase ≤ addr) (found : m.findRegion addr = .ok i) (region : m.regions[i]? = some r) :
    r.ptr addr = .ok (addr - r.baseAddr).toNat := by
  simp only [MemoryMap.findRegion, below, if_false] at found
  cases index : m.regions.findIdx? (fun r => r.baseAddr ≤ addr && addr < r.baseAddr + r.size) with
  | none => simp [index] at found
  | some j =>
    simp only [index, Except.ok.injEq] at found
    subst found
    obtain ⟨inside, holds, -⟩ := List.findIdx?_eq_some_iff_getElem.mp index
    rw [List.getElem?_eq_getElem inside, Option.some.injEq] at region
    rw [region] at holds
    simp only [Bool.and_eq_true, decide_eq_true_eq] at holds
    rw [MemoryRegion.ptr, if_neg]
    rintro (low | high)
    · exact BitVec.not_lt.mpr holds.1 low
    · exact BitVec.not_le.mpr holds.2 high

theorem ptePlace_of_inMemory (small : addr.toNat < 2 ^ 57)
    (inside : InMemory m addr) : ∃ p, ptePlace m addr = .ok p := by
  obtain ⟨some', i, r, found, region, above, fits⟩ := inside
  obtain ⟨ram, direct⟩ := Option.isSome_iff_exists.mp some'
  obtain ⟨k, position, ramAt⟩ := MemoryMap.getRamDirect_eq_some.mp direct
  by_cases high : dramBase ≤ addr
  · rw [findRegion_of_high position high, Except.ok.injEq] at found
    subst found
    obtain rfl : ram = r := Option.some.inj (ramAt.symm.trans region)
    have inRam : InRam ram addr.toNat := by
      rw [BitVec.toNat_sub_of_le above] at fits
      have above' : ram.baseAddr.toNat ≤ addr.toNat := above
      exact ⟨above, by omega⟩
    exact ⟨_, ptePlace_of_inRam position direct inRam small⟩
  · have slow : pteDirect ram addr = false := by
      have base := MemoryMap.dramBase_le_of_getRamDirect direct
      simp only [pteDirect, Bool.and_eq_false_iff, decide_eq_false_iff_not]
      exact .inl fun le => high (BitVec.le_trans base le)
    have resolved : m.resolve addr = .ok (i, r, (addr - r.baseAddr).toNat) := by
      simp only [MemoryMap.resolve, found, region, ptr_of_findRegion high found region, bind, Except.bind]
    refine ⟨(i, r, (addr - r.baseAddr).toNat), ?_⟩
    simp only [ptePlace, position, direct, slow, resolved, fits, if_true, Bool.false_eq_true, if_false]

theorem loadPte_returns_iff (small : addr.toNat < 2 ^ 57) : (∃ pte, loadPte m addr = .ok pte) ↔ InMemory m addr := by
  rw [loadPte_eq_place]
  constructor
  · rintro ⟨pte, loaded⟩
    cases placed : ptePlace m addr with
    | error e => simp [placed, Except.map] at loaded
    | ok p => exact inMemory_of_ptePlace placed
  · intro inside
    obtain ⟨p, placed⟩ := ptePlace_of_inMemory small inside
    exact ⟨_, by rw [placed]; rfl⟩

/-- The entry at a physical address, 0 where there is no memory. -/
def pteWord (m : MemoryMap) (a : Nat) : Nat :=
  match loadPte m (BitVec.ofNat 64 a) with
  | .ok pte => pte.toNat
  | .error _ => 0

/-- Every entry that the walk looks at lies in memory. -/
def TablesInMemory (m : MemoryMap) (va : Nat) (i base : Nat) : Prop :=
  ∀ x, Visits (pteWord m) va i base x → InMemory m (BitVec.ofNat 64 x)

theorem TablesInMemory.readable {va i base : Nat} (tables : TablesInMemory m va i base) (small : base < 2 ^ 56) :
    Readable m (pteWord m) va i base := by
  intro x visits
  have bound := visits.addr_lt small
  have low : (BitVec.ofNat 64 x).toNat < 2 ^ 57 := by rwa [toNat_ofNat_of_lt (by omega)]
  obtain ⟨pte, loaded⟩ := (loadPte_returns_iff low).mpr (tables x visits)
  exact ⟨pte, loaded, by simp only [pteWord, loaded]⟩

theorem tablesInMemory_of_walkLoop (va : Word) (i : Nat) (a : Word) (small : a.toNat < 2 ^ 56) {walk : Walk}
    (walked : walkLoop m va i a = .ok walk) : TablesInMemory m va.toNat i a.toNat := by
  induction i using Nat.strongRecOn generalizing a walk with
  | ind i ih =>
    have place := pteAddr_toNat va a i small
    generalize entry : a + VirtualAddress.getVpn va i * 8#64 = addr at place
    have here : BitVec.ofNat 64 (pteAddr va.toNat i a.toNat) = addr := by
      rw [← place, BitVec.ofNat_toNat, BitVec.setWidth_eq]
    cases loaded : loadPte m addr with
    | error e =>
      rw [walkLoop] at walked
      simp [entry, loaded, bind, Except.bind] at walked
    | ok pte =>
      have inside : InMemory m addr := (loadPte_returns_iff (place ▸ pteAddr_lt small)).mp ⟨pte, loaded⟩
      have value : pteWord m (pteAddr va.toNat i a.toNat) = pte.toNat := by
        simp only [pteWord, here, loaded]
      intro x visits
      cases visits with
      | here => exact here ▸ inside
      | @descend j _ _ valid pointer deeper =>
        rw [value] at valid pointer deeper
        rcases walkLoop_cases entry.symm loaded with ⟨invalid, -⟩ | ⟨-, isLeaf, -⟩ | ⟨-, -, ends⟩
        · exact absurd valid invalid
        · exact absurd isLeaf pointer
        · have base := pointed_toNat pte
          have page := ppn_lt pte.toNat
          rw [ends, walkBelow] at walked
          obtain ⟨rest, below, -⟩ := map_eq_ok.mp walked
          exact ih j (Nat.lt_succ_self j) _ (by omega) below x (base.symm ▸ deeper)

theorem walkLoop_returns_iff (m : MemoryMap) (va : Word) (i : Nat) (a : Word) (small : a.toNat < 2 ^ 56) :
    (∃ walk, walkLoop m va i a = .ok walk) ↔ TablesInMemory m va.toNat i a.toNat := by
  constructor
  · rintro ⟨walk, walked⟩
    exact tablesInMemory_of_walkLoop va i a small walked
  · intro tables
    obtain ⟨walk, walked, -⟩ := walkLoop_correct va i a small (tables.readable small)
    exact ⟨walk, walked⟩

theorem translateImpl_returns_iff (c : Core) (type : AccessType) (va : Word) :
    (∃ t, translateImpl c type va = .ok t) ↔
      (Canonical va.toNat → TablesInMemory c.mmap va.toNat 2 ((Satp.ppn c.hart.satp).toNat * 4096)) := by
  have base := rootTable_toNat (Satp.ppn c.hart.satp)
  have page := (Satp.ppn c.hart.satp).isLt
  constructor
  · rintro ⟨t, ok⟩ canonical
    simp only [translateImpl, (isValid_iff va).mpr canonical, Bool.not_true, Bool.false_eq_true, if_false] at ok
    obtain ⟨walk, walked, -⟩ := bind_eq_ok.mp ok
    rw [← base]
    exact (walkLoop_returns_iff _ va 2 _ (by omega)).mp ⟨walk, walked⟩
  · intro tables
    rcases translateImpl_ends c type va fun canonical => (tables canonical).readable (by omega) with
      ⟨reads, -, ok, -⟩ | ⟨reads, addr, pte, level, -, loaded, -, ok⟩
    · exact ⟨_, ok⟩
    · obtain ⟨m, updated⟩ := updateLeaf_of_loadPte type loaded
      exact ⟨_, by rw [ok, updated]; rfl⟩

/-- Translation is off for the access, or the TLB answers it, or `satp` selects
    Sv39 and the walk of a canonical address stays in memory. -/
def Answered (c : Core) (type : AccessType) (va : Word) : Prop :=
  identityMapped c.hart type = true ∨ (probe c.hart type va).isSome ∨
    (Satp.mode c.hart.satp = satpModeSv39 ∧
      (Canonical va.toNat → TablesInMemory c.mmap va.toNat 2 ((Satp.ppn c.hart.satp).toNat * 4096)))

theorem translate_returns_iff (c : Core) (type : AccessType) (va : Word) :
    (∃ t, translate c type va = .ok t) ↔ Answered c type va := by
  unfold Answered
  rw [← translateImpl_returns_iff c type va]
  unfold translate
  cases identity : identityMapped c.hart type with
  | true => simp [identity]
  | false =>
    cases probed : probe c.hart type va with
    | some pa =>
      simp only [probe] at probed
      simp [identity, probed]
    | none =>
      simp only [probe] at probed
      by_cases mode : Satp.mode c.hart.satp = satpModeSv39
      · simp [identity, probed, mode]
      · simp [identity, probed, mode]

/-- The host has room for what the translation adds to the census: the page of the address where translation is
    off, the leaf of a walk. -/
structure Housed (limit : Nat) (c : Core) (type : AccessType) (va : Word) : Prop where
  identity : identityMapped c.hart type = true → c.smc.wasPageExecuted va = false →
    Room limit c.hart.tlb.wWritable.size (pageOf va) 1
  walk : identityMapped c.hart type = false → probe c.hart type va = none →
    ∀ l, HartGrants c.hart (pteWord c.mmap) type va l → HasRoom limit c type va l

theorem translate_housed_iff (limit : Nat) {c : Core} {type : AccessType} {va : Word} {t : Translation}
    (ok : translate c type va = .ok t) :
    t.core.hart.tlb.wWritable.size ≤ max c.hart.tlb.wWritable.size limit ↔ Housed limit c type va := by
  have page := (Satp.ppn c.hart.satp).isLt
  rcases translate_cases ok with ⟨identity, rfl⟩ | ⟨paged, pa, hit, rfl⟩ | ⟨paged, miss, -, impl⟩
  · refine (identityFill_room c va).trans ⟨fun room => ⟨fun _ => room, ?_⟩, fun housed => housed.identity identity⟩
    exact fun paged => absurd (identity.symm.trans paged) (by decide)
  · refine iff_of_true (Nat.le_max_left _ _) ⟨fun identity => ?_, fun _ miss => ?_⟩
    · exact absurd (paged.symm.trans identity) (by decide)
    · exact absurd (hit.symm.trans miss) (by simp)
  · have tables := (translateImpl_returns_iff c type va).mp ⟨t, impl⟩
    refine (translateImpl_room (fun canonical => (tables canonical).readable (by omega)) impl).trans
      ⟨fun room => ⟨fun identity => ?_, fun _ _ => room⟩, fun housed => housed.walk paged miss⟩
    exact absurd (paged.symm.trans identity) (by decide)

/-- After any `satp` write the next translation returns exactly when it is answered without an unsupported mode or an
    entry outside memory, and the host has room for it. -/
theorem translate_after_satp_write_returns_iff (limit : Nat) (c : Core) (val : Word) (type : AccessType) (va : Word) :
    (∃ t, translateWithin limit (csrWrite c Csr.satp val) type va = .ok t) ↔
      Answered (csrWrite c Csr.satp val) type va ∧ Housed limit (csrWrite c Csr.satp val) type va := by
  generalize csrWrite c Csr.satp val = c
  rw [← translate_returns_iff]
  constructor
  · rintro ⟨t, within⟩
    obtain ⟨ok, fits⟩ := hosted_eq_ok.mp within
    exact ⟨⟨t, ok⟩, (translate_housed_iff limit ok).mp fits⟩
  · rintro ⟨⟨t, ok⟩, housed⟩
    exact ⟨t, hosted_eq_ok.mpr ⟨ok, (translate_housed_iff limit ok).mpr housed⟩⟩

/-- A supervisor hart over one page of zeroed RAM, translation off. -/
def bareCore : Core where
  hart := { mode := .supervisor }
  mmap := MemoryMap.empty.addRegion 0x80000000#64 0x1000#64 0x700000000000#64
  smc := {}

/-- Mode 1 survives the write and reaches `unsupported_mode`; an Sv39 root page outside every region makes the walk's
    first read throw; with translation off, the last page makes the census ask for more than four petabytes. -/
theorem satp_write_aborts_translate :
    translateWithin (2 ^ 40) (csrWrite bareCore Csr.satp 0x1000000000000000#64) .load 0x80000000#64 =
        .error .logicError ∧
      translateWithin (2 ^ 40) (csrWrite bareCore Csr.satp 0x8000000000000000#64) .load 0x80000000#64 =
        .error .outOfRange ∧
      translateWithin (2 ^ 40) (csrWrite bareCore Csr.satp 0) .load 0xFFFFFFFFFFFFF000#64 = .error .badAlloc :=
  ⟨rfl, rfl, rfl⟩

end Rv64Vm
