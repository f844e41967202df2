import Rv64Vm.Core.Mmu

/-! # Where a page-table entry lives

Both ways of reaching a page-table entry end at eight bytes of one region.
`PteAt m addr i r off` names the place; the access laws are stated over it, so
that no later proof looks at the direct path and the checked path separately.
-/

namespace Rv64Vm

open Lib

variable {m : MemoryMap} {i off : Nat} {r ram : MemoryRegion} {addr pte : Word}

namespace MemoryMap

@[simp] theorem setData_ramDirect (m : MemoryMap) (i : Nat) (data : Nat → Byte) :
    (m.setData i data).ramDirect = m.ramDirect := rfl

theorem setData_getElem? (m : MemoryMap) (i k : Nat) (data : Nat → Byte) :
    (m.setData i data).regions[k]? =
      (m.regions[k]?).map (fun r => if i = k then { r with data := data } else r) := by
  simp only [setData, List.getElem?_modify]
  cases m.regions[k]? <;> by_cases same : i = k <;> simp [same]

/-- Writing back the bytes a region already holds changes nothing. -/
theorem setData_self (found : m.regions[i]? = some r) : m.setData i r.data = m := by
  have same : (m.setData i r.data).regions = m.regions := by
    apply List.ext_getElem?
    intro k
    rw [setData_getElem?]
    by_cases here : i = k
    · subst here
      simp [found]
    · cases m.regions[k]? <;> simp [here]
  cases m
  simp only [setData, mk.injEq, and_true] at same ⊢
  exact same

theorem getRamDirect_eq_some : m.getRamDirect = some ram ↔ ∃ i, m.ramDirect = some i ∧ m.regions[i]? = some ram := by
  simp [getRamDirect, Option.bind_eq_some_iff]

theorem dramBase_le_of_getRamDirect (direct : m.getRamDirect = some ram) : dramBase ≤ ram.baseAddr := by
  obtain ⟨i, position, found⟩ := getRamDirect_eq_some.mp direct
  obtain ⟨r, found', high⟩ := m.ramHigh i position
  rw [found] at found'
  cases found'
  exact high

theorem setData_getRamDirect (m : MemoryMap) (i : Nat) (data : Nat → Byte) :
    (m.setData i data).getRamDirect = m.getRamDirect.map
      (fun r => if m.ramDirect = some i then { r with data := data } else r) := by
  simp only [getRamDirect, setData_ramDirect]
  cases m.ramDirect with
  | none => rfl
  | some k =>
    simp only [Option.bind_some, setData_getElem?, Option.some.injEq]
    cases m.regions[k]? <;> by_cases same : i = k <;> simp [same, eq_comm]

/-- Region search looks at bases and sizes only. -/
theorem setData_findRegion (m : MemoryMap) (i : Nat) (data : Nat → Byte) (addr : Word) :
    (m.setData i data).findRegion addr = m.findRegion addr := by
  have blind : ∀ (regions : List MemoryRegion) (i : Nat),
      (regions.modify i (fun r => { r with data := data })).findIdx?
        (fun r => r.baseAddr ≤ addr && addr < r.baseAddr + r.size) =
      regions.findIdx? (fun r => r.baseAddr ≤ addr && addr < r.baseAddr + r.size) := by
    intro regions
    induction regions with
    | nil => intro i; cases i <;> rfl
    | cons r rest ih =>
      intro i
      cases i with
      | zero => simp [List.findIdx?_cons]
      | succ i => simp only [List.modify_succ_cons, List.findIdx?_cons, ih]
  simp only [findRegion, setData_ramDirect]
  rw [show (m.setData i data).regions = m.regions.modify i (fun r => { r with data := data }) from rfl,
    blind]

end MemoryMap

/-- The page-table entry at `addr` is the eight bytes from `off` in region `i`. -/
structure PteAt (m : MemoryMap) (addr : Word) (i : Nat) (r : MemoryRegion) (off : Nat) : Prop where
  region : m.regions[i]? = some r
  above : r.baseAddr ≤ addr
  offset : off = (addr - r.baseAddr).toNat
  inside : off + pteSize ≤ r.size.toNat

/-- Distinct aligned entries in one region do not overlap. -/
theorem PteAt.disjoint {addr' : Word} {off' : Nat} (here : PteAt m addr i r off) (there : PteAt m addr' i r off')
    (aligned : addr.toNat % 8 = 0) (aligned' : addr'.toNat % 8 = 0) (ne : addr' ≠ addr) :
    off' + pteSize ≤ off ∨ off + pteSize ≤ off' := by
  have above : r.baseAddr.toNat ≤ addr.toNat := here.above
  have above' : r.baseAddr.toNat ≤ addr'.toNat := there.above
  have distance : off = addr.toNat - r.baseAddr.toNat := by
    rw [here.offset, BitVec.toNat_sub_of_le here.above]
  have distance' : off' = addr'.toNat - r.baseAddr.toNat := by
    rw [there.offset, BitVec.toNat_sub_of_le there.above]
  have apart : addr'.toNat ≠ addr.toNat := fun h => ne (BitVec.eq_of_toNat_eq h)
  simp only [pteSize]
  omega

/-- The place that both `loadPte` and `storePte` use. -/
def ptePlace (m : MemoryMap) (addr : Word) : Except HostError (Nat × MemoryRegion × Nat) :=
  match m.ramDirect, m.getRamDirect with
  | some i, some ram =>
    if pteDirect ram addr then
      if (addr - ram.baseAddr).toNat + pteSize ≤ ram.size.toNat then
        .ok (i, ram, (addr - ram.baseAddr).toNat)
      else .error .undefinedBehaviour
    else
      match m.resolve addr with
      | .error e => .error e
      | .ok (i, r, off) =>
        if off + pteSize ≤ r.size.toNat then .ok (i, r, off) else .error .undefinedBehaviour
  | _, _ => .error .undefinedBehaviour

theorem loadPte_eq_place (m : MemoryMap) (addr : Word) :
    loadPte m addr =
      (ptePlace m addr).map (fun p => loadLE 64 (fun k => p.2.1.data (p.2.2 + k)) pteSize) := by
  unfold loadPte ptePlace
  cases position : m.ramDirect with
  | none => simp [MemoryMap.getRamDirect, position, Except.map]
  | some i =>
    cases direct : m.getRamDirect with
    | none => rfl
    | some ram =>
      by_cases fast : pteDirect ram addr
      · simp only [fast, if_true, MemoryRegion.read]
        split <;> rfl
      · simp only [fast, if_false, MemoryMap.load, Bool.false_eq_true]
        cases m.resolve addr with
        | error e => rfl
        | ok p =>
          have legal : ¬(64 = 0 ∨ 64 > 64 ∨ 64 % 8 ≠ 0) := by decide
          simp only [bind, Except.bind, MemoryRegion.read, pteSize, legal, if_false,
            Nat.reduceDiv]
          by_cases inside : p.2.2 + 8 ≤ p.2.1.size.toNat <;> simp [inside, Except.map]

theorem storePte_eq_place (m : MemoryMap) (addr pte : Word) :
    storePte m addr pte =
      (ptePlace m addr).map (fun p => m.setData p.1 (storeLE p.2.1.data p.2.2 pteSize pte)) := by
  unfold storePte ptePlace
  cases position : m.ramDirect with
  | none => rfl
  | some i =>
    cases direct : m.getRamDirect with
    | none => rfl
    | some ram =>
      by_cases fast : pteDirect ram addr
      · simp only [fast, if_true]
        split <;> rfl
      · simp only [fast, if_false, MemoryMap.store, Bool.false_eq_true]
        cases m.resolve addr with
        | error e => rfl
        | ok p =>
          have legal : ¬(64 = 0 ∨ 64 > 64 ∨ 64 % 8 ≠ 0) := by decide
          simp only [bind, Except.bind, pteSize, legal, if_false, Nat.reduceDiv]
          by_cases inside : p.2.2 + 8 ≤ p.2.1.size.toNat <;> simp [inside, Except.map]

theorem MemoryMap.resolve_eq_ok (resolved : m.resolve addr = .ok (i, r, off)) :
    m.regions[i]? = some r ∧ r.baseAddr ≤ addr ∧ off = (addr - r.baseAddr).toNat := by
  unfold MemoryMap.resolve at resolved
  cases found : m.findRegion addr with
  | error e => simp [found, bind, Except.bind] at resolved
  | ok k =>
    cases at' : m.regions[k]? with
    | none => simp [found, at', bind, Except.bind] at resolved
    | some r' =>
      simp only [found, at', bind, Except.bind, MemoryRegion.ptr] at resolved
      split at resolved
      · cases resolved
      · rename_i bounds
        split at bounds
        · cases bounds
        · rename_i low
          cases bounds
          cases resolved
          exact ⟨at', BitVec.not_lt.mp (fun lt => low (.inl lt)), rfl⟩

theorem ptePlace_sound (placed : ptePlace m addr = .ok (i, r, off)) : PteAt m addr i r off := by
  unfold ptePlace at placed
  split at placed
  · rename_i k ram position direct
    split at placed
    · rename_i fast
      split at placed
      · rename_i inside
        cases placed
        obtain ⟨k', position', found⟩ := MemoryMap.getRamDirect_eq_some.mp direct
        rw [position] at position'
        cases position'
        simp only [pteDirect, Bool.and_eq_true, decide_eq_true_eq] at fast
        exact ⟨found, fast.1, rfl, inside⟩
      · cases placed
    · split at placed
      · cases placed
      · rename_i k' r' off' resolved
        split at placed
        · rename_i inside
          cases placed
          obtain ⟨found, above, offset⟩ := MemoryMap.resolve_eq_ok resolved
          exact ⟨found, above, offset, inside⟩
        · cases placed
  · cases placed

theorem MemoryMap.resolve_setData (m : MemoryMap) (k : Nat) (data : Nat → Byte) (addr : Word) :
    (m.setData k data).resolve addr =
      (m.resolve addr).map
        (fun p => (p.1, if k = p.1 then { p.2.1 with data := data } else p.2.1, p.2.2)) := by
  unfold MemoryMap.resolve
  rw [MemoryMap.setData_findRegion]
  cases m.findRegion addr with
  | error e => rfl
  | ok i =>
    simp only [bind, Except.bind, MemoryMap.setData_getElem?]
    cases m.regions[i]? with
    | none => rfl
    | some r =>
      have blind : ∀ r' : MemoryRegion, r' = (if k = i then { r with data := data } else r) →
          r'.ptr addr = r.ptr addr := by
        intro r' same
        subst same
        split <;> rfl
      simp only [Option.map_some, blind _ rfl]
      cases r.ptr addr <;> rfl

/-- Rewriting a region's bytes moves no page-table entry. -/
theorem ptePlace_setData (m : MemoryMap) (k : Nat) (data : Nat → Byte) (addr : Word) :
    ptePlace (m.setData k data) addr =
      (ptePlace m addr).map
        (fun p => (p.1, if k = p.1 then { p.2.1 with data := data } else p.2.1, p.2.2)) := by
  unfold ptePlace
  rw [MemoryMap.setData_ramDirect, MemoryMap.setData_getRamDirect]
  cases position : m.ramDirect with
  | none => rfl
  | some i =>
    cases direct : m.getRamDirect with
    | none => rfl
    | some ram =>
      have blind : ∀ ram' : MemoryRegion,
          ram' = (if some i = some k then { ram with data := data } else ram) →
          pteDirect ram' addr = pteDirect ram addr ∧ ram'.baseAddr = ram.baseAddr ∧
            ram'.size = ram.size := by
        intro ram' same
        subst same
        split <;> exact ⟨rfl, rfl, rfl⟩
      obtain ⟨fast, base, size⟩ := blind _ rfl
      simp only [Option.map_some, fast, base, size, MemoryMap.resolve_setData]
      have flip : (some i = some k) = (k = i) := by simp [eq_comm]
      by_cases direct' : pteDirect ram addr
      · simp only [direct', if_true, flip]
        split <;> rfl
      · simp only [direct', Bool.false_eq_true, if_false]
        cases m.resolve addr with
        | error e => rfl
        | ok p =>
          obtain ⟨i', r, off⟩ := p
          have size' : (if k = i' then { r with data := data } else r).size = r.size := by
            split <;> rfl
          simp only [Except.map, size']
          split <;> rfl

/-- An entry that can be read can be written. -/
theorem storePte_of_loadPte (new : Word) (loaded : loadPte m addr = .ok pte) : ∃ m', storePte m addr new = .ok m' := by
  rw [loadPte_eq_place] at loaded
  cases placed : ptePlace m addr with
  | error e => simp [placed, Except.map] at loaded
  | ok p => exact ⟨_, by rw [storePte_eq_place, placed]; rfl⟩

/-- Reading back: the written entry holds the new value, every other aligned
    entry what it held before. -/
theorem loadPte_storePte {m' : MemoryMap} (addr' : Word) (stored : storePte m addr pte = .ok m')
    (aligned : addr.toNat % 8 = 0) (aligned' : addr'.toNat % 8 = 0) :
    loadPte m' addr' = if addr' = addr then .ok pte else loadPte m addr' := by
  rw [storePte_eq_place] at stored
  cases placed : ptePlace m addr with
  | error e => simp [placed, Except.map] at stored
  | ok p =>
    obtain ⟨i, r, off⟩ := p
    simp only [placed, Except.map, Except.ok.injEq] at stored
    subst stored
    rw [loadPte_eq_place, ptePlace_setData, loadPte_eq_place]
    by_cases same : addr' = addr
    · subst same
      simp only [placed, Except.map, if_true]
      rw [loadLE_storeLE_same r.data off pte (by rfl)]
    · rw [if_neg same]
      cases placed' : ptePlace m addr' with
      | error e => rfl
      | ok p' =>
        obtain ⟨i', r', off'⟩ := p'
        simp only [Except.map]
        by_cases region : i = i'
        · subst region
          have here := ptePlace_sound placed
          have there := ptePlace_sound placed'
          obtain rfl : r = r' := Option.some.inj (here.region.symm.trans there.region)
          have apart := here.disjoint there aligned aligned' same
          simp only [if_true]
          rw [loadLE_storeLE_disjoint r.data off off' pte apart]
        · simp [region]

end Rv64Vm
