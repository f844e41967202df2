import Rv64Vm.Mmu.Frame

/-! # The access law of the memory map

`load` and `store` look up the region of the first byte and check the bounds of that byte alone.
Addresses from `0x80000000` on are served by the region that was added last up there. What the
accesses should do is said by address; they do it where the region is the right one and the whole
access is inside.
-/

namespace Rv64Vm

open Lib

variable {i off : Nat} {r : MemoryRegion} {a : Word}

/-- The region holds the byte at `a`. -/
def MemoryRegion.Contains (r : MemoryRegion) (a : Word) : Prop :=
  r.baseAddr.toNat ≤ a.toNat ∧ a.toNat < r.baseAddr.toNat + r.size.toNat

instance (r : MemoryRegion) (a : Word) : Decidable (r.Contains a) := inferInstanceAs (Decidable (_ ∧ _))

/-- An exception, as opposed to an access outside the allocation. -/
def Throws {α : Type} (x : Except HostError α) : Prop := ∃ e, x = .error e ∧ e ≠ .undefinedBehaviour

namespace MemoryMap

def Has (m : MemoryMap) (i : Nat) (a : Word) : Prop := ∃ r, m.regions[i]? = some r ∧ r.Contains a

/-- The byte at an address that is in some region. -/
def byte? (m : MemoryMap) (a : Word) : Option Byte :=
  (m.regions.find? fun r => decide (r.Contains a)).map fun r => r.data (a - r.baseAddr).toNat

/-- The map that `add_region` makes of bases, sizes and host addresses. -/
def ofRegions (l : List (Word × Word × Word)) : MemoryMap :=
  l.foldl (fun m x => m.addRegion x.1 x.2.1 x.2.2) empty

/-- Disjoint regions, RAM at `0x80000000` among them, with any bytes in them. -/
structure Laid (m : MemoryMap) : Prop where
  made : ∃ l, (ofRegions l).SameLayout m
  disjoint : ∀ i j a, m.Has i a → m.Has j a → i = j
  ends : ∀ r ∈ m.regions, r.baseAddr.toNat + r.size.toNat ≤ 2 ^ 64
  ram : ∃ r ∈ m.regions, r.baseAddr = dramBase ∧ 0 < r.size.toNat

/-- What an access to the `n` bytes from `a` on should do. -/
structure AccessLaw (m : MemoryMap) (a : Word) (n : Nat) (v : Word) : Prop where
  found : ∀ i, m.Has i a → m.findRegion a = .ok i
  inside : ∀ i, (∀ k < n, m.Has i (a + BitVec.ofNat 64 k)) →
    m.load a (8 * n) = .ok (loadLE 64 (fun k => (m.byte? (a + BitVec.ofNat 64 k)).getD 0) n) ∧
      ∃ m', m.store a (8 * n) v = .ok m' ∧ m'.load a (8 * n) = .ok (loadLE 64 (byteAt v) n) ∧
        ∀ b, m'.byte? b = if (b - a).toNat < n then some (byteAt v (b - a).toNat) else m.byte? b
  outside : (∀ i, ∃ k < n, ¬ m.Has i (a + BitVec.ofNat 64 k)) → Throws (m.load a (8 * n)) ∧ Throws (m.store a (8 * n) v)

/-- The region of `a` is the one that is looked up, and it holds the whole access, unless it ends with the address
    space and so refuses every access. -/
def Served (m : MemoryMap) (a : Word) (n : Nat) : Prop :=
  ∀ i r, m.regions[i]? = some r → r.Contains a → (dramBase ≤ a → m.ramDirect = some i) ∧
    (a.toNat + n ≤ r.baseAddr.toNat + r.size.toNat ↔ r.baseAddr.toNat + r.size.toNat < 2 ^ 64)

/-! ## Bounds -/

section Ptr

variable {r : MemoryRegion} {a : Word} (ends : r.baseAddr.toNat + r.size.toNat ≤ 2 ^ 64)
include ends

theorem ptr_of_contains (contains : r.Contains a) : r.ptr a =
    if r.baseAddr.toNat + r.size.toNat < 2 ^ 64 then .ok (a - r.baseAddr).toNat else .error .outOfRange := by
  obtain ⟨low, high⟩ := contains
  have sum := BitVec.toNat_add r.baseAddr r.size
  unfold MemoryRegion.ptr
  by_cases wraps : r.baseAddr.toNat + r.size.toNat < 2 ^ 64
  · rw [Nat.mod_eq_of_lt wraps] at sum
    rw [if_pos wraps, if_neg]
    rw [BitVec.lt_def, ge_iff_le, BitVec.le_def, sum]
    omega
  · have past : a ≥ r.baseAddr + r.size := by
      rw [ge_iff_le, BitVec.le_def, sum]
      omega
    rw [if_neg wraps, if_pos (.inr past)]

theorem ptr_of_not_contains (apart : ¬ r.Contains a) : r.ptr a = .error .outOfRange := by
  have sum := BitVec.toNat_add r.baseAddr r.size
  have bound := a.isLt
  refine if_pos ?_
  unfold MemoryRegion.Contains at apart
  rw [BitVec.lt_def, ge_iff_le, BitVec.le_def, sum]
  omega

/-- The search below RAM makes the same test. -/
theorem search_iff : (r.baseAddr ≤ a && a < r.baseAddr + r.size) = true ↔
    r.Contains a ∧ r.baseAddr.toNat + r.size.toNat < 2 ^ 64 := by
  have sum := BitVec.toNat_add r.baseAddr r.size
  have bound := a.isLt
  unfold MemoryRegion.Contains
  rw [Bool.and_eq_true, decide_eq_true_iff, decide_eq_true_iff, BitVec.le_def, BitVec.lt_def, sum]
  omega

end Ptr

theorem direct_ofRegions (l : List (Word × Word × Word)) :
    ∀ r ∈ (ofRegions l).regions, dramBase ≤ r.baseAddr → (ofRegions l).ramDirect ≠ none := by
  have step (l : List (Word × Word × Word)) (m : MemoryMap)
      (start : ∀ r ∈ m.regions, dramBase ≤ r.baseAddr → m.ramDirect ≠ none) :
      ∀ r ∈ (l.foldl (fun m x => m.addRegion x.1 x.2.1 x.2.2) m).regions, dramBase ≤ r.baseAddr →
        (l.foldl (fun m x => m.addRegion x.1 x.2.1 x.2.2) m).ramDirect ≠ none := by
    induction l generalizing m with
    | nil => exact start
    | cons x rest ih =>
      refine ih _ fun r mem high => ?_
      dsimp only [addRegion] at mem ⊢
      by_cases above : dramBase ≤ x.1
      · rw [if_pos above]
        exact Option.some_ne_none _
      · rw [if_neg above]
        rcases List.mem_append.mp mem with old | new
        · exact start r old high
        · rw [List.mem_singleton.mp new] at high
          exact absurd high above
  exact step l empty fun r mem => absurd mem List.not_mem_nil

section Laid

variable {m : MemoryMap} (laid : m.Laid)
include laid

/-- Some region serves the upper addresses. -/
theorem Laid.direct : ∃ i r, m.ramDirect = some i ∧ m.regions[i]? = some r := by
  obtain ⟨l, same, keys⟩ := laid.made
  obtain ⟨r, mem, base, -⟩ := laid.ram
  have key : (r.baseAddr, r.size, r.host) ∈ (ofRegions l).regions.map fun r => (r.baseAddr, r.size, r.host) :=
    keys ▸ List.mem_map_of_mem mem
  obtain ⟨r', mem', same'⟩ := List.mem_map.mp key
  have base' : r'.baseAddr = r.baseAddr := congrArg Prod.fst same'
  have high : dramBase ≤ r'.baseAddr := by
    rw [base', base]
    exact BitVec.le_refl _
  obtain ⟨i, direct⟩ := Option.ne_none_iff_exists'.mp (direct_ofRegions l r' mem' high)
  rw [← same] at direct
  obtain ⟨r, found, -⟩ := m.ramHigh i direct
  exact ⟨i, r, direct, found⟩

theorem Laid.unique {j : Nat} {s : MemoryRegion} (foundR : m.regions[i]? = some r)
    (foundS : m.regions[j]? = some s) (inR : r.Contains a) (inS : s.Contains a) : i = j :=
  laid.disjoint i j a ⟨r, foundR, inR⟩ ⟨s, foundS, inS⟩

theorem Laid.ends_at (found : m.regions[i]? = some r) :
    r.baseAddr.toNat + r.size.toNat ≤ 2 ^ 64 := laid.ends r (List.mem_of_getElem? found)

/-- A region below RAM ends below RAM. -/
theorem Laid.low_ends (found : m.regions[i]? = some r)
    (contains : r.Contains a) (low : ¬ dramBase ≤ a) : r.baseAddr.toNat + r.size.toNat < 2 ^ 64 := by
  obtain ⟨ram, mem, base, nonempty⟩ := laid.ram
  obtain ⟨j, position⟩ := List.mem_iff_getElem?.mp mem
  by_contra wraps
  have baseNat : ram.baseAddr.toNat = 0x80000000 := by rw [base]; rfl
  rw [BitVec.le_def] at low
  have lowNat : ¬ 0x80000000 ≤ a.toNat := low
  have ramIn : ram.Contains dramBase := ⟨base ▸ Nat.le_refl _, by rw [base]; omega⟩
  have here : r.Contains dramBase := by
    constructor
    · exact Nat.le_trans contains.1 (by rw [← base, baseNat]; omega)
    · rw [← base, baseNat]; omega
  obtain rfl := laid.unique found position here ramIn
  obtain rfl := Option.some.inj (found.symm.trans position)
  exact absurd contains.1 (by omega)

theorem Laid.findRegion (found : m.regions[i]? = some r)
    (contains : r.Contains a) (served : dramBase ≤ a → m.ramDirect = some i) : m.findRegion a = .ok i := by
  unfold MemoryMap.findRegion
  by_cases high : dramBase ≤ a
  · rw [if_pos high, served high]
  · have nowrap := laid.low_ends found contains high
    obtain ⟨inside, here⟩ := List.getElem?_eq_some_iff.mp found
    have first : m.regions.findIdx? (fun r => r.baseAddr ≤ a && a < r.baseAddr + r.size) = some i := by
      refine List.findIdx?_eq_some_iff_getElem.mpr ⟨inside, ?_, fun j before hit => ?_⟩
      · rw [here]
        exact (search_iff (laid.ends_at found)).mpr ⟨contains, nowrap⟩
      · have other := List.getElem?_eq_getElem (Nat.lt_trans before inside)
        have both := ((search_iff (laid.ends_at other)).mp hit).1
        exact absurd (laid.unique other found both contains) (Nat.ne_of_lt before)
    rw [if_neg high, first]

theorem Laid.resolve (found : m.regions[i]? = some r)
    (contains : r.Contains a) (served : dramBase ≤ a → m.ramDirect = some i) :
    m.resolve a = if r.baseAddr.toNat + r.size.toNat < 2 ^ 64 then .ok (i, r, (a - r.baseAddr).toNat)
      else .error .outOfRange := by
  unfold MemoryMap.resolve
  rw [laid.findRegion found contains served]
  simp only [bind, Except.bind, found, ptr_of_contains (laid.ends_at found) contains]
  by_cases nowrap : r.baseAddr.toNat + r.size.toNat < 2 ^ 64
  · simp only [if_pos nowrap]
  · simp only [if_neg nowrap]

theorem Laid.resolve_unmapped (unmapped : ∀ i, ¬ m.Has i a) : m.resolve a = .error .outOfRange := by
  unfold MemoryMap.resolve MemoryMap.findRegion
  by_cases high : dramBase ≤ a
  · obtain ⟨i, r, position, found⟩ := laid.direct
    have apart : ¬ r.Contains a := fun here => unmapped i ⟨r, found, here⟩
    simp only [if_pos high, position, bind, Except.bind, found, ptr_of_not_contains (laid.ends_at found) apart]
  · have nothing : m.regions.findIdx? (fun r => r.baseAddr ≤ a && a < r.baseAddr + r.size) = none := by
      rw [List.findIdx?_eq_none_iff]
      intro r mem
      obtain ⟨i, found⟩ := List.mem_iff_getElem?.mp mem
      rw [Bool.eq_false_iff]
      intro here
      exact unmapped i ⟨r, found, ((search_iff (laid.ends_at found)).mp here).1⟩
    simp only [if_neg high, nothing, bind, Except.bind]

theorem Laid.byte?_eq (found : m.regions[i]? = some r)
    (contains : r.Contains a) : m.byte? a = some (r.data (a - r.baseAddr).toNat) := by
  unfold MemoryMap.byte?
  cases first : m.regions.find? fun r => decide (r.Contains a) with
  | none =>
    have never := List.find?_eq_none.mp first r (List.mem_of_getElem? found)
    exact absurd (decide_eq_true contains) never
  | some s =>
    have here : s.Contains a :=
      of_decide_eq_true (List.find?_some (p := fun r => decide (MemoryRegion.Contains r a)) first)
    obtain ⟨j, foundS⟩ := List.mem_iff_getElem?.mp (List.mem_of_find?_eq_some first)
    obtain rfl := laid.unique foundS found here contains
    obtain rfl := Option.some.inj (foundS.symm.trans found)
    rfl

theorem Laid.setData (k : Nat) (data : Nat → Byte) : (m.setData k data).Laid := by
  have has (i : Nat) (a : Word) : (m.setData k data).Has i a → m.Has i a := by
    rintro ⟨r, found, here⟩
    rw [setData_getElem?] at found
    obtain ⟨s, foundS, rfl⟩ := Option.map_eq_some_iff.mp found
    refine ⟨s, foundS, ?_⟩
    split at here <;> exact here
  refine ⟨?_, fun i j a inI inJ => laid.disjoint i j a (has i a inI) (has j a inJ), fun r mem => ?_, ?_⟩
  · obtain ⟨l, same⟩ := laid.made
    exact ⟨l, same.trans (.setData m k data)⟩
  · obtain ⟨i, found⟩ := List.mem_iff_getElem?.mp mem
    rw [setData_getElem?] at found
    obtain ⟨s, foundS, rfl⟩ := Option.map_eq_some_iff.mp found
    have ends := laid.ends_at foundS
    split <;> exact ends
  · obtain ⟨r, mem, base, nonempty⟩ := laid.ram
    obtain ⟨i, found⟩ := List.mem_iff_getElem?.mp mem
    refine ⟨if k = i then { r with data := data } else r, ?_, ?_⟩
    · apply List.mem_of_getElem? (i := i)
      rw [setData_getElem?, found, Option.map_some]
    · split <;> exact ⟨base, nonempty⟩

end Laid

theorem byte?_eq_none {m : MemoryMap} (unmapped : ∀ i, ¬ m.Has i a) : m.byte? a = none := by
  have nothing : m.regions.find? (fun r => decide (r.Contains a)) = none := by
    rw [List.find?_eq_none]
    intro r mem here
    obtain ⟨i, found⟩ := List.mem_iff_getElem?.mp mem
    exact unmapped i ⟨r, found, of_decide_eq_true here⟩
  rw [byte?, nothing, Option.map_none]

/-! ## Accesses -/

section Access

variable {m : MemoryMap} {a v : Word} {i n : Nat} {r : MemoryRegion} (pos : 0 < n) (small : n ≤ 8)
include pos small

theorem load_eq_read (resolved : m.resolve a = .ok (i, r, off)) : m.load a (8 * n) = r.read off n := by
  have legal : ¬ (8 * n = 0 ∨ 8 * n > 64 ∨ 8 * n % 8 ≠ 0) := by omega
  unfold load
  rw [resolved]
  simp only [bind, Except.bind, if_neg legal, Nat.mul_div_cancel_left n (by decide : 0 < 8)]

theorem store_eq_setData (resolved : m.resolve a = .ok (i, r, off)) : m.store a (8 * n) v =
    if off + n ≤ r.size.toNat then .ok (m.setData i (storeLE r.data off n v)) else .error .undefinedBehaviour := by
  have legal : ¬ (8 * n = 0 ∨ 8 * n > 64 ∨ 8 * n % 8 ≠ 0) := by omega
  unfold store
  rw [resolved]
  simp only [bind, Except.bind, if_neg legal, Nat.mul_div_cancel_left n (by decide : 0 < 8)]

omit pos small in
theorem access_throws {e : HostError} (refused : m.resolve a = .error e) (thrown : e ≠ .undefinedBehaviour) :
    Throws (m.load a (8 * n)) ∧ Throws (m.store a (8 * n) v) := by
  unfold load store
  rw [refused]
  exact ⟨⟨e, rfl, thrown⟩, ⟨e, rfl, thrown⟩⟩

omit pos small in
/-- Addresses in a region are counted from its base. -/
theorem offset_add (contains : r.Contains a) (ends : r.baseAddr.toNat + r.size.toNat ≤ 2 ^ 64) {k : Nat}
    (fits : a.toNat + k < r.baseAddr.toNat + r.size.toNat) :
    r.Contains (a + BitVec.ofNat 64 k) ∧ (a + BitVec.ofNat 64 k - r.baseAddr).toNat = (a - r.baseAddr).toNat + k := by
  have low := contains.1
  have sum : (a + BitVec.ofNat 64 k).toNat = a.toNat + k := toNat_add_ofNat (by omega)
  have here : r.Contains (a + BitVec.ofNat 64 k) := by
    unfold MemoryRegion.Contains
    omega
  refine ⟨here, ?_⟩
  rw [BitVec.toNat_sub_of_le (BitVec.le_def.mpr here.1), BitVec.toNat_sub_of_le (BitVec.le_def.mpr low), sum]
  omega

variable (laid : m.Laid) (found : m.regions[i]? = some r) (contains : r.Contains a)
include laid found contains

omit pos small in
theorem byte?_setData (fits : a.toNat + n ≤ r.baseAddr.toNat + r.size.toNat) (b : Word) :
    (m.setData i (storeLE r.data (a - r.baseAddr).toNat n v)).byte? b =
      if (b - a).toNat < n then some (byteAt v (b - a).toNat) else m.byte? b := by
  have ends := laid.ends_at found
  have laid' := laid.setData i (storeLE r.data (a - r.baseAddr).toNat n v)
  have written : (m.setData i (storeLE r.data (a - r.baseAddr).toNat n v)).regions[i]? =
      some { r with data := storeLE r.data (a - r.baseAddr).toNat n v } := by
    rw [setData_getElem?, found, Option.map_some, if_pos rfl]
  by_cases window : (b - a).toNat < n
  · obtain ⟨here, offset⟩ := offset_add contains ends (k := (b - a).toNat) (by omega)
    have back : a + BitVec.ofNat 64 (b - a).toNat = b := by
      rw [BitVec.ofNat_toNat, BitVec.setWidth_eq, BitVec.add_comm, BitVec.sub_add_cancel]
    rw [back] at here offset
    rw [if_pos window, laid'.byte?_eq written here, offset]
    exact congrArg some (storeLE_inside _ _ window)
  · rw [if_neg window]
    by_cases mapped : ∃ j, m.Has j b
    · obtain ⟨j, s, foundS, here⟩ := mapped
      rw [laid.byte?_eq foundS here]
      by_cases same : i = j
      · subst same
        obtain rfl := Option.some.inj (found.symm.trans foundS)
        rw [laid'.byte?_eq written here]
        refine congrArg some (storeLE_outside _ _ ?_)
        have low := contains.1
        have low' := here.1
        by_contra inWindow
        apply window
        rw [BitVec.toNat_sub_of_le (BitVec.le_def.mpr low), BitVec.toNat_sub_of_le (BitVec.le_def.mpr low')] at inWindow
        rw [BitVec.toNat_sub_of_le (BitVec.le_def.mpr (by omega))]
        omega
      · have kept : (m.setData i (storeLE r.data (a - r.baseAddr).toNat n v)).regions[j]? = some s := by
          rw [setData_getElem?, foundS, Option.map_some, if_neg same]
        exact laid'.byte?_eq kept here
    · have unmapped : ∀ j, ¬ m.Has j b := fun j has => mapped ⟨j, has⟩
      rw [byte?_eq_none unmapped, byte?_eq_none]
      rintro j ⟨s, foundS, here⟩
      rw [setData_getElem?] at foundS
      obtain ⟨s', foundS', rfl⟩ := Option.map_eq_some_iff.mp foundS
      apply unmapped j
      refine ⟨s', foundS', ?_⟩
      split at here <;> exact here

theorem access_inside
    (served : dramBase ≤ a → m.ramDirect = some i) (nowrap : r.baseAddr.toNat + r.size.toNat < 2 ^ 64)
    (fits : a.toNat + n ≤ r.baseAddr.toNat + r.size.toNat) :
    m.load a (8 * n) = .ok (loadLE 64 (fun k => (m.byte? (a + BitVec.ofNat 64 k)).getD 0) n) ∧
      ∃ m', m.store a (8 * n) v = .ok m' ∧ m'.load a (8 * n) = .ok (loadLE 64 (byteAt v) n) ∧
        ∀ b, m'.byte? b = if (b - a).toNat < n then some (byteAt v (b - a).toNat) else m.byte? b := by
  have ends := laid.ends_at found
  have off : (a - r.baseAddr).toNat + n ≤ r.size.toNat := by
    rw [BitVec.toNat_sub_of_le (BitVec.le_def.mpr contains.1)]
    have low := contains.1
    omega
  have resolved := laid.resolve found contains served
  rw [if_pos nowrap] at resolved
  have resolved' := resolve_setData m i (storeLE r.data (a - r.baseAddr).toNat n v) a
  rw [resolved, Except.map, if_pos rfl] at resolved'
  refine ⟨?_, _, ?_, ?_, byte?_setData laid found contains fits⟩
  · rw [load_eq_read pos small resolved, MemoryRegion.read, if_pos off]
    refine congrArg Except.ok (loadLE_congr fun k inside => ?_)
    obtain ⟨here, offset⟩ := offset_add contains ends (k := k) (by omega)
    rw [laid.byte?_eq found here, offset, Option.getD_some]
  · rw [store_eq_setData pos small resolved, if_pos off]
  · rw [load_eq_read pos small resolved', MemoryRegion.read, if_pos off]
    exact congrArg Except.ok (loadLE_congr fun k inside => storeLE_inside _ _ inside)

theorem not_throws_of_leaves
    (served : dramBase ≤ a → m.ramDirect = some i) (nowrap : r.baseAddr.toNat + r.size.toNat < 2 ^ 64)
    (leaves : ¬ a.toNat + n ≤ r.baseAddr.toNat + r.size.toNat) : ¬ Throws (m.load a (8 * n)) := by
  have off : ¬ (a - r.baseAddr).toNat + n ≤ r.size.toNat := by
    rw [BitVec.toNat_sub_of_le (BitVec.le_def.mpr contains.1)]
    have low := contains.1
    omega
  have resolved := laid.resolve found contains served
  rw [if_pos nowrap] at resolved
  rintro ⟨e, failed, thrown⟩
  rw [load_eq_read pos small resolved, MemoryRegion.read, if_neg off] at failed
  exact thrown (Except.error.inj failed).symm

omit small in
/-- The region of `a` is the only one that could hold the access. -/
theorem held_iff :
    (∃ j, ∀ k < n, m.Has j (a + BitVec.ofNat 64 k)) ↔ a.toNat + n ≤ r.baseAddr.toNat + r.size.toNat := by
  have ends := laid.ends_at found
  constructor
  · rintro ⟨j, all⟩
    by_contra leaves
    have first := all 0 pos
    rw [BitVec.add_zero] at first
    obtain rfl := laid.disjoint j i a first ⟨r, found, contains⟩
    obtain ⟨s, foundS, here⟩ := all (r.baseAddr.toNat + r.size.toNat - a.toNat) (by have := contains.2; omega)
    obtain rfl := Option.some.inj (found.symm.trans foundS)
    have high := here.2
    have low := here.1
    have inside := contains.2
    rw [BitVec.toNat_add, BitVec.toNat_ofNat] at high low
    omega
  · intro fits
    exact ⟨i, fun k inside => ⟨r, found, (offset_add contains ends (by omega)).1⟩⟩

end Access

/-- The access law holds exactly for the accesses that are served. -/
theorem region_access_iff {m : MemoryMap} (laid : m.Laid) (a v : Word) (n : Nat) (pos : 0 < n) (small : n ≤ 8) :
    m.AccessLaw a n v ↔ m.Served a n := by
  constructor
  · intro law i r found contains
    have served : dramBase ≤ a → m.ramDirect = some i := by
      intro high
      have looked := law.found i ⟨r, found, contains⟩
      unfold findRegion at looked
      rw [if_pos high] at looked
      cases direct : m.ramDirect with
      | none =>
        rw [direct] at looked
        cases looked
      | some j =>
        rw [direct] at looked
        rw [Except.ok.inj looked]
    refine ⟨served, fun fits => ?_, fun nowrap => ?_⟩
    · obtain ⟨j, all⟩ := (held_iff pos laid found contains).mpr fits
      have loaded := (law.inside j all).1
      by_contra wraps
      have refused := laid.resolve found contains served
      rw [if_neg wraps] at refused
      obtain ⟨⟨e, failed, -⟩, -⟩ := access_throws (n := n) (v := v) refused nofun
      exact absurd (loaded.symm.trans failed) nofun
    · by_contra leaves
      have outside : ∀ j, ∃ k < n, ¬ m.Has j (a + BitVec.ofNat 64 k) := by
        intro j
        by_contra all
        refine leaves ((held_iff pos laid found contains).mp ⟨j, fun k inside => ?_⟩)
        by_contra lacks
        exact all ⟨k, inside, lacks⟩
      exact not_throws_of_leaves pos small laid found contains served nowrap leaves (law.outside outside).1
  · intro served
    by_cases mapped : ∃ i, m.Has i a
    · obtain ⟨i, r, found, contains⟩ := mapped
      obtain ⟨direct, whole⟩ := served i r found contains
      refine ⟨fun j has => ?_, fun j all => ?_, fun outside => ?_⟩
      · rw [laid.disjoint j i a has ⟨r, found, contains⟩]
        exact laid.findRegion found contains direct
      · have fits := (held_iff pos laid found contains).mp ⟨j, all⟩
        exact access_inside pos small laid found contains direct (whole.mp fits) fits
      · have leaves : ¬ a.toNat + n ≤ r.baseAddr.toNat + r.size.toNat := by
          intro fits
          obtain ⟨j, all⟩ := (held_iff pos laid found contains).mpr fits
          obtain ⟨k, inside, lacks⟩ := outside j
          exact lacks (all k inside)
        have refused := laid.resolve found contains direct
        rw [if_neg fun nowrap => leaves (whole.mpr nowrap)] at refused
        exact access_throws refused nofun
    · have unmapped : ∀ i, ¬ m.Has i a := fun i has => mapped ⟨i, has⟩
      refine ⟨fun i has => absurd has (unmapped i), fun i all => ?_, fun _ => ?_⟩
      · have first := all 0 pos
        rw [BitVec.add_zero] at first
        exact absurd first (unmapped i)
      · exact access_throws (laid.resolve_unmapped unmapped) nofun

/-- One page of RAM. -/
def onePage : MemoryMap := ofRegions [(dramBase, 0x1000, 0x10000)]

theorem onePage_region (found : onePage.regions[i]? = some r) :
    i = 0 ∧ r = { baseAddr := dramBase, size := 0x1000, host := 0x10000 } := by
  cases i with
  | zero => exact ⟨rfl, (Option.some.inj found).symm⟩
  | succ i => cases found

theorem onePage_laid : onePage.Laid := by
  refine ⟨⟨_, .refl _⟩, ?_, ?_, _, List.mem_cons_self, rfl, by decide⟩
  · rintro i j a ⟨r, foundR, -⟩ ⟨s, foundS, -⟩
    rw [(onePage_region foundR).1, (onePage_region foundS).1]
  · intro r mem
    obtain ⟨i, found⟩ := List.mem_iff_getElem?.mp mem
    rw [(onePage_region found).2]
    decide

/-- A doubleword at the start of the page. -/
theorem onePage_first_doubleword : onePage.Laid ∧ onePage.AccessLaw 0x80000000 8 0x1122334455667788 := by
  refine ⟨onePage_laid, (region_access_iff onePage_laid 0x80000000 0x1122334455667788 8 (by decide) (by decide)).mpr ?_⟩
  intro i r found _
  obtain ⟨rfl, rfl⟩ := onePage_region found
  exact ⟨fun _ => rfl, by decide⟩

/-- A halfword at the last byte of the page is read past the end of the allocation. -/
theorem onePage_last_halfword : onePage.Laid ∧ ¬ onePage.AccessLaw 0x80000FFF 2 0 := by
  have found : onePage.regions[0]? = some { baseAddr := dramBase, size := 0x1000, host := 0x10000 } := rfl
  have first : MemoryRegion.Contains { baseAddr := dramBase, size := 0x1000, host := 0x10000 } 0x80000FFF := by decide
  have outside : ∀ i, ∃ k < 2, ¬ onePage.Has i (0x80000FFF + BitVec.ofNat 64 k) := by
    refine fun i => ⟨1, by decide, ?_⟩
    rintro ⟨r, foundR, here⟩
    obtain ⟨rfl, rfl⟩ := onePage_region foundR
    exact absurd here (by decide)
  refine ⟨onePage_laid, fun law => ?_⟩
  exact not_throws_of_leaves (by decide) (by decide) onePage_laid found first (fun _ => rfl) (by decide) (by decide)
    (law.outside outside).1

end MemoryMap

end Rv64Vm
