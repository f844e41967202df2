import Rv64Vm.Mmu.Sv39
import Rv64Vm.Mmu.Walk

/-! # The walk implements Sv39

`translateImpl` against the specified algorithm: first the bit-field accessors
against the numeric fields, then the loop, then the checks after the leaf.
-/

namespace Rv64Vm

open Lib Sv39

variable {va i base level : Nat} {m : MemoryMap} {ram : MemoryRegion} {addr pte : Word} {mem : Nat → Nat} {l : Leaf}

/-! ## Bit fields -/

theorem getVpn_toNat (va : Word) (i : Nat) : (VirtualAddress.getVpn va i).toNat = vpn va.toNat i := by
  have mask : (0x1FF#64).toNat = 2 ^ 9 - 1 := rfl
  rw [VirtualAddress.getVpn, BitVec.toNat_and, BitVec.toNat_ushiftRight, mask,
    Nat.and_two_pow_sub_one_eq_mod, Nat.shiftRight_eq_div_pow, vpn]

theorem vpn_lt (va i : Nat) : vpn va i < 512 := Nat.mod_lt _ (by decide)

theorem getSolidPpn_toNat (pte : Word) : (Pte.getSolidPpn pte).toNat = ppn pte.toNat := by
  have mask : (0xFFFFFFFFFFF#64).toNat = 2 ^ 44 - 1 := rfl
  rw [Pte.getSolidPpn, BitVec.toNat_and, BitVec.toNat_ushiftRight, mask,
    Nat.and_two_pow_sub_one_eq_mod, Nat.shiftRight_eq_div_pow, ppn]

theorem ppn_lt (pte : Nat) : ppn pte < 2 ^ 44 := Nat.mod_lt _ (by decide)

theorem tableBase_toNat {page : Word} (small : page.toNat < 2 ^ 44) :
    (page * pageSize).toNat = page.toNat * 4096 := by
  have size : pageSize.toNat = 4096 := rfl
  rw [BitVec.toNat_mul, size, Nat.mod_eq_of_lt (by omega)]

theorem pteAddr_toNat (va a : Word) (i : Nat) (small : a.toNat < 2 ^ 56) :
    (a + VirtualAddress.getVpn va i * 8#64).toNat = pteAddr va.toNat i a.toNat := by
  have index := getVpn_toNat va i
  have bound := vpn_lt va.toNat i
  have eight : (8#64).toNat = 8 := rfl
  rw [BitVec.toNat_add, BitVec.toNat_mul, eight, index,
    Nat.mod_eq_of_lt (a := vpn va.toNat i * 8) (by omega), Nat.mod_eq_of_lt (by omega), pteAddr]

theorem pteAddr_lt (small : base < 2 ^ 56) : pteAddr va i base < 2 ^ 57 := by
  have bound := vpn_lt va i
  rw [pteAddr]
  omega

theorem isValid_iff (va : Word) : VirtualAddress.isValid va = true ↔ Canonical va.toNat := by
  have bit : ∀ k, (va.sshiftRight 38).getLsbD k =
      (decide (k < 64) && if 38 + k < 64 then va.toNat.testBit (38 + k) else va.toNat.testBit 63) := by
    intro k
    rw [BitVec.getLsbD_sshiftRight, BitVec.msb_eq_getLsbD_last]
    by_cases inside : k < 64
    · simp [inside, Nat.not_le.mpr inside, BitVec.getLsbD]
    · simp [inside, Nat.le_of_not_lt inside]
  have minusOne : -1#64 = BitVec.allOnes 64 := rfl
  simp only [VirtualAddress.isValid, Bool.or_eq_true, beq_iff_eq]
  constructor
  · intro shifted k low high
    have at0 := bit 0
    have atk := bit (k - 38)
    have back : 38 + (k - 38) = k := by omega
    have inside : k - 38 < 64 := by omega
    simp only [back, high, inside, decide_true, Bool.true_and, if_true] at atk
    simp only [Nat.add_zero, Nat.reduceLT, decide_true, Bool.true_and, if_true] at at0
    rcases shifted with zero | ones
    · rw [← atk, ← at0, zero]
      simp
    · rw [← atk, ← at0, ones, minusOne, BitVec.getLsbD_allOnes, BitVec.getLsbD_allOnes]
      simp [inside]
  · intro canonical
    have sign : va.toNat.testBit 63 = va.toNat.testBit 38 := canonical 63 (by decide) (by decide)
    have all : ∀ k < 64, (va.sshiftRight 38).getLsbD k = va.toNat.testBit 38 := by
      intro k hk
      rw [bit k]
      simp only [hk, decide_true, Bool.true_and]
      by_cases inside : 38 + k < 64
      · rw [if_pos inside]
        by_cases first : k = 0
        · subst first; rfl
        · exact canonical (38 + k) (by omega) inside
      · rw [if_neg inside, sign]
    cases head : va.toNat.testBit 38 with
    | false =>
      left
      apply BitVec.eq_of_getLsbD_eq
      intro k hk
      rw [all k hk, head]
      simp
    | true =>
      right
      apply BitVec.eq_of_getLsbD_eq
      intro k hk
      rw [all k hk, head, minusOne, BitVec.getLsbD_allOnes]
      simp [hk]

theorem valid_iff (pte : Word) : (!Pte.v pte || (Pte.w pte && !Pte.r pte)) = false ↔ Valid pte.toNat := by
  simp only [Valid, Pte.v, Pte.w, Pte.r, BitVec.getLsbD]
  cases pte.toNat.testBit 0 <;> cases pte.toNat.testBit 1 <;> cases pte.toNat.testBit 2 <;> simp

theorem isLeaf_iff (pte : Word) : (Pte.r pte || Pte.x pte) = true ↔ IsLeaf pte.toNat := by
  simp only [IsLeaf, Pte.r, Pte.x, BitVec.getLsbD, Bool.or_eq_true]

/-! ## Entries in RAM -/

/-- The eight bytes of RAM at a physical address, as a number. -/
def ramWord (ram : MemoryRegion) (a : Nat) : Nat :=
  (loadLE 64 (fun k => ram.data (a - ram.baseAddr.toNat + k)) pteSize).toNat

/-- The entry at this physical address lies in RAM. -/
def InRam (ram : MemoryRegion) (a : Nat) : Prop :=
  ram.baseAddr.toNat ≤ a ∧ a + pteSize ≤ ram.baseAddr.toNat + ram.size.toNat

instance (ram : MemoryRegion) (a : Nat) : Decidable (InRam ram a) :=
  inferInstanceAs (Decidable (_ ∧ _))

theorem ptePlace_of_inRam (position : m.ramDirect = some i) (direct : m.getRamDirect = some ram)
    (inRam : InRam ram addr.toNat) (small : addr.toNat < 2 ^ 57) :
    ptePlace m addr = .ok (i, ram, addr.toNat - ram.baseAddr.toNat) := by
  obtain ⟨low, high⟩ := inRam
  have above : ram.baseAddr ≤ addr := low
  have distance : (addr - ram.baseAddr).toNat = addr.toNat - ram.baseAddr.toNat :=
    BitVec.toNat_sub_of_le above
  have inside : addr.toNat - ram.baseAddr.toNat + pteSize ≤ ram.size.toNat := by omega
  simp only [ptePlace, position, direct]
  by_cases fast : pteDirect ram addr
  · simp only [fast, if_true, distance, inside]
  · -- the last entries of RAM fail the direct test and go through `load`
    have slow : ram.size - 64#64 < addr - ram.baseAddr := by
      simp only [pteDirect, Bool.and_eq_true, decide_eq_true_eq] at fast
      exact BitVec.not_le.mp (fun le => fast ⟨above, le⟩)
    have bound : ram.baseAddr.toNat + ram.size.toNat < 2 ^ 64 := by
      have slow' : (ram.size - 64#64).toNat < (addr - ram.baseAddr).toNat := slow
      have sixtyFour : (64#64).toNat = 64 := rfl
      rw [distance, BitVec.toNat_sub, sixtyFour] at slow'
      have := ram.size.isLt
      have := ram.baseAddr.isLt
      omega
    obtain ⟨k, position', found⟩ := MemoryMap.getRamDirect_eq_some.mp direct
    rw [position] at position'
    cases position'
    have served : dramBase ≤ addr :=
      BitVec.le_trans (MemoryMap.dramBase_le_of_getRamDirect direct) above
    have endsAbove : ¬(addr < ram.baseAddr ∨ addr ≥ ram.baseAddr + ram.size) := by
      rintro (lt | ge)
      · exact BitVec.not_lt.mpr above lt
      · have ge' : (ram.baseAddr + ram.size).toNat ≤ addr.toNat := ge
        rw [BitVec.toNat_add, Nat.mod_eq_of_lt bound] at ge'
        simp only [pteSize] at high
        omega
    have resolved : m.resolve addr = .ok (i, ram, addr.toNat - ram.baseAddr.toNat) := by
      simp only [MemoryMap.resolve, MemoryMap.findRegion, served, if_true, position, bind,
        Except.bind, found, MemoryRegion.ptr, if_neg endsAbove, distance]
    simp only [fast, resolved, inside, if_true, Bool.false_eq_true, if_false]

theorem loadPte_of_inRam (direct : m.getRamDirect = some ram) (inRam : InRam ram addr.toNat)
    (small : addr.toNat < 2 ^ 57) : ∃ pte, loadPte m addr = .ok pte ∧ pte.toNat = ramWord ram addr.toNat := by
  obtain ⟨i, position, -⟩ := MemoryMap.getRamDirect_eq_some.mp direct
  exact ⟨_, by rw [loadPte_eq_place, ptePlace_of_inRam position direct inRam small]; rfl, rfl⟩

/-! ## The loop -/

/-- The ending of a walk agrees with the specified descent. -/
def EndsAs (m : MemoryMap) (mem : Nat → Nat) (va i base : Nat) : WalkEnd → Prop
  | .fault => ∀ l, ¬ Reaches mem va i base l
  | .leaf addr pte level =>
    Reaches mem va i base ⟨addr.toNat, pte.toNat, level⟩ ∧ loadPte m addr = .ok pte

/-- The walk returns, after at most one read per level, with the specified ending. -/
def WalksAs (m : MemoryMap) (mem : Nat → Nat) (va i base : Nat) (out : Except HostError Walk) : Prop :=
  ∃ walk, out = .ok walk ∧ walk.reads.length ≤ i + 1 ∧ EndsAs m mem va i base walk.ending

/-- Below a pointer entry, given what the loop does one level down. -/
theorem walkBelow_correct {va : Word} (value : pte.toNat = mem (pteAddr va.toNat i base))
    (valid : Valid pte.toNat) (pointer : ¬ IsLeaf pte.toNat)
    (deeper : ∀ j, i = j + 1 → WalksAs m mem va.toNat j (ppn pte.toNat * 4096)
      (walkLoop m va j (Pte.getSolidPpn pte * pageSize))) :
    WalksAs m mem va.toNat i base (walkBelow m va addr pte i) := by
  rw [value] at valid pointer deeper
  cases i with
  | zero =>
    refine ⟨_, rfl, by simp, ?_⟩
    intro l reaches
    cases reaches with
    | leaf _ isLeaf => exact pointer isLeaf
  | succ j =>
    obtain ⟨rest, walked, length, ending⟩ := deeper j rfl
    refine ⟨⟨addr :: rest.reads, rest.ending⟩, by rw [walkBelow, walked]; rfl, by simpa using length, ?_⟩
    cases last : rest.ending with
    | fault =>
      rw [last] at ending
      intro l reaches
      cases reaches with
      | leaf _ isLeaf => exact pointer isLeaf
      | descend _ _ below => exact ending l below
    | leaf addr' pte' level =>
      rw [last] at ending
      exact ⟨.descend valid pointer ending.1, ending.2⟩

theorem pointed_toNat (pte : Word) : (Pte.getSolidPpn pte * pageSize).toNat = ppn pte.toNat * 4096 := by
  rw [tableBase_toNat, getSolidPpn_toNat]
  rw [getSolidPpn_toNat]
  exact ppn_lt _

/-- One iteration of the loop, in the terms of the specification. -/
theorem walkLoop_cases {va a : Word}
    (place : addr = a + VirtualAddress.getVpn va i * 8#64) (loaded : loadPte m addr = .ok pte) :
    (¬ Valid pte.toNat ∧ walkLoop m va i a = .ok ⟨[addr], .fault⟩) ∨
    (Valid pte.toNat ∧ IsLeaf pte.toNat ∧ walkLoop m va i a = .ok ⟨[addr], .leaf addr pte i⟩) ∨
    (Valid pte.toNat ∧ ¬ IsLeaf pte.toNat ∧ walkLoop m va i a = walkBelow m va addr pte i) := by
  rw [walkLoop_of_load place loaded, ← isLeaf_iff]
  by_cases bad : (!Pte.v pte || (Pte.w pte && !Pte.r pte)) = true
  · have invalid : ¬ Valid pte.toNat := by rw [← valid_iff]; simp [bad]
    exact .inl ⟨invalid, if_pos bad⟩
  · have valid : Valid pte.toNat := (valid_iff pte).mp (by simpa using bad)
    rw [if_neg bad]
    by_cases leaf : (Pte.r pte || Pte.x pte) = true
    · exact .inr (.inl ⟨valid, leaf, if_pos leaf⟩)
    · exact .inr (.inr ⟨valid, leaf, if_neg leaf⟩)

/-- Every entry that the walk looks at can be read, and `mem` has its value. -/
def Readable (m : MemoryMap) (mem : Nat → Nat) (va i base : Nat) : Prop :=
  ∀ x, Visits mem va i base x → ∃ pte, loadPte m (BitVec.ofNat 64 x) = .ok pte ∧ pte.toNat = mem x

/-- The loop from any level and table implements the specified descent. -/
theorem walkLoop_correct (va : Word) (i : Nat) (a : Word) (small : a.toNat < 2 ^ 56)
    (readable : Readable m mem va.toNat i a.toNat) : WalksAs m mem va.toNat i a.toNat (walkLoop m va i a) := by
  induction i using Nat.strongRecOn generalizing a with
  | ind i ih =>
    have place := pteAddr_toNat va a i small
    obtain ⟨pte, loaded, value⟩ := readable _ .here
    rw [← place, BitVec.ofNat_toNat, BitVec.setWidth_eq] at loaded
    generalize entry : a + VirtualAddress.getVpn va i * 8#64 = addr at place loaded
    rcases walkLoop_cases entry.symm loaded with ⟨invalid, ends⟩ | ⟨valid, isLeaf, ends⟩ | ⟨valid, pointer, ends⟩
    · refine ⟨_, ends, by simp, ?_⟩
      intro l reaches
      cases reaches with
      | leaf valid _ => exact invalid (value ▸ valid)
      | descend valid _ _ => exact invalid (value ▸ valid)
    · refine ⟨_, ends, by simp, ?_, loaded⟩
      rw [place, value]
      exact .leaf (value ▸ valid) (value ▸ isLeaf)
    · rw [ends]
      apply walkBelow_correct value valid pointer
      intro j level
      subst level
      have base := pointed_toNat pte
      have bound := ppn_lt pte.toNat
      have walked := ih j (Nat.lt_succ_self j) (Pte.getSolidPpn pte * pageSize) (by omega)
        (by
          intro x visits
          rw [base, value] at visits
          exact readable x (.descend (value ▸ valid) (value ▸ pointer) visits))
      rwa [base] at walked

theorem Sv39.Visits.of_reaches (reaches : Reaches mem va i base l) : Visits mem va i base l.addr := by
  induction reaches with
  | leaf => exact .here
  | descend valid pointer _ ih => exact .descend valid pointer ih

theorem Sv39.Visits.addr_lt {x : Nat} (visits : Visits mem va i base x) (small : base < 2 ^ 56) : x < 2 ^ 57 := by
  induction visits with
  | here => exact pteAddr_lt small
  | @descend i base _ _ _ _ ih =>
    have := ppn_lt (mem (pteAddr va (i + 1) base))
    exact ih (by omega)

theorem readable_of_inRam (direct : m.getRamDirect = some ram) (small : base < 2 ^ 56)
    (inRam : ∀ x, Visits (ramWord ram) va i base x → InRam ram x) : Readable m (ramWord ram) va i base := by
  intro x visits
  have bound := visits.addr_lt small
  have back : (BitVec.ofNat 64 x).toNat = x := toNat_ofNat_of_lt (by omega)
  obtain ⟨pte, loaded, value⟩ := loadPte_of_inRam direct (back.symm ▸ inRam x visits) (back.symm ▸ bound)
  exact ⟨pte, loaded, back ▸ value⟩

/-! ## From the leaf on -/

theorem misaligned_iff (pte : Word) (le : level ≤ 2) :
    misaligned pte level = false ↔ ∀ j < level, ppnField pte.toNat j = 0 := by
  have low : ∀ b < 64, (Pte.getSolidPpn pte &&& lowMask 64 b = 0#64) ↔
      pte.toNat / 2 ^ 10 % 2 ^ 44 % 2 ^ b = 0 := by
    intro b hb
    rw [← BitVec.toNat_inj, toNat_and_lowMask hb, getSolidPpn_toNat, ppn]
    rfl
  have cases : level = 0 ∨ level = 1 ∨ level = 2 := by omega
  rcases cases with rfl | rfl | rfl
  · simp [misaligned]
  · simp only [misaligned, Nat.zero_lt_one, decide_true, Bool.true_and, bne_eq_false_iff_eq,
      Nat.one_mul, low 9 (by decide)]
    constructor
    · intro zero j hj
      obtain rfl : j = 0 := by omega
      simp only [ppnField]
      omega
    · intro all
      have := all 0 (by decide)
      simp only [ppnField] at this
      omega
  · simp only [misaligned, Nat.zero_lt_two, decide_true, Bool.true_and, bne_eq_false_iff_eq,
      Nat.reduceMul, low 18 (by decide)]
    constructor
    · intro zero j hj
      have which : j = 0 ∨ j = 1 := by omega
      rcases which with rfl | rfl <;> simp only [ppnField] <;> omega
    · intro all
      have first := all 0 (by decide)
      have second := all 1 (by decide)
      simp only [ppnField] at first second
      omega

theorem leafAllowed_iff (pte : Word) (type : AccessType) (mode : PrivilegeMode) (mxr sum : Bool) :
    leafAllowed pte type mode mxr sum = true ↔ Permitted pte.toNat type mode mxr sum := by
  have bits : leafAllowed pte type mode mxr sum = true ↔
      (mode = .user → pte.toNat.testBit 4) ∧
      (mode = .supervisor → pte.toNat.testBit 4 → type ≠ .exec ∧ sum) ∧
      (type = .load → pte.toNat.testBit 1 ∨ (pte.toNat.testBit 3 ∧ mxr)) ∧
      (type = .store → pte.toNat.testBit 2) ∧ (type = .exec → pte.toNat.testBit 3) := by
    simp only [leafAllowed, Pte.u, Pte.r, Pte.w, Pte.x, BitVec.getLsbD]
    cases mode <;> cases type <;> cases pte.toNat.testBit 4 <;> cases sum <;> simp
  rw [bits]
  constructor
  · rintro ⟨user, supervisor, load, store, exec⟩
    exact ⟨user, supervisor, load, store, exec⟩
  · rintro ⟨user, supervisor, load, store, exec⟩
    exact ⟨user, supervisor, load, store, exec⟩

/-- Setting A and D touches neither the page number nor any other flag. -/
theorem updatedPte_eq (pte : Word) (type : AccessType) : updatedPte pte type = pte ||| adBits type := by
  have absorb : ∀ k < 64, pte.getLsbD k = true → pte ||| 1#64 <<< k = pte := by
    intro k hk set
    apply BitVec.eq_of_getLsbD_eq
    intro j hj
    simp only [BitVec.getLsbD_or, BitVec.getLsbD_shiftLeft, hj, decide_true, Bool.true_and]
    by_cases same : j = k
    · subst same; simp [set]
    · by_cases lt : j < k
      · simp [lt]
      · have : ¬ j - k = 0 := by omega
        simp [BitVec.getLsbD_one, this]
  have aBit : (1#64 <<< 6) = 0x40#64 := by decide
  have dBit : (1#64 <<< 7) = 0x80#64 := by decide
  have both : (0x40#64 ||| 0x80#64) = 0xC0#64 := by decide
  have absorbA : Pte.a pte = true → pte ||| 0x40#64 = pte := aBit ▸ absorb 6 (by decide)
  have absorbD : Pte.d pte = true → pte ||| 0x80#64 = pte := dBit ▸ absorb 7 (by decide)
  cases type with
  | load =>
    by_cases set : Pte.a pte = true
    · simp [updatedPte, needUpdate, set, adBits, absorbA set]
    · simp [updatedPte, needUpdate, set, adBits, Pte.setA]
  | exec =>
    by_cases set : Pte.a pte = true
    · simp [updatedPte, needUpdate, set, adBits, absorbA set]
    · simp [updatedPte, needUpdate, set, adBits, Pte.setA]
  | store =>
    by_cases needed : needUpdate pte .store = true
    · simp only [updatedPte, needed, if_true, Pte.setA, Pte.setD, adBits, BitVec.or_assoc, both]
    · have set : Pte.a pte = true ∧ Pte.d pte = true := by
        simpa [needUpdate] using needed
      simp only [updatedPte, needed, Bool.false_eq_true, if_false, adBits, ← both,
        ← BitVec.or_assoc, absorbA set.1, absorbD set.2]

theorem getSolidPpn_updatedPte (pte : Word) (type : AccessType) :
    Pte.getSolidPpn (updatedPte pte type) = Pte.getSolidPpn pte := by
  have clear : (adBits type >>> 10) = 0#64 := by cases type <;> decide
  rw [updatedPte_eq, Pte.getSolidPpn, Pte.getSolidPpn, BitVec.ushiftRight_or_distrib, clear,
    BitVec.or_zero]

/-- The joined page number and offset is the field-wise physical address. -/
theorem physAddr_toNat (va pte : Word) (addr : Nat) (le : level ≤ 2) (aligned : ∀ j < level, ppnField pte.toNat j = 0) :
    (leafPa va pte level).toNat = physAddr va.toNat ⟨addr, pte.toNat, level⟩ := by
  simp only [leafPa, leafBits]
  have page := getSolidPpn_toNat pte
  have bound := ppn_lt pte.toNat
  have shifted : (Pte.getSolidPpn pte <<< 12).toNat = ppn pte.toNat * 2 ^ 12 := by
    rw [BitVec.toNat_shiftLeft, Nat.shiftLeft_eq, page, Nat.mod_eq_of_lt (by omega)]
  have cases : level = 0 ∨ level = 1 ∨ level = 2 := by omega
  rcases cases with rfl | rfl | rfl
  · rw [toNat_or_and_lowMask (by decide) _ _ (by rw [shifted]; omega), shifted]
    simp only [physAddr, paField, ppnField, pgoff, vpn, ppn, Nat.not_lt_zero, if_false]
    omega
  · have first := aligned 0 (by decide)
    simp only [ppnField] at first
    rw [toNat_or_and_lowMask (by decide) _ _ (by rw [shifted, ppn]; omega), shifted]
    simp only [physAddr, paField, ppnField, pgoff, vpn, ppn, Nat.lt_one_iff, if_true,
      Nat.one_ne_zero, if_false, OfNat.ofNat_ne_zero]
    omega
  · have first := aligned 0 (by decide)
    have second := aligned 1 (by decide)
    simp only [ppnField] at first second
    rw [toNat_or_and_lowMask (by decide) _ _ (by rw [shifted, ppn]; omega), shifted]
    simp only [physAddr, paField, ppnField, pgoff, vpn, ppn, Nat.zero_lt_two, Nat.one_lt_two,
      if_true, Nat.lt_irrefl, if_false]
    omega

/-- RAM after an access through leaf `l`: its entry with A and D set. -/
def ramAfter (ram : MemoryRegion) (type : AccessType) (l : Leaf) : Nat → Byte :=
  storeLE ram.data (l.addr - ram.baseAddr.toNat) pteSize (BitVec.ofNat 64 l.pte ||| adBits type)

theorem updateLeaf_of_inRam (type : AccessType) (position : m.ramDirect = some i) (region : m.regions[i]? = some ram)
    (inRam : InRam ram addr.toNat) (small : addr.toNat < 2 ^ 57) (loaded : loadPte m addr = .ok pte) (level : Nat) :
    updateLeaf m addr pte type = .ok (m.setData i (ramAfter ram type ⟨addr.toNat, pte.toNat, level⟩)) := by
  have direct : m.getRamDirect = some ram :=
    MemoryMap.getRamDirect_eq_some.mpr ⟨i, position, region⟩
  have placed := ptePlace_of_inRam position direct inRam small
  rw [loadPte_eq_place, placed] at loaded
  have value : pte = loadLE 64 (fun k => ram.data (addr.toNat - ram.baseAddr.toNat + k)) pteSize :=
    (Except.ok.inj loaded).symm
  have back : BitVec.ofNat 64 pte.toNat = pte := by simp
  simp only [updateLeaf, ramAfter, back, ← updatedPte_eq]
  by_cases needed : needUpdate pte type
  · rw [if_pos needed, storePte_eq_place, placed]
    rfl
  · have kept : updatedPte pte type = pte := by simp [updatedPte, needed]
    rw [if_neg needed, kept, value, storeLE_loadLE_same ram.data _ (by decide),
      MemoryMap.setData_self region]

/-- `leafUsable` is the specified check of a leaf. -/
theorem leafUsable_iff (h : Hart) (type : AccessType) (pte : Word) (le : level ≤ 2) :
    leafUsable h type pte level = true ↔ (∀ j < level, ppnField pte.toNat j = 0) ∧
        Permitted pte.toNat type (h.getEffectiveMode type) (Status.mxr h.status) (Status.sum h.status) := by
  rw [leafUsable, Bool.and_eq_true, Bool.not_eq_true', misaligned_iff pte le, leafAllowed_iff]

theorem rootTable_toNat (ppn : BitVec 44) : (rootTable ppn).toNat = ppn.toNat * 4096 := by
  have width : (ppn.setWidth 64).toNat = ppn.toNat := BitVec.toNat_setWidth_of_le (by decide)
  have bound := ppn.isLt
  rw [rootTable, tableBase_toNat (by omega), width]

/-- The specified grant of an access by the hart as it stands. -/
def HartGrants (h : Hart) (mem : Nat → Nat) (type : AccessType) (va : Word) (l : Leaf) : Prop :=
  Grants mem (Satp.ppn h.satp).toNat va.toNat type (h.getEffectiveMode type)
    (Status.mxr h.status) (Status.sum h.status) l

/-- The ways `translate_impl<Sv39>` ends: a page fault where no leaf grants the access, or the leaf that does. -/
theorem translateImpl_ends (c : Core) (type : AccessType) (va : Word)
    (readable : Canonical va.toNat → Readable c.mmap mem va.toNat 2 ((Satp.ppn c.hart.satp).toNat * 4096)) :
    (∃ reads, reads.length ≤ levels ∧ translateImpl c type va = .ok (pageFault c type va reads) ∧
      ∀ l, ¬ HartGrants c.hart mem type va l) ∨
    ∃ reads addr pte level, reads.length ≤ levels ∧ loadPte c.mmap addr = .ok pte ∧
      HartGrants c.hart mem type va ⟨addr.toNat, pte.toNat, level⟩ ∧
      translateImpl c type va = (updateLeaf c.mmap addr pte type).map fun m =>
        ⟨⟨true, 0, 0⟩, leafPa va (updatedPte pte type) level, walked c m type va (updatedPte pte type) level,
          reads⟩ := by
  by_cases valid : VirtualAddress.isValid va
  · have base := rootTable_toNat (Satp.ppn c.hart.satp)
    have page := (Satp.ppn c.hart.satp).isLt
    have canonical := (isValid_iff va).mp valid
    obtain ⟨walk, looped, short, ending⟩ := walkLoop_correct va 2 (rootTable (Satp.ppn c.hart.satp)) (by omega)
      (by rw [base]; exact readable canonical)
    rw [base] at ending
    simp only [translateImpl, valid, looped, bind, Except.bind, pure, Except.pure, Bool.not_true,
      Bool.false_eq_true, if_false]
    cases last : walk.ending with
    | fault =>
      rw [last] at ending
      exact .inl ⟨_, short, rfl, fun l grants => ending l grants.reaches⟩
    | leaf addr pte level =>
      rw [last] at ending
      obtain ⟨reaches, loaded⟩ := ending
      have checked := leafUsable_iff c.hart type pte reaches.level_le
      simp only [finishWalk_eq]
      by_cases usable : leafUsable c.hart type pte level = true
      · obtain ⟨aligned, permitted⟩ := checked.mp usable
        rw [if_pos usable]
        exact .inr ⟨_, addr, pte, level, short, loaded, ⟨canonical, reaches, aligned, permitted⟩, rfl⟩
      · rw [if_neg usable]
        refine .inl ⟨_, short, rfl, fun l grants => usable ?_⟩
        obtain rfl := reaches.unique grants.reaches
        exact checked.mpr ⟨grants.aligned, grants.permitted⟩
  · simp only [translateImpl, valid, Bool.not_false, if_true]
    exact .inl ⟨_, by decide, rfl, fun l grants => valid ((isValid_iff va).mpr grants.canonical)⟩

/-- What the specified algorithm demands of a translation, RAM being region `i`. -/
structure ImplementsSv39 (c : Core) (i : Nat) (ram : MemoryRegion) (type : AccessType) (va : Word)
    (t : Translation) : Prop where
  /-- At most one entry read per level. -/
  reads : t.reads.length ≤ levels
  /-- It succeeds with `pa` exactly when a leaf grants the access at `pa`. -/
  success : ∀ pa : Word, (t.ret = ⟨true, 0, 0⟩ ∧ t.pa = pa) ↔
    ∃ l, HartGrants c.hart (ramWord ram) type va l ∧ pa.toNat = physAddr va.toNat l
  /-- A success writes the A and D bits of that leaf and nothing else. -/
  written : t.ret.isSuccess = true →
    ∃ l, HartGrants c.hart (ramWord ram) type va l ∧ t.core.mmap = c.mmap.setData i (ramAfter ram type l)
  /-- Otherwise: the page fault of the access, and memory as before. -/
  faulted : t.ret.isSuccess = false →
    t.ret = ⟨false, accessTypeToFault type, va⟩ ∧ t.core.mmap = c.mmap

theorem pageFault_implements {c : Core} {type : AccessType} {va : Word}
    {reads : List Word} (short : reads.length ≤ levels) (refused : ∀ l, ¬ HartGrants c.hart (ramWord ram) type va l) :
    ImplementsSv39 c i ram type va (pageFault c type va reads) where
  reads := short
  success := by
    intro pa
    constructor
    · rintro ⟨success, -⟩
      simp [pageFault] at success
    · rintro ⟨l, grants, -⟩
      exact absurd grants (refused l)
  written := by
    intro success
    cases success
  faulted := fun _ => ⟨rfl, rfl⟩

/-- With every visited entry in RAM, `translate_impl<Sv39>` does what the specified algorithm demands, as long as
    the host has the memory that the TLB asks for. -/
theorem translateImpl_implements_sv39 (c : Core) (type : AccessType) (va : Word) (i : Nat)
    (ram : MemoryRegion) (position : c.mmap.ramDirect = some i)
    (region : c.mmap.regions[i]? = some ram)
    (inRam : Canonical va.toNat → ∀ x, Visits (ramWord ram) va.toNat (levels - 1)
      ((Satp.ppn c.hart.satp).toNat * 4096) x → InRam ram x) :
    ∃ t, translateImpl c type va = .ok t ∧ ImplementsSv39 c i ram type va t := by
  have direct : c.mmap.getRamDirect = some ram :=
    MemoryMap.getRamDirect_eq_some.mpr ⟨i, position, region⟩
  have page := (Satp.ppn c.hart.satp).isLt
  have root : (Satp.ppn c.hart.satp).toNat * 4096 < 2 ^ 56 := by omega
  rcases translateImpl_ends c type va fun canonical => readable_of_inRam direct root (inRam canonical) with
    ⟨reads, short, ok, refused⟩ | ⟨reads, addr, pte, level, short, loaded, grants, ok⟩
  · exact ⟨_, ok, pageFault_implements short refused⟩
  · have visits := Sv39.Visits.of_reaches grants.reaches
    have near : InRam ram addr.toNat := inRam grants.canonical _ visits
    rw [updateLeaf_of_inRam type position region near (visits.addr_lt root) loaded level] at ok
    have value : (leafPa va (updatedPte pte type) level).toNat = physAddr va.toNat ⟨addr.toNat, pte.toNat, level⟩ := by
      rw [leafPa, getSolidPpn_updatedPte]
      exact physAddr_toNat va pte addr.toNat grants.reaches.level_le grants.aligned
    refine ⟨_, ok, short, fun pa => ⟨?_, ?_⟩, fun _ => ⟨_, grants, rfl⟩, fun bad => by cases bad⟩
    · rintro ⟨-, rfl⟩
      exact ⟨_, grants, value⟩
    · rintro ⟨l, other, address⟩
      obtain rfl := grants.reaches.unique other.reaches
      exact ⟨rfl, BitVec.eq_of_toNat_eq (value.trans address.symm)⟩

/-- RAM of one page holding a root table whose entry 2 maps the gigabyte at
    `0x80000000` to itself, readable and writable, with A and D clear. -/
def gigapageMap : MemoryMap :=
  (MemoryMap.empty.addRegion 0x80000000#64 0x1000#64 0x700000000000#64).setData 0
    (storeLE (fun _ => 0) 16 pteSize 0x20000007#64)

/-- A supervisor hart running on that root table. -/
def gigapageCore : Core where
  hart := { mode := .supervisor, satp := 0x8000000000080000#64 }
  mmap := gigapageMap
  smc := {}

end Rv64Vm
