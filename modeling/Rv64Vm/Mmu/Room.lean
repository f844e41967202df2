import Rv64Vm.Mmu.TlbEntries
import Rv64Vm.Mmu.WalkCorrect

/-! # Room for the census

The census of writable pages has a byte for each physical page up to the last one credited, so one
translation to a high page makes it huge. What a translation asks for, in the terms of the
specification, and the walk on a host that may refuse it.
-/

namespace Rv64Vm

open Lib Sv39

variable {limit : Nat} {t : Tlb} {e : TlbEntry} {c : Core} {type : AccessType} {va pte : Word} {level : Nat}

/-- The census has cells for `pages` pages from `first` on, or the host gives what `add_writable` asks for. -/
def Room (limit size first pages : Nat) : Prop := first + pages ≤ size ∨ first + pages + 8192 ≤ limit

instance (limit size first pages : Nat) : Decidable (Room limit size first pages) := inferInstanceAs (Decidable (_ ∨ _))

theorem hosted_eq_ok {α : Type} {before : Tlb} {after : α → Tlb} {r : Except HostError α} {a : α} :
    hosted limit before after r = .ok a ↔ r = .ok a ∧ (after a).wWritable.size ≤ max before.wWritable.size limit := by
  rw [hosted]
  cases r with
  | error e => simp [Except.bind]
  | ok a' =>
    simp only [Except.bind]
    split
    case isTrue fits =>
      rw [Except.ok.injEq]
      exact ⟨fun same => ⟨same, same ▸ fits⟩, fun both => both.1⟩
    case isFalse large =>
      rw [Except.ok.injEq]
      exact iff_of_false (by simp) fun both => large (both.1 ▸ both.2)

/-! ## What an entry asks for -/

/-- What crediting an entry needs. -/
def EntryRoom (limit size : Nat) (e : TlbEntry) : Prop :=
  hasPerm e.perm permW = true → Tlb.entryPages e ≤ Tlb.wCreditCapPages →
    Room limit size (pageOf e.ppageBase) (Tlb.entryPages e)

theorem addWritable_room (t : Tlb) (e : TlbEntry) :
    (t.addWritable e).wWritable.size ≤ max t.wWritable.size limit ↔ EntryRoom limit t.wWritable.size e := by
  unfold Tlb.addWritable EntryRoom
  cases writable : hasPerm e.perm permW with
  | false => simp [Nat.le_max_left]
  | true =>
    by_cases wide : Tlb.entryPages e > Tlb.wCreditCapPages
    · simp [wide, Nat.not_le.mpr wide, Nat.le_max_left]
    · simp only [Bool.not_true, Bool.false_eq_true, if_false, if_neg wide, forall_const, Nat.not_lt.mp wide, Room]
      by_cases grows : pageOf e.ppageBase + Tlb.entryPages e > t.wWritable.size
      · have more : ¬ pageOf e.ppageBase + Tlb.entryPages e + 8192 ≤ t.wWritable.size := by omega
        simp only [if_pos grows, GrowVec.growTo, if_neg more, GrowVec.mapIdx]
        omega
      · simp only [if_neg grows, GrowVec.mapIdx]
        omega

theorem addWritable_grows (t : Tlb) (e : TlbEntry) : t.wWritable.size ≤ (t.addWritable e).wWritable.size := by
  unfold Tlb.addWritable
  dsimp only
  split
  · exact Nat.le_refl _
  · split
    · exact Nat.le_refl _
    · simp only [GrowVec.mapIdx, GrowVec.growTo]
      split
      · split
        · exact Nat.le_refl _
        · dsimp only
          omega
      · exact Nat.le_refl _

theorem dropWritable_size (t : Tlb) (e : TlbEntry) : (t.dropWritable e).wWritable.size = t.wWritable.size := by
  unfold Tlb.dropWritable
  dsimp only
  split
  · rfl
  · split <;> rfl

theorem insert_room (t : Tlb) (smc : SelfMod) (pa : Word) (bits : Nat) (perm : BitVec 8) (asid : BitVec 16)
    (global : Bool) (host : Word) :
    (t.insert smc va pa bits perm asid global host).wWritable.size ≤ max t.wWritable.size limit ↔
      EntryRoom limit t.wWritable.size (t.newEntry smc va pa bits perm asid global host) := by
  rw [← dropWritable_size t (t.entries (Tlb.index va))]
  exact addWritable_room _ _

theorem insert_grows (t : Tlb) (smc : SelfMod) (va pa : Word) (bits : Nat) (perm : BitVec 8) (asid : BitVec 16)
    (global : Bool) (host : Word) :
    t.wWritable.size ≤ (t.insert smc va pa bits perm asid global host).wWritable.size := by
  rw [← dropWritable_size t (t.entries (Tlb.index va))]
  exact addWritable_grows { t.dropWritable (t.entries (Tlb.index va)) with entries := Function.update t.entries _ _ } _

/-! ## What a translation asks for -/

/-- The census never shrinks. -/
theorem translate_grows {t : Translation} (ok : translate c type va = .ok t) :
    c.hart.tlb.wWritable.size ≤ t.core.hart.tlb.wWritable.size := by
  rcases translate_cases ok with ⟨-, rfl⟩ | ⟨-, pa, -, rfl⟩ | ⟨-, -, -, impl⟩
  · exact insert_grows ..
  · exact Nat.le_refl _
  · rcases translateImpl_cases impl with ⟨reads, rfl⟩ | ⟨reads, addr, pte, level, m, -, -, -, -, rfl⟩
    · exact Nat.le_refl _
    · exact insert_grows ..

theorem pageOf_shiftLeft {page : Word} (small : page.toNat < 2 ^ 44) : pageOf (page <<< 12) = page.toNat := by
  rw [pageOf, BitVec.toNat_ushiftRight, Nat.shiftRight_eq_div_pow, BitVec.toNat_shiftLeft, Nat.shiftLeft_eq]
  omega

theorem newEntry_writable (t : Tlb) (smc : SelfMod) (va pa : Word) (bits : Nat) (perm : BitVec 8) (asid : BitVec 16)
    (global : Bool) (host : Word) :
    hasPerm (t.newEntry smc va pa bits perm asid global host).perm permW =
      (hasPerm perm permW &&
        !smc.wasPageExecuted ((pa &&& ~~~(pageMask bits)) + (va &&& pageMask bits))) := by
  unfold Tlb.newEntry
  dsimp only
  cases writable : hasPerm perm permW with
  | false => simp [writable]
  | true =>
    cases executed : smc.wasPageExecuted ((pa &&& ~~~(pageMask bits)) + (va &&& pageMask bits)) with
    | false => simp [writable]
    | true => simp

theorem aligned_and_not {base mask : Word} (aligned : base &&& mask = 0#64) : base &&& ~~~mask = base := by
  have whole := and_not_or_and base mask
  rwa [aligned, BitVec.or_zero] at whole

/-- A base without offset bits, put together with an offset. -/
theorem aligned_add {base mask x : Word} (aligned : base &&& mask = 0#64) :
    (base &&& ~~~mask) + (x &&& mask) = base ||| (x &&& mask) := by
  rw [aligned_and_not aligned]
  apply BitVec.add_eq_or_of_and_eq_zero
  rw [BitVec.and_comm x, ← BitVec.and_assoc, aligned, BitVec.zero_and]

theorem identityFill_room (c : Core) (va : Word) :
    (identityFill c va).wWritable.size ≤ max c.hart.tlb.wWritable.size limit ↔
      (c.smc.wasPageExecuted va = false → Room limit c.hart.tlb.wWritable.size (pageOf va) 1) := by
  have mask : (0xFFF#64 : Word) = pageMask 12 := rfl
  have aligned : va &&& ~~~(pageMask 12) &&& pageMask 12 = 0#64 := by rw [BitVec.and_assoc]; simp
  have whole : (va &&& ~~~(pageMask 12) &&& ~~~(pageMask 12)) + (va &&& pageMask 12) = va := by
    rw [aligned_add aligned, and_not_or_and]
  have page : pageOf (va &&& ~~~(pageMask 12) &&& ~~~(pageMask 12)) = pageOf va := by
    have same : va &&& ~~~(pageMask 12) &&& ~~~(pageMask 12) &&& ~~~(pageMask 12) = va &&& ~~~(pageMask 12) := by
      simp only [BitVec.and_assoc, BitVec.and_self]
    rw [pageOf, pageOf, (and_not_lowMask_eq_iff (by decide) _ va).mp same]
  rw [identityFill, insert_room, EntryRoom, newEntry_writable, mask, whole]
  change (_ → 1 ≤ 512 → Room limit _ (pageOf (va &&& ~~~(pageMask 12) &&& ~~~(pageMask 12))) 1) ↔ _
  rw [page]
  cases executed : c.smc.wasPageExecuted va with
  | false => simp [show hasPerm identityPerm permW = true from rfl]
  | true => simp

/-- What the leaf of a granted access needs: a writable page that is not executed from is credited, unless it is a
    gigapage. -/
def HasRoom (limit : Nat) (c : Core) (type : AccessType) (va : Word) (l : Leaf) : Prop :=
  l.pte.testBit 2 = true → type ≠ .exec → l.level ≤ 1 →
    c.smc.wasPageExecuted (BitVec.ofNat 64 (physAddr va.toNat l)) = false →
      Room limit c.hart.tlb.wWritable.size (ppn l.pte) (512 ^ l.level)

theorem leafEntry_room (m : MemoryMap) (addr : Nat) (le : level ≤ 2)
    (aligned : ∀ j < level, ppnField pte.toNat j = 0) :
    (fillTlb c m type va (updatedPte pte type) level).wWritable.size ≤ max c.hart.tlb.wWritable.size limit ↔
      HasRoom limit c type va ⟨addr, pte.toNat, level⟩ := by
  have same := SamePte.updatedPte pte type
  have pa := physAddr_toNat va pte addr le aligned
  have straight := (misaligned_iff pte le).mpr aligned
  have page : (Pte.getSolidPpn pte).toNat < 2 ^ 44 := by
    rw [getSolidPpn_toNat]
    exact ppn_lt _
  have pages : 2 ^ (leafBits level - 12) = 512 ^ level := by
    rw [leafBits, Nat.add_sub_cancel_left, Nat.mul_comm, Nat.pow_mul]
  have narrow : 512 ^ level ≤ Tlb.wCreditCapPages ↔ level ≤ 1 := by
    have cases : level = 0 ∨ level = 1 ∨ level = 2 := by omega
    rcases cases with rfl | rfl | rfl <;> decide
  have credited : hasPerm (leafPerm c.smc type (leafPa va pte level) (updatedPte pte type)) permW =
      (Pte.w pte && !c.smc.wasPageExecuted (leafPa va pte level) && type != .exec) := by
    unfold leafPerm
    cases c.smc.wasPageExecuted (leafPa va pte level) <;> cases type <;> simp [same.w]
  rw [fillTlb, insert_room, EntryRoom, newEntry_writable, same.leafPa, leafPa_and_not le straight,
    aligned_add (leafBase_aligned le straight), ← leafPa, credited]
  change (_ → 2 ^ (leafBits level - 12) ≤ Tlb.wCreditCapPages → Room limit c.hart.tlb.wWritable.size
    (pageOf ((Pte.getSolidPpn pte <<< 12) &&& ~~~(pageMask (leafBits level)))) (2 ^ (leafBits level - 12))) ↔ _
  rw [aligned_and_not (leafBase_aligned le straight), pageOf_shiftLeft page, getSolidPpn_toNat, pages, narrow]
  unfold HasRoom
  rw [← pa, BitVec.ofNat_toNat, BitVec.setWidth_eq]
  change (_ → _ → _) ↔ (Pte.w pte = true → _)
  cases Pte.w pte <;> cases c.smc.wasPageExecuted (leafPa va pte level) <;> cases type <;> simp

/-- What `translate_impl<Sv39>` asks for is what the leaf that grants the access needs. -/
theorem translateImpl_room {mem : Nat → Nat} {t : Translation}
    (readable : Canonical va.toNat → Readable c.mmap mem va.toNat 2 ((Satp.ppn c.hart.satp).toNat * 4096))
    (ok : translateImpl c type va = .ok t) :
    t.core.hart.tlb.wWritable.size ≤ max c.hart.tlb.wWritable.size limit ↔
      ∀ l, HartGrants c.hart mem type va l → HasRoom limit c type va l := by
  rcases translateImpl_ends c type va readable with
    ⟨reads, -, fault, refused⟩ | ⟨reads, addr, pte, level, -, -, grants, success⟩
  · obtain rfl := Except.ok.inj (ok.symm.trans fault)
    exact iff_of_true (Nat.le_max_left _ _) fun l granted => absurd granted (refused l)
  · obtain ⟨m, -, rfl⟩ := map_eq_ok.mp (success.symm.trans ok)
    refine (leafEntry_room m addr.toNat grants.reaches.level_le grants.aligned).trans
      ⟨fun fits l granted => ?_, fun all => all _ grants⟩
    exact grants.reaches.unique granted.reaches ▸ fits

/-! ## The walk on a host with a limit -/

/-- With every visited entry in RAM, `translate_impl<Sv39>` returns and does what the specified algorithm demands
    exactly if the host has room for the leaf that grants the access. -/
theorem translateImpl_implements_sv39_iff (limit : Nat) (c : Core) (type : AccessType) (va : Word) (i : Nat)
    (ram : MemoryRegion) (position : c.mmap.ramDirect = some i) (region : c.mmap.regions[i]? = some ram)
    (inRam : Canonical va.toNat → ∀ x, Visits (ramWord ram) va.toNat (levels - 1)
      ((Satp.ppn c.hart.satp).toNat * 4096) x → InRam ram x) :
    (∃ t, translateImplWithin limit c type va = .ok t ∧ ImplementsSv39 c i ram type va t) ↔
      ∀ l, HartGrants c.hart (ramWord ram) type va l → HasRoom limit c type va l := by
  have direct : c.mmap.getRamDirect = some ram := MemoryMap.getRamDirect_eq_some.mpr ⟨i, position, region⟩
  have page := (Satp.ppn c.hart.satp).isLt
  obtain ⟨t, ok, implements⟩ := translateImpl_implements_sv39 c type va i ram position region inRam
  rw [← translateImpl_room (fun canonical => readable_of_inRam direct (by omega) (inRam canonical)) ok]
  constructor
  · rintro ⟨t', within, -⟩
    obtain ⟨ok', fits⟩ := hosted_eq_ok.mp within
    obtain rfl := Except.ok.inj (ok.symm.trans ok')
    exact fits
  · intro fits
    exact ⟨t, hosted_eq_ok.mpr ⟨ok, fits⟩, implements⟩

/-- A supervisor hart on one page of RAM that is its own root and second table: entry 2 points to the page, entry 3
    is a 2 MiB leaf. -/
def megapageCore (leaf : Word) : Core where
  hart := { mode := .supervisor, satp := 0x8000000000080000#64 }
  mmap := (MemoryMap.empty.addRegion 0x80000000#64 0x1000#64 0x700000000000#64).setData 0
    (storeLE (storeLE (fun _ => 0) 16 pteSize 0x20000001#64) 24 pteSize leaf)
  smc := {}

theorem megapage_store_implements_sv39 :
    ∃ ram t, translateImplWithin 0x100000000 (megapageCore 0x20000007) .store 0x80600123 = .ok t ∧
      ImplementsSv39 (megapageCore 0x20000007) 0 ram .store 0x80600123 t := by
  refine ⟨_, (translateImpl_implements_sv39_iff 0x100000000 _ _ _ 0 _ rfl rfl ?_).mpr ?_⟩
  · intro _ x visits
    cases visits with
    | here => decide +kernel
    | descend _ _ below =>
      cases below with
      | here => decide +kernel
      | descend _ pointer _ =>
        exfalso
        apply pointer
        left
        decide +kernel
  · intro l grants
    cases grants.reaches with
    | leaf => exact fun _ _ low _ => absurd low (by decide)
    | descend _ _ below =>
      cases below with
      | leaf => exact fun _ _ _ _ => by decide +kernel
      | descend _ pointer _ =>
        exfalso
        apply pointer
        left
        decide +kernel

/-- A readable and writable 2 MiB leaf at `0x0080000000000000`: the specified algorithm succeeds, and a terabyte is
    not enough for the census. -/
theorem high_leaf_bad_alloc :
    (∃ ram l, (megapageCore 0x20000000000007).mmap.regions[0]? = some ram ∧
      HartGrants (megapageCore 0x20000000000007).hart (ramWord ram) .load 0x80600123 l ∧
      physAddr 0x80600123 l = 0x0080000000000123) ∧
    translateImplWithin (2 ^ 40) (megapageCore 0x20000000000007) .load 0x80600123 = .error .badAlloc := by
  refine ⟨⟨_, ⟨0x80000018, 0x20000000000007, 1⟩, rfl, ⟨?_, ?_, ?_, ?_⟩, ?_⟩, by rfl⟩
  · exact (isValid_iff 0x80600123).mp (by decide)
  · refine .descend ?_ ?_ (.leaf ?_ ?_)
    · unfold Valid
      decide +kernel
    · unfold IsLeaf
      decide +kernel
    · unfold Valid
      decide +kernel
    · unfold IsLeaf
      decide +kernel
  · decide +kernel
  · constructor <;> decide +kernel
  · decide +kernel

end Rv64Vm
