import Rv64Vm.Mmu.Run
import Rv64Vm.Mmu.TlbEntries

/-! # The shape of TLB entries

In every reachable state the current entries are well formed: their bases have no
offset bits, the inverted mask belongs to the page size, and a host pointer leads
to a page that lies in RAM as a whole.
-/

namespace Rv64Vm

open Lib

variable {m m' : MemoryMap} {base : Word} {bits : Nat} {e : TlbEntry} {c : Core}

/-- The same RAM region, up to its bytes. -/
def SameRam (m m' : MemoryMap) : Prop :=
  m'.getRamDirect.map (fun r => (r.baseAddr, r.size, r.host)) =
    m.getRamDirect.map (fun r => (r.baseAddr, r.size, r.host))

theorem SameRam.setData (m : MemoryMap) (i : Nat) (data : Nat → Byte) : SameRam m (m.setData i data) := by
  rw [SameRam, MemoryMap.setData_getRamDirect]
  cases m.getRamDirect with
  | none => rfl
  | some ram =>
    simp only [Option.map_some]
    split <;> rfl

theorem SameRam.updateLeaf {addr pte : Word} {type : AccessType}
    (updated : updateLeaf m addr pte type = .ok m') : SameRam m m' := by
  unfold Rv64Vm.updateLeaf at updated
  split at updated
  · rw [storePte_eq_place] at updated
    cases placed : ptePlace m addr with
    | error e => simp [placed, Except.map] at updated
    | ok p =>
      simp only [placed, Except.map, Except.ok.injEq] at updated
      rw [← updated]
      exact .setData m _ _
  · cases updated
    rfl

theorem SameRam.getRamDirect (same : SameRam m m') {ram : MemoryRegion} (direct : m.getRamDirect = some ram) :
    ∃ ram', m'.getRamDirect = some ram' ∧ ram'.baseAddr = ram.baseAddr ∧ ram'.size = ram.size ∧
      ram'.host = ram.host := by
  rw [SameRam, direct] at same
  cases direct' : m'.getRamDirect with
  | none => simp [direct'] at same
  | some ram' =>
    simp only [direct', Option.map_some, Option.some.injEq, Prod.mk.injEq] at same
    exact ⟨ram', rfl, same.1, same.2.1, same.2.2⟩

/-- The page at `base` lies in RAM as a whole, from host address `host` on. -/
def InRamAt (m : MemoryMap) (base : Word) (bits : Nat) (host : Word) : Prop :=
  ∃ ram, m.getRamDirect = some ram ∧ ram.baseAddr ≤ base ∧
    (base - ram.baseAddr).toNat + 2 ^ bits ≤ ram.size.toNat ∧ host = ram.host + (base - ram.baseAddr)

theorem InRamAt.sameRam {host : Word}
    (inRam : InRamAt m base bits host) (same : SameRam m m') : InRamAt m' base bits host := by
  obtain ⟨ram, direct, above, inside, address⟩ := inRam
  obtain ⟨ram', direct', base', size', host'⟩ := same.getRamDirect direct
  exact ⟨ram', direct', base' ▸ above, by rw [base', size']; exact inside, by rw [base', host']; exact address⟩

/-- The bounds test of the fill does not wrap: RAM starts at `0x80000000` or above. -/
theorem hostPage_inRam (small : bits ≤ 30)
    (found : hostPage m base bits ≠ 0#64) : InRamAt m base bits (hostPage m base bits) := by
  unfold hostPage at found ⊢
  cases direct : m.getRamDirect with
  | none => simp [direct] at found
  | some ram =>
    simp only [direct] at found ⊢
    split at found
    · rename_i fits
      rw [if_pos fits]
      simp only [Bool.and_eq_true, decide_eq_true_eq] at fits
      have high : dramBase.toNat ≤ ram.baseAddr.toNat := MemoryMap.dramBase_le_of_getRamDirect direct
      have low : (base - ram.baseAddr).toNat = base.toNat - ram.baseAddr.toNat :=
        BitVec.toNat_sub_of_le fits.1
      have page : 2 ^ bits ≤ 2 ^ 30 := Nat.pow_le_pow_right (by decide) small
      have bound := base.isLt
      have start : dramBase.toNat = 2 ^ 31 := by decide
      have one : (1#64 <<< bits).toNat = 2 ^ bits := by
        rw [BitVec.toNat_shiftLeft, Nat.shiftLeft_eq]
        simp only [BitVec.toNat_ofNat, Nat.one_mod, Nat.one_mul]
        exact Nat.mod_eq_of_lt (by omega)
      have sum : (base - ram.baseAddr + (1#64 <<< bits)).toNat =
          (base - ram.baseAddr).toNat + 2 ^ bits := by
        rw [BitVec.toNat_add, one, Nat.mod_eq_of_lt (by omega)]
      exact ⟨ram, direct, fits.1, sum ▸ fits.2, rfl⟩
    · exact absurd rfl found

structure EntryShape (m : MemoryMap) (e : TlbEntry) : Prop where
  least : 12 ≤ e.pageBits
  most : e.pageBits ≤ 30
  maskInv : e.vpageMaskInv = ~~~(pageMask e.pageBits)
  vbase : e.vpageBase &&& pageMask e.pageBits = 0#64
  pbase : e.ppageBase &&& pageMask e.pageBits = 0#64
  host : e.hostPtr ≠ 0#64 → InRamAt m e.ppageBase e.pageBits (e.hostPtr + e.vpageBase)

theorem EntryShape.sameRam (shape : EntryShape m e) (same : SameRam m m') : EntryShape m' e :=
  { shape with host := fun some' => (shape.host some').sameRam same }

theorem and_not_and (x y : Word) : x &&& ~~~y &&& y = 0#64 := by
  rw [BitVec.and_assoc, BitVec.and_comm (~~~y), BitVec.and_not_self]
  exact BitVec.and_zero

theorem and_not_and_not (x y : Word) : x &&& ~~~y &&& ~~~y = x &&& ~~~y := by
  rw [BitVec.and_assoc, BitVec.and_self]

/-- Every insertion of the MMU passes an aligned physical page and the host
    address of that page. -/
theorem newEntry_shape (m : MemoryMap) (t : Tlb) (smc : SelfMod) (va pa : Word)
    (perm : BitVec 8) (asid : BitVec 16) (global : Bool) (least : 12 ≤ bits) (most : bits ≤ 30) :
    EntryShape m (t.newEntry smc va (pa &&& ~~~(pageMask bits)) bits perm asid global
      (hostPage m (pa &&& ~~~(pageMask bits)) bits)) where
  least := least
  most := most
  maskInv := rfl
  vbase := and_not_and _ _
  pbase := and_not_and _ _
  host := by
    intro found
    simp only [Tlb.newEntry, and_not_and_not] at found ⊢
    split at found
    · rename_i present
      rw [if_pos present, BitVec.sub_add_cancel]
      exact hostPage_inRam most present
    · exact absurd rfl found

/-- The current entries are well formed. -/
def ShapeOk (c : Core) : Prop :=
  ∀ i, (c.hart.tlb.entries i).generation = c.hart.tlb.generation →
    EntryShape c.mmap (c.hart.tlb.entries i)

theorem ShapeOk.insert {t : Tlb} (ok : ShapeOk c)
    (va : Word) (same : SameRam c.mmap m) (generation : t.generation = c.hart.tlb.generation)
    (entries : t.entries = Function.update c.hart.tlb.entries (Tlb.index va) e)
    (shape : EntryShape m e) (i : Nat) (current : (t.entries i).generation = t.generation) :
    EntryShape m (t.entries i) := by
  rw [entries] at current ⊢
  by_cases here : i = Tlb.index va
  · rw [here, Function.update_self]
    exact shape
  · rw [Function.update_of_ne here] at current ⊢
    exact (ok i (current.trans generation)).sameRam same

theorem MmuEffect.shapeOk {next : Core} {op : MmuOp} (effect : MmuEffect c next op)
    (gen : c.hart.tlb.GenOk) (ok : ShapeOk c) : ShapeOk next := by
  intro i current
  cases effect with
  | evicts tlb mmap =>
    rw [mmap]
    rcases tlb.2 i with same | cleared
    · rw [same] at current ⊢
      exact ok i (current.trans tlb.1)
    · rw [cleared, tlb.1] at current
      exact absurd current (Nat.ne_of_lt gen.positive)
  | flushes tlb _ =>
    rw [tlb] at current
    exact absurd current (gen.flushAll_stale i)
  | pokes same =>
    rw [same] at current ⊢
    exact (ok i current).sameRam (.setData _ _ _)
  | @identity type va _ same =>
    rw [same] at current ⊢
    exact ok.insert va rfl (Tlb.insert_generation ..) (Tlb.insert_entries ..)
      (newEntry_shape c.mmap _ _ _ va _ _ _ (Nat.le_refl 12) (by decide)) i current
  | @walk type va _ _ _ _ level m _ found _ updated same =>
    have le : level ≤ 2 := (walkLoop_leaf (tableBase_aligned _) found).2.2
    rw [same] at current ⊢
    exact ok.insert va (.updateLeaf updated) (fillTlb_generation ..) (fillTlb_entries ..)
      (newEntry_shape m _ _ _ _ _ _ _ (Nat.le_add_right 12 _) (by simp only [leafBits]; omega))
      i current

/-- In every reachable state the current TLB entries are well formed. -/
theorem MmuReachable.shapeOk (reachable : MmuReachable c) : ShapeOk c := by
  refine (reachable.keeps ?_ MmuEffect.shapeOk).2
  intro init fresh i current
  simp [fresh] at current

end Rv64Vm
