import Rv64Vm.Mmu.EntryShape
import Rv64Vm.Mmu.Frame
import Rv64Vm.Mmu.TlbSound

/-! # One translation after another

The bytes of one page translate together; the translation of one page leaves
the translation of another one alone; and a store's translation leaves behind
what a load of the same address needs.
-/

namespace Rv64Vm

open Lib

variable {va pa pte va' : Word} {i level : Nat} {c c' : Core} {type : AccessType} {t : Translation} {m m' : MemoryMap}
  {perm : BitVec 8} {mode : PrivilegeMode} {mxr sum : Bool}

/-! ## Addresses of one page -/

/-- `va + i` is still in the 4 KiB page of `va`. -/
def SamePage (va : Word) (i : Nat) : Prop := va.toNat % 2 ^ 12 + i < 2 ^ 12

theorem SamePage.shift (near : SamePage va i) : (va + BitVec.ofNat 64 i) >>> 12 = va >>> 12 :=
  add_ushiftRight_of_fits (by decide) near

/-- Hits move with the address inside a page. -/
theorem probe_add (shapes : ShapeOk c) (near : SamePage va i) (hit : probe c.hart type va = some pa) :
    probe c.hart type (va + BitVec.ofNat 64 i) = some (pa + BitVec.ofNat 64 i) := by
  obtain ⟨current, inside, owned, permitted, address⟩ := Tlb.lookup_eq_some_iff.mp hit
  have shape := shapes _ current
  have small : (c.hart.tlb.entries (Tlb.index va)).pageBits < 64 := Nat.lt_of_le_of_lt shape.most (by decide)
  have base := (and_not_lowMask_eq_iff small _ _).mpr (ushiftRight_eq_of_le shape.least near.shift)
  apply Tlb.lookup_eq_some_iff.mpr
  rw [Tlb.index_congr near.shift]
  refine ⟨current, base.trans inside, owned, permitted, ?_⟩
  rw [address, or_and_lowMask_add shape.least small shape.pbase near]

theorem probe_add_none (shapes : ShapeOk c) (near : SamePage va i) (missed : probe c.hart type va = none) :
    probe c.hart type (va + BitVec.ofNat 64 i) = none := by
  cases hit : probe c.hart type (va + BitVec.ofNat 64 i) with
  | none => rfl
  | some pa =>
    obtain ⟨current, inside, owned, permitted, -⟩ := Tlb.lookup_eq_some_iff.mp hit
    rw [Tlb.index_congr near.shift] at current inside owned permitted
    have shape := shapes _ current
    have small : (c.hart.tlb.entries (Tlb.index va)).pageBits < 64 :=
      Nat.lt_of_le_of_lt shape.most (by decide)
    have base := (and_not_lowMask_eq_iff small _ _).mpr (ushiftRight_eq_of_le shape.least near.shift)
    have there : probe c.hart type va = some _ :=
      Tlb.lookup_eq_some_iff.mpr ⟨current, base.symm.trans inside, owned, permitted, rfl⟩
    rw [missed] at there
    cases there

theorem translate_of_identity (va : Word)
    (mapped : identityMapped c.hart type = true) : translate c type va = .ok (translateIdentity c va) := by
  rw [translate, if_pos mapped]

theorem pa_of_identity (mapped : identityMapped c.hart type = true) (ok : translate c type va = .ok t) : t.pa = va := by
  rw [translate_of_identity _ mapped] at ok
  rw [← Except.ok.inj ok]
  rfl

theorem translate_of_hit (paged : identityMapped c.hart type = false) (hit : probe c.hart type va = some pa) :
    translate c type va = .ok ⟨⟨true, 0, 0⟩, pa, c, []⟩ := by
  simp only [probe] at hit
  simp only [translate, paged, Bool.false_eq_true, if_false, hit]

theorem translate_of_miss (paged : identityMapped c.hart type = false) (missed : probe c.hart type va = none)
    (mode : Satp.mode c.hart.satp = satpModeSv39) : translate c type va = translateImpl c type va := by
  simp only [probe] at missed
  simp only [translate, paged, Bool.false_eq_true, if_false, missed, mode, if_true]

/-- A successful walk has found a usable leaf. -/
theorem leaf_of_translateImpl (impl : translateImpl c type va = .ok t) (success : t.ret.isSuccess = true) :
    ∃ reads addr pte level m, VirtualAddress.isValid va = true ∧
      walkFrom c.mmap (Satp.ppn c.hart.satp) va = .ok ⟨reads, .leaf addr pte level⟩ ∧
      leafUsable c.hart type pte level = true ∧ updateLeaf c.mmap addr pte type = .ok m ∧
      t = ⟨⟨true, 0, 0⟩, leafPa va (updatedPte pte type) level,
        walked c m type va (updatedPte pte type) level, reads⟩ := by
  rcases translateImpl_cases impl with ⟨reads, rfl⟩ | found
  · cases success
  · exact found

/-- A usable leaf is aligned. -/
theorem aligned_of_leafUsable {h : Hart}
    (usable : leafUsable h type pte level = true) : misaligned pte level = false := by
  simp only [leafUsable, Bool.and_eq_true, Bool.not_eq_true'] at usable
  exact usable.1

/-- Translations move with the address inside a page. -/
theorem translate_add (shapes : ShapeOk c) (near : SamePage va i) (ok : translate c type va = .ok t)
    (success : t.ret.isSuccess = true) :
    ∃ t', translate c type (va + BitVec.ofNat 64 i) = .ok t' ∧ t'.ret.isSuccess = true ∧
      t'.pa = t.pa + BitVec.ofNat 64 i := by
  rcases translate_cases ok with ⟨mapped, rfl⟩ | ⟨paged, pa, hit, rfl⟩ | ⟨paged, missed, mode, impl⟩
  · exact ⟨_, translate_of_identity _ mapped, rfl, rfl⟩
  · exact ⟨_, translate_of_hit paged (probe_add shapes near hit), rfl, rfl⟩
  · obtain ⟨reads, addr, pte, level, m, valid, found, usable, -, rfl⟩ := leaf_of_translateImpl impl success
    have le : level ≤ 2 := (walkLoop_leaf (rootTable_aligned _) found).2.2
    have least : 12 ≤ leafBits level := Nat.le_add_right 12 _
    have small : leafBits level < 64 := by simp only [leafBits]; omega
    have found' : walkFrom c.mmap (Satp.ppn c.hart.satp) (va + BitVec.ofNat 64 i) = .ok _ :=
      walkLoop_va_congr (ushiftRight_eq_of_le least near.shift.symm) found
    have valid' : VirtualAddress.isValid (va + BitVec.ofNat 64 i) = true := by
      rw [isValid_congr (by decide) near.shift, valid]
    obtain ⟨t', ok', success', pa'⟩ := translateImpl_of_leaf valid' found' usable
    refine ⟨t', ?_, by rw [success'], ?_⟩
    · rw [translate_of_miss paged (probe_add_none shapes near missed) mode, ok']
    · rw [pa', (SamePte.updatedPte pte type).leafPa, leafPa, leafPa,
        or_and_lowMask_add least small (leafBase_aligned le (aligned_of_leafUsable usable)) near]

/-! ## Another page -/

/-- Two machines that look alike to a translation of `va`, up to memory. -/
structure SameView (c c' : Core) (va : Word) : Prop where
  mode : c'.hart.mode = c.hart.mode
  status : c'.hart.status = c.hart.status
  satp : c'.hart.satp = c.hart.satp
  generation : c'.hart.tlb.generation = c.hart.tlb.generation
  slot : c'.hart.tlb.entries (Tlb.index va) = c.hart.tlb.entries (Tlb.index va)

namespace SameView

variable {c c' : Core} {va : Word}

theorem trans {c'' : Core} (first : SameView c c' va) (second : SameView c' c'' va) : SameView c c'' va where
  mode := second.mode.trans first.mode
  status := second.status.trans first.status
  satp := second.satp.trans first.satp
  generation := second.generation.trans first.generation
  slot := second.slot.trans first.slot

variable (same : SameView c c' va)

include same

theorem effectiveMode (type : AccessType) : c'.hart.getEffectiveMode type = c.hart.getEffectiveMode type := by
  simp only [Hart.getEffectiveMode, same.mode, same.status]

theorem identityMapped (type : AccessType) : identityMapped c'.hart type = identityMapped c.hart type := by
  simp only [Rv64Vm.identityMapped, same.effectiveMode, same.satp]

theorem probe (type : AccessType) : probe c'.hart type va = probe c.hart type va := by
  simp only [Rv64Vm.probe, Tlb.lookup, same.effectiveMode, same.satp, same.status, same.generation, same.slot]

theorem leafUsable (type : AccessType) (pte : Word) (level : Nat) :
    leafUsable c'.hart type pte level = leafUsable c.hart type pte level := by
  simp only [Rv64Vm.leafUsable, same.effectiveMode, same.status]

end SameView

/-- Walks of the same tables under the same view succeed together. -/
theorem translate_same (same : SameView c c' va) (tables : SameTables c.mmap c'.mmap) (ok : translate c type va = .ok t)
    (success : t.ret.isSuccess = true) :
    ∃ t', translate c' type va = .ok t' ∧ t'.ret.isSuccess = true ∧ t'.pa = t.pa := by
  rcases translate_cases ok with ⟨mapped, rfl⟩ | ⟨paged, pa, hit, rfl⟩ | ⟨paged, missed, mode, impl⟩
  · exact ⟨_, translate_of_identity _ ((same.identityMapped type).trans mapped), rfl, rfl⟩
  · exact ⟨_, translate_of_hit ((same.identityMapped type).trans paged) ((same.probe type).trans hit), rfl, rfl⟩
  · obtain ⟨reads, addr, pte, level, m, valid, found, usable, -, rfl⟩ := leaf_of_translateImpl impl success
    have walk := walkLoop_same tables va 2 (rootTable (Satp.ppn c.hart.satp)) (rootTable_aligned _)
    rw [show walkLoop c.mmap va 2 (rootTable (Satp.ppn c.hart.satp)) = _ from found] at walk
    generalize found' : walkLoop c'.mmap va 2 (rootTable (Satp.ppn c.hart.satp)) = w at walk
    cases walk with
    | leaf samePte =>
      have usable' := (same.leafUsable type _ _).trans ((samePte.leafUsable c.hart type level).symm.trans usable)
      obtain ⟨t', ok', success', pa'⟩ := translateImpl_of_leaf (c := c') valid
        (by rw [walkFrom, same.satp, found']) usable'
      refine ⟨t', ?_, by rw [success'], ?_⟩
      · rw [translate_of_miss ((same.identityMapped type).trans paged) ((same.probe type).trans missed)
          (by rw [same.satp, mode]), ok']
      · rw [pa', (SamePte.updatedPte pte type).leafPa, samePte.leafPa]

theorem SameRead.trans {x y z : Except HostError Word} (first : SameRead x y) (second : SameRead y z) :
    SameRead x z := by
  cases first with
  | error e => exact second
  | ok same =>
    cases second with
    | ok same' => exact .ok (same.trans same')

theorem AdWrite.sameTables (write : AdWrite m m') : SameTables m m' := by
  obtain ⟨loaded, aligned, -, only, stored⟩ := write
  intro addr' aligned'
  rw [loadPte_storePte addr' stored aligned aligned']
  split
  case isTrue here =>
    rw [here, loaded]
    exact .ok (SamePte.or_of_clear only _).symm
  case isFalse => exact .refl _

theorem OnlyAd.sameTables (only : OnlyAd m m') : SameTables m m' := by
  induction only with
  | refl => exact fun _ _ => .refl _
  | tail _ write ih => exact fun addr aligned => (ih addr aligned).trans (write.sameTables addr aligned)

/-- A translation of one page leaves the view of another alone. -/
theorem translate_sameView (ok : translate c type va = .ok t) (apart : Tlb.index va' ≠ Tlb.index va) :
    SameView c t.core va' := by
  have frame := (translate_translated ok).hart
  have slots : t.core.hart.tlb.generation = c.hart.tlb.generation ∧
      t.core.hart.tlb.entries (Tlb.index va') = c.hart.tlb.entries (Tlb.index va') := by
    rcases translate_cases ok with ⟨-, rfl⟩ | ⟨-, pa, -, rfl⟩ | ⟨-, -, -, impl⟩
    · rw [translateIdentity_tlb]
      simp only [identityFill, Tlb.insert_entries, Tlb.insert_generation, Function.update_of_ne apart, and_self]
    · exact ⟨rfl, rfl⟩
    · rcases translateImpl_cases impl with
        ⟨reads, rfl⟩ | ⟨reads, addr, pte, level, m, -, -, -, -, rfl⟩
      · exact ⟨rfl, rfl⟩
      · rw [walked_tlb, fillTlb_entries, fillTlb_generation, Function.update_of_ne apart]
        exact ⟨rfl, rfl⟩
  exact ⟨by rw [frame], by rw [frame], by rw [frame], slots.1, slots.2⟩

/-- Translating one page first does not change what the other translates to. -/
theorem translate_after_other {s : Translation}
    (first : translate c type va = .ok t) (apart : Tlb.index va' ≠ Tlb.index va)
    (ok : translate c type va' = .ok s) (success : s.ret.isSuccess = true) :
    ∃ t', translate t.core type va' = .ok t' ∧ t'.ret.isSuccess = true ∧ t'.pa = s.pa :=
  translate_same (translate_sameView first apart) (translate_translated first).ram.sameTables ok success

/-! ## A load after a store -/

/-- Current entries that can be written can be read. -/
def WritableReadable (t : Tlb) : Prop :=
  ∀ i, (t.entries i).generation = t.generation → hasPerm (t.entries i).perm permW = true →
    hasPerm (t.entries i).perm permR = true

theorem hasPerm_ite_stripWrite_r (p : Prop) [Decidable p] (perm : BitVec 8) :
    hasPerm (if p then stripWrite perm else perm) permR = hasPerm perm permR := by
  split <;> simp

theorem hasPerm_ite_stripWrite_u (p : Prop) [Decidable p] (perm : BitVec 8) :
    hasPerm (if p then stripWrite perm else perm) permU = hasPerm perm permU := by
  split <;> simp

theorem leafEntry_hasPerm_r (c : Core) (m : MemoryMap) (type : AccessType) (va pte : Word) (level : Nat) :
    hasPerm (leafEntry c m type va pte level).perm permR = Pte.r pte :=
  (hasPerm_ite_stripWrite_r ..).trans ((hasPerm_ite_stripWrite_r ..).trans (hasPerm_permOfPte_r pte))

theorem leafEntry_hasPerm_u (c : Core) (m : MemoryMap) (type : AccessType) (va pte : Word) (level : Nat) :
    hasPerm (leafEntry c m type va pte level).perm permU = Pte.u pte :=
  (hasPerm_ite_stripWrite_u ..).trans ((hasPerm_ite_stripWrite_u ..).trans (hasPerm_permOfPte_u pte))

/-- The leaf's W bit is behind every writable entry a walk fills. -/
theorem leafEntry_writable
    (writable : hasPerm (leafEntry c m type va pte level).perm permW = true) : Pte.w pte = true := by
  have kept : ∀ {b : Bool} {perm : BitVec 8},
      hasPerm (if b then stripWrite perm else perm) permW = true → hasPerm perm permW = true := by
    intro b perm some'
    cases b with
    | false => exact some'
    | true => simp at some'
  rw [← hasPerm_permOfPte_w]
  exact kept (kept writable)

theorem WritableReadable.insert {t t' : Tlb} {e : TlbEntry} (ok : WritableReadable t) (va : Word)
    (generation : t'.generation = t.generation)
    (entries : t'.entries = Function.update t.entries (Tlb.index va) e)
    (new : hasPerm e.perm permW = true → hasPerm e.perm permR = true) : WritableReadable t' := by
  intro i current writable
  rw [entries] at current writable ⊢
  by_cases here : i = Tlb.index va
  · rw [here, Function.update_self] at writable ⊢
    exact new writable
  · rw [Function.update_of_ne here] at current writable ⊢
    exact ok i (current.trans generation) writable

theorem MmuEffect.writableReadable {next : Core} {op : MmuOp} (effect : MmuEffect c next op)
    (gen : c.hart.tlb.GenOk) (ok : WritableReadable c.hart.tlb) : WritableReadable next.hart.tlb := by
  cases effect with
  | evicts tlb _ =>
    intro i current
    rcases tlb.2 i with same | cleared
    · rw [same] at current ⊢
      exact ok i (current.trans tlb.1)
    · rw [cleared, tlb.1] at current
      exact absurd current (Nat.ne_of_lt gen.positive)
  | flushes tlb _ =>
    intro i current
    rw [tlb] at current
    exact absurd current (gen.flushAll_stale i)
  | pokes same => rwa [same]
  | @identity type va _ same =>
    rw [same, translateIdentity_tlb]
    refine ok.insert va (Tlb.insert_generation ..) (Tlb.insert_entries ..) fun _ => ?_
    simp only [Tlb.newEntry, hasPerm_ite_stripWrite_r]
    decide
  | @walk type va _ reads addr pte level m _ found _ _ same =>
    rw [same, walked_tlb]
    refine ok.insert va (fillTlb_generation ..) (fillTlb_entries ..) fun writable => ?_
    have updated := SamePte.updatedPte pte type
    rw [leafEntry_hasPerm_r, updated.r_eq]
    exact (walkLoop_found found).writable (updated.w ▸ leafEntry_writable writable)

/-- In every reachable state the writable entries are readable. -/
theorem MmuReachable.writableReadable (reachable : MmuReachable c) : WritableReadable c.hart.tlb := by
  refine (reachable.keeps (I := fun c => WritableReadable c.hart.tlb) ?_ MmuEffect.writableReadable).2
  intro init fresh i current
  simp [fresh] at current

/-- What a store may do with a readable entry, a load may. -/
theorem permits_load_of_store
    (readable : hasPerm perm permR = true) (permitted : Tlb.permits perm .store mode mxr sum = true) :
    Tlb.permits perm .load mode mxr sum = true := by
  simp only [Tlb.permits, Bool.and_eq_true] at permitted ⊢
  exact ⟨by simp [readable], permitted.2⟩

/-- What a store may do with a leaf, a load may do with a readable entry that has its U bit. -/
theorem permits_load_of_leaf (readable : hasPerm perm permR = true) (user : hasPerm perm permU = Pte.u pte)
    (allowed : leafAllowed pte .store mode mxr sum = true) : Tlb.permits perm .load mode mxr sum = true := by
  simp only [leafAllowed, Bool.and_eq_true] at allowed
  simp only [Tlb.permits, readable, user, Bool.true_or, Bool.true_and]
  cases mode <;> simp_all

theorem getEffectiveMode_load (h : Hart) : h.getEffectiveMode .load = h.getEffectiveMode .store := by
  simp [Hart.getEffectiveMode]

/-- The entry that a store used, or filled, answers a load. -/
theorem probe_load_of_store (ok : translate c .store va = .ok t)
    (success : t.ret.isSuccess = true) (readable : WritableReadable c.hart.tlb)
    (paged : identityMapped c.hart .store = false) : probe t.core.hart .load va = some t.pa := by
  rcases translate_cases ok with ⟨mapped, -⟩ | ⟨-, pa, hit, rfl⟩ | ⟨-, missed, mode, impl⟩
  · rw [paged] at mapped
    cases mapped
  · obtain ⟨current, inside, owned, permitted, address⟩ := Tlb.lookup_eq_some_iff.mp hit
    have writable : hasPerm (c.hart.tlb.entries (Tlb.index va)).perm permW = true := by
      simp only [Tlb.permits, Bool.and_eq_true] at permitted
      exact permitted.1.1
    rw [← getEffectiveMode_load] at permitted
    exact Tlb.lookup_eq_some_iff.mpr
      ⟨current, inside, owned, permits_load_of_store (readable _ current writable) permitted, address⟩
  · obtain ⟨reads, addr, pte, level, m, -, found, usable, -, rfl⟩ := leaf_of_translateImpl impl success
    have le : level ≤ 2 := (walkLoop_leaf (rootTable_aligned _) found).2.2
    have updated := SamePte.updatedPte pte .store
    have aligned : misaligned (updatedPte pte .store) level = false := by
      rw [updated.misaligned, aligned_of_leafUsable usable]
    have allowed := ((Bool.and_eq_true _ _).mp usable).2
    have writable : Pte.w pte = true := by
      simp only [leafAllowed, Bool.and_eq_true] at allowed
      exact allowed.2
    rw [← getEffectiveMode_load] at allowed
    apply Tlb.lookup_eq_some_iff.mpr
    rw [walked_tlb, fillTlb_entries, fillTlb_generation, Function.update_self]
    refine ⟨rfl, rfl, .inr rfl, ?_, ?_⟩
    · refine permits_load_of_leaf ?_ ?_ allowed
      · rw [leafEntry_hasPerm_r, updated.r_eq]
        exact (walkLoop_found found).writable writable
      · rw [leafEntry_hasPerm_u, updated.u]
    · rw [leafEntry_ppageBase _ _ _ _ _ _ le aligned]
      rfl

/-- After a store's translation a load translates to the same address and leaves
    memory alone, whatever has happened to memory in between. -/
theorem translate_load_of_store (ok : translate c .store va = .ok t) (success : t.ret.isSuccess = true)
    (readable : WritableReadable c.hart.tlb) (same : SameView t.core c' va) :
    ∃ r, translate c' .load va = .ok r ∧ r.ret.isSuccess = true ∧ r.pa = t.pa ∧ r.core.mmap = c'.mmap := by
  have frame := (translate_translated ok).hart
  have mapping : identityMapped c'.hart .load = identityMapped c.hart .store := by
    rw [same.identityMapped, identityMapped, identityMapped, getEffectiveMode_load, frame]
    rfl
  cases paged : identityMapped c.hart .store with
  | true => exact ⟨_, translate_of_identity va (mapping.trans paged), rfl, (pa_of_identity paged ok).symm, rfl⟩
  | false =>
    have hit := (same.probe .load).trans (probe_load_of_store ok success readable paged)
    exact ⟨_, translate_of_hit (mapping.trans paged) hit, rfl, rfl, rfl⟩

end Rv64Vm
