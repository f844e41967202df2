import Rv64Vm.Mmu.Repeat
import Rv64Vm.Mmu.Returns

/-! # Adjacent addresses

Two fetch addresses in a row. In one page the second translation is a hit of what the first left;
across pages it is what it would have been before the first.
-/

namespace Rv64Vm

open Lib

variable {c c' : Core} {type : AccessType} {va : Word} {t : Translation}

theorem leafEntry_hasPerm_x (c : Core) (m : MemoryMap) (type : AccessType) (va pte : Word) (level : Nat) :
    hasPerm (leafEntry c m type va pte level).perm permX = Pte.x pte := by
  have kept : ∀ (p : Prop) [Decidable p] (perm : BitVec 8),
      hasPerm (if p then stripWrite perm else perm) permX = hasPerm perm permX := by
    intro p _ perm
    split <;> simp
  exact (kept ..).trans ((kept ..).trans (hasPerm_permOfPte_x pte))

/-- What a fetch may do with a leaf it may do with an entry of the same X and U. -/
theorem permits_exec_of_leaf {perm : BitVec 8} {pte : Word} {mode : PrivilegeMode} {mxr sum : Bool}
    (exec : hasPerm perm permX = Pte.x pte) (user : hasPerm perm permU = Pte.u pte)
    (allowed : leafAllowed pte .exec mode mxr sum = true) : Tlb.permits perm .exec mode mxr sum = true := by
  simp only [leafAllowed, Bool.and_eq_true] at allowed
  simp only [Tlb.permits, exec, user, allowed.2, Bool.true_and]
  cases mode <;> simp_all

/-- The entry that a fetch used, or filled, answers the next fetch. -/
theorem probe_exec_again (ok : translate c .exec va = .ok t) (success : t.ret.isSuccess = true)
    (paged : identityMapped c.hart .exec = false) : probe t.core.hart .exec va = some t.pa := by
  rcases translate_cases ok with ⟨mapped, -⟩ | ⟨-, pa, hit, rfl⟩ | ⟨-, missed, mode, impl⟩
  · rw [paged] at mapped
    cases mapped
  · exact hit
  · obtain ⟨reads, addr, pte, level, m, -, found, usable, -, rfl⟩ := leaf_of_translateImpl impl success
    have le : level ≤ 2 := (walkLoop_leaf (rootTable_aligned _) found).2.2
    have updated := SamePte.updatedPte pte .exec
    have aligned : misaligned (updatedPte pte .exec) level = false := by
      rw [updated.misaligned, aligned_of_leafUsable usable]
    apply Tlb.lookup_eq_some_iff.mpr
    rw [walked_tlb, fillTlb_entries, fillTlb_generation, Function.update_self]
    refine ⟨rfl, rfl, .inr rfl, ?_, ?_⟩
    · refine permits_exec_of_leaf ?_ ?_ ((Bool.and_eq_true _ _).mp usable).2
      · rw [leafEntry_hasPerm_x, updated.x]
      · rw [leafEntry_hasPerm_u, updated.u]
    · rw [leafEntry_ppageBase _ _ _ _ _ _ le aligned]
      rfl

/-- The next fetch address of the page: where the first one goes on, with no change to memory. -/
theorem translate_exec_next {i : Nat} (gen : c.hart.tlb.GenOk) (shapes : ShapeOk c) (near : SamePage va i)
    (ok : translate c .exec va = .ok t)
    (success : t.ret.isSuccess = true) :
    ∃ t', translate t.core .exec (va + BitVec.ofNat 64 i) = .ok t' ∧ t'.ret.isSuccess = true ∧
      t'.pa = t.pa + BitVec.ofNat 64 i ∧ t'.core.mmap = t.core.mmap := by
  have frame := (translate_translated ok).hart
  have mapping : identityMapped t.core.hart .exec = identityMapped c.hart .exec := by
    rw [identityMapped, identityMapped, frame]
    rfl
  cases paged : identityMapped c.hart .exec with
  | true => exact ⟨_, translate_of_identity _ (mapping.trans paged), rfl, by rw [pa_of_identity paged ok]; rfl, rfl⟩
  | false =>
    have shapes' : ShapeOk t.core := (translate_effect ok).shapeOk gen shapes
    have hit := probe_add shapes' near (probe_exec_again ok success paged)
    exact ⟨_, translate_of_hit (mapping.trans paged) hit, rfl, rfl, rfl⟩

/-- A translation keeps the offset in the page. -/
theorem translate_offset (shapes : ShapeOk c) (ok : translate c type va = .ok t) (success : t.ret.isSuccess = true) :
    t.pa.toNat % 2 ^ 12 = va.toNat % 2 ^ 12 := by
  rcases translate_cases ok with ⟨-, rfl⟩ | ⟨-, pa, hit, rfl⟩ | ⟨-, -, -, impl⟩
  · rfl
  · obtain ⟨current, -, -, -, address⟩ := Tlb.lookup_eq_some_iff.mp hit
    have shape := shapes _ current
    rw [address]
    exact or_and_lowMask_mod shape.least (Nat.lt_of_le_of_lt shape.most (by decide)) shape.pbase
  · obtain ⟨reads, addr, pte, level, m, -, found, usable, -, rfl⟩ := leaf_of_translateImpl impl success
    have le : level ≤ 2 := (walkLoop_leaf (rootTable_aligned _) found).2.2
    have small : leafBits level < 64 := by simp only [leafBits]; omega
    rw [(SamePte.updatedPte pte type).leafPa, leafPa]
    exact or_and_lowMask_mod (Nat.le_add_right 12 _) small (leafBase_aligned le (aligned_of_leafUsable usable))

theorem SameWalk.returns {x y : Except HostError Walk} (same : SameWalk x y) : (∃ w, x = .ok w) ↔ ∃ w, y = .ok w := by
  cases same with
  | error e => exact Iff.rfl
  | fault reads => exact Iff.rfl
  | leaf same => exact ⟨fun _ => ⟨_, rfl⟩, fun _ => ⟨_, rfl⟩⟩

theorem tablesInMemory_same {m m' : MemoryMap} (tables : SameTables m m') (va : Word) (root : BitVec 44) :
    TablesInMemory m' va.toNat 2 (root.toNat * 4096) ↔ TablesInMemory m va.toNat 2 (root.toNat * 4096) := by
  have base := rootTable_toNat root
  have page := root.isLt
  have small : (rootTable root).toNat < 2 ^ 56 := by omega
  rw [← base, ← walkLoop_returns_iff _ _ _ _ small, ← walkLoop_returns_iff _ _ _ _ small]
  exact (walkLoop_same tables va 2 (rootTable root) (rootTable_aligned root)).returns.symm

/-- Whether a translation is answered is a matter of the view and of the tables. -/
theorem answered_same (same : SameView c c' va) (tables : SameTables c.mmap c'.mmap) :
    Answered c' type va ↔ Answered c type va := by
  rw [Answered, Answered, same.identityMapped, same.probe, same.satp, tablesInMemory_same tables]

/-! ## Histories of translations -/

/-- A history of translations, of any types and addresses. -/
abbrev translations (calls : List (AccessType × Word)) : List MmuOp := calls.map fun call => .translate call.1 call.2

theorem translations_frame {calls : List (AccessType × Word)} (ran : run mmuStep c (translations calls) = some c') :
    Translated c c' ∧ ∀ va, (∀ call ∈ calls, Tlb.index va ≠ Tlb.index call.2) → SameView c c' va := by
  induction calls generalizing c with
  | nil =>
    cases ran
    exact ⟨.refl _, fun _ _ => ⟨rfl, rfl, rfl, rfl, rfl⟩⟩
  | cons call calls ih =>
    obtain ⟨next, taken, ran⟩ := run_cons_eq_some.mp ran
    obtain ⟨t, ok, rfl⟩ := toOption_map_eq_some.mp taken
    obtain ⟨frame, view⟩ := ih ran
    refine ⟨(translate_translated ok).trans frame, fun va apart => ?_⟩
    exact (translate_sameView ok (apart call List.mem_cons_self)).trans
      (view va fun later mem => apart later (.tail _ mem))

/-- Translations change nothing but the TLB and accessed and dirty bits, and what none of them shares a TLB slot with
    translates after them to what it did before, however many they are. -/
theorem translations_do_not_interfere (calls : List (AccessType × Word))
    (ran : run mmuStep c (translations calls) = some c') :
    Translated c c' ∧ ∀ type va t, (∀ call ∈ calls, Tlb.index va ≠ Tlb.index call.2) → translate c type va = .ok t →
      t.ret.isSuccess = true → ∃ t', translate c' type va = .ok t' ∧ t'.ret.isSuccess = true ∧ t'.pa = t.pa := by
  obtain ⟨frame, view⟩ := translations_frame ran
  exact ⟨frame, fun _ va _ apart ok success => translate_same (view va apart) frame.ram.sameTables ok success⟩

/-- After a store's translation, and any others that leave its TLB slot alone, a load translates to the same address
    and leaves memory alone. -/
theorem load_follows_store (calls : List (AccessType × Word)) (reachable : MmuReachable c)
    (ok : translate c .store va = .ok t) (success : t.ret.isSuccess = true)
    (ran : run mmuStep t.core (translations calls) = some c')
    (apart : ∀ call ∈ calls, Tlb.index va ≠ Tlb.index call.2) :
    ∃ r, translate c' .load va = .ok r ∧ r.ret.isSuccess = true ∧ r.pa = t.pa ∧ r.core.mmap = c'.mmap :=
  translate_load_of_store ok success reachable.writableReadable ((translations_frame ran).2 va apart)

/-- Two pages of the gigapage are used, and a third one translates as it did before. -/
theorem translations_gigapage :
    ∃ c' t', run mmuStep gigapageCore (translations [(.store, 0x80000123#64), (.load, 0x80001000#64)]) = some c' ∧
      Translated gigapageCore c' ∧ translate c' .load 0x80002008#64 = .ok t' ∧ t'.ret.isSuccess = true ∧
      t'.pa = 0x80002008#64 := by
  obtain ⟨c', ran⟩ : ∃ c', run mmuStep gigapageCore
      (translations [(.store, 0x80000123#64), (.load, 0x80001000#64)]) = some c' := ⟨_, rfl⟩
  obtain ⟨frame, others⟩ := translations_do_not_interfere _ ran
  obtain ⟨t', ok, success, pa⟩ := others .load 0x80002008#64 _ (by decide) rfl rfl
  exact ⟨c', t', ran, frame, ok, success, pa⟩

/-- A store, a load and a store to two other pages, and the load of what was stored. -/
theorem load_follows_store_gigapage :
    ∃ t c' r, translate gigapageCore .store 0x80000123#64 = .ok t ∧
      run mmuStep t.core (translations [(.load, 0x80001000#64), (.store, 0x80002000#64)]) = some c' ∧
      translate c' .load 0x80000123#64 = .ok r ∧ r.ret.isSuccess = true ∧ r.pa = 0x80000123#64 ∧
      r.core.mmap = c'.mmap := by
  obtain ⟨t, ok, success, pa⟩ : ∃ t, translate gigapageCore .store 0x80000123#64 = .ok t ∧ t.ret.isSuccess = true ∧
      t.pa = 0x80000123#64 := ⟨_, rfl, rfl, rfl⟩
  obtain ⟨c', ran⟩ : ∃ c', run mmuStep t.core (translations [(.load, 0x80001000#64), (.store, 0x80002000#64)]) =
      some c' := by
    obtain rfl := Except.ok.inj (ok.symm.trans rfl)
    exact ⟨_, rfl⟩
  obtain ⟨r, loaded, success', pa', memory⟩ :=
    load_follows_store _ ⟨gigapageCore, [], rfl, rfl⟩ ok success ran (by decide)
  exact ⟨t, c', r, ok, ran, loaded, success', pa'.trans pa, memory⟩

end Rv64Vm
