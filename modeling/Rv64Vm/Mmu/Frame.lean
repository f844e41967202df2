import Mathlib.Logic.Relation
import Rv64Vm.Mmu.WalkCorrect

/-! # What a translation leaves alone

`translate` changes the TLB and, by the write-back of the leaf it reached, the
accessed and dirty bits of page-table entries; nothing else of the machine.
-/

namespace Rv64Vm

open Lib Sv39

/-! ## Memory up to accessed and dirty bits -/

/-- One write-back of a valid entry that sets only A and D bits. -/
inductive AdWrite (m m' : MemoryMap) : Prop
  | intro {addr pte bits : Word} (loaded : loadPte m addr = .ok pte) (aligned : addr.toNat % 8 = 0)
      (valid : Pte.v pte = true) (only : bits &&& ~~~0xC0#64 = 0#64)
      (stored : storePte m addr (pte ||| bits) = .ok m')

/-- Memory that differs by such write-backs only. -/
def OnlyAd : MemoryMap → MemoryMap → Prop := Relation.ReflTransGen AdWrite

theorem OnlyAd.refl (m : MemoryMap) : OnlyAd m m := Relation.ReflTransGen.refl

theorem OnlyAd.trans {a b c : MemoryMap} (first : OnlyAd a b) (second : OnlyAd b c) : OnlyAd a c :=
  Relation.ReflTransGen.trans first second

theorem updateLeaf_onlyAd {m m' : MemoryMap} {va addr pte : Word} {level : Nat} {reads : List Word}
    {root : BitVec 44} {type : AccessType}
    (found : walkLoop m va 2 (rootTable root) = .ok ⟨reads, .leaf addr pte level⟩)
    (updated : updateLeaf m addr pte type = .ok m') : OnlyAd m m' := by
  obtain ⟨loaded, aligned, -⟩ := walkLoop_leaf (tableBase_aligned _) found
  unfold updateLeaf at updated
  split at updated
  case isTrue =>
    rw [updatedPte_eq] at updated
    have only : adBits type &&& ~~~0xC0#64 = 0#64 := by cases type <;> decide
    exact .single ⟨loaded, aligned, (walkLoop_found found).valid, only, updated⟩
  case isFalse =>
    cases updated
    exact .refl m

theorem MemoryMap.SameLayout.refl (m : MemoryMap) : m.SameLayout m := ⟨rfl, rfl⟩

theorem MemoryMap.SameLayout.trans {a b c : MemoryMap} (first : a.SameLayout b) (second : b.SameLayout c) :
    a.SameLayout c := ⟨second.1.trans first.1, second.2.trans first.2⟩

theorem MemoryMap.SameLayout.setData (m : MemoryMap) (i : Nat) (data : Nat → Byte) :
    m.SameLayout (m.setData i data) := by
  refine ⟨rfl, ?_⟩
  apply List.ext_getElem?
  intro k
  rw [List.getElem?_map, List.getElem?_map, MemoryMap.setData_getElem?]
  cases m.regions[k]? with
  | none => rfl
  | some r => by_cases same : i = k <;> simp [same]

theorem AdWrite.sameLayout {m m' : MemoryMap} (write : AdWrite m m') : m.SameLayout m' := by
  obtain ⟨-, -, -, -, stored⟩ := write
  rw [storePte_eq_place] at stored
  obtain ⟨p, -, rfl⟩ := map_eq_ok.mp stored
  exact .setData m _ _

theorem OnlyAd.sameLayout {m m' : MemoryMap} (only : OnlyAd m m') : m.SameLayout m' := by
  induction only with
  | refl => exact .refl m
  | tail _ write ih => exact ih.trans write.sameLayout

/-! ## The rest of the machine -/

structure Translated (c c' : Core) : Prop where
  hart : c'.hart = { c.hart with tlb := c'.hart.tlb }
  smc : c'.smc = c.smc
  io : c'.io = c.io
  decoder : c'.decoder = c.decoder
  rounding : c'.rounding = c.rounding
  ram : OnlyAd c.mmap c'.mmap

theorem Translated.refl (c : Core) : Translated c c := ⟨rfl, rfl, rfl, rfl, rfl, .refl _⟩

theorem Translated.trans {a b c : Core} (first : Translated a b) (second : Translated b c) : Translated a c where
  hart := by rw [second.hart, first.hart]
  smc := second.smc.trans first.smc
  io := second.io.trans first.io
  decoder := second.decoder.trans first.decoder
  rounding := second.rounding.trans first.rounding
  ram := first.ram.trans second.ram

theorem translate_translated {c : Core} {type : AccessType} {va : Word} {t : Translation}
    (ok : translate c type va = .ok t) : Translated c t.core := by
  rcases translate_cases ok with ⟨-, rfl⟩ | ⟨-, pa, -, rfl⟩ | ⟨-, -, -, impl⟩
  · exact ⟨rfl, rfl, rfl, rfl, rfl, .refl _⟩
  · exact .refl c
  · rcases translateImpl_cases impl with
      ⟨reads, rfl⟩ | ⟨reads, addr, pte, level, m, -, found, -, updated, rfl⟩
    · exact .refl c
    · exact ⟨rfl, rfl, rfl, rfl, rfl, updateLeaf_onlyAd found updated⟩

end Rv64Vm
