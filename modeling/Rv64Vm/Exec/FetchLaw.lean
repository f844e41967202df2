import Rv64Vm.Exec.Faults
import Rv64Vm.Exec.Fetch
import Rv64Vm.Lib.Halfwords
import Rv64Vm.Mmio.AccessLaw
import Rv64Vm.Mmu.Adjacent

/-! # The law of instruction fetch

A fetch as a matter of halfwords: the first one says whether there is a second, each has its own
translation and its own fault. The code reads four bytes at once where they share a page; there
the second translation is the first one moved on. What is left is the host: a translation that
is not answered, or has no room for what it adds to the census, ends the emulator.
-/

namespace Rv64Vm

open Lib

variable {w : FetchedWord} {f : Fetched} {t t₂ : Translation}

/-- The RAM halfword at a physical address. -/
def MemoryMap.half (m : MemoryMap) (p : Word) : BitVec 16 := m.ramByte (p + 1) ++ m.ramByte p

def Compressed (half : BitVec 16) : Prop := half &&& 3 ≠ 3

instance (half : BitVec 16) : Decidable (Compressed half) := inferInstanceAs (Decidable (_ ≠ _))

/-- A registered instruction has the word. -/
def Legal (w : Inst) : Prop := ∃ k, (instructions.get k).Applies w

/-- The fetch address translates to a halfword of RAM. -/
structure Lands (c : Core) (va : Word) (t : Translation) : Prop where
  ok : translate c .exec va = .ok t
  success : t.ret.isSuccess = true
  ram : inDram c.hart.memsize t.pa 2 = true

namespace Translation

/-- The halfword that a translation arrives at. -/
def half (t : Translation) : BitVec 16 := t.core.mmap.half t.pa

/-- A compressed instruction as the decoder gets it. -/
def short (t : Translation) : Inst := t.half.setWidth 32

/-- Two halves, the later one above. -/
def long (t t₂ : Translation) : Inst := t₂.half ++ t.half

end Translation

/-- The fault of one half. -/
inductive HalfFault (c : Core) (va : Word) : MemoryReturn → Prop
  | page {t : Translation} (ok : translate c .exec va = .ok t) (failed : t.ret.isSuccess = false) :
      HalfFault c va ⟨false, excInstPageFault, va⟩
  | access {t : Translation} (ok : translate c .exec va = .ok t) (success : t.ret.isSuccess = true)
      (outside : inDram c.hart.memsize t.pa 2 = false) : HalfFault c va ⟨false, excInstAccessFault, va⟩

/-- What a failed fetch reports. -/
inductive Reports (c : Core) (va : Word) : MemoryReturn → Prop
  | first {ret : MemoryReturn} (fault : HalfFault c va ret) : Reports c va ret
  | second {t : Translation} {ret : MemoryReturn} (lands : Lands c va t) (more : ¬ Compressed t.half)
      (fault : HalfFault t.core (va + 2) ret) : Reports c va ret
  | short {t : Translation} (lands : Lands c va t) (whole : Compressed t.half) (illegal : ¬ Legal t.short) :
      Reports c va ⟨false, excIllegalInstruction, t.short.setWidth 64⟩
  | long {t t₂ : Translation} (lands : Lands c va t) (more : ¬ Compressed t.half)
      (lands₂ : Lands t.core (va + 2) t₂) (illegal : ¬ Legal (t.long t₂)) :
      Reports c va ⟨false, excIllegalInstruction, (t.long t₂).setWidth 64⟩

/-- The fetch has delivered the decoding of the word. -/
def Delivers (f : Fetched) (w : Inst) : Prop :=
  f.ret.isSuccess = true ∧ f.cache.data.inst = w ∧ ∃ k, f.cache.Decoded k

structure FetchLaw (c : Core) (va : Word) (f : Fetched) : Prop where
  short : (f.ret.isSuccess = true ∧ f.cache.data.size = 2) ↔
    ∃ t, Lands c va t ∧ Compressed t.half ∧ Legal t.short
  shortWord : ∀ t, Lands c va t → Compressed t.half → Legal t.short → Delivers f t.short
  long : (f.ret.isSuccess = true ∧ f.cache.data.size = 4) ↔
    ∃ t t₂, Lands c va t ∧ ¬ Compressed t.half ∧ Lands t.core (va + 2) t₂ ∧ Legal (t.long t₂)
  longWord : ∀ t t₂, Lands c va t → ¬ Compressed t.half → Lands t.core (va + 2) t₂ → Legal (t.long t₂) →
    Delivers f (t.long t₂)
  /-- A compressed instruction leaves the machine as its own translation does. -/
  alone : ∀ t, Lands c va t → Compressed t.half → { f.core with decoder := c.decoder } = t.core
  failure : f.ret.isSuccess = false → Reports c va f.ret

/-! ## Reading RAM -/

section Ram

variable {c : Core} {p : Word}

theorem outsideRam_eq (memsize p : Word) : outsideRam memsize p = !inDram memsize p 2 := by
  rw [outsideRam, inDram, Bool.not_and, ← decide_not, ← decide_not]
  simp only [BitVec.not_le]
  rfl

theorem fetchRam_eq {n : Nat} (ram : RamOk c) (small : n ≤ 8) (inside : inDram c.hart.memsize p n = true) :
    fetchRam c.mmap p n = .ok ((loadLE 64 (fun i => c.mmap.ramByte (p + BitVec.ofNat 64 i)) n).setWidth 32) := by
  obtain ⟨i, r, dram⟩ := ram
  rw [fetchRam, dram.direct, ← dram.loadLE_eq small inside]
  simp only [MemoryRegion.read, if_pos (dram.within small inside)]
  rfl

theorem loadLE_two (f : Nat → Byte) : (loadLE 64 f 2).setWidth 32 = (f 1 ++ f 0 : BitVec 16).setWidth 32 := by
  apply BitVec.eq_of_getLsbD_eq
  intro b inside
  simp only [getLsbD_loadLE 64 f 2 b (by omega), BitVec.getLsbD_setWidth, BitVec.getLsbD_append]
  grind

theorem loadLE_four (f : Nat → Byte) :
    (loadLE 64 f 4).setWidth 32 = ((f 3 ++ f 2 : BitVec 16) ++ (f 1 ++ f 0 : BitVec 16) : BitVec 32) := by
  apply BitVec.eq_of_getLsbD_eq
  intro b inside
  simp only [getLsbD_loadLE 64 f 4 b (by omega), BitVec.getLsbD_setWidth, BitVec.getLsbD_append]
  grind

theorem fetchRam_two (ram : RamOk c) (inside : inDram c.hart.memsize p 2 = true) :
    fetchRam c.mmap p 2 = .ok ((c.mmap.half p).setWidth 32) := by
  rw [fetchRam_eq ram (by decide) inside, loadLE_two, MemoryMap.half]
  simp only [BitVec.ofNat_eq_ofNat, BitVec.add_zero]

theorem fetchRam_four (ram : RamOk c) (inside : inDram c.hart.memsize p 4 = true) :
    fetchRam c.mmap p 4 = .ok (c.mmap.half (p + 2) ++ c.mmap.half p) := by
  rw [fetchRam_eq ram (by decide) inside, loadLE_four, MemoryMap.half, MemoryMap.half, BitVec.add_assoc]
  simp only [BitVec.ofNat_eq_ofNat, BitVec.add_zero]
  rfl

/-- With whole pages of RAM the halfword before another one of its page is followed by RAM. -/
theorem inDram_four (ram : RamOk c) (pages : c.hart.memsize.toNat % 2 ^ 12 = 0) (near : p.toNat % 2 ^ 12 + 4 ≤ 2 ^ 12)
    (inside : inDram c.hart.memsize p 2 = true) : inDram c.hart.memsize p 4 = true := by
  obtain ⟨i, r, dram⟩ := ram
  obtain ⟨low, high⟩ := (inDram_iff dram.fits (by decide)).mp inside
  apply (inDram_iff dram.fits (by decide)).mpr
  have base : dramBase.toNat = 0x80000000 := rfl
  omega

end Ram

/-! ## Lengths -/

theorem compressed_iff {half : BitVec 16} : Compressed half ↔ half.toNat % 4 ≠ 3 := by
  have low : (half &&& 3#16).toNat = half.toNat % 2 ^ 2 := toNat_and_lowMask (w := 16) (b := 2) (by decide) half
  rw [Compressed, ne_eq, ← BitVec.toNat_inj]
  change (half &&& 3#16).toNat ≠ 3 ↔ _
  rw [low]
  exact Iff.rfl

theorem low_two (w : Inst) : w &&& 3 ≠ 3 ↔ w.toNat % 4 ≠ 3 := by
  have low : (w &&& 3#32).toNat = w.toNat % 2 ^ 2 := toNat_and_lowMask (w := 32) (b := 2) (by decide) w
  rw [ne_eq, ← BitVec.toNat_inj]
  change (w &&& 3#32).toNat ≠ 3 ↔ _
  rw [low]
  exact Iff.rfl

theorem low_setWidth_half (half : BitVec 16) : half.setWidth 32 &&& 3 ≠ 3 ↔ Compressed half := by
  rw [low_two, compressed_iff, BitVec.toNat_setWidth_of_le (by decide)]

theorem low_append (hi lo : BitVec 16) : (hi ++ lo : BitVec 32) &&& 3 ≠ 3 ↔ Compressed lo := by
  have value : (hi ++ lo : BitVec 32).toNat = hi.toNat * 65536 + lo.toNat := by
    rw [BitVec.toNat_append, ← Nat.shiftLeft_add_eq_or_of_lt lo.isLt, Nat.shiftLeft_eq]
  rw [low_two, compressed_iff, value]
  omega

theorem or_shiftLeft_halves (hi lo : BitVec 16) :
    lo.setWidth 32 ||| hi.setWidth 32 <<< 16 = (hi ++ lo : BitVec 32) := by
  apply BitVec.eq_of_getLsbD_eq
  intro b inside
  simp only [BitVec.getLsbD_or, BitVec.getLsbD_shiftLeft, BitVec.getLsbD_setWidth, BitVec.getLsbD_append]
  grind

/-! ## The word

What `fetchWord` does, case by case. -/

section Word

variable {c : Core} {va : Word} {t t₂ : Translation}

theorem fetchWord_page (ok : translate c .exec va = .ok t) (failed : t.ret.isSuccess = false) :
    fetchWord c va = .ok { ret := ⟨false, excInstPageFault, va⟩, core := t.core } := by
  have fault : t.ret = ⟨false, excInstPageFault, va⟩ := translate_fault ok failed
  simp only [fetchWord, ok, bind, Except.bind, Bool.not_false, if_true, fault]
  rfl

theorem fetchWord_access (ok : translate c .exec va = .ok t) (success : t.ret.isSuccess = true)
    (outside : inDram c.hart.memsize t.pa 2 = false) :
    fetchWord c va = .ok { ret := ⟨false, excInstAccessFault, va⟩, physPc := t.pa, core := t.core } := by
  simp only [fetchWord, ok, bind, Except.bind, success, Bool.not_true, Bool.false_eq_true, if_false, outsideRam_eq,
    outside, Bool.not_false, if_true]
  rfl

/-- The second half in its own page, as `fetchWord` reads it after the first. -/
def farWord (memsize va : Word) (t : Translation) : Except HostError FetchedWord := do
  let t₂ ← translate t.core .exec (va + 2)
  if !t₂.ret.isSuccess then return { ret := t₂.ret, physPc := t.pa, core := t₂.core }
  else if !inDram memsize t₂.pa 2 then
    return { ret := ⟨false, excInstAccessFault, va + 2⟩, physPc := t.pa, core := t₂.core }
  else
    let hi ← fetchRam t₂.core.mmap t₂.pa 2
    return { ret := {}, physPc := t.pa, inst := t.short ||| (hi <<< 16), core := t₂.core }

theorem near_iff (even : Halfword va) : va &&& 0xFFF ≤ 0xFFC ↔ va.toNat % 2 ^ 12 ≠ 0xFFE := by
  have offset := pageOffset va
  rw [Halfword] at even
  rw [BitVec.le_def]
  change (va &&& 0xFFF#64).toNat ≤ 0xFFC ↔ _
  rw [offset]
  omega

theorem index_next (edge : va.toNat % 2 ^ 12 = 0xFFE) : Tlb.index (va + 2) ≠ Tlb.index va := by
  have second : secondAddr va = va + 2 := by
    rw [secondAddr, firstSize_eq, edge]
    rfl
  rw [← second]
  exact index_secondAddr va

/-- What `fetchWord` has read, by halves. -/
inductive WordRead (c : Core) (va : Word) : FetchedWord → Prop
  | first {w : FetchedWord} (fault : HalfFault c va w.ret) (failed : w.ret.isSuccess = false) : WordRead c va w
  | second {t : Translation} {w : FetchedWord} (lands : Lands c va t) (more : ¬ Compressed t.half)
      (fault : HalfFault t.core (va + 2) w.ret) (failed : w.ret.isSuccess = false) : WordRead c va w
  | short {t : Translation} (lands : Lands c va t) (whole : Compressed t.half) :
      WordRead c va { ret := {}, physPc := t.pa, inst := t.short, core := t.core }
  | long {t t₂ : Translation} {core : Core} (lands : Lands c va t) (more : ¬ Compressed t.half)
      (lands₂ : Lands t.core (va + 2) t₂) :
      WordRead c va { ret := {}, physPc := t.pa, inst := t.long t₂, core := core }

/-- Every translation that the fetch asks for is answered. -/
def HalvesAnswered (c : Core) (va : Word) : Prop :=
  Answered c .exec va ∧
    ∀ t, Lands c va t → ¬ Compressed t.half → va.toNat % 2 ^ 12 = 0xFFE → Answered c .exec (va + 2)

section Landed

variable (lands : Lands c va t)

include lands

theorem Lands.unique {t' : Translation} (lands' : Lands c va t') : t = t' :=
  Except.ok.inj (lands.ok.symm.trans lands'.ok)

theorem Lands.memsize : t.core.hart.memsize = c.hart.memsize :=
  (translate_translated lands.ok).memsize

theorem Lands.inside : inDram t.core.hart.memsize t.pa 2 = true := lands.memsize ▸ lands.ram

/-- The second half is answered before the first translation if and only if after it. -/
theorem Lands.answered_next (edge : va.toNat % 2 ^ 12 = 0xFFE) :
    (∃ t₂, translate t.core .exec (va + 2) = .ok t₂) ↔ Answered c .exec (va + 2) := by
  rw [translate_returns_iff]
  exact answered_same (translate_sameView lands.ok (index_next edge)) (translate_translated lands.ok).ram.sameTables

variable (ram : RamOk c)

include ram

theorem Lands.ramOk : RamOk t.core := (translate_translated lands.ok).ramOk ram

theorem Lands.reads : fetchRam t.core.mmap t.pa 2 = .ok t.short :=
  fetchRam_two (lands.ramOk ram) lands.inside

/-- Once the first half is there. -/
theorem Lands.fetchWord_eq :
    fetchWord c va =
      if Compressed t.half then .ok { ret := {}, physPc := t.pa, inst := t.short, core := t.core }
      else if va &&& 0xFFF ≤ 0xFFC then
        (fetchRam t.core.mmap t.pa 4).map fun inst => { ret := {}, physPc := t.pa, inst := inst, core := t.core }
      else farWord c.hart.memsize va t := by
  have length : t.short &&& 0x3 ≠ 0x3 ↔ Compressed t.half := low_setWidth_half t.half
  simp only [fetchWord, lands.ok, bind, Except.bind, lands.success, Bool.not_true, Bool.false_eq_true, if_false,
    outsideRam_eq, lands.ram, lands.reads ram, length]
  rfl

/-- In one page four bytes are two halves, each where its own translation says. -/
theorem Lands.fetchWord_near (gen : c.hart.tlb.GenOk) (shapes : ShapeOk c)
    (pages : c.hart.memsize.toNat % 2 ^ 12 = 0) (even : Halfword va) (more : ¬ Compressed t.half)
    (near : va.toNat % 2 ^ 12 ≠ 0xFFE) :
    ∃ t₂, Lands t.core (va + 2) t₂ ∧
      fetchWord c va = .ok { ret := {}, physPc := t.pa, inst := t.long t₂, core := t.core } := by
  have inPage : SamePage va 2 := by
    rw [Halfword] at even
    rw [SamePage]
    omega
  obtain ⟨t₂, ok₂, success₂, pa₂, mmap₂⟩ :=
    translate_exec_next gen shapes inPage lands.ok lands.success
  have offset := translate_offset shapes lands.ok lands.success
  have four : inDram t.core.hart.memsize t.pa 4 = true := by
    refine inDram_four (lands.ramOk ram) (lands.memsize ▸ pages) ?_ lands.inside
    rw [Halfword] at even
    omega
  have second : inDram t.core.hart.memsize t₂.pa 2 = true := by
    obtain ⟨i, r, dram⟩ := lands.ramOk ram
    obtain ⟨low, high⟩ := (inDram_iff dram.fits (by decide)).mp four
    have fits := dram.fits
    have two : (2#64).toNat = 2 := rfl
    have moved : t₂.pa.toNat = t.pa.toNat + 2 := by
      rw [pa₂, BitVec.toNat_add, two]
      exact Nat.mod_eq_of_lt (by omega)
    exact (inDram_iff dram.fits (by decide)).mpr (by omega)
  have word : t.core.mmap.half (t.pa + 2) ++ t.core.mmap.half t.pa = t.long t₂ := by
    rw [Translation.long, Translation.half, Translation.half, mmap₂, pa₂]
    rfl
  refine ⟨t₂, ⟨ok₂, success₂, second⟩, ?_⟩
  rw [lands.fetchWord_eq ram, if_neg more, if_pos ((near_iff even).mpr near), fetchRam_four (lands.ramOk ram) four,
    word]
  rfl

theorem Lands.fetchWord_far (even : Halfword va) (more : ¬ Compressed t.half)
    (edge : va.toNat % 2 ^ 12 = 0xFFE) : fetchWord c va = farWord c.hart.memsize va t := by
  have far : ¬ va &&& 0xFFF ≤ 0xFFC := fun near => (near_iff even).mp near edge
  rw [lands.fetchWord_eq ram, if_neg more, if_neg far]

theorem Lands.farWord_read (more : ¬ Compressed t.half)
    (ok₂ : translate t.core .exec (va + 2) = .ok t₂) :
    ∃ w, farWord c.hart.memsize va t = .ok w ∧ WordRead c va w := by
  simp only [farWord, ok₂, bind, Except.bind]
  cases success : t₂.ret.isSuccess with
  | false =>
    have fault : t₂.ret = ⟨false, excInstPageFault, va + 2⟩ := translate_fault ok₂ success
    refine ⟨_, rfl, .second lands more ?_ success⟩
    rw [fault]
    exact .page ok₂ success
  | true =>
    cases inside : inDram c.hart.memsize t₂.pa 2 with
    | false => exact ⟨_, rfl, .second lands more (.access ok₂ success (lands.memsize ▸ inside)) rfl⟩
    | true =>
      have lands₂ : Lands t.core (va + 2) t₂ := ⟨ok₂, success, lands.memsize ▸ inside⟩
      refine ⟨{ ret := {}, physPc := t.pa, inst := t.long t₂, core := t₂.core }, ?_, .long lands more lands₂⟩
      simp only [Bool.not_true, Bool.false_eq_true, if_false, lands₂.reads (lands.ramOk ram), Translation.short,
        or_shiftLeft_halves]
      rfl

end Landed

theorem fetchWord_read (gen : c.hart.tlb.GenOk) (shapes : ShapeOk c) (ram : RamOk c)
    (pages : c.hart.memsize.toNat % 2 ^ 12 = 0)
    (even : Halfword va) (answered : HalvesAnswered c va) : ∃ w, fetchWord c va = .ok w ∧ WordRead c va w := by
  obtain ⟨t, ok⟩ := (translate_returns_iff c .exec va).mpr answered.1
  cases success : t.ret.isSuccess with
  | false => exact ⟨_, fetchWord_page ok success, .first (.page ok success) rfl⟩
  | true =>
    cases inside : inDram c.hart.memsize t.pa 2 with
    | false => exact ⟨_, fetchWord_access ok success inside, .first (.access ok success inside) rfl⟩
    | true =>
      have lands : Lands c va t := ⟨ok, success, inside⟩
      by_cases whole : Compressed t.half
      · exact ⟨_, (lands.fetchWord_eq ram).trans (if_pos whole), .short lands whole⟩
      by_cases edge : va.toNat % 2 ^ 12 = 0xFFE
      · obtain ⟨t₂, ok₂⟩ := (lands.answered_next edge).mpr (answered.2 t lands whole edge)
        rw [lands.fetchWord_far ram even whole edge]
        exact lands.farWord_read ram whole ok₂
      · obtain ⟨t₂, lands₂, fetched⟩ := lands.fetchWord_near ram gen shapes pages even whole edge
        exact ⟨_, fetched, .long lands whole lands₂⟩

theorem halvesAnswered_of_returns (ram : RamOk c) (even : Halfword va) (ok : fetchWord c va = .ok w) :
    HalvesAnswered c va := by
  constructor
  · obtain ⟨t, translated, -⟩ := bind_eq_ok.mp ok
    exact (translate_returns_iff c .exec va).mp ⟨t, translated⟩
  · intro t lands more edge
    rw [lands.fetchWord_far ram even more edge] at ok
    obtain ⟨t₂, translated, -⟩ := bind_eq_ok.mp ok
    exact (lands.answered_next edge).mp ⟨t₂, translated⟩

/-- The host has room for what the translations of the fetch add to the census. -/
def HalvesHoused (limit : Nat) (c : Core) (va : Word) : Prop :=
  Housed limit c .exec va ∧ ∀ t, Lands c va t → ¬ Compressed t.half → va.toNat % 2 ^ 12 = 0xFFE →
    Housed limit t.core .exec (va + 2)

theorem fetchWord_housed_iff {limit : Nat} (ram : RamOk c) (even : Halfword va) (ok : fetchWord c va = .ok w) :
    w.core.hart.tlb.wWritable.size ≤ max c.hart.tlb.wWritable.size limit ↔ HalvesHoused limit c va := by
  obtain ⟨t, translated, -⟩ := bind_eq_ok.mp ok
  have first := translate_housed_iff limit translated
  -- one translation is all there is
  have alone (same : w.core = t.core)
      (single : Lands c va t → ¬ Compressed t.half → va.toNat % 2 ^ 12 ≠ 0xFFE) :
      w.core.hart.tlb.wWritable.size ≤ max c.hart.tlb.wWritable.size limit ↔ HalvesHoused limit c va := by
    rw [same, first, HalvesHoused, iff_self_and]
    intro _ t' lands more edge
    obtain rfl := Except.ok.inj (translated.symm.trans lands.ok)
    exact absurd edge (single lands more)
  cases success : t.ret.isSuccess with
  | false =>
    obtain rfl := Except.ok.inj ((fetchWord_page translated success).symm.trans ok)
    exact alone rfl fun lands => absurd (success.symm.trans lands.success) (by decide)
  | true =>
    cases inside : inDram c.hart.memsize t.pa 2 with
    | false =>
      obtain rfl := Except.ok.inj ((fetchWord_access translated success inside).symm.trans ok)
      exact alone rfl fun lands => absurd (inside.symm.trans lands.ram) (by decide)
    | true =>
      have lands : Lands c va t := ⟨translated, success, inside⟩
      by_cases whole : Compressed t.half
      · rw [lands.fetchWord_eq ram, if_pos whole] at ok
        obtain rfl := Except.ok.inj ok
        exact alone rfl fun _ more => absurd whole more
      by_cases edge : va.toNat % 2 ^ 12 = 0xFFE
      · rw [lands.fetchWord_far ram even whole edge] at ok
        obtain ⟨t₂, translated₂, rest⟩ := bind_eq_ok.mp ok
        have second := translate_housed_iff limit translated₂
        have grows := translate_grows translated
        have grows₂ := translate_grows translated₂
        have same : w.core = t₂.core := by
          split at rest
          · exact pure_eq_ok.mp rest ▸ rfl
          · split at rest
            · exact pure_eq_ok.mp rest ▸ rfl
            · obtain ⟨hi, -, read⟩ := bind_eq_ok.mp rest
              exact pure_eq_ok.mp read ▸ rfl
        rw [same]
        constructor
        · intro fits
          refine ⟨first.mp (by omega), fun t' lands' _ _ => ?_⟩
          obtain rfl := lands.unique lands'
          exact second.mp (by omega)
        · intro housed
          have fits := first.mpr housed.1
          have fits₂ := second.mpr (housed.2 t lands whole edge)
          omega
      · rw [lands.fetchWord_eq ram, if_neg whole, if_pos ((near_iff even).mpr edge)] at ok
        obtain ⟨inst, -, rfl⟩ := map_eq_ok.mp ok
        exact alone rfl fun _ _ => edge

end Word

/-! ## The law -/

section Law

variable {c : Core} {va : Word}

theorem fetchInstruction_failed (ok : fetchWord c va = .ok w) (failed : w.ret.isSuccess = false) :
    fetchInstruction c va = .ok { ret := w.ret, physPc := w.physPc, core := w.core } := by
  simp only [fetchInstruction, ok, bind, Except.bind, failed, Bool.not_false, if_true]
  rfl

theorem fetchInstruction_word (ok : fetchInstruction c va = .ok f) :
    ∃ w, fetchWord c va = .ok w ∧ f.core.hart = w.core.hart := by
  obtain ⟨w, fetched, rest⟩ := bind_eq_ok.mp ok
  refine ⟨w, fetched, ?_⟩
  split at rest
  · exact (pure_eq_ok.mp rest) ▸ rfl
  · dsimp only at rest
    split at rest
    · exact (pure_eq_ok.mp rest) ▸ rfl
    · exact (pure_eq_ok.mp rest) ▸ rfl

/-- A word that is read is decoded, or illegal. -/
theorem fetchInstruction_read (good : c.decoder.Good) (ok : fetchWord c va = .ok w) (success : w.ret.isSuccess = true) :
    ∃ f, fetchInstruction c va = .ok f ∧ { f.core with decoder := w.core.decoder } = w.core ∧
      (Legal w.inst ∧ f.ret = {} ∧ Delivers f w.inst ∨
        ¬ Legal w.inst ∧ f.ret = ⟨false, excIllegalInstruction, w.inst.setWidth 64⟩) := by
  obtain ⟨translated, placed⟩ := fetchWord_translated ok
  have cached : w.core.decoder.Good := translated.decoder ▸ good
  have nonzero := placed success
  rw [fetchInstruction, ok]
  simp only [bind, Except.bind, success, Bool.not_true, Bool.false_eq_true, if_false]
  by_cases illegal : (decodeInst w.core.smc.smcEpoch w.core.decoder w.physPc w.inst).1.pc = 0
  · rw [if_pos illegal]
    refine ⟨_, rfl, rfl, .inr ⟨?_, rfl⟩⟩
    intro legal
    obtain ⟨k, applies⟩ := legal
    exact decodeInst_illegal nonzero illegal k applies
  · rw [if_neg illegal]
    obtain ⟨k, decoded, inst⟩ := decodeInst_decoded cached illegal
    refine ⟨_, rfl, rfl, .inl ⟨⟨k, ?_⟩, rfl, rfl, inst, k, decoded⟩⟩
    rw [← inst]
    exact decoded.1.1

theorem Delivers.size {w : Inst} (delivers : Delivers f w) : f.cache.data.size = if w &&& 3 ≠ 3 then 2 else 4 := by
  obtain ⟨-, rfl, k, -, -, data⟩ := delivers
  exact (congrArg InstructionData.size data).trans rfl

theorem Delivers.short (delivers : Delivers f t.short) (whole : Compressed t.half) : f.cache.data.size = 2 := by
  have low : t.short &&& 3 ≠ 3 := (low_setWidth_half t.half).mpr whole
  rw [delivers.size, if_pos low]

theorem Delivers.long (delivers : Delivers f (t.long t₂)) (more : ¬ Compressed t.half) : f.cache.data.size = 4 := by
  have low : ¬ t.long t₂ &&& 3 ≠ 3 := fun low => more ((low_append t₂.half t.half).mp low)
  rw [delivers.size, if_neg low]

theorem HalfFault.not_lands {ret : MemoryReturn} (fault : HalfFault c va ret) : ¬ Lands c va t := by
  intro lands
  cases fault with
  | page ok failed =>
    obtain rfl := Except.ok.inj (ok.symm.trans lands.ok)
    exact absurd (failed.symm.trans lands.success) Bool.false_ne_true
  | access ok success outside =>
    obtain rfl := Except.ok.inj (ok.symm.trans lands.ok)
    exact absurd (outside.symm.trans lands.ram) Bool.false_ne_true

/-- A fetch that reports a failure had nothing legal to deliver. -/
theorem Reports.no_short {ret : MemoryReturn} (reports : Reports c va ret) (lands : Lands c va t)
    (whole : Compressed t.half) : ¬ Legal t.short := by
  cases reports with
  | first fault => exact absurd lands fault.not_lands
  | second lands' more => exact absurd whole (lands.unique lands' ▸ more)
  | short lands' _ illegal => exact lands.unique lands' ▸ illegal
  | long lands' more => exact absurd whole (lands.unique lands' ▸ more)

theorem Reports.no_long {ret : MemoryReturn} (reports : Reports c va ret) (lands : Lands c va t)
    (more : ¬ Compressed t.half) (lands₂ : Lands t.core (va + 2) t₂) : ¬ Legal (t.long t₂) := by
  cases reports with
  | first fault => exact absurd lands fault.not_lands
  | second lands' _ fault =>
    obtain rfl := lands.unique lands'
    exact absurd lands₂ fault.not_lands
  | short lands' whole => exact absurd (lands.unique lands' ▸ whole) more
  | long lands' _ lands₂' illegal =>
    obtain rfl := lands.unique lands'
    exact lands₂.unique lands₂' ▸ illegal

theorem law_of_failed (failed : f.ret.isSuccess = false) (reports : Reports c va f.ret)
    (alone : ∀ t, Lands c va t → Compressed t.half → { f.core with decoder := c.decoder } = t.core) :
    FetchLaw c va f where
  short := by
    constructor
    · intro worked
      exact absurd (failed.symm.trans worked.1) Bool.false_ne_true
    · rintro ⟨t, lands, whole, legal⟩
      exact absurd legal (reports.no_short lands whole)
  shortWord t lands whole legal := absurd legal (reports.no_short lands whole)
  long := by
    constructor
    · intro worked
      exact absurd (failed.symm.trans worked.1) Bool.false_ne_true
    · rintro ⟨t, t₂, lands, more, lands₂, legal⟩
      exact absurd legal (reports.no_long lands more lands₂)
  longWord t t₂ lands more lands₂ legal := absurd legal (reports.no_long lands more lands₂)
  alone := alone
  failure _ := reports

theorem law_of_short (lands : Lands c va t) (whole : Compressed t.half)
    (legal : Legal t.short) (delivers : Delivers f t.short) (frame : { f.core with decoder := c.decoder } = t.core) :
    FetchLaw c va f where
  short := ⟨fun _ => ⟨t, lands, whole, legal⟩, fun _ => ⟨delivers.1, delivers.short whole⟩⟩
  shortWord t' lands' _ _ := lands.unique lands' ▸ delivers
  long := by
    constructor
    · intro worked
      rw [delivers.short whole] at worked
      exact absurd worked.2 (by decide)
    · rintro ⟨t', -, lands', more, -⟩
      obtain rfl := lands.unique lands'
      exact absurd whole more
  longWord t' _ lands' more := absurd (lands.unique lands' ▸ whole) more
  alone t' lands' _ := lands.unique lands' ▸ frame
  failure failed := absurd (failed.symm.trans delivers.1) Bool.false_ne_true

theorem law_of_long (lands : Lands c va t) (more : ¬ Compressed t.half)
    (lands₂ : Lands t.core (va + 2) t₂) (legal : Legal (t.long t₂)) (delivers : Delivers f (t.long t₂)) :
    FetchLaw c va f where
  short := by
    constructor
    · intro worked
      rw [delivers.long more] at worked
      exact absurd worked.2 (by decide)
    · rintro ⟨t', lands', whole, -⟩
      obtain rfl := lands.unique lands'
      exact absurd whole more
  shortWord t' lands' whole := absurd (lands.unique lands' ▸ whole) more
  long := ⟨fun _ => ⟨t, t₂, lands, more, lands₂, legal⟩, fun _ => ⟨delivers.1, delivers.long more⟩⟩
  longWord t' t₂' lands' _ lands₂' _ := by
    obtain rfl := lands.unique lands'
    exact lands₂.unique lands₂' ▸ delivers
  alone t' lands' whole := absurd (lands.unique lands' ▸ whole) more
  failure failed := absurd (failed.symm.trans delivers.1) Bool.false_ne_true

/-- The law holds of what is fetched after a word has been read. -/
theorem WordRead.law (good : c.decoder.Good) (fetched : fetchWord c va = .ok w)
    (read : WordRead c va w) : ∃ f, fetchInstruction c va = .ok f ∧ FetchLaw c va f := by
  have decoder : w.core.decoder = c.decoder := (fetchWord_translated fetched).1.decoder
  cases read with
  | first fault failed =>
    refine ⟨_, fetchInstruction_failed fetched failed, law_of_failed failed (.first fault) ?_⟩
    intro t lands
    exact absurd lands fault.not_lands
  | second lands more fault failed =>
    refine ⟨_, fetchInstruction_failed fetched failed, law_of_failed failed (.second lands more fault) ?_⟩
    intro t' lands' whole
    exact absurd (lands'.unique lands ▸ whole) more
  | @short t lands whole =>
    obtain ⟨f, ok, frame, ⟨legal, -, delivers⟩ | ⟨illegal, ret⟩⟩ := fetchInstruction_read good fetched rfl
    · exact ⟨f, ok, law_of_short lands whole legal delivers (decoder ▸ frame)⟩
    · refine ⟨f, ok, law_of_failed (by rw [ret]) (by rw [ret]; exact .short lands whole illegal) ?_⟩
      intro t' lands' _
      exact lands.unique lands' ▸ decoder ▸ frame
  | @long t t₂ core lands more lands₂ =>
    obtain ⟨f, ok, -, ⟨legal, -, delivers⟩ | ⟨illegal, ret⟩⟩ := fetchInstruction_read good fetched rfl
    · exact ⟨f, ok, law_of_long lands more lands₂ legal delivers⟩
    · refine ⟨f, ok, law_of_failed (by rw [ret]) (by rw [ret]; exact .long lands more lands₂ illegal) ?_⟩
      intro t' lands' whole
      exact absurd (lands'.unique lands ▸ whole) more

/-- The fetch of an even address returns, by the law, if and only if the host answers its translations and has room
    for them. -/
theorem fetch_law_iff (limit : Nat) (c : Core) (va : Word) (reachable : MmuReachable c) (ram : RamOk c)
    (good : c.decoder.Good) (pages : c.hart.memsize.toNat % 2 ^ 12 = 0) (even : Halfword va) :
    (∃ f, fetchInstructionWithin limit c va = .ok f ∧ FetchLaw c va f) ↔
      HalvesAnswered c va ∧ HalvesHoused limit c va := by
  constructor
  · rintro ⟨f, within, -⟩
    obtain ⟨ok, fits⟩ := hosted_eq_ok.mp within
    obtain ⟨w, fetched, frame⟩ := fetchInstruction_word ok
    rw [frame, fetchWord_housed_iff ram even fetched] at fits
    exact ⟨halvesAnswered_of_returns ram even fetched, fits⟩
  · rintro ⟨answered, housed⟩
    obtain ⟨w, fetched, read⟩ := fetchWord_read reachable.genOk reachable.shapeOk ram pages even answered
    obtain ⟨f, ok, law⟩ := read.law good fetched
    obtain ⟨w', fetched', frame⟩ := fetchInstruction_word ok
    refine ⟨f, hosted_eq_ok.mpr ⟨ok, ?_⟩, law⟩
    rw [frame, fetchWord_housed_iff ram even fetched']
    exact housed

/-- A compressed instruction at the end of a page, translation off: one page number is all the census needs. -/
theorem fetch_law_machine :
    MmuReachable twoPageCore ∧ RamOk twoPageCore ∧ twoPageCore.decoder.Good ∧
      ∃ f, fetchInstructionWithin 0x100000 twoPageCore 0x80000FFE = .ok f ∧ FetchLaw twoPageCore 0x80000FFE f := by
  refine ⟨twoPageCore_reachable, twoPageCore_ramOk, DecodeCache.good_empty, ?_⟩
  refine (fetch_law_iff _ _ _ twoPageCore_reachable twoPageCore_ramOk DecodeCache.good_empty (by decide)
    (by decide)).mpr ?_
  have off : identityMapped twoPageCore.hart .exec = true := by decide
  refine ⟨⟨.inl off, fun _ _ _ _ => .inl off⟩, ⟨fun _ _ => by decide, fun on => absurd off (by rw [on]; decide)⟩, ?_⟩
  intro t lands more
  obtain rfl := Except.ok.inj ((show translate twoPageCore .exec 0x80000FFE = .ok _ from rfl).symm.trans lands.ok)
  exact absurd (by decide) more

/-- Supervisor mode under Sv39, with the root table at physical 0. -/
def lostRootCore : Core where
  hart := { mode := .supervisor, satp := 0x8000000000000000#64, memsize := 0x1000#64 }
  mmap := MemoryMap.empty.addRegion 0x80000000#64 0x1000#64 0x700000000000#64
  smc := {}

/-- No access fault: the fetch does not return, without a root table as in machine mode at the last page. -/
theorem fetch_aborts_without_root :
    MmuReachable lostRootCore ∧ RamOk lostRootCore ∧ lostRootCore.decoder.Good ∧
      fetchInstructionWithin (2 ^ 40) lostRootCore 0x80000000 = .error .outOfRange ∧
      fetchInstructionWithin (2 ^ 40) twoPageCore 0xFFFFFFFFFFFFF000 = .error .badAlloc ∧
      ¬ ∃ f, fetchInstructionWithin (2 ^ 40) lostRootCore 0x80000000 = .ok f ∧ FetchLaw lostRootCore 0x80000000 f := by
  have aborts : fetchInstructionWithin (2 ^ 40) lostRootCore 0x80000000 = .error .outOfRange := rfl
  refine ⟨⟨lostRootCore, [], rfl, rfl⟩, ⟨0, _, rfl, rfl, rfl, rfl, by decide⟩, DecodeCache.good_empty, aborts, rfl, ?_⟩
  intro returned
  obtain ⟨f, ok, -⟩ := returned
  rw [aborts] at ok
  cases ok

end Law

end Rv64Vm
