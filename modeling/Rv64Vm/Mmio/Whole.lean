import Rv64Vm.Mmio.AccessLaw
import Rv64Vm.Mmu.Adjacent

/-! # Accesses that move every byte

What a load and a store do to memory in the manual: each piece of an access moves all of its bytes,
in RAM or at a device. `MMIO::read` and `MMIO::write` do the same but for pieces of 3, 5, 6 or 7 bytes
of RAM, which `read_dram_fast` reads as zero and `write_dram_fast` does not write. An access has such
a piece only where a page ends, and the loss shows only if the bytes are not what they would be.
-/

namespace Rv64Vm

open Lib

variable {bus : Bus} {c c' c₁ : Core} {type : AccessType} {addr pa val : Word} {n : Nat} {t₁ t₂ : Translation}

/-! ## Pieces -/

/-- The `n` bytes of RAM at `pa`. -/
def MemoryMap.ramBytes (m : MemoryMap) (pa : Word) (n : Nat) : Word :=
  loadLE 64 (fun k => m.ramByte (pa + BitVec.ofNat 64 k)) n

/-- RAM with `n` bytes of `val` at `pa`. -/
def MemoryMap.setRam (m : MemoryMap) (pa : Word) (n : Nat) (val : Word) : MemoryMap :=
  match m.ramDirect, m.getRamDirect with
  | some i, some ram => m.setData i (storeLE ram.data (pa - dramBase).toNat n val)
  | _, _ => m

/-- A piece of a read, whatever its size. -/
def readAll (bus : Bus) : ReadPiece := fun c pa n =>
  if inDram c.hart.memsize pa n then .ok (some (c.mmap.ramBytes pa n, c))
  else .ok ((bus.find pa n).map fun dev => bus.read dev pa n (c.record ⟨dev, pa, n, none⟩))

/-- A piece of a write, whatever its size; reservations and compiled code are looked after as always. -/
def writeAll (bus : Bus) : WritePiece := fun c pa n val =>
  if inDram c.hart.memsize pa n then
    .ok (some { checked c pa with smc := c.smc.smcStoreHit pa, mmap := c.mmap.setRam pa n val })
  else .ok ((bus.find pa n).map fun dev => bus.write dev pa n val ((checked c pa).record ⟨dev, pa, n, some val⟩))

def wholeRead (bus : Bus) (c : Core) (addr : Word) (n : Nat) : Except HostError Access :=
  readPieces (readAll bus) c addr n

/-- A store that traps may have written one of its pieces: which of them is the machine's choice. -/
def wholeWrite (bus : Bus) (c : Core) (addr : Word) (n : Nat) (val : Word) : Except HostError Access := do
  let a ← mmioWrite bus c addr n val
  if a.ret.isSuccess then writePieces (writeAll bus) c addr n val else return a

/-- A piece of RAM of a size that the fast paths have no case for. -/
def Lost (c : Core) (pa : Word) (n : Nat) : Prop := inDram c.hart.memsize pa n = true ∧ n ∉ dramSizes

instance (c : Core) (pa : Word) (n : Nat) : Decidable (Lost c pa n) := inferInstanceAs (Decidable (_ ∧ _))

theorem readAll_eq (ram : RamOk c) (small : n ≤ 8) (kept : ¬ Lost c pa n) :
    readAll bus c pa n = readPhys bus c pa n := by
  cases inside : inDram c.hart.memsize pa n with
  | true =>
    have known : n ∈ dramSizes := not_not.mp fun unknown => kept ⟨inside, unknown⟩
    rw [readPhys_bytes ram small inside, readAll, if_pos inside, if_pos known]
    rfl
  | false => simp only [readAll, readPhys, inside, Bool.false_eq_true, if_false]

theorem readPhys_lost (ram : RamOk c) (small : n ≤ 8) (lost : Lost c pa n) :
    readPhys bus c pa n = .ok (some (0, c)) := by
  rw [readPhys_bytes ram small lost.1, if_neg lost.2]

theorem setRam_eq {memsize : Word} {i : Nat} {ram : MemoryRegion} {m : MemoryMap} (ramAt : RamAt m memsize i ram) :
    m.setRam pa n val = m.setData i (storeLE ram.data (pa - dramBase).toNat n val) := by
  rw [MemoryMap.setRam, ramAt.position, ramAt.direct]

/-- The machine but for its memory after a piece in RAM. -/
def passedOver (c : Core) (pa : Word) : Core := { checked c pa with smc := c.smc.smcStoreHit pa }

theorem writePhys_ram (ram : RamOk c) (small : n ≤ 8) (inside : inDram c.hart.memsize pa n = true) :
    writePhys bus c pa n val = .ok (some { passedOver c pa with
      mmap := if n ∈ dramSizes then c.mmap.setRam pa n val else c.mmap }) := by
  obtain ⟨i, r, ramAt⟩ := ram
  rw [writePhys_dram ramAt small inside, dramWritten, setRam_eq ramAt]
  split <;> rfl

theorem writeAll_ram (inside : inDram c.hart.memsize pa n = true) : writeAll bus c pa n val =
    .ok (some { passedOver c pa with mmap := c.mmap.setRam pa n val }) := by
  rw [writeAll, if_pos inside]
  rfl

theorem writeAll_eq (ram : RamOk c) (small : n ≤ 8) (kept : ¬ Lost c pa n) :
    writeAll bus c pa n val = writePhys bus c pa n val := by
  cases inside : inDram c.hart.memsize pa n with
  | true =>
    have known : n ∈ dramSizes := not_not.mp fun unknown => kept ⟨inside, unknown⟩
    rw [writePhys_ram ram small inside, writeAll_ram inside, if_pos known]
  | false =>
    simp only [writeAll, writePhys, inside, Bool.false_eq_true, if_false]
    rfl

/-! ## Where the pieces are -/

/-- An access that ends in its translations. -/
inductive Unserved (c : Core) (type : AccessType) (addr : Word) (n : Nat) : Prop
  | error {e : HostError} (first : translate c type addr = .error e)
  | fault {t : Translation} (first : translate c type addr = .ok t) (failed : t.ret.isSuccess = false)
  | secondError {t : Translation} {e : HostError} (crosses : crossPage c.hart addr n = true)
      (first : translate c type addr = .ok t) (firstOk : t.ret.isSuccess = true)
      (second : translate t.core type (secondAddr addr) = .error e)
  | secondFault {t t₂ : Translation} (crosses : crossPage c.hart addr n = true)
      (first : translate c type addr = .ok t) (firstOk : t.ret.isSuccess = true)
      (second : translate t.core type (secondAddr addr) = .ok t₂) (failed : t₂.ret.isSuccess = false)

theorem access_cases (c : Core) (type : AccessType) (addr : Word) (n : Nat) :
    Unserved c type addr n ∨
    (∃ t, OnePage c type addr n t) ∨
    ∃ t₁ t₂, Split c type addr n t₁ t₂ := by
  cases first : translate c type addr with
  | error e => exact .inl (.error first)
  | ok t =>
    cases firstOk : t.ret.isSuccess with
    | false => exact .inl (.fault first firstOk)
    | true =>
      cases crosses : crossPage c.hart addr n with
      | false => exact .inr (.inl ⟨t, crosses, first, firstOk⟩)
      | true =>
        cases second : translate t.core type (secondAddr addr) with
        | error e => exact .inl (.secondError crosses first firstOk second)
        | ok t₂ =>
          cases secondOk : t₂.ret.isSuccess with
          | false => exact .inl (.secondFault crosses first firstOk second secondOk)
          | true => exact .inr (.inr ⟨t, t₂, crosses, first, firstOk, second, secondOk⟩)

theorem Unserved.read (stops : Unserved c .load addr n) (p q : ReadPiece) :
    readPieces p c addr n = readPieces q c addr n := by
  unfold readPieces
  cases stops with
  | error first => simp [first, bind, Except.bind]
  | fault first failed => simp [first, failed, bind, Except.bind]
  | secondError crosses first firstOk second =>
    rw [secondAddr] at second
    simp [crosses, first, firstOk, second, bind, Except.bind]
  | secondFault crosses first firstOk second failed =>
    rw [secondAddr] at second
    simp [crosses, first, firstOk, second, failed, bind, Except.bind]

theorem Unserved.write (stops : Unserved c .store addr n) (p q : WritePiece) :
    writePieces p c addr n val = writePieces q c addr n val := by
  unfold writePieces
  cases stops with
  | error first => simp [first, bind, Except.bind]
  | fault first failed => simp [first, failed, bind, Except.bind]
  | secondError crosses first firstOk second =>
    rw [secondAddr] at second
    simp [crosses, first, firstOk, second, bind, Except.bind]
  | secondFault crosses first firstOk second failed =>
    rw [secondAddr] at second
    simp [crosses, first, firstOk, second, failed, bind, Except.bind]

/-! ## Reads -/

/-- A piece as it is read and with all its bytes: they differ in the value of a lost one. -/
theorem readPhys_cases (bus : Bus) (pa : Word) (ram : RamOk c) (small : n ≤ 8) :
    (claimed bus c.hart.memsize pa n = false ∧ readPhys bus c pa n = .ok none ∧ readAll bus c pa n = .ok none) ∨
    (claimed bus c.hart.memsize pa n = true ∧ ∃ v c', readPhys bus c pa n = .ok (some (v, c')) ∧ RamOk c' ∧
      c'.hart.memsize = c.hart.memsize ∧ c'.mmap = c.mmap ∧ (Lost c pa n → v = 0) ∧
      readAll bus c pa n = .ok (some (if Lost c pa n then c.mmap.ramBytes pa n else v, c'))) := by
  by_cases lost : Lost c pa n
  · refine .inr ⟨by simp [claimed, lost.1], 0, c, readPhys_lost ram small lost, ram, rfl, rfl, fun _ => rfl, ?_⟩
    rw [readAll, if_pos lost.1, if_pos lost]
  · rw [readAll_eq ram small lost]
    cases inside : inDram c.hart.memsize pa n with
    | true =>
      refine .inr ⟨by simp [claimed, inside], _, c, readPhys_bytes ram small inside, ram, rfl, rfl,
        fun yes => absurd yes lost, ?_⟩
      rw [if_neg lost]
      exact readPhys_bytes ram small inside
    | false =>
      cases found : bus.find pa n with
      | none => exact .inl (by simp [claimed, readPhys, inside, found])
      | some dev =>
        have served := bus.readServed dev pa n (c.record ⟨dev, pa, n, none⟩)
        have memory := bus.readMemory dev pa n (c.record ⟨dev, pa, n, none⟩)
        have memsize : (bus.read dev pa n (c.record ⟨dev, pa, n, none⟩)).2.hart.memsize = c.hart.memsize := by
          rw [served.hart]
          rfl
        refine .inr ⟨by simp [claimed, found], (bus.read dev pa n (c.record ⟨dev, pa, n, none⟩)).1, _, ?_, ?_,
          memsize, memory, fun yes => absurd yes lost, ?_⟩
        · simp [readPhys, inside, found]
        · obtain ⟨i, r, ramAt⟩ := ram
          refine ⟨i, r, ?_⟩
          rw [memory, memsize]
          exact ramAt
        · rw [if_neg lost]
          simp [readPhys, inside, found]

theorem ramBytes_high (m : MemoryMap) {b : Nat} (high : 8 * n ≤ b) : (m.ramBytes pa n).getLsbD b = false := by
  by_cases inside : b < 64
  · rw [MemoryMap.ramBytes, getLsbD_loadLE _ _ _ _ inside]
    simp [Nat.not_lt.mpr high]
  · exact BitVec.getLsbD_of_ge _ _ (Nat.le_of_not_lt inside)

/-- The word that a split read delivers lacks bytes: a lost piece of RAM is not zero, and its bits are not there
    already. -/
def LosesRead (bus : Bus) (c : Core) (addr : Word) (n : Nat) : Prop :=
  ∃ t₁ t₂ low c₁, Split c .load addr n t₁ t₂ ∧
    readPhys bus t₂.core t₁.pa (firstSize addr) = .ok (some (low, c₁)) ∧
    claimed bus c.hart.memsize t₂.pa (n - firstSize addr) = true ∧
    ((Lost t₂.core t₁.pa (firstSize addr) ∧ t₂.core.mmap.ramBytes t₁.pa (firstSize addr) ≠ 0) ∨
      (Lost t₂.core t₂.pa (n - firstSize addr) ∧
        low ||| (t₂.core.mmap.ramBytes t₂.pa (n - firstSize addr) <<< (firstSize addr * 8)) ≠ low))

section Bits

variable {low high r₁ r₂ : Word} {k m : Nat} {lost₁ lost₂ : Prop} [Decidable lost₁] [Decidable lost₂]

/-- Two pieces put together, one or both of them lost: no bit shows it. -/
theorem merged_of_kept (zero₁ : lost₁ → low = 0) (zero₂ : lost₂ → high = 0)
    (kept : ¬ ((lost₁ ∧ r₁ ≠ 0) ∨ (lost₂ ∧ low ||| (r₂ <<< (k * 8)) ≠ low))) :
    (if lost₁ then r₁ else low) ||| ((if lost₂ then r₂ else high) <<< (k * 8)) = low ||| (high <<< (k * 8)) := by
  rw [not_or, not_and, not_and, not_not, not_not] at kept
  by_cases lost : lost₁ <;> by_cases lostToo : lost₂
  · have same := kept.2 lostToo
    simp_all
  · simp_all
  · have same := kept.2 lostToo
    simp_all
  · simp [lost, lostToo]

/-- Or one of the bits that were asked for does. -/
theorem merged_of_lost (short₁ : ∀ b, 8 * k ≤ b → r₁.getLsbD b = false) (short₂ : ∀ b, 8 * m ≤ b → r₂.getLsbD b = false)
    (zero₁ : lost₁ → low = 0) (zero₂ : lost₂ → high = 0)
    (loses : (lost₁ ∧ r₁ ≠ 0) ∨ (lost₂ ∧ low ||| (r₂ <<< (k * 8)) ≠ low)) :
    ((if lost₁ then r₁ else low) ||| ((if lost₂ then r₂ else high) <<< (k * 8))).extractLsb' 0 (8 * (k + m)) ≠
      (low ||| (high <<< (k * 8))).extractLsb' 0 (8 * (k + m)) := by
  intro same
  have bits (b : Nat) (below : b < 8 * (k + m)) := congrArg (BitVec.getLsbD · b) same
  simp only [BitVec.getLsbD_extractLsb', Nat.zero_add, BitVec.getLsbD_or, BitVec.getLsbD_shiftLeft] at bits
  rcases loses with ⟨lost, nonzero⟩ | ⟨lost, more⟩
  · refine nonzero (BitVec.eq_of_getLsbD_eq fun b inside => ?_)
    by_cases high : 8 * k ≤ b
    · simpa using short₁ b high
    · have bit := bits b (by omega)
      have early : b < k * 8 := by omega
      simpa [lost, zero₁ lost, early, show b < 8 * (k + m) by omega] using bit
  · refine more (BitVec.eq_of_getLsbD_eq fun b inside => ?_)
    rw [BitVec.getLsbD_or, BitVec.getLsbD_shiftLeft]
    by_cases early : b < k * 8
    · simp [early]
    · by_cases late : 8 * (k + m) ≤ b
      · simp [short₂ (b - k * 8) (by omega)]
      · have bit := bits b (by omega)
        by_cases lostToo : lost₁
        · simp only [lost, lostToo, zero₂ lost, zero₁ lostToo, short₁ b (by omega), if_true] at bit ⊢
          simpa [early, late, show b < 8 * (k + m) by omega, inside] using bit
        · simp only [lost, lostToo, zero₂ lost, if_true, if_false] at bit
          simpa [early, late, show b < 8 * (k + m) by omega, inside] using bit

end Bits

theorem Unserved.not_split (stops : Unserved c type addr n) : ¬ Split c type addr n t₁ t₂ := by
  intro split
  cases stops with
  | error first => exact nomatch first.symm.trans split.first
  | fault first failed =>
    cases first.symm.trans split.first
    exact nomatch failed.symm.trans split.firstOk
  | secondError crosses first firstOk second =>
    cases first.symm.trans split.first
    exact nomatch second.symm.trans split.second
  | secondFault crosses first firstOk second failed =>
    cases first.symm.trans split.first
    cases second.symm.trans split.second
    exact nomatch failed.symm.trans split.secondOk

theorem Split.unique {u₁ u₂ : Translation} (split : Split c type addr n t₁ t₂) (other : Split c type addr n u₁ u₂) :
    u₁ = t₁ ∧ u₂ = t₂ := by
  cases split.first.symm.trans other.first
  cases split.second.symm.trans other.second
  exact ⟨rfl, rfl⟩

/-- A read is that of all its bytes, or it loses some that the program asked for. -/
theorem wholeRead_cases (bus : Bus) (addr : Word) (ram : RamOk c) (size : n ∈ dramSizes) :
    (¬ LosesRead bus c addr n ∧ wholeRead bus c addr n = mmioRead bus c addr n) ∨
    (LosesRead bus c addr n ∧ ∃ v v' c', mmioRead bus c addr n = .ok { ret := {}, val := v, core := c' } ∧
      wholeRead bus c addr n = .ok { ret := {}, val := v', core := c' } ∧
      v'.extractLsb' 0 (8 * n) ≠ v.extractLsb' 0 (8 * n)) := by
  have small := (small_of_dramSizes size).2
  rcases access_cases c .load addr n with stops | ⟨t, page⟩ | ⟨t₁, t₂, split⟩
  · refine .inl ⟨?_, stops.read _ _⟩
    rintro ⟨t₁, t₂, low, c₁, split, -⟩
    exact stops.not_split split
  · refine .inl ⟨?_, ?_⟩
    · rintro ⟨t₁, t₂, low, c₁, split, -⟩
      exact Bool.noConfusion (page.whole.symm.trans split.crosses)
    · rw [wholeRead, mmioRead, page.read, page.read, readAll_eq ((translate_translated page.first).ramOk ram) small
        fun lost => lost.2 size]
  · obtain ⟨positive, shorter⟩ := firstSize_lt small split.crosses
    have ram₂ := split.translated.ramOk ram
    have memsize := split.translated.memsize
    rw [wholeRead, mmioRead, split.read, split.read]
    rcases readPhys_cases bus t₁.pa ram₂ (Nat.le_trans shorter.le small) with
      ⟨-, nobody, nobodyAll⟩ | ⟨-, low, c₁, read₁, ram₁, memsize₁, memory₁, zero₁, all₁⟩
    · refine .inl ⟨?_, by rw [nobody, nobodyAll]; rfl⟩
      rintro ⟨u₁, u₂, low, c₁, other, read, -⟩
      obtain ⟨rfl, rfl⟩ := split.unique other
      cases nobody.symm.trans read
    · have here : LosesRead bus c addr n ↔ claimed bus c₁.hart.memsize t₂.pa (n - firstSize addr) = true ∧
          ((Lost t₂.core t₁.pa (firstSize addr) ∧ t₂.core.mmap.ramBytes t₁.pa (firstSize addr) ≠ 0) ∨
          (Lost c₁ t₂.pa (n - firstSize addr) ∧
            low ||| (c₁.mmap.ramBytes t₂.pa (n - firstSize addr) <<< (firstSize addr * 8)) ≠ low)) := by
        rw [Lost, Lost, memsize₁, memory₁, memsize]
        constructor
        · rintro ⟨u₁, u₂, low', c₁', other, read, claimed, loses⟩
          obtain ⟨rfl, rfl⟩ := split.unique other
          cases read₁.symm.trans read
          rw [Lost, Lost, memsize] at loses
          exact ⟨claimed, loses⟩
        · rintro ⟨claimed, loses⟩
          refine ⟨t₁, t₂, low, c₁, split, read₁, claimed, ?_⟩
          rw [Lost, Lost, memsize]
          exact loses
      rcases readPhys_cases bus t₂.pa ram₁ (Nat.le_trans (Nat.sub_le n (firstSize addr)) small) with
        ⟨unclaimed, nobody, nobodyAll⟩ | ⟨claimed, high, c₂, read₂, -, -, -, zero₂, all₂⟩
      · refine .inl ⟨fun loses => Bool.eq_false_iff.mp unclaimed (here.mp loses).1, ?_⟩
        rw [read₁, all₁]
        simp only [Except.bind, nobody, nobodyAll, Except.map]
      · rw [read₁, all₁]
        simp only [Except.bind, read₂, all₂, Except.map]
        by_cases loses : LosesRead bus c addr n
        · refine .inr ⟨loses, _, _, c₂, rfl, rfl, ?_⟩
          have differ := merged_of_lost (m := n - firstSize addr) (fun b late => ramBytes_high _ late)
            (fun b late => ramBytes_high _ late) zero₁ zero₂ (here.mp loses).2
          rwa [Nat.add_sub_cancel' shorter.le] at differ
        · refine .inl ⟨loses, ?_⟩
          rw [merged_of_kept zero₁ zero₂ fun lost => loses (here.mpr ⟨claimed, lost⟩)]

/-! ## Writes -/

/-- What a write of two pieces misses, with `c` before the first and `c₁` after it: the bytes of a lost piece, unless
    they are in RAM already. After a lost first piece a device may serve the second: then it has to tell the two
    memories apart. -/
def Misses (bus : Bus) (c c₁ : Core) (p₁ : Word) (n₁ : Nat) (v₁ p₂ : Word) (n₂ : Nat) (v₂ : Word) : Prop :=
  let filled := { c₁ with mmap := c₁.mmap.setRam p₁ n₁ v₁ }
  (Lost c p₁ n₁ ∧ if inDram c.hart.memsize p₂ n₂ then filled ≠ c₁
    else writePhys bus filled p₂ n₂ v₂ ≠ writePhys bus c₁ p₂ n₂ v₂) ∨
  (Lost c p₂ n₂ ∧ c₁.mmap.setRam p₂ n₂ v₂ ≠ c₁.mmap)

/-- A split write misses bytes. -/
def LosesWrite (bus : Bus) (c : Core) (addr : Word) (n : Nat) (val : Word) : Prop :=
  ∃ t₁ t₂ c₁, Split c .store addr n t₁ t₂ ∧
    writePhys bus t₂.core t₁.pa (firstSize addr) (firstVal addr val) = .ok (some c₁) ∧
    claimed bus c.hart.memsize t₂.pa (n - firstSize addr) = true ∧
    Misses bus t₂.core c₁ t₁.pa (firstSize addr) (firstVal addr val) t₂.pa (n - firstSize addr) (secondVal addr val)

theorem LosesWrite.sizes (loses : LosesWrite bus c addr n val) :
    firstSize addr ∉ dramSizes ∨ n - firstSize addr ∉ dramSizes := by
  obtain ⟨t₁, t₂, c₁, -, -, -, first | second⟩ := loses
  · exact .inl first.1.2
  · exact .inr second.1.2

section Memories

variable {m : MemoryMap} {memsize p₁ p₂ v₁ v₂ : Word} {i n₁ n₂ : Nat} {r : MemoryRegion} {data : Nat → Byte}
  {o₁ o₂ : Nat}

theorem storeLE_shown (apart : o₁ + n₁ ≤ o₂ ∨ o₂ + n₂ ≤ o₁)
    (same : storeLE (storeLE data o₁ n₁ v₁) o₂ n₂ v₂ = storeLE data o₂ n₂ v₂) : storeLE data o₁ n₁ v₁ = data := by
  funext k
  by_cases window : o₁ ≤ k ∧ k < o₁ + n₁
  · have outside : k < o₂ ∨ o₂ + n₂ ≤ k := by omega
    have byte := congrFun same k
    rwa [storeLE_outside (storeLE data o₁ n₁ v₁) v₂ outside, storeLE_outside data v₂ outside] at byte
  · exact storeLE_outside _ _ (by omega)

theorem storeLE_twice : storeLE (storeLE data o₁ n₁ v₁) o₁ n₁ v₁ = storeLE data o₁ n₁ v₁ := by
  funext k
  simp only [storeLE]
  split <;> rfl

theorem RamAt.setRam (ramAt : RamAt m memsize i r) (pa : Word) (n : Nat) (val : Word) :
    RamAt (m.setRam pa n val) memsize i { r with data := storeLE r.data (pa - dramBase).toNat n val } := by
  rw [setRam_eq ramAt]
  exact ramAt.setData _

theorem RamAt.data_eq {s : MemoryRegion} (ramAt : RamAt m memsize i r) (other : RamAt m memsize i s) :
    s.data = r.data := by
  have region := other.region
  rw [ramAt.region] at region
  exact (congrArg MemoryRegion.data (Option.some.inj region)).symm

theorem setRam_self (ramAt : RamAt m memsize i r) (same : storeLE r.data (pa - dramBase).toNat n val = r.data) :
    m.setRam pa n val = m := by
  rw [setRam_eq ramAt, same]
  exact MemoryMap.setData_self ramAt.region

/-- Two pieces of RAM that are apart: what the second one leaves of the first. -/
theorem setRam_apart {known : Prop} [Decidable known] (ramAt : RamAt m memsize i r)
    (apart : (p₁ - dramBase).toNat + n₁ ≤ (p₂ - dramBase).toNat ∨ (p₂ - dramBase).toNat + n₂ ≤ (p₁ - dramBase).toNat) :
    (m.setRam p₁ n₁ v₁).setRam p₂ n₂ v₂ = (if known then m.setRam p₂ n₂ v₂ else m) ↔
      m.setRam p₁ n₁ v₁ = m ∧ (¬ known → m.setRam p₂ n₂ v₂ = m) := by
  constructor
  · intro same
    have both := (ramAt.setRam p₁ n₁ v₁).setRam p₂ n₂ v₂
    rw [same] at both
    by_cases k : known
    · rw [if_pos k] at both
      have data := (ramAt.setRam p₂ n₂ v₂).data_eq both
      exact ⟨setRam_self ramAt (storeLE_shown apart data), fun unknown => absurd k unknown⟩
    · rw [if_neg k] at both
      have data := ramAt.data_eq both
      dsimp only at data
      -- writing the second piece once more changes nothing
      have second : storeLE r.data (p₂ - dramBase).toNat n₂ v₂ = r.data := by
        rw [← data, storeLE_twice]
      exact ⟨setRam_self ramAt (storeLE_shown apart (data.trans second.symm)), fun _ => setRam_self ramAt second⟩
  · rintro ⟨first, second⟩
    rw [first]
    split
    case isTrue => rfl
    case isFalse unknown => exact second unknown

end Memories

theorem Split.apart (split : Split c type addr n t₁ t₂) (gen : c.hart.tlb.GenOk) (shapes : ShapeOk c) (small : n ≤ 8)
    (ram : RamOk c) (inside₁ : inDram c.hart.memsize t₁.pa (firstSize addr) = true)
    (inside₂ : inDram c.hart.memsize t₂.pa (n - firstSize addr) = true) :
    (t₁.pa - dramBase).toNat + firstSize addr ≤ (t₂.pa - dramBase).toNat ∨
      (t₂.pa - dramBase).toNat + (n - firstSize addr) ≤ (t₁.pa - dramBase).toNat := by
  obtain ⟨i, r, ramAt⟩ := ram
  obtain ⟨positive, shorter⟩ := firstSize_lt small split.crosses
  obtain ⟨high₁, low₁⟩ := (inDram_iff ramAt.fits (by omega)).mp inside₁
  obtain ⟨high₂, low₂⟩ := (inDram_iff ramAt.fits (by omega)).mp inside₂
  have base : dramBase.toNat = 0x80000000 := rfl
  have offset₁ := translate_offset shapes split.first split.firstOk
  have offset₂ := translate_offset ((translate_effect split.first).shapeOk gen shapes) split.second split.secondOk
  have size := firstSize_eq addr
  rw [secondAddr_offset] at offset₂
  rw [sub_dramBase high₁, sub_dramBase high₂]
  omega

theorem wholeWrite_eq (same : writePieces (writeAll bus) c addr n val = mmioWrite bus c addr n val) :
    wholeWrite bus c addr n val = mmioWrite bus c addr n val := by
  rw [wholeWrite, same]
  cases mmioWrite bus c addr n val with
  | error e => rfl
  | ok a =>
    simp only [bind, Except.bind]
    split <;> rfl

theorem wholeWrite_trapped {a : Access} (wrote : mmioWrite bus c addr n val = .ok a)
    (trapped : a.ret.isSuccess = false) :
    wholeWrite bus c addr n val = mmioWrite bus c addr n val := by
  rw [wholeWrite, wrote]
  simp only [bind, Except.bind, trapped, Bool.false_eq_true, if_false]
  rfl

theorem wholeWrite_done {a : Access} (wrote : mmioWrite bus c addr n val = .ok a) (done : a.ret.isSuccess = true) :
    wholeWrite bus c addr n val = writePieces (writeAll bus) c addr n val := by
  rw [wholeWrite, wrote]
  simp only [bind, Except.bind, done, if_true]

/-- The second piece on a machine with another memory, in RAM or at a device. -/
theorem second_piece {d : Core} {m : MemoryMap} (ram : RamOk d) (small : n ≤ 8)
    (apart : inDram d.hart.memsize pa n = true → ∀ {known : Prop} [Decidable known],
      m.setRam pa n val = (if known then d.mmap.setRam pa n val else d.mmap) ↔
        m = d.mmap ∧ (¬ known → d.mmap.setRam pa n val = d.mmap))
    (wrote : writePhys bus d pa n val = .ok (some c')) :
    ∃ c'', writeAll bus { d with mmap := m } pa n val = .ok (some c'') ∧
      c''.hart.pc = c'.hart.pc ∧ c''.hart.gpr = c'.hart.gpr ∧
      (c'' = c' ↔ ¬ ((if inDram d.hart.memsize pa n then { d with mmap := m } ≠ d
          else writePhys bus { d with mmap := m } pa n val ≠ writePhys bus d pa n val) ∨
        (Lost d pa n ∧ d.mmap.setRam pa n val ≠ d.mmap))) := by
  cases inside : inDram d.hart.memsize pa n with
  | true =>
    rw [writePhys_ram ram small inside, Except.ok.injEq, Option.some.injEq] at wrote
    subst wrote
    refine ⟨_, writeAll_ram (c := { d with mmap := m }) inside, rfl, rfl, ?_⟩
    have memory : ({ passedOver { d with mmap := m } pa with mmap := m.setRam pa n val } =
        { passedOver d pa with mmap := if n ∈ dramSizes then d.mmap.setRam pa n val else d.mmap }) ↔
          m.setRam pa n val = if n ∈ dramSizes then d.mmap.setRam pa n val else d.mmap :=
      ⟨congrArg Core.mmap, fun same => by rw [same]; rfl⟩
    have filled : { d with mmap := m } = d ↔ m = d.mmap := ⟨congrArg Core.mmap, fun same => by rw [same]⟩
    rw [memory, apart inside, if_pos rfl, Lost, ne_eq, filled]
    simp only [inside, true_and, not_or, not_and, not_not, ne_eq]
  | false =>
    have outside : inDram ({ d with mmap := m } : Core).hart.memsize pa n = false := inside
    have yes := claimed_of_writePhys wrote
    rw [claimed, inside, Bool.false_or] at yes
    obtain ⟨dev, found⟩ := Option.isSome_iff_exists.mp yes
    have all : writeAll bus { d with mmap := m } pa n val = writePhys bus { d with mmap := m } pa n val := by
      simp only [writeAll, writePhys, outside, Bool.false_eq_true, if_false]
      rfl
    have here : writePhys bus d pa n val = _ := writePhys_device inside found
    have there : writePhys bus { d with mmap := m } pa n val = _ := writePhys_device outside found
    rw [wrote, Except.ok.injEq, Option.some.injEq] at here
    have served := (bus.writeServed dev pa n val ((checked d pa).record ⟨dev, pa, n, some val⟩)).hart
    have served' := (bus.writeServed dev pa n val
      ((checked { d with mmap := m } pa).record ⟨dev, pa, n, some val⟩)).hart
    refine ⟨_, all.trans there, ?_, ?_, ?_⟩
    · rw [here, served, served']
      rfl
    · rw [here, served, served']
      rfl
    · rw [if_neg (by decide), wrote, there, Lost, inside]
      simp

/-- Both pieces, as they are written and with all their bytes. -/
theorem both_pieces {p₁ p₂ v₁ v₂ : Word} {n₁ n₂ : Nat} {c₂ : Core} (ram : RamOk c) (small₁ : n₁ ≤ 8) (small₂ : n₂ ≤ 8)
    (apart : inDram c.hart.memsize p₁ n₁ = true → inDram c.hart.memsize p₂ n₂ = true →
      (p₁ - dramBase).toNat + n₁ ≤ (p₂ - dramBase).toNat ∨ (p₂ - dramBase).toNat + n₂ ≤ (p₁ - dramBase).toNat)
    (wrote₁ : writePhys bus c p₁ n₁ v₁ = .ok (some c₁)) (wrote₂ : writePhys bus c₁ p₂ n₂ v₂ = .ok (some c₂)) :
    ∃ c₁' c₂', writeAll bus c p₁ n₁ v₁ = .ok (some c₁') ∧ writeAll bus c₁' p₂ n₂ v₂ = .ok (some c₂') ∧
      c₂'.hart.pc = c₂.hart.pc ∧ c₂'.hart.gpr = c₂.hart.gpr ∧
      (c₂' = c₂ ↔ ¬ Misses bus c c₁ p₁ n₁ v₁ p₂ n₂ v₂) := by
  obtain ⟨ram₁, memsize⟩ := writePhys_ramOk ram small₁ wrote₁
  unfold Misses
  rw [show Lost c p₂ n₂ = Lost c₁ p₂ n₂ by rw [Lost, Lost, memsize]]
  by_cases lost : Lost c p₁ n₁
  · have passed : passedOver c p₁ = c₁ := by
      rw [writePhys_ram ram small₁ lost.1, if_neg lost.2] at wrote₁
      exact Option.some.inj (Except.ok.inj wrote₁)
    obtain ⟨c₂', all₂, pc, gpr, same⟩ := second_piece (m := c₁.mmap.setRam p₁ n₁ v₁) ram₁ small₂ (fun inside _ _ => by
      obtain ⟨i, r, ramAt⟩ := ram₁
      exact setRam_apart ramAt (apart lost.1 (memsize ▸ inside))) wrote₂
    refine ⟨_, c₂', writeAll_ram lost.1, ?_, pc, gpr, ?_⟩
    · rw [← all₂, ← passed]
      rfl
    · rw [same]
      simp only [lost, true_and, memsize]
  · have first : writeAll bus c p₁ n₁ v₁ = .ok (some c₁) := (writeAll_eq ram small₁ lost).trans wrote₁
    by_cases lostToo : Lost c₁ p₂ n₂
    · have passed : passedOver c₁ p₂ = c₂ := by
        rw [writePhys_ram ram₁ small₂ lostToo.1, if_neg lostToo.2] at wrote₂
        exact Option.some.inj (Except.ok.inj wrote₂)
      subst passed
      refine ⟨c₁, _, first, writeAll_ram lostToo.1, rfl, rfl, ?_⟩
      simp only [lost, lostToo, false_and, false_or, true_and, ne_eq, not_not]
      exact ⟨congrArg Core.mmap, fun same => by rw [same]; rfl⟩
    · exact ⟨c₁, c₂, first, (writeAll_eq ram₁ small₂ lostToo).trans wrote₂, rfl, rfl, by simp [lost, lostToo]⟩

/-- A write is that of all its bytes, or it leaves out some that are not there already. -/
theorem wholeWrite_cases (bus : Bus) (addr val : Word) (gen : c.hart.tlb.GenOk) (shapes : ShapeOk c) (ram : RamOk c)
    (size : n ∈ dramSizes) :
    (¬ LosesWrite bus c addr n val ∧ wholeWrite bus c addr n val = mmioWrite bus c addr n val) ∨
    (LosesWrite bus c addr n val ∧ ∃ c' c'', mmioWrite bus c addr n val = .ok { ret := {}, core := c' } ∧
      wholeWrite bus c addr n val = .ok { ret := {}, core := c'' } ∧ c''.hart.pc = c'.hart.pc ∧
      c''.hart.gpr = c'.hart.gpr ∧ c'' ≠ c') := by
  have small := (small_of_dramSizes size).2
  rcases access_cases c .store addr n with stops | ⟨t, page⟩ | ⟨t₁, t₂, split⟩
  · refine .inl ⟨?_, wholeWrite_eq (stops.write _ _)⟩
    rintro ⟨t₁, t₂, c₁, split, -⟩
    exact stops.not_split split
  · refine .inl ⟨?_, wholeWrite_eq ?_⟩
    · rintro ⟨t₁, t₂, c₁, split, -⟩
      exact Bool.noConfusion (page.whole.symm.trans split.crosses)
    · rw [mmioWrite, page.write, page.write, writeAll_eq ((translate_translated page.first).ramOk ram) small
        fun lost => lost.2 size]
  · obtain ⟨positive, shorter⟩ := firstSize_lt small split.crosses
    have small₁ : firstSize addr ≤ 8 := by omega
    have small₂ : n - firstSize addr ≤ 8 := by omega
    have ram₂ := split.translated.ramOk ram
    have memsize := split.translated.memsize
    have wrote : mmioWrite bus c addr n val = _ := split.write (writePhys bus)
    rcases writePhys_cases bus t₁.pa (firstVal addr val) ram₂ small₁ with nobody | ⟨c₁, wrote₁⟩
    · rw [nobody] at wrote
      refine .inl ⟨?_, wholeWrite_trapped wrote rfl⟩
      rintro ⟨u₁, u₂, c₁, other, some₁, -⟩
      obtain ⟨rfl, rfl⟩ := split.unique other
      cases nobody.symm.trans some₁
    · obtain ⟨ram₁, memsize₁⟩ := writePhys_ramOk ram₂ small₁ wrote₁
      have here : LosesWrite bus c addr n val ↔ claimed bus c₁.hart.memsize t₂.pa (n - firstSize addr) = true ∧
          Misses bus t₂.core c₁ t₁.pa (firstSize addr) (firstVal addr val) t₂.pa (n - firstSize addr)
            (secondVal addr val) := by
        rw [memsize₁, memsize]
        constructor
        · rintro ⟨u₁, u₂, c₁', other, some₁, loses⟩
          obtain ⟨rfl, rfl⟩ := split.unique other
          cases wrote₁.symm.trans some₁
          exact loses
        · exact fun loses => ⟨t₁, t₂, c₁, split, wrote₁, loses⟩
      rw [wrote₁] at wrote
      simp only [Except.bind] at wrote
      rcases writePhys_cases bus t₂.pa (secondVal addr val) ram₁ small₂ with nobody | ⟨c₂, wrote₂⟩
      · rw [nobody] at wrote
        have unclaimed := unclaimed_of_writePhys nobody
        exact .inl ⟨fun loses => Bool.eq_false_iff.mp unclaimed (here.mp loses).1, wholeWrite_trapped wrote rfl⟩
      · obtain ⟨c₁', c₂', all₁, all₂, pc, gpr, same⟩ := both_pieces ram₂ small₁ small₂
          (fun inside₁ inside₂ => split.apart gen shapes small ram (memsize ▸ inside₁) (memsize ▸ inside₂)) wrote₁
          wrote₂
        rw [wrote₂] at wrote
        have all : wholeWrite bus c addr n val = .ok { ret := {}, core := c₂' } := by
          rw [wholeWrite_done wrote rfl, split.write, all₁]
          simp only [Except.bind, all₂, Except.map]
        by_cases loses : LosesWrite bus c addr n val
        · exact .inr ⟨loses, c₂, c₂', wrote, all, pc, gpr, fun eq => same.mp eq (here.mp loses).2⟩
        · refine .inl ⟨loses, ?_⟩
          rw [all, wrote, same.mpr fun misses => loses (here.mpr ⟨claimed_of_writePhys wrote₂, misses⟩)]
          rfl

end Rv64Vm
