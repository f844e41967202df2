import Rv64Vm.Core.Mmio
import Rv64Vm.Mmu.Frame

/-! # Physical fragments

The DRAM fast paths read and write the RAM region byte by byte as long as RAM
is where they assume it, and the fragment has a size they know. What one
physical fragment of an access does, and who claims it.
-/

namespace Rv64Vm

open Lib

variable {memsize pa : Word} {n i : Nat} {ram : MemoryRegion} {c : Core}

/-! ## RAM -/

/-- RAM is region `i`, based at `0x80000000`, with `memsize` bytes. -/
structure RamAt (m : MemoryMap) (memsize : Word) (i : Nat) (ram : MemoryRegion) : Prop where
  position : m.ramDirect = some i
  region : m.regions[i]? = some ram
  base : ram.baseAddr = dramBase
  size : ram.size = memsize
  fits : dramBase.toNat + memsize.toNat < 2 ^ 64

/-- The memory that a machine is built with. -/
def RamOk (c : Core) : Prop := ∃ i ram, RamAt c.mmap c.hart.memsize i ram

/-- The RAM byte at a physical address. -/
def MemoryMap.ramByte (m : MemoryMap) (pa : Word) : Byte :=
  (m.getRamDirect.map fun ram => ram.data (pa - dramBase).toNat).getD 0

namespace RamAt

variable {m m' : MemoryMap} {memsize : Word} {i : Nat} {ram : MemoryRegion}

variable (dram : RamAt m memsize i ram)

include dram

theorem direct : m.getRamDirect = some ram :=
  MemoryMap.getRamDirect_eq_some.mpr ⟨i, dram.position, dram.region⟩

theorem ramByte (pa : Word) : m.ramByte pa = ram.data (pa - dramBase).toNat := by
  rw [MemoryMap.ramByte, dram.direct]
  rfl

theorem setData (data : Nat → Byte) : RamAt (m.setData i data) memsize i { ram with data := data } where
  position := dram.position
  region := by rw [MemoryMap.setData_getElem?, dram.region]; simp
  base := dram.base
  size := dram.size
  fits := dram.fits

theorem sameLayout (layout : m.SameLayout m') : ∃ ram', RamAt m' memsize i ram' := by
  have regions := congrArg (fun l => l[i]?) layout.2
  simp only [List.getElem?_map, dram.region, Option.map_some] at regions
  cases found : m'.regions[i]? with
  | none => simp [found] at regions
  | some ram' =>
    simp only [found, Option.map_some, Option.some.injEq, Prod.mk.injEq] at regions
    exact ⟨ram', layout.1.trans dram.position, found, regions.1.trans dram.base,
      regions.2.1.trans dram.size, dram.fits⟩

end RamAt

theorem inDram_iff (fits : dramBase.toNat + memsize.toNat < 2 ^ 64) (small : n ≤ 8) : inDram memsize pa n = true ↔
      dramBase.toNat ≤ pa.toNat ∧ pa.toNat + n ≤ dramBase.toNat + memsize.toNat := by
  have base : dramBase.toNat = 0x80000000 := rfl
  have size : (BitVec.ofNat 64 n).toNat = n := toNat_ofNat_of_lt (by omega)
  have top : (dramBase + memsize - BitVec.ofNat 64 n).toNat = dramBase.toNat + memsize.toNat - n := by
    rw [BitVec.toNat_sub_of_le, BitVec.toNat_add, Nat.mod_eq_of_lt fits, size]
    rw [BitVec.le_def, BitVec.toNat_add, Nat.mod_eq_of_lt fits, size]
    omega
  simp only [inDram, Bool.and_eq_true, decide_eq_true_eq, BitVec.le_def, top]
  omega

theorem sub_dramBase (high : dramBase.toNat ≤ pa.toNat) : (pa - dramBase).toNat = pa.toNat - dramBase.toNat :=
  BitVec.toNat_sub_of_le high

namespace RamAt

variable {m : MemoryMap} (dram : RamAt m memsize i ram) (small : n ≤ 8) (inside : inDram memsize pa n = true)

include dram small inside

theorem within : (pa - dramBase).toNat + n ≤ ram.size.toNat := by
  obtain ⟨high, low⟩ := (inDram_iff dram.fits small).mp inside
  rw [sub_dramBase high, dram.size]
  omega

theorem ramByte_add {k : Nat} (lt : k < n) :
    m.ramByte (pa + BitVec.ofNat 64 k) = ram.data ((pa - dramBase).toNat + k) := by
  obtain ⟨high, low⟩ := (inDram_iff dram.fits small).mp inside
  have fits := dram.fits
  have sum : (pa + BitVec.ofNat 64 k).toNat = pa.toNat + k := toNat_add_ofNat (by omega)
  have place : (pa + BitVec.ofNat 64 k - dramBase).toNat = (pa - dramBase).toNat + k := by
    rw [sub_dramBase (by omega), sub_dramBase high, sum]
    omega
  rw [dram.ramByte, place]

theorem loadLE_eq : loadLE 64 (fun k => ram.data ((pa - dramBase).toNat + k)) n =
    loadLE 64 (fun k => m.ramByte (pa + BitVec.ofNat 64 k)) n :=
  loadLE_congr fun _ lt => (dram.ramByte_add small inside lt).symm

end RamAt

/-! ## The fast paths -/

theorem small_of_dramSizes (size : n ∈ dramSizes) : 0 < n ∧ n ≤ 8 := by
  simp only [dramSizes, List.mem_cons, List.not_mem_nil, or_false] at size
  omega

theorem readDramFast_eq {m : MemoryMap}
    (dram : RamAt m memsize i ram) (small : n ≤ 8) (inside : inDram memsize pa n = true) :
    readDramFast m pa n = .ok (if n ∈ dramSizes then
      loadLE 64 (fun k => m.ramByte (pa + BitVec.ofNat 64 k)) n else 0) := by
  simp only [readDramFast, dram.direct, MemoryRegion.read, dram.within small inside, if_true,
    dram.loadLE_eq small inside]
  split <;> rfl

/-- The core after a DRAM write: the page is checked for code, and the bytes are
    stored if the size is one of the four. -/
def dramWritten (c : Core) (i : Nat) (ram : MemoryRegion) (pa : Word) (n : Nat) (val : Word) : Core :=
  { c with
    smc := c.smc.smcStoreHit pa
    mmap := if n ∈ dramSizes then c.mmap.setData i (storeLE ram.data (pa - dramBase).toNat n val)
      else c.mmap }

theorem writeDramFast_eq (val : Word)
    (dram : RamAt c.mmap memsize i ram) (small : n ≤ 8) (inside : inDram memsize pa n = true) :
    writeDramFast c pa n val = .ok (dramWritten c i ram pa n val) := by
  simp only [writeDramFast, dram.position, dram.direct, dram.within small inside, if_true, dramWritten]
  split <;> rfl

/-- Byte by byte: inside the window the bytes of the value, outside the old ones. -/
theorem dramWritten_ramByte (val : Word)
    (dram : RamAt c.mmap memsize i ram) (small : n ≤ 8) (inside : inDram memsize pa n = true)
    (known : n ∈ dramSizes) (pa' : Word) : (dramWritten c i ram pa n val).mmap.ramByte pa' =
      if (pa' - pa).toNat < n then byteAt val (pa' - pa).toNat else c.mmap.ramByte pa' := by
  obtain ⟨high, low⟩ := (inDram_iff dram.fits small).mp inside
  have base : dramBase.toNat = 0x80000000 := rfl
  have fits := dram.fits
  rw [dramWritten, if_pos known, (dram.setData _).ramByte, dram.ramByte]
  have off := sub_dramBase high
  have off' : (pa' - dramBase).toNat = (pa'.toNat + (2 ^ 64 - dramBase.toNat)) % 2 ^ 64 := by
    rw [BitVec.toNat_sub, Nat.add_comm]
  have distance : (pa' - pa).toNat = (pa'.toNat + (2 ^ 64 - pa.toNat)) % 2 ^ 64 := by
    rw [BitVec.toNat_sub, Nat.add_comm]
  have bound := pa'.isLt
  simp only [storeLE]
  by_cases window : (pa' - pa).toNat < n
  · have inWindow : (pa - dramBase).toNat ≤ (pa' - dramBase).toNat ∧
        (pa' - dramBase).toNat < (pa - dramBase).toNat + n := by omega
    have same : (pa' - dramBase).toNat - (pa - dramBase).toNat = (pa' - pa).toNat := by omega
    rw [if_pos inWindow, if_pos window, same]
  · have outWindow : ¬((pa - dramBase).toNat ≤ (pa' - dramBase).toNat ∧
        (pa' - dramBase).toNat < (pa - dramBase).toNat + n) := by omega
    rw [if_neg outWindow, if_neg window]

end Rv64Vm
