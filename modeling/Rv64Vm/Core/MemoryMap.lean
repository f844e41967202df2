import Rv64Vm.Core.Types

/-! # Guest memory

`MemoryMap` is a list of regions and the index of the one that serves every
address from `0x80000000` up. A region is its guest base, its size, the host
address of its bytes and the bytes themselves. The exceptions of `find_region`
and `ptr`, and host accesses past the end of a region, are `HostError`s.
-/

namespace Rv64Vm

open Lib

/-- Guest addresses from here on are served by `ramDirect`. -/
def dramBase : Word := 0x80000000#64

structure MemoryRegion where
  baseAddr : Word
  size : Word
  /-- Host address of `data`. -/
  host : Word
  data : Nat → Byte := fun _ => 0

structure MemoryMap where
  regions : List MemoryRegion
  /-- Position of the RAM region in `regions`; `none` is the null pointer. -/
  ramDirect : Option Nat
  /-- `add_region` makes only regions based at `0x80000000` or above direct. -/
  ramHigh : ∀ i, ramDirect = some i → ∃ r, regions[i]? = some r ∧ dramBase ≤ r.baseAddr

namespace MemoryRegion

/-- Offset of `addr` in the region's bytes, as `ptr` checks it. -/
def ptr (region : MemoryRegion) (addr : Word) : Except HostError Nat :=
  if addr < region.baseAddr ∨ addr ≥ region.baseAddr + region.size then .error .outOfRange
  else .ok (addr - region.baseAddr).toNat

/-- Read `n` bytes at an offset; reading past the allocation is undefined. -/
def read (region : MemoryRegion) (off n : Nat) : Except HostError Word :=
  if off + n ≤ region.size.toNat then .ok (loadLE 64 (fun i => region.data (off + i)) n)
  else .error .undefinedBehaviour

end MemoryRegion

namespace MemoryMap

def empty : MemoryMap := ⟨[], none, by simp⟩

variable (m : MemoryMap)

/-- `add_region`; `host` is the address the allocation returned. -/
def addRegion (base size host : Word) : MemoryMap where
  regions := m.regions ++ [{ baseAddr := base, size := size, host := host }]
  ramDirect := if dramBase ≤ base then some m.regions.length else m.ramDirect
  ramHigh := by
    intro i direct
    split at direct
    · obtain rfl := Option.some.inj direct
      exact ⟨_, List.getElem?_concat_length, by assumption⟩
    · obtain ⟨r, found, high⟩ := m.ramHigh i direct
      have inside := (List.getElem?_eq_some_iff.mp found).1
      exact ⟨r, by rw [List.getElem?_append_left inside, found], high⟩

def getRamDirect : Option MemoryRegion := m.ramDirect.bind (m.regions[·]?)

/-- Position of the region that serves `addr`. -/
def findRegion (addr : Word) : Except HostError Nat :=
  if dramBase ≤ addr then
    match m.ramDirect with
    | some i => .ok i
    | none => .error .undefinedBehaviour
  else
    match m.regions.findIdx? (fun r => r.baseAddr ≤ addr && addr < r.baseAddr + r.size) with
    | some i => .ok i
    | none => .error .outOfRange

/-- Replace the bytes of region `i`. -/
def setData (i : Nat) (data : Nat → Byte) : MemoryMap where
  regions := m.regions.modify i (fun r => { r with data := data })
  ramDirect := m.ramDirect
  ramHigh := by
    intro k direct
    obtain ⟨r, found, high⟩ := m.ramHigh k direct
    refine ⟨if i = k then { r with data := data } else r, ?_, ?_⟩
    · rw [List.getElem?_modify, found]
      split <;> rfl
    · split <;> exact high

/-- The same regions at the same places; their bytes may differ. -/
def SameLayout (m m' : MemoryMap) : Prop :=
  m'.ramDirect = m.ramDirect ∧
    m'.regions.map (fun r => (r.baseAddr, r.size, r.host)) =
      m.regions.map (fun r => (r.baseAddr, r.size, r.host))

/-- The region that serves `addr`, its position, and the checked offset. -/
def resolve (addr : Word) : Except HostError (Nat × MemoryRegion × Nat) := do
  let i ← m.findRegion addr
  match m.regions[i]? with
  | none => .error .undefinedBehaviour
  | some r => .ok (i, r, ← r.ptr addr)

/-- `load(addr, size)`, `size` in bits. -/
def load (addr : Word) (size : Nat) : Except HostError Word := do
  let (_, r, off) ← m.resolve addr
  if size = 0 ∨ size > 64 ∨ size % 8 ≠ 0 then .error .invalidArgument
  else r.read off (size / 8)

/-- `store(addr, size, value)`, `size` in bits. -/
def store (addr : Word) (size : Nat) (value : Word) :
    Except HostError MemoryMap := do
  let (i, r, off) ← m.resolve addr
  if size = 0 ∨ size > 64 ∨ size % 8 ≠ 0 then .error .invalidArgument
  else if off + size / 8 ≤ r.size.toNat then .ok (m.setData i (storeLE r.data off (size / 8) value))
  else .error .undefinedBehaviour

end MemoryMap

end Rv64Vm
