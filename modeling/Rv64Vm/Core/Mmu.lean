import Rv64Vm.Core.Hart

/-! # Address translation

`translate` and the Sv39 walk `translateImpl` of `mmu.inl`. The walk is a
structural recursion over the page-table level; next to its outcome it returns
the physical addresses of the page-table entries it read, in order.
-/

namespace Rv64Vm

open Lib

def pageSize : Word := 4096#64

/-- Bytes of an Sv39 page-table entry. -/
def pteSize : Nat := 8

/-- The range check in front of both direct accesses to a page-table entry. -/
def pteDirect (ram : MemoryRegion) (addr : Word) : Bool :=
  ram.baseAddr ≤ addr && addr - ram.baseAddr ≤ ram.size - 64#64

/-- Fetch a page-table entry: straight from RAM, or through `load`. -/
def loadPte (m : MemoryMap) (addr : Word) : Except HostError Word :=
  match m.getRamDirect with
  | none => .error .undefinedBehaviour
  | some ram =>
    if pteDirect ram addr then ram.read (addr - ram.baseAddr).toNat pteSize
    else m.load addr 64

/-- Write back a page-table entry under the same check. -/
def storePte (m : MemoryMap) (addr pte : Word) : Except HostError MemoryMap :=
  match m.ramDirect, m.getRamDirect with
  | some i, some ram =>
    if pteDirect ram addr then
      let off := (addr - ram.baseAddr).toNat
      if off + pteSize ≤ ram.size.toNat then .ok (m.setData i (storeLE ram.data off pteSize pte))
      else .error .undefinedBehaviour
    else m.store addr 64 pte
  | _, _ => .error .undefinedBehaviour

inductive WalkEnd where
  | fault
  | leaf (addr pte : Word) (level : Nat)
  deriving DecidableEq, Repr

structure Walk where
  reads : List Word
  ending : WalkEnd
  deriving DecidableEq, Repr

/-- The walk loop from level `i` on, the table of that level based at `a`. -/
def walkLoop (m : MemoryMap) (va : Word) : Nat → Word → Except HostError Walk
  | i, a => do
      let addr := a + VirtualAddress.getVpn va i * 8#64
      let pte ← loadPte m addr
      if !Pte.v pte || (Pte.w pte && !Pte.r pte) then return ⟨[addr], .fault⟩
      else if Pte.r pte || Pte.x pte then return ⟨[addr], .leaf addr pte i⟩
      else
        match i with
        | 0 => return ⟨[addr], .fault⟩
        | i + 1 =>
          let rest ← walkLoop m va i (Pte.getSolidPpn pte * pageSize)
          return ⟨addr :: rest.reads, rest.ending⟩

/-- Is the leaf usable for this access: the privilege test, then R/W/X. -/
def leafAllowed (pte : Word) (type : AccessType) (mode : PrivilegeMode) (mxr sum : Bool) : Bool :=
  let byMode :=
    match mode with
    | .user => Pte.u pte
    | .supervisor => !(Pte.u pte && (type == .exec || !sum))
    | _ => true
  let byType :=
    match type with
    | .load => Pte.r pte || (Pte.x pte && mxr)
    | .store => Pte.w pte
    | .exec => Pte.x pte
  byMode && byType

/-- A superpage leaf whose low PPN bits are not zero. -/
def misaligned (pte : Word) (level : Nat) : Bool :=
  0 < level && Pte.getSolidPpn pte &&& lowMask 64 (level * 9) != 0#64

def needUpdate (pte : Word) (type : AccessType) : Bool :=
  !Pte.a pte || (type == .store && !Pte.d pte)

/-- The entry with its A bit, and for a store its D bit, set when needed. -/
def updatedPte (pte : Word) (type : AccessType) : Word :=
  if needUpdate pte type then
    if type = .store then Pte.setD (Pte.setA pte) else Pte.setA pte
  else pte

/-- TLB permission bits of a leaf. -/
def permOfPte (pte : Word) : BitVec 8 :=
  (if Pte.r pte then permR else 0) ||| (if Pte.w pte then permW else 0) |||
  (if Pte.x pte then permX else 0) ||| (if Pte.u pte then permU else 0) |||
  (if Pte.a pte then permA else 0) ||| (if Pte.d pte then permD else 0)

/-- Host address of the page at `base` if it lies in RAM as a whole, else 0. -/
def hostPage (m : MemoryMap) (base : Word) (bits : Nat) : Word :=
  match m.getRamDirect with
  | none => 0
  | some ram =>
    if ram.baseAddr ≤ base && base - ram.baseAddr + (1#64 <<< bits) ≤ ram.size then
      ram.host + (base - ram.baseAddr)
    else 0

/-- What a translation returns and leaves behind. -/
structure Translation where
  ret : MemoryReturn
  pa : Word
  core : Core
  reads : List Word := []

/-- The page fault of an access; `*pa` is cleared. -/
def pageFault (c : Core) (type : AccessType) (va : Word) (reads : List Word) : Translation :=
  ⟨⟨false, accessTypeToFault type, va⟩, 0, c, reads⟩

/-- The A/D write-back of the leaf at `addr`. -/
def updateLeaf (m : MemoryMap) (addr pte : Word) (type : AccessType) : Except HostError MemoryMap :=
  if needUpdate pte type then storePte m addr (updatedPte pte type) else .ok m

/-- Offset bits of a leaf at this level: 4 KiB, 2 MiB or 1 GiB pages. -/
def leafBits (level : Nat) : Nat := 12 + level * 9

def leafPa (va pte : Word) (level : Nat) : Word :=
  (Pte.getSolidPpn pte <<< 12) ||| (va &&& pageMask (leafBits level))

/-- W^X: executed pages, and the page being fetched from, are filled read-only. -/
def leafPerm (smc : SelfMod) (type : AccessType) (pa pte : Word) : BitVec 8 :=
  if smc.wasPageExecuted pa || type == .exec then stripWrite (permOfPte pte) else permOfPte pte

/-- The TLB after the walk, `pte` being the leaf with its A/D bits set. -/
def fillTlb (c : Core) (m : MemoryMap) (type : AccessType) (va pte : Word) (level : Nat) : Tlb :=
  let pa := leafPa va pte level
  let paAligned := pa &&& ~~~(pageMask (leafBits level))
  c.hart.tlb.insert c.smc va paAligned (leafBits level) (leafPerm c.smc type pa pte)
    (Satp.asid c.hart.satp) (Pte.g pte) (hostPage m paAligned (leafBits level))

/-- From the leaf on: checks, A/D update, TLB fill. -/
def finishWalk (c : Core) (type : AccessType) (va : Word) (reads : List Word)
    (addr pte : Word) (level : Nat) : Except HostError Translation := do
  let h := c.hart
  if misaligned pte level then return pageFault c type va reads
  else if !leafAllowed pte type (h.getEffectiveMode type) (Status.mxr h.status)
      (Status.sum h.status) then
    return pageFault c type va reads
  else
    let mmap ← updateLeaf c.mmap addr pte type
    let pte' := updatedPte pte type
    let tlb := fillTlb c mmap type va pte' level
    return ⟨⟨true, 0, 0⟩, leafPa va pte' level,
      { c with hart := { h with tlb := tlb }, mmap := mmap }, reads⟩

/-- The root table that a `satp` page number names. -/
def rootTable (ppn : BitVec 44) : Word := ppn.setWidth 64 * pageSize

/-- `translate_impl<Sv39>`. -/
def translateImpl (c : Core) (type : AccessType) (va : Word) : Except HostError Translation := do
  if !VirtualAddress.isValid va then return pageFault c type va []
  else
    let walk ← walkLoop c.mmap va 2 (rootTable (Satp.ppn c.hart.satp))
    match walk.ending with
    | .fault => return pageFault c type va walk.reads
    | .leaf addr pte level => finishWalk c type va walk.reads addr pte level

/-- The permissions that the identity branch seeds. -/
def identityPerm : BitVec 8 := permR ||| permW ||| permX ||| permU ||| permA ||| permD

/-- The TLB after the identity branch has seeded it. -/
def identityFill (c : Core) (va : Word) : Tlb :=
  let base := va &&& ~~~0xFFF#64
  let perm := if c.smc.wasPageExecuted va then stripWrite identityPerm else identityPerm
  c.hart.tlb.insert c.smc va base 12 perm (Satp.asid c.hart.satp) true (hostPage c.mmap base 12)

/-- Machine mode and Bare translation: identity, with the TLB seeded. -/
def translateIdentity (c : Core) (va : Word) : Translation :=
  ⟨⟨true, 0, 0⟩, va, { c with hart := { c.hart with tlb := identityFill c va } }, []⟩

/-- The condition of the identity branch. -/
def identityMapped (h : Hart) (type : AccessType) : Bool :=
  h.getEffectiveMode type == .machine || Satp.mode h.satp == satpModeBare

def translate (c : Core) (type : AccessType) (va : Word) : Except HostError Translation :=
  let h := c.hart
  if identityMapped h type then .ok (translateIdentity c va)
  else
    match h.tlb.lookup va type (Satp.asid h.satp) (h.getEffectiveMode type)
        (Status.mxr h.status) (Status.sum h.status) with
    | some pa => .ok ⟨⟨true, 0, 0⟩, pa, c, []⟩
    | none =>
      if Satp.mode h.satp = satpModeSv39 then translateImpl c type va
      else .error .logicError

/-! ## The host's memory

`add_writable` resizes the census of writable pages, which throws `std::bad_alloc` beyond what the host can give. The
census never shrinks, so a call that ends with `limit` cells or fewer, or with those it had, has asked for no more. -/

/-- `r` on a host that gives the census at most `limit` cells. -/
def hosted {α : Type} (limit : Nat) (before : Tlb) (after : α → Tlb) (r : Except HostError α) : Except HostError α :=
  r.bind fun a => if (after a).wWritable.size ≤ max before.wWritable.size limit then .ok a else .error .badAlloc

def translateImplWithin (limit : Nat) (c : Core) (type : AccessType) (va : Word) : Except HostError Translation :=
  hosted limit c.hart.tlb (·.core.hart.tlb) (translateImpl c type va)

def translateWithin (limit : Nat) (c : Core) (type : AccessType) (va : Word) : Except HostError Translation :=
  hosted limit c.hart.tlb (·.core.hart.tlb) (translate c type va)

end Rv64Vm
