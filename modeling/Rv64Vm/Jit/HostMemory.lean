import Rv64Vm.Lib.X86Run
import Rv64Vm.Mmu.PteAccess

/-! # Host memory as generated code sees it

Generated code reaches four C++ objects and guest RAM by address: the hart's
`JIT_HartContext`, its register file, its TLB entries, and the private link slots
of the running block. `Layout` gives their addresses; an access is resolved to the
object that holds it and to the field at its offset.
-/

namespace Rv64Vm.Jit

open Lib

/-- The fields of `JIT_HartContext` that generated code uses. -/
structure HartContext where
  regs : Word
  entryPc : Word
  exitPc : Word
  tlbEntries : Word
  tlbGen : Word
  satpAsid : BitVec 16
  chainEpoch : Word
  chainBudget : Word
  chainMode : Word
  deriving DecidableEq, Repr

/-! Field offsets of `JIT_HartContext` and of a TLB entry. -/

def ctxOffEntry : Nat := 32
def ctxOffExit : Nat := 40
def ctxOffTlbEntries : Nat := 64
def ctxOffTlbGen : Nat := 72
def ctxOffSatpAsid : Nat := 80
def ctxOffChainEpoch : Nat := 96
def ctxOffChainBudget : Nat := 104
def ctxOffChainMode : Nat := 112

def tlbOffVpageMaskInv : Nat := 0
def tlbOffVpageBase : Nat := 8
def tlbOffGeneration : Nat := 16
def tlbOffHostPtr : Nat := 24
def tlbOffAsid : Nat := 40
def tlbOffPerm : Nat := 43
def tlbOffGlobal : Nat := 44

/-- Bytes of the context before its chain cache, which blocks do not access. -/
def ctxSize : Nat := 128
def gprSize : Nat := 256
def tlbEntrySize : Nat := 64
def tlbArraySize : Nat := Tlb.size * tlbEntrySize
/-- `CHAIN_CACHE_STRIDE`: bytes of one link slot. -/
def slotStride : Nat := 32
def maxExits : Nat := 6
def slotsSize : Nat := maxExits * slotStride

def HartContext.load (c : HartContext) : Nat → Nat → Option Word
  | 8, 0 => some c.regs
  | 8, 32 => some c.entryPc
  | 8, 40 => some c.exitPc
  | 8, 64 => some c.tlbEntries
  | 8, 72 => some c.tlbGen
  | 2, 80 => some (c.satpAsid.setWidth 64)
  | 8, 96 => some c.chainEpoch
  | 8, 104 => some c.chainBudget
  | 8, 112 => some c.chainMode
  | _, _ => none

/-- The context of a hart that has left a block for `pc`. -/
def HartContext.left (c : HartContext) (pc : Word) (count : Nat) : HartContext :=
  { c with exitPc := pc, entryPc := pc, chainBudget := c.chainBudget - BitVec.ofNat 64 count }

/-- Blocks write three fields. -/
def HartContext.store (c : HartContext) (bytes off : Nat) (v : Word) : Option HartContext :=
  match bytes, off with
  | 8, 32 => some { c with entryPc := v }
  | 8, 40 => some { c with exitPc := v }
  | 8, 104 => some { c with chainBudget := v }
  | _, _ => none

def entryField (e : TlbEntry) : Nat → Nat → Option Word
  | 8, 0 => some e.vpageMaskInv
  | 8, 8 => some e.vpageBase
  | 8, 16 => some (BitVec.ofNat 64 e.generation)
  | 8, 24 => some e.hostPtr
  | 2, 40 => some (e.asid.setWidth 64)
  | 1, 43 => some (e.perm.setWidth 64)
  | 1, 44 => some (if e.global then 1 else 0)
  | _, _ => none

/-- Addresses of the objects. -/
structure Layout where
  ctx : Word
  gpr : Word
  tlb : Word
  slots : Word

structure HostMem where
  ctx : HartContext
  core : Core
  slots : Nat → Word

/-- An object and an offset in it. -/
inductive Place where
  | ctx (off : Nat)
  | gpr (off : Nat)
  | tlb (off : Nat)
  | slots (off : Nat)
  | ram (off : Nat)
  deriving DecidableEq, Repr

def offsetIn (base : Word) (size : Nat) (addr : Word) : Option Nat :=
  if (addr - base).toNat < size then some (addr - base).toNat else none

variable (L : Layout)

def Layout.place (m : MemoryMap) (addr : Word) : Option Place :=
  (offsetIn L.ctx ctxSize addr).map .ctx <|> (offsetIn L.gpr gprSize addr).map .gpr <|>
  (offsetIn L.tlb tlbArraySize addr).map .tlb <|> (offsetIn L.slots slotsSize addr).map .slots <|>
  m.getRamDirect.bind fun ram => (offsetIn ram.host ram.size.toNat addr).map .ram

/-- Address and size of every object, RAM included. -/
def Layout.objects (m : MemoryMap) : List (Word × Nat) :=
  [(L.ctx, ctxSize), (L.gpr, gprSize), (L.tlb, tlbArraySize), (L.slots, slotsSize)] ++
    (m.getRamDirect.map fun ram => (ram.host, ram.size.toNat)).toList

/-- One object ends before the other begins. -/
def Apart (a b : Word × Nat) : Prop := a.1.toNat + a.2 ≤ b.1.toNat ∨ b.1.toNat + b.2 ≤ a.1.toNat

instance (a b : Word × Nat) : Decidable (Apart a b) := by unfold Apart; infer_instance

/-- The objects are distinct host objects. -/
structure Layout.Ok (L : Layout) (m : MemoryMap) : Prop where
  fits : ∀ o ∈ L.objects m, o.1.toNat + o.2 ≤ 2 ^ 64
  apart : (L.objects m).Pairwise Apart

def HostMem.load (m : HostMem) (bytes : Nat) (addr : Word) : Option Word :=
  match L.place m.core.mmap addr with
  | some (.ctx off) => m.ctx.load bytes off
  | some (.gpr off) =>
    if bytes = 8 ∧ off % 8 = 0 then some (m.core.hart.gpr (BitVec.ofNat 5 (off / 8))) else none
  | some (.tlb off) =>
    entryField (m.core.hart.tlb.entries (off / tlbEntrySize)) bytes (off % tlbEntrySize)
  | some (.slots off) => if bytes = 8 ∧ off % 8 = 0 then some (m.slots (off / 8)) else none
  | some (.ram off) => m.core.mmap.getRamDirect.bind fun ram => (ram.read off bytes).toOption
  | none => none

def HostMem.setCtx (m : HostMem) (ctx : HartContext) : HostMem := { m with ctx := ctx }

def HostMem.setGpr (m : HostMem) (v : BitVec 5) (x : Word) : HostMem :=
  { m with core := { m.core with hart :=
      { m.core.hart with gpr := Function.update m.core.hart.gpr v x } } }

def HostMem.setMmap (m : HostMem) (mmap : MemoryMap) : HostMem :=
  { m with core := { m.core with mmap := mmap } }

/-- Blocks write context fields, guest registers and guest RAM. -/
def HostMem.store (m : HostMem) (bytes : Nat) (addr x : Word) : Option HostMem :=
  match L.place m.core.mmap addr with
  | some (.ctx off) => (m.ctx.store bytes off x).map m.setCtx
  | some (.gpr off) =>
    if bytes = 8 ∧ off % 8 = 0 then some (m.setGpr (BitVec.ofNat 5 (off / 8)) x) else none
  | some (.ram off) =>
    m.core.mmap.ramDirect.bind fun i => m.core.mmap.regions[i]?.bind fun ram =>
      if off + bytes ≤ ram.size.toNat then
        some (m.setMmap (m.core.mmap.setData i (storeLE ram.data off bytes x)))
      else none
  | _ => none

/-- The environment of a block: link slot `k` is data symbol `k`. -/
def Layout.env : X86.Env HostMem where
  memory := ⟨HostMem.load L, HostMem.store L⟩
  symbol k := L.slots + BitVec.ofNat 64 (k * slotStride)

/-! ## Resolving addresses -/

theorem offsetIn_add {base : Word} {size off : Nat} (inside : off < size) (fits : size ≤ 2 ^ 64) :
    offsetIn base size (base + BitVec.ofNat 64 off) = some off := by
  simp only [offsetIn, toNat_add_ofNat_sub base (show off < 2 ^ 64 by omega), inside, if_true]

theorem Layout.place_ctx (m : MemoryMap) {off : Nat} (inside : off < ctxSize) :
    L.place m (L.ctx + BitVec.ofNat 64 off) = some (.ctx off) := by
  rw [Layout.place, offsetIn_add inside (by decide)]
  rfl

theorem offsetIn_apart {a b : Word} {size size' off : Nat} (apart : Apart (b, size') (a, size))
    (fits : a.toNat + size ≤ 2 ^ 64) (fits' : b.toNat + size' ≤ 2 ^ 64) (inside : off < size) :
    offsetIn b size' (a + BitVec.ofNat 64 off) = none := by
  have ha := a.isLt
  have hb := b.isLt
  have outside : ¬(a + BitVec.ofNat 64 off - b).toNat < size' := by
    simp only [Apart] at apart
    simp only [BitVec.toNat_sub, BitVec.toNat_add, BitVec.toNat_ofNat]
    omega
  simp only [offsetIn, outside, if_false]

section Resolve

variable {L : Layout} {m : MemoryMap}

theorem Layout.Ok.place_tlb (ok : L.Ok m) {off : Nat} (inside : off < tlbArraySize) :
    L.place m (L.tlb + BitVec.ofNat 64 off) = some (.tlb off) := by
  have fits := ok.fits
  have apart := ok.apart
  simp only [Layout.objects, List.cons_append, List.nil_append, List.forall_mem_cons,
    List.pairwise_cons] at fits apart
  rw [Layout.place, offsetIn_apart apart.1.2.1 fits.2.2.1 fits.1 inside,
    offsetIn_apart apart.2.1.1 fits.2.2.1 fits.2.1 inside, offsetIn_add inside (by decide)]
  rfl

end Resolve

theorem load_ctx (m : HostMem) (bytes off : Nat) (inside : off < ctxSize) :
    m.load L bytes (L.ctx + BitVec.ofNat 64 off) = m.ctx.load bytes off := by
  rw [HostMem.load, L.place_ctx m.core.mmap inside]

theorem store_ctx (m : HostMem) (bytes off : Nat) (x : Word) (inside : off < ctxSize) :
    m.store L bytes (L.ctx + BitVec.ofNat 64 off) x = (m.ctx.store bytes off x).map m.setCtx := by
  rw [HostMem.store, L.place_ctx m.core.mmap inside]

theorem load_entry {L : Layout} {m : HostMem} (ok : L.Ok m.core.mmap) (bytes : Nat) {k off : Nat}
    (slot : k < Tlb.size) (inside : off < tlbEntrySize) :
    m.load L bytes (L.tlb + BitVec.ofNat 64 (k * tlbEntrySize) + BitVec.ofNat 64 off) =
      entryField (m.core.hart.tlb.entries k) bytes off := by
  have within : k * tlbEntrySize + off < tlbArraySize := by
    simp only [tlbArraySize, tlbEntrySize, Tlb.size] at *
    omega
  have quot : (k * tlbEntrySize + off) / tlbEntrySize = k := by
    simp only [tlbEntrySize] at *
    omega
  have rem : (k * tlbEntrySize + off) % tlbEntrySize = off := by
    simp only [tlbEntrySize] at *
    omega
  rw [HostMem.load, BitVec.add_assoc, ← BitVec.ofNat_add, ok.place_tlb within]
  simp only [quot, rem]

end Rv64Vm.Jit
