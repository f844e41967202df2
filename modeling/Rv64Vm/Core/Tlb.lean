import Rv64Vm.Core.SelfMod
import Rv64Vm.Lib.Masks

/-! # Translation lookaside buffer

The direct-mapped TLB of `tlb.hpp` and `tlb.cpp`: 131072 slots indexed by
`va >> 12`, a generation counter that invalidates all of them at once, and the
census of physical pages that some resident entry maps writable.
-/

namespace Rv64Vm

open Lib

/-- `(1 << bits) - 1`: the offset bits of a page. -/
abbrev pageMask (bits : Nat) : Word := lowMask 64 bits

structure TlbEntry where
  vpageMaskInv : Word := -1#64
  vpageBase : Word := -1#64
  generation : Nat := 0
  hostPtr : Word := 0
  ppageBase : Word := 0
  asid : BitVec 16 := 0
  pageBits : Nat := 12
  perm : BitVec 8 := 0
  global : Bool := false
  deriving DecidableEq, Repr

/-! Permission bits. -/

def permR : BitVec 8 := 1
def permW : BitVec 8 := 2
def permX : BitVec 8 := 4
def permU : BitVec 8 := 8
def permA : BitVec 8 := 16
def permD : BitVec 8 := 32

/-- `perm & bit` as a condition. -/
def hasPerm (perm bit : BitVec 8) : Bool := perm &&& bit != 0

/-- `perm & ~(PERM_W | PERM_D)`. -/
def stripWrite (perm : BitVec 8) : BitVec 8 := perm &&& ~~~(permW ||| permD)

structure Tlb where
  entries : Nat → TlbEntry := fun _ => {}
  generation : Nat := 1
  wWritable : GrowVec Nat := .empty 0
  wWritableOversized : Bool := false

namespace Tlb

def size : Nat := 131072

/-- Cap on the pages credited one by one: 2 MiB. -/
def wCreditCapPages : Nat := 512

def index (va : Word) : Nat := ((va >>> 12) &&& 0x1FFFF#64).toNat

/-- 4 KiB pages spanned by an entry. -/
def entryPages (e : TlbEntry) : Nat := 2 ^ (e.pageBits - 12)

variable (t : Tlb)

/-- The growth is without a limit here; `hosted` says what a host with less memory does. -/
def addWritable (e : TlbEntry) : Tlb :=
  if !hasPerm e.perm permW then t
  else
    let first := pageOf e.ppageBase
    let pages := entryPages e
    if pages > wCreditCapPages then { t with wWritableOversized := true }
    else
      let grown :=
        if first + pages > t.wWritable.size then t.wWritable.growTo (first + pages + 8192) 0
        else t.wWritable
      -- the loop credits each page of the entry once, saturating at 0xFF
      { t with wWritable := grown.mapIdx fun p n =>
          if first ≤ p ∧ p < first + pages ∧ n ≠ 0xFF then n + 1 else n }

def dropWritable (e : TlbEntry) : Tlb :=
  if e.generation ≠ t.generation || !hasPerm e.perm permW then t
  else
    let first := pageOf e.ppageBase
    let pages := entryPages e
    if pages > wCreditCapPages then { t with wWritableOversized := true }
    else
      { t with wWritable := t.wWritable.mapIdx fun p n =>
          if first ≤ p ∧ p < first + pages ∧ n ≠ 0 then n - 1 else n }

def flushAll : Tlb :=
  { t with
    generation := t.generation + 1
    wWritable := t.wWritable.mapIdx fun _ _ => 0
    wWritableOversized := false }

/-- Physical page `phys` starts hosting code. -/
def noteExec (phys : Word) : Tlb :=
  match t.wWritable.get? (pageOf phys) with
  | some n => if !t.wWritableOversized && n != 0 then t.flushAll else t
  | none => t

/-- Invalidate one slot in place, settling its census contribution first. -/
def evict (i : Nat) : Tlb :=
  let dropped := t.dropWritable (t.entries i)
  { dropped with entries := Function.update t.entries i { t.entries i with generation := 0 } }

def flushAddr (va : Word) : Tlb :=
  if (t.entries (index va)).generation = t.generation then t.evict (index va) else t

/-- The test shared by the two ASID-selective flushes. -/
def ownedBy (i : Nat) (asid : BitVec 16) : Bool :=
  let e := t.entries i
  e.generation == t.generation && !e.global && e.asid == asid

def flushAsid (asid : BitVec 16) : Tlb :=
  (List.range size).foldl (fun t i => if t.ownedBy i asid then t.evict i else t) t

def flushAddrAsid (va : Word) (asid : BitVec 16) : Tlb :=
  if t.ownedBy (index va) asid then t.evict (index va) else t

/-- The permission test of `lookup`, from the access type on. -/
def permits (perm : BitVec 8) (type : AccessType) (mode : PrivilegeMode) (mxr sum : Bool) : Bool :=
  let byType :=
    match type with
    | .store => hasPerm perm permW && hasPerm perm permD
    | .exec => hasPerm perm permX && !(mode == .supervisor && hasPerm perm permU)
    | .load => hasPerm perm permR || (hasPerm perm permX && mxr)
  let byMode :=
    match mode with
    | .user => hasPerm perm permU
    | .supervisor => !(hasPerm perm permU && !sum)
    | _ => true
  byType && byMode

def lookup (va : Word) (type : AccessType) (asid : BitVec 16) (mode : PrivilegeMode) (mxr sum : Bool) : Option Word :=
  let e := t.entries (index va)
  if e.generation ≠ t.generation then none
  else if va &&& ~~~(pageMask e.pageBits) ≠ e.vpageBase then none
  else if !e.global && e.asid ≠ asid then none
  else if !permits e.perm type mode mxr sum then none
  else some (e.ppageBase ||| (va &&& pageMask e.pageBits))

/-- The entry that `insert` writes; `hostPage = 0` is the null pointer. -/
def newEntry (smc : SelfMod) (va pa : Word) (pageBits : Nat) (perm : BitVec 8)
    (asid : BitVec 16) (global : Bool) (hostPage : Word) : TlbEntry :=
  let mask := pageMask pageBits
  let vpage := va &&& ~~~mask
  let ppage := pa &&& ~~~mask
  -- W^X: the test is on the 4 KiB page of this access, not on the whole entry
  let leafPa := ppage + (va &&& mask)
  { vpageMaskInv := ~~~mask
    vpageBase := vpage
    generation := t.generation
    hostPtr := if hostPage ≠ 0 then hostPage - vpage else 0
    ppageBase := ppage
    asid := asid
    pageBits := pageBits
    perm := if hasPerm perm permW && smc.wasPageExecuted leafPa then stripWrite perm else perm
    global := global }

def insert (smc : SelfMod) (va pa : Word) (pageBits : Nat) (perm : BitVec 8)
    (asid : BitVec 16) (global : Bool) (hostPage : Word) : Tlb :=
  let e := t.newEntry smc va pa pageBits perm asid global hostPage
  let dropped := t.dropWritable (t.entries (index va))
  { dropped with entries := Function.update t.entries (index va) e }.addWritable e

end Tlb

end Rv64Vm
