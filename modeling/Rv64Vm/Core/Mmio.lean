import Rv64Vm.Core.Mmu

/-! # Memory-mapped input and output

`MMIO::read` and `MMIO::write`: translation, the split of an access that crosses
a page while `satp` is not Bare, the DRAM fast path with its self-modifying-code
check, and the device scan. Devices are a parameter.
-/

namespace Rv64Vm

open Lib

/-- What a device may change while it serves an access: guest memory, by DMA,
    the pending interrupts, and the clock that the timer publishes. -/
structure Served (c c' : Core) : Prop where
  hart : c'.hart = { c.hart with ip := c'.hart.ip, ctime := c'.hart.ctime }
  layout : c.mmap.SameLayout c'.mmap
  smc : c'.smc = c.smc
  io : c'.io = c.io
  decoder : c'.decoder = c.decoder
  rounding : c'.rounding = c.rounding

/-- What the core is attached to: the devices, by their address ranges in `devs`
    order and what their `read` and `write` do to the machine, and the host's
    floating-point unit. Only a `write` starts DMA. -/
structure Bus where
  devs : List (Word × Word)
  read : Nat → Word → Nat → Core → Word × Core
  write : Nat → Word → Nat → Word → Core → Core
  readServed : ∀ dev paddr n c, Served c (read dev paddr n c).2
  readMemory : ∀ dev paddr n c, (read dev paddr n c).2.mmap = c.mmap
  writeServed : ∀ dev paddr n val c, Served c (write dev paddr n val c)
  fpu : HostFpu

/-- An idle unit: every result is zero. -/
def HostFpu.zero : HostFpu where
  add _ _ _ := (0, 0)
  sub _ _ _ := (0, 0)
  mul _ _ _ := (0, 0)
  div _ _ _ := (0, 0)
  fma _ _ _ _ := (0, 0)
  sqrt _ _ := (0, 0)
  sqrtFloat _ _ := 0
  round _ := (0, 0)
  narrow _ _ := (0, 0)
  widen _ := 0
  llrint _ _ := 0
  ofInt _ _ := 0
  less _ _ := false
  lessEqual _ _ := false
  equal _ _ := false

/-- No devices. -/
def Bus.empty : Bus where
  devs := []
  read _ _ _ c := (0, c)
  write _ _ _ _ c := c
  readMemory _ _ _ _ := rfl
  readServed _ _ _ _ := ⟨rfl, ⟨rfl, rfl⟩, rfl, rfl, rfl, rfl⟩
  writeServed _ _ _ _ _ := ⟨rfl, ⟨rfl, rfl⟩, rfl, rfl, rfl, rfl⟩
  fpu := .zero

/-- The first device whose range holds the whole access. -/
def Bus.find (bus : Bus) (paddr : Word) (n : Nat) : Option Nat :=
  bus.devs.findIdx? fun (start, size) =>
    start ≤ paddr && paddr ≤ start + size - BitVec.ofNat 64 n

def Core.record (c : Core) (access : DeviceAccess) : Core := { c with io := c.io ++ [access] }

/-- `paddr >= 0x80000000 && paddr <= end - access_size` -/
def inDram (memsize paddr : Word) (n : Nat) : Bool :=
  dramBase ≤ paddr && paddr ≤ dramBase + memsize - BitVec.ofNat 64 n

namespace Hart

def amoCheckReservation (h : Hart) (pa : Word) : Hart :=
  let r := h.reservation
  if r.valid && pa ≤ r.paddr && pa ≤ r.paddr + BitVec.ofNat 64 r.size then
    { h with reservation := { r with valid := false } }
  else h

end Hart

/-- The sizes that `read_dram_fast` and `write_dram_fast` have a case for. -/
def dramSizes : List Nat := [1, 2, 4, 8]

/-- `read_dram_fast`: other sizes, which the page split produces, read as zero. -/
def readDramFast (m : MemoryMap) (paddr : Word) (n : Nat) : Except HostError Word :=
  match m.getRamDirect with
  | none => .error .undefinedBehaviour
  | some ram => if n ∈ dramSizes then ram.read (paddr - dramBase).toNat n else .ok 0

/-- `write_dram_fast`: other sizes write nothing. -/
def writeDramFast (c : Core) (paddr : Word) (n : Nat) (val : Word) : Except HostError Core :=
  match c.mmap.ramDirect, c.mmap.getRamDirect with
  | some i, some ram =>
    let c := { c with smc := c.smc.smcStoreHit paddr }
    let off := (paddr - dramBase).toNat
    if n ∈ dramSizes then
      if off + n ≤ ram.size.toNat then
        .ok { c with mmap := c.mmap.setData i (storeLE ram.data off n val) }
      else .error .undefinedBehaviour
    else .ok c
  | _, _ => .error .undefinedBehaviour

/-- One physical fragment of a write, DRAM or device; `none` if nothing claims it. -/
def writePhys (bus : Bus) (c : Core) (paddr : Word) (n : Nat) (val : Word) : Except HostError (Option Core) :=
  let reserved := { c with hart := c.hart.amoCheckReservation paddr }
  if inDram c.hart.memsize paddr n then (writeDramFast reserved paddr n val).map some
  else .ok ((bus.find paddr n).map fun dev =>
    bus.write dev paddr n val (reserved.record ⟨dev, paddr, n, some val⟩))

/-- One physical fragment of a read. -/
def readPhys (bus : Bus) (c : Core) (paddr : Word) (n : Nat) : Except HostError (Option (Word × Core)) :=
  if inDram c.hart.memsize paddr n then (readDramFast c.mmap paddr n).map fun v => some (v, c)
  else .ok ((bus.find paddr n).map fun dev => bus.read dev paddr n (c.record ⟨dev, paddr, n, none⟩))

/-- The access is split: `satp` is not Bare and the access leaves its page. -/
def crossPage (h : Hart) (addr : Word) (n : Nat) : Bool :=
  Satp.mode h.satp != 0 && (addr &&& 0xFFF#64) + BitVec.ofNat 64 n > 0x1000#64

/-- Bytes of a split access in its first page. -/
def firstSize (addr : Word) : Nat := 0x1000 - (addr &&& 0xFFF#64).toNat

/-- What an access returns: its status, the value read, and the machine after it. -/
structure Access where
  ret : MemoryReturn
  val : Word := 0
  core : Core

/-- The virtual accesses, over what is done with a physical piece. -/
abbrev WritePiece := Core → Word → Nat → Word → Except HostError (Option Core)

abbrev ReadPiece := Core → Word → Nat → Except HostError (Option (Word × Core))

/-- A write by its pieces: two where it is split, after both translations. -/
def writePieces (piece : WritePiece) (c : Core) (addr : Word) (n : Nat) (val : Word) : Except HostError Access := do
  if !crossPage c.hart addr n then
    let t ← translate c .store addr
    if !t.ret.isSuccess then return { ret := t.ret, core := t.core }
    else
      match ← piece t.core t.pa n val with
      | some c => return { ret := {}, core := c }
      | none => return { ret := ⟨false, excStoreAccessFault, addr⟩, core := t.core }
  else
    let first := firstSize addr
    let t₁ ← translate c .store addr
    if !t₁.ret.isSuccess then return { ret := t₁.ret, core := t₁.core }
    else
      let t₂ ← translate t₁.core .store (addr + BitVec.ofNat 64 first)
      if !t₂.ret.isSuccess then return { ret := t₂.ret, core := t₂.core }
      else
        match ← piece t₂.core t₁.pa first (val &&& lowMask 64 (first * 8)) with
        | none => return { ret := ⟨false, excStoreAccessFault, addr⟩, core := t₂.core }
        | some c =>
          match ← piece c t₂.pa (n - first) (val >>> (first * 8)) with
          | none => return { ret := ⟨false, excStoreAccessFault, addr + BitVec.ofNat 64 first⟩, core := c }
          | some c => return { ret := {}, core := c }

/-- `MMIO::write` with `isphys` false. -/
def mmioWrite (bus : Bus) (c : Core) (addr : Word) (n : Nat) (val : Word) : Except HostError Access :=
  writePieces (writePhys bus) c addr n val

/-- `MMIO::write` with `isphys` true. -/
def mmioWriteAt (bus : Bus) (c : Core) (paddr : Word) (n : Nat) (val : Word) :
    Except HostError Access := do
  match ← writePhys bus c paddr n val with
  | some c => return { ret := {}, core := c }
  | none => return { ret := ⟨false, excStoreAccessFault, paddr⟩, core := c }

/-- A read by its pieces. -/
def readPieces (piece : ReadPiece) (c : Core) (addr : Word) (n : Nat) : Except HostError Access := do
  if !crossPage c.hart addr n then
    let t ← translate c .load addr
    if !t.ret.isSuccess then return { ret := t.ret, core := t.core }
    else
      match ← piece t.core t.pa n with
      | some (v, c) => return { ret := {}, val := v, core := c }
      | none => return { ret := ⟨false, excLoadAccessFault, addr⟩, core := t.core }
  else
    let first := firstSize addr
    let t₁ ← translate c .load addr
    if !t₁.ret.isSuccess then return { ret := t₁.ret, core := t₁.core }
    else
      let t₂ ← translate t₁.core .load (addr + BitVec.ofNat 64 first)
      if !t₂.ret.isSuccess then return { ret := t₂.ret, core := t₂.core }
      else
        match ← piece t₂.core t₁.pa first with
        | none => return { ret := ⟨false, excLoadAccessFault, addr⟩, core := t₂.core }
        | some (low, c) =>
          match ← piece c t₂.pa (n - first) with
          | none => return { ret := ⟨false, excLoadAccessFault, addr + BitVec.ofNat 64 first⟩, core := c }
          | some (high, c) => return { ret := {}, val := low ||| (high <<< (first * 8)), core := c }

/-- `MMIO::read` with `isphys` false; the caller's variable keeps the low `n` bytes of `val`. -/
def mmioRead (bus : Bus) (c : Core) (addr : Word) (n : Nat) : Except HostError Access :=
  readPieces (readPhys bus) c addr n

/-- `MMIO::read` with `isphys` true. -/
def mmioReadAt (bus : Bus) (c : Core) (paddr : Word) (n : Nat) : Except HostError Access := do
  match ← readPhys bus c paddr n with
  | some (v, c) => return { ret := {}, val := v, core := c }
  | none => return { ret := ⟨false, excLoadAccessFault, paddr⟩, core := c }

end Rv64Vm
