import Rv64Vm.Core.Decoded
import Rv64Vm.Core.Fpu
import Rv64Vm.Core.MemoryMap
import Rv64Vm.Core.Tlb

/-! # Harts

The architectural state of one hart with its private TLB, and `Core`: a hart
together with what it shares with the rest of the machine: the guest memory, the
self-modifying-code tables, the decode cache, the host's rounding mode and the
devices, as the record of accesses to them.
-/

namespace Rv64Vm

structure Reservation where
  paddr : Word := 0
  size : Nat := 0
  valid : Bool := false
  deriving DecidableEq, Repr

structure Hart where
  gpr : BitVec 5 → Word := fun _ => 0
  fpr : BitVec 5 → Word := fun _ => 0
  pc : Word := 0
  mode : PrivilegeMode := .machine
  status : Word := 0
  ie : BitVec 16 := 0
  ip : BitVec 16 := 0
  stimecmp : Word := 0
  fcsr : Word := 0
  satp : Word := 0
  cycle : Word := 0
  instret : Word := 0
  ctime : Word := 0
  wfi : Bool := false
  csrs : BitVec 12 → Word := fun _ => 0
  reservation : Reservation := {}
  memsize : Word := 0
  /-- `mmu.tlb` -/
  tlb : Tlb := {}
  /-- How many traps the hart has taken; the source does not count them. -/
  traps : Nat := 0

namespace Hart

/-- `get_effective_mode`: MPRV redirects loads and stores of Machine mode. -/
def getEffectiveMode (h : Hart) (type : AccessType) : PrivilegeMode :=
  if h.mode = .machine ∧ Status.mprv h.status ∧ (type = .load ∨ type = .store) then
    .ofBits (Status.mpp h.status)
  else h.mode

end Hart

/-- A call of a device's `write`, or of its `read` where nothing is written. -/
structure DeviceAccess where
  dev : Nat
  paddr : Word
  size : Nat
  written : Option Word
  deriving DecidableEq, Repr

/-- One hart's view of the machine. -/
structure Core where
  hart : Hart
  mmap : MemoryMap
  smc : SelfMod
  /-- The accesses the devices have served, in order. -/
  io : List DeviceAccess := []
  /-- `idec->cache` -/
  decoder : DecodeCache := {}
  rounding : Rounding := .nearest

end Rv64Vm
