import Rv64Vm.Lib.Bytes

/-! # Words, access types and CSR fields

The fixed-width vocabulary shared by every module: 64-bit words, the three
access types with their page-fault causes, the privilege modes, and the named
bit fields of `satp`, `mstatus` and an Sv39 page-table entry.
-/

namespace Rv64Vm

abbrev Word := BitVec 64

/-- How a modelled function can leave the C++ abstract machine: the exceptions
    the source throws, and host memory accesses outside every allocation. -/
inductive HostError where
  | outOfRange
  | invalidArgument
  | logicError
  | undefinedBehaviour
  | badAlloc
  deriving DecidableEq, Repr

inductive AccessType where
  | load
  | store
  | exec
  deriving DecidableEq, Repr

inductive PrivilegeMode where
  | user
  | supervisor
  | hypervisor
  | machine
  deriving DecidableEq, Repr

namespace PrivilegeMode

def ofBits (b : BitVec 2) : PrivilegeMode :=
  if b = 0 then user else if b = 1 then supervisor else if b = 2 then hypervisor else machine

/-- The enumerator's value. -/
def toNat : PrivilegeMode → Nat
  | user => 0
  | supervisor => 1
  | hypervisor => 2
  | machine => 3

end PrivilegeMode

/-- Result of a memory operation. -/
structure MemoryReturn where
  isSuccess : Bool := true
  excCode : Nat := 0
  tval : Word := 0
  deriving DecidableEq, Repr

/-- Result of an instruction handler. -/
structure ExecReturn where
  isSuccess : Bool := true
  canChangePc : Bool := false
  increasePc : Word := 4
  cause : Nat := 0
  tval : Word := 0
  deriving DecidableEq, Repr

def excInstAccessFault : Nat := 1
def excIllegalInstruction : Nat := 2
def excStoreAccessFault : Nat := 7
def excLoadAccessFault : Nat := 5
def excInstPageFault : Nat := 12
def excLoadPageFault : Nat := 13
def excStorePageFault : Nat := 15

def accessTypeToFault : AccessType → Nat
  | .load => excLoadPageFault
  | .store => excStorePageFault
  | .exec => excInstPageFault

/-! ## `satp` -/

def Satp.ppn (satp : Word) : BitVec 44 := satp.extractLsb' 0 44
def Satp.asid (satp : Word) : BitVec 16 := satp.extractLsb' 44 16
def Satp.mode (satp : Word) : BitVec 4 := satp.extractLsb' 60 4

def satpModeBare : BitVec 4 := 0
def satpModeSv39 : BitVec 4 := 8
def satpModeSv48 : BitVec 4 := 9
def satpModeSv57 : BitVec 4 := 10

/-! ## `mstatus` -/

def Status.mpp (status : Word) : BitVec 2 := status.extractLsb' 11 2
def Status.fs (status : Word) : BitVec 2 := status.extractLsb' 13 2
def Status.mprv (status : Word) : Bool := status.getLsbD 17
def Status.sum (status : Word) : Bool := status.getLsbD 18
def Status.mxr (status : Word) : Bool := status.getLsbD 19

/-! ## Sv39 page-table entries -/

namespace Pte

variable (pte : Word)

def v : Bool := pte.getLsbD 0
def r : Bool := pte.getLsbD 1
def w : Bool := pte.getLsbD 2
def x : Bool := pte.getLsbD 3
def u : Bool := pte.getLsbD 4
def g : Bool := pte.getLsbD 5
def a : Bool := pte.getLsbD 6
def d : Bool := pte.getLsbD 7

/-- `(raw >> 10) & 0xFFFFFFFFFFF`. -/
def getSolidPpn : Word := (pte >>> 10) &&& 0xFFFFFFFFFFF#64

def setA : Word := pte ||| 0x40#64
def setD : Word := pte ||| 0x80#64

end Pte

/-! ## Sv39 virtual addresses -/

namespace VirtualAddress

/-- `(raw >> SHIFTS[idx]) & 0x1FF` with `SHIFTS = 12, 21, 30`. -/
def getVpn (va : Word) (idx : Nat) : Word := (va >>> (12 + 9 * idx)) &&& 0x1FF#64

/-- Bits 63..39 all equal bit 38: the arithmetic shift by 38 is 0 or -1. -/
def isValid (va : Word) : Bool :=
  let shifted := va.sshiftRight 38
  shifted == 0#64 || shifted == -1#64

end VirtualAddress

end Rv64Vm
