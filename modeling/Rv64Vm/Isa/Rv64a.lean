import Rv64Vm.Isa.Rv64i

/-! # RV64A handlers

`AMO_LR`, `AMO_SC` and the read-modify-write family. Each translates once and
then accesses the physical address, whatever its alignment.
-/

namespace Rv64Vm

/-- `{ false, false, increase, exc_code, tval }` of a failed memory operation. -/
def amoFault (increase : Word) (ret : MemoryReturn) (c : Core) : Executed :=
  ⟨⟨false, false, increase, ret.excCode, ret.tval⟩, c⟩

/-- `AMO_LR`; the value is the low `n` bytes read. -/
def amoLr (bus : Bus) (c : Core) (va : Word) (n : Nat) : Except HostError Access := do
  let t ← translate c .load va
  if !t.ret.isSuccess then return { ret := t.ret, core := t.core }
  else
    let a ← mmioReadAt bus t.core t.pa n
    if !a.ret.isSuccess then return a
    else return { a with core := a.core.mapHart fun h => { h with reservation := ⟨t.pa, n, true⟩ } }

/-- Drop the reservation. -/
def Core.unreserve (c : Core) : Core :=
  c.mapHart fun h => { h with reservation := { h.reservation with valid := false } }

/-- `AMO_SC`; the value is 0 if the store was made. -/
def amoSc (bus : Bus) (c : Core) (va : Word) (n : Nat) (val : Word) : Except HostError Access := do
  let t ← translate c .store va
  if !t.ret.isSuccess then return { ret := t.ret, core := t.core }
  else
    let r := t.core.hart.reservation
    if r.valid ∧ r.paddr = t.pa ∧ r.size = n then
      let a ← mmioWriteAt bus t.core t.pa n val
      if !a.ret.isSuccess then return a
      else return { ret := a.ret, val := 0, core := a.core.unreserve }
    else return { ret := {}, val := 1, core := t.core.unreserve }

/-- The handler of a load-reserved. -/
def loadReserved (n : Nat) (failStep : Word) : Handler := fun bus c i => do
  let a ← amoLr bus c (c.gpr i.rs1) n
  if !a.ret.isSuccess then return amoFault failStep a.ret a.core
  else return ⟨{}, a.core.setGpr i.rd (widen n true a.val)⟩

/-- The handler of a store-conditional; `rs2` is cut to the width. -/
def storeConditional (n : Nat) (failStep : Word) : Handler := fun bus c i => do
  let a ← amoSc bus c (c.gpr i.rs1) n ((c.gpr i.rs2).setWidth (8 * n) |>.setWidth 64)
  if !a.ret.isSuccess then return amoFault failStep a.ret a.core
  else return ⟨{}, a.core.setGpr i.rd a.val⟩

def execLRD : Handler := loadReserved 8 4
def execSCD : Handler := storeConditional 8 4
def execLRW : Handler := loadReserved 4 0
def execSCW : Handler := storeConditional 4 0

/-- `AMO64` and `AMO32`; the value is the old one. -/
def amo (n : Nat) (f : BitVec (8 * n) → BitVec (8 * n) → BitVec (8 * n)) (bus : Bus) (c : Core)
    (va rs2 : Word) : Except HostError Access := do
  let t ← translate c .store va
  if !t.ret.isSuccess then return { ret := t.ret, core := t.core }
  else
    let a ← mmioReadAt bus t.core t.pa n
    if !a.ret.isSuccess then return a
    else
      let new := f (a.val.setWidth (8 * n)) (rs2.setWidth (8 * n))
      let s ← mmioWriteAt bus a.core t.pa n (new.setWidth 64)
      if !s.ret.isSuccess then return s
      else return { ret := {}, val := a.val, core := s.core }

/-- The handler of a read-modify-write. -/
def amoTo (n : Nat) (f : BitVec (8 * n) → BitVec (8 * n) → BitVec (8 * n)) : Handler := fun bus c i => do
  let a ← amo n f bus c (c.gpr i.rs1) (c.gpr i.rs2)
  let ret : ExecReturn := ⟨a.ret.isSuccess, false, 4, a.ret.excCode, a.ret.tval⟩
  if a.ret.isSuccess then return ⟨ret, a.core.setGpr i.rd (widen n true a.val)⟩
  else return ⟨ret, a.core⟩

/-! `std::min` and `std::max` return their first argument on a tie. -/

variable {w : Nat}

def minS (a b : BitVec w) : BitVec w := if b.slt a then b else a
def maxS (a b : BitVec w) : BitVec w := if a.slt b then b else a
def minU (a b : BitVec w) : BitVec w := if b < a then b else a
def maxU (a b : BitVec w) : BitVec w := if a < b then b else a

def execAMOSWAPD : Handler := amoTo 8 fun _ b => b
def execAMOADDD : Handler := amoTo 8 (· + ·)
def execAMOXORD : Handler := amoTo 8 (· ^^^ ·)
def execAMOANDD : Handler := amoTo 8 (· &&& ·)
def execAMOORD : Handler := amoTo 8 (· ||| ·)
def execAMOMIND : Handler := amoTo 8 minS
def execAMOMAXD : Handler := amoTo 8 maxS
def execAMOMINUD : Handler := amoTo 8 minU
def execAMOMAXUD : Handler := amoTo 8 maxU

def execAMOSWAPW : Handler := amoTo 4 fun _ b => b
def execAMOADDW : Handler := amoTo 4 (· + ·)
def execAMOXORW : Handler := amoTo 4 (· ^^^ ·)
def execAMOANDW : Handler := amoTo 4 (· &&& ·)
def execAMOORW : Handler := amoTo 4 (· ||| ·)
def execAMOMINW : Handler := amoTo 4 minS
def execAMOMAXW : Handler := amoTo 4 maxS
def execAMOMINUW : Handler := amoTo 4 minU
def execAMOMAXUW : Handler := amoTo 4 maxU

end Rv64Vm
