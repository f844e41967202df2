import Rv64Vm.Isa.Zicsr

/-! # Privileged, Zifencei and Zicboz handlers -/

namespace Rv64Vm

open Lib

def Status.tsr (status : Word) : Bool := status.getLsbD 22
def Status.tw (status : Word) : Bool := status.getLsbD 21

/-- The `switch` on MPP: MPRV is cleared unless the return goes to Machine mode;
    the reserved value leaves the mode alone. -/
def mretMode (h : Hart) : Hart :=
  let mpp := Status.mpp h.status
  if mpp = 0 then { h with status := putBit h.status 17 false, mode := .user }
  else if mpp = 1 then { h with status := putBit h.status 17 false, mode := .supervisor }
  else if mpp = 3 then { h with mode := .machine }
  else h

/-- The mode is not checked. -/
def execMRET : Handler := fun _ c _ =>
  let h := mretMode { c.hart with pc := c.hart.csrs Csr.mepc }
  let status := putBits2 (putBit (putBit h.status 3 (h.status.getLsbD 7)) 7 true) 11 0
  .ok ⟨jumped, { c with hart := { h with status := status } }⟩

def execSRET : Handler := fun _ c i =>
  if c.hart.mode = .user ∨ (c.hart.mode = .supervisor ∧ Status.tsr c.hart.status) then .ok (illegal c i)
  else
    let h := { c.hart with pc := c.hart.csrs Csr.sepc, status := putBit c.hart.status 17 false }
    let h := { h with mode := if h.status.getLsbD 8 then .supervisor else .user }
    let status := putBit (putBit (putBit h.status 1 (h.status.getLsbD 5)) 5 true) 8 false
    .ok ⟨jumped, { c with hart := { h with status := status } }⟩

/-- Only the form without operands drops compiled code. -/
def execSFENCEVMA : Handler := fun _ c i =>
  if c.hart.mode = .user ∨ (c.hart.mode = .supervisor ∧ Status.tvm c.hart.status) then .ok (illegal c i)
  else
    let tlb := c.hart.tlb
    let asid := (c.gpr i.rs2).setWidth 16
    let flushed :=
      if i.rs1 = 0 ∧ i.rs2 = 0 then tlb.flushAll
      else if i.rs1 = 0 then tlb.flushAsid asid
      else if i.rs2 = 0 then tlb.flushAddr (c.gpr i.rs1)
      else tlb.flushAddrAsid (c.gpr i.rs1) asid
    let c := c.mapHart fun h => { h with tlb := flushed }
    .ok ⟨{}, if i.rs1 = 0 ∧ i.rs2 = 0 then { c with smc := c.smc.invalidateAll } else c⟩

def execWFI : Handler := fun _ c i =>
  if Status.tw c.hart.status then .ok (illegal c i)
  else if c.hart.ip &&& c.hart.ie = 0 then .ok ⟨{}, c.mapHart fun h => { h with wfi := true }⟩
  else .ok ⟨{}, c⟩

/-- `clear_decode_cache` -/
def execFENCEI : Handler := fun _ c _ =>
  .ok ⟨{}, { c with decoder := { c.decoder with generation := c.decoder.generation + 1 } }⟩

/-- Cache block size. -/
def cboSize : Nat := 64

/-- Writes RAM behind the back of the store path: no reservation is dropped and no
    code page is checked. -/
def execCboZero : Handler := fun _ c i => do
  let va := c.gpr i.rs1 &&& ~~~63
  let t ← translate c .store va
  if !t.ret.isSuccess then return ⟨⟨false, false, 0, t.ret.excCode, t.ret.tval⟩, t.core⟩
  else if dramBase ≤ t.pa ∧ t.pa + 64 ≤ dramBase + c.hart.memsize then
    match t.core.mmap.ramDirect, t.core.mmap.getRamDirect with
    | some k, some ram =>
      let off := (t.pa - dramBase).toNat
      if off + cboSize ≤ ram.size.toNat then
        let zeroed := storeLE ram.data off cboSize (0 : BitVec (8 * cboSize))
        return ⟨{}, { t.core with mmap := t.core.mmap.setData k zeroed }⟩
      else .error .undefinedBehaviour
    | _, _ => .error .undefinedBehaviour
  else return ⟨⟨false, false, 0, excStoreAccessFault, va⟩, t.core⟩

end Rv64Vm
