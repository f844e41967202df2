import Rv64Vm.Core.Hart

/-! # Traps and CSR access

`Hart::trap`, `Hart::csr_write` and `Hart::csr_read`. A `satp` write that asks
for an unsupported mode is dropped; the flush behind the source's second test
compares `satp` with the value just assigned to it.
-/

namespace Rv64Vm

namespace Csr

def fflags : BitVec 12 := 0x001
def frm : BitVec 12 := 0x002
def fcsr : BitVec 12 := 0x003
def sstatus : BitVec 12 := 0x100
def sie : BitVec 12 := 0x104
def stvec : BitVec 12 := 0x105
def sepc : BitVec 12 := 0x141
def scause : BitVec 12 := 0x142
def stval : BitVec 12 := 0x143
def sip : BitVec 12 := 0x144
def stimecmp : BitVec 12 := 0x14D
def satp : BitVec 12 := 0x180
def mstatus : BitVec 12 := 0x300
def medeleg : BitVec 12 := 0x302
def mideleg : BitVec 12 := 0x303
def mie : BitVec 12 := 0x304
def mtvec : BitVec 12 := 0x305
def mepc : BitVec 12 := 0x341
def mcause : BitVec 12 := 0x342
def mtval : BitVec 12 := 0x343
def mip : BitVec 12 := 0x344
def mcycle : BitVec 12 := 0xB00
def minstret : BitVec 12 := 0xB02
def cycle : BitVec 12 := 0xC00
def time : BitVec 12 := 0xC01
def instret : BitVec 12 := 0xC02
def hpmcounter3 : BitVec 12 := 0xC03
def hpmcounter31 : BitVec 12 := 0xC1F
def mvendorid : BitVec 12 := 0xF11
def marchid : BitVec 12 := 0xF12
def mimpid : BitVec 12 := 0xF13

end Csr

def sstatusMask : Word := 0x80000003000DE762#64
def mstatusRoMask : Word := 0xF00000000#64
def seMask : BitVec 16 := 0x222

/-- Overwrite bit `i`. -/
def putBit (x : Word) (i : Nat) (b : Bool) : Word :=
  if b then x ||| (1#64 <<< i) else x &&& ~~~(1#64 <<< i)

/-- Overwrite the two bits from `i` on. -/
def putBits2 (x : Word) (i : Nat) (b : BitVec 2) : Word :=
  putBit (putBit x i (b.getLsbD 0)) (i + 1) (b.getLsbD 1)

namespace Hart

def setCsr (h : Hart) (csr : BitVec 12) (val : Word) : Hart :=
  { h with csrs := Function.update h.csrs csr val }

/-- Target of a trap vector: vectored interrupts add four times the cause. -/
def trapVector (tvec : Word) (cause : Nat) (interrupt : Bool) : Word :=
  (tvec &&& ~~~3#64) +
    (if tvec &&& 3#64 = 1#64 ∧ interrupt then 4#64 * BitVec.ofNat 64 cause else 0#64)

def causeWord (cause : Nat) (interrupt : Bool) : Word :=
  (if interrupt then 1#64 <<< 63 else 0#64) ||| BitVec.ofNat 64 cause

/-- Does the trap go to Supervisor mode? -/
def delegateToS (h : Hart) (cause : Nat) (interrupt : Bool) : Bool :=
  h.mode != .machine &&
    (if interrupt then h.csrs Csr.mideleg else h.csrs Csr.medeleg).getLsbD cause

/-- The Supervisor branch of `trap`. -/
def trapToS (h : Hart) (cause : Nat) (tval : Word) (interrupt : Bool) : Hart :=
  let entered := { h with
    mode := .supervisor
    pc := trapVector (h.csrs Csr.stvec) cause interrupt
    status := putBit (putBit (putBit h.status 5 (h.status.getLsbD 1)) 1 false) 8 (h.mode != PrivilegeMode.user) }
  ((entered.setCsr Csr.sepc h.pc).setCsr Csr.scause (causeWord cause interrupt)).setCsr Csr.stval tval

/-- The Machine branch of `trap`. -/
def trapToM (h : Hart) (cause : Nat) (tval : Word) (interrupt : Bool) : Hart :=
  let entered := { h with
    mode := .machine
    pc := trapVector (h.csrs Csr.mtvec) cause interrupt
    status := putBits2 (putBit (putBit h.status 7 (h.status.getLsbD 3)) 3 false) 11
      (BitVec.ofNat 2 h.mode.toNat) }
  ((entered.setCsr Csr.mepc h.pc).setCsr Csr.mcause (causeWord cause interrupt)).setCsr Csr.mtval tval

def trap (h : Hart) (cause : Nat) (tval : Word) (interrupt : Bool) : Hart :=
  let cleared := { h with
    reservation := { h.reservation with valid := false }
    wfi := false
    traps := h.traps + 1
    status := putBit h.status 17 false }
  if h.delegateToS cause interrupt then cleared.trapToS cause tval interrupt
  else cleared.trapToM cause tval interrupt

end Hart

/-- Apply a function to the hart of a core. -/
def Core.mapHart (c : Core) (f : Hart → Hart) : Core := { c with hart := f c.hart }

/-- The `CSR_SATP` case of `csr_write`. -/
def csrWriteSatp (c : Core) (val : Word) : Core :=
  let oldVal := c.hart.satp
  let c := c.mapHart ({ · with satp := val })
  if Satp.mode c.hart.satp = satpModeSv48 ∨ Satp.mode c.hart.satp = satpModeSv57 then
    c.mapHart ({ · with satp := oldVal })
  else if c.hart.satp ≠ val then
    let c := c.mapHart fun h => { h with satp := val, tlb := h.tlb.flushAll }
    { c with smc := c.smc.invalidateAll }
  else c

/-- The floating-point CSRs trap while `mstatus.FS` is off. -/
def withFs (c : Core) (csr : BitVec 12) (f : Hart → Hart) : Core :=
  if Status.fs c.hart.status = 0 then
    c.mapHart (·.trap excIllegalInstruction (csr.setWidth 64) false)
  else c.mapHart f

def csrWrite (c : Core) (csr : BitVec 12) (val : Word) : Core :=
  let narrow := val.setWidth 16
  if csr = Csr.mstatus then
    c.mapHart fun h => { h with
      status := (h.status &&& mstatusRoMask) ||| (val &&& ~~~mstatusRoMask) }
  else if csr = Csr.sstatus then
    c.mapHart fun h => { h with
      status := (h.status &&& ~~~sstatusMask) ||| (val &&& sstatusMask) }
  else if csr = Csr.sie then
    c.mapHart fun h => { h with ie := (h.ie &&& ~~~seMask) ||| (narrow &&& seMask) }
  else if csr = Csr.sip then
    c.mapHart fun h => { h with ip := (h.ip &&& ~~~seMask) ||| (narrow &&& seMask) }
  else if csr = Csr.mie then c.mapHart ({ · with ie := narrow })
  else if csr = Csr.mip then c.mapHart ({ · with ip := narrow })
  else if csr = Csr.stimecmp then c.mapHart ({ · with stimecmp := val })
  else if csr = Csr.satp then csrWriteSatp c val
  else if csr = Csr.fcsr then
    withFs c csr fun h => { h with status := putBits2 h.status 13 3, fcsr := val }
  else if csr = Csr.fflags then
    withFs c csr fun h => { h with fcsr := (h.fcsr &&& ~~~0x1F#64) ||| (val &&& 0x1F#64) }
  else if csr = Csr.frm then
    withFs c csr fun h => { h with fcsr := (h.fcsr &&& ~~~0xE0#64) ||| ((val &&& 7#64) <<< 5) }
  else if csr = Csr.mvendorid ∨ csr = Csr.marchid ∨ csr = Csr.mimpid then c
  else c.mapHart (·.setCsr csr val)

/-- `Hart::csr_read`: the value, and the hart, which a floating-point CSR may trap. -/
def csrRead (h : Hart) (csr : BitVec 12) : Word × Hart :=
  let gated (value : Word) : Word × Hart :=
    if Status.fs h.status = 0 then (0, h.trap excIllegalInstruction (csr.setWidth 64) false)
    else (value, h)
  if csr = Csr.mstatus then (h.status, h)
  else if csr = Csr.sstatus then (h.status &&& sstatusMask, h)
  else if csr = Csr.sie then ((h.ie &&& seMask).setWidth 64, h)
  else if csr = Csr.sip then ((h.ip &&& seMask).setWidth 64, h)
  else if csr = Csr.mip then (h.ip.setWidth 64, h)
  else if csr = Csr.mie then (h.ie.setWidth 64, h)
  else if csr = Csr.cycle ∨ csr = Csr.mcycle then (h.cycle, h)
  else if csr = Csr.time then (h.ctime, h)
  else if csr = Csr.instret ∨ csr = Csr.minstret then (h.instret, h)
  else if Csr.hpmcounter3 ≤ csr ∧ csr ≤ Csr.hpmcounter31 then (h.csrs (csr - 0x100), h)
  else if csr = Csr.stimecmp then (h.stimecmp, h)
  else if csr = Csr.satp then (h.satp, h)
  else if csr = Csr.fcsr then gated h.fcsr
  else if csr = Csr.fflags then gated (h.fcsr &&& 0x1F#64)
  else if csr = Csr.frm then gated ((h.fcsr >>> 5) &&& 7#64)
  else (h.csrs csr, h)

end Rv64Vm
