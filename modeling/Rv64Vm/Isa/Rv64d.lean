import Rv64Vm.Isa.Rv64f

/-! # RV64D handlers

Double precision is computed under the rounding mode that the instruction
selects; NaN results are made canonical and raise NV.
-/

namespace Rv64Vm

def sanitizeNan (c : Core) (val : Word) : Word × Core :=
  if double.isNan val then (double.canonicalNan, c.raise flagNv) else (val, c)

/-- The arithmetic handlers: the mode is set before the operation. -/
def doubleOp (op : HostFpu → Core → InstructionData → Word × Raised) : Handler := fun bus c i =>
  match rmFunc bus.fpu c i.rm 0 with
  | none => .ok (reservedRounding c i)
  | some (_, _, c) =>
    let (res, raised) := op bus.fpu c i
    let (val, c) := sanitizeNan (c.raise raised) res
    .ok ⟨{}, c.setFpr i.rd val⟩

def execFMADDD : Handler := doubleOp fun fpu c i =>
  fpu.fma c.rounding (c.fpr i.rs1) (c.fpr i.rs2) (c.fpr i.rs3)
def execFMSUBD : Handler := doubleOp fun fpu c i =>
  fpu.fma c.rounding (c.fpr i.rs1) (c.fpr i.rs2) (double.neg (c.fpr i.rs3))
def execFNMADDD : Handler := doubleOp fun fpu c i =>
  fpu.fma c.rounding (double.neg (c.fpr i.rs1)) (c.fpr i.rs2) (double.neg (c.fpr i.rs3))
def execFNMSUBD : Handler := doubleOp fun fpu c i =>
  fpu.fma c.rounding (double.neg (c.fpr i.rs1)) (c.fpr i.rs2) (c.fpr i.rs3)
def execFADDD : Handler := doubleOp fun fpu c i => fpu.add c.rounding (c.fpr i.rs1) (c.fpr i.rs2)
def execFSUBD : Handler := doubleOp fun fpu c i => fpu.sub c.rounding (c.fpr i.rs1) (c.fpr i.rs2)
def execFMULD : Handler := doubleOp fun fpu c i => fpu.mul c.rounding (c.fpr i.rs1) (c.fpr i.rs2)
def execFDIVD : Handler := doubleOp fun fpu c i => fpu.div c.rounding (c.fpr i.rs1) (c.fpr i.rs2)
def execFSQRTD : Handler := doubleOp fun fpu c i => fpu.sqrt c.rounding (c.fpr i.rs1)

/-- Write a function of two registers' bits. -/
def doubleBits (f : Word → Word → Word) : Handler := fun _ c i =>
  .ok ⟨{}, c.setFpr i.rd (f (c.fpr i.rs1) (c.fpr i.rs2))⟩

def execFSGNJD : Handler := doubleBits double.copysign
def execFSGNJND : Handler := doubleBits fun x y => double.copysign x (double.neg y)
def execFSGNJXD : Handler := doubleBits (xorSign double)

def minMaxD (pick : Bool) (before : HostFpu → Word → Word → Bool) : Handler := fun bus c i =>
  let s1 := c.fpr i.rs1
  let s2 := c.fpr i.rs2
  .ok ⟨{}, (raiseSnan double s1 s2 c).setFpr i.rd (minMax double pick (before bus.fpu) s1 s2)⟩

def execFMIND : Handler := minMaxD true fun fpu x y => fpu.less x y
def execFMAXD : Handler := minMaxD false fun fpu x y => fpu.less y x

/-! ## Conversions -/

def execFCVTSD : Handler := fun bus c i =>
  match rmFunc bus.fpu c i.rm (c.fpr i.rs1) with
  | none => .ok (reservedRounding c i)
  | some (exact, raised, c) =>
    -- the narrowing happens after `FLOAT_END`
    let c := c.raise raised
    let f := (bus.fpu.narrow c.rounding exact).1
    if single.isNan f then .ok ⟨{}, (c.raise flagNv).setFpr i.rd (f32Out single.canonicalNan)⟩
    else .ok ⟨{}, c.setFpr i.rd (f32Out f)⟩

def execFCVTDS : Handler := fun bus c i =>
  let src := f32In (c.fpr i.rs1)
  let wide := bus.fpu.widen src
  if single.isNan src then
    let c := if double.isSnan wide then c.raise flagNv else c
    .ok ⟨{}, c.setFpr i.rd double.canonicalNan⟩
  else .ok ⟨{}, c.setFpr i.rd wide⟩

def fcvtToIntD (range : IntRange) (finish : Word → Word) : Handler :=
  fcvtToInt double range finish Core.fpr fun _ x => x

def execFCVTWD : Handler := fcvtToIntD rangeI32 asInt32
def execFCVTWUD : Handler := fcvtToIntD rangeU32 asInt32
def execFCVTLD : Handler := fcvtToIntD rangeI64 id
def execFCVTLUD : Handler := fcvtToIntD rangeU64 id

/-- Conversion from an integer register; the 32-bit forms do not sample exceptions. -/
def fcvtFromIntD (sampled : Bool) (src : Word → Int) : Handler := fun bus c i =>
  match rmFunc bus.fpu c i.rm (bus.fpu.ofInt c.rounding (src (c.gpr i.rs1))) with
  | none => .ok (reservedRounding c i)
  | some (exact, raised, c) =>
    let c := if sampled then c.raise raised else c
    .ok ⟨{}, c.setFpr i.rd exact⟩

def execFCVTDW : Handler := fcvtFromIntD false fun x => (low x).toInt
def execFCVTDWU : Handler := fcvtFromIntD false fun x => (low x).toNat
def execFCVTDL : Handler := fcvtFromIntD true fun x => x.toInt
def execFCVTDLU : Handler := fcvtFromIntD true fun x => x.toNat

def execFMVXD : Handler := fun _ c i => .ok ⟨{}, c.setGpr i.rd (c.fpr i.rs1)⟩
def execFMVDX : Handler := fun _ c i => .ok ⟨{}, c.setFpr i.rd (c.gpr i.rs1)⟩

/-! ## Comparison, classification, loads and stores -/

def compareD (invalid : Word → Bool) (holds : HostFpu → Word → Word → Bool) : Handler :=
  floatCompare invalid Core.fpr holds

def execFEQD : Handler := compareD double.isSnan fun fpu => fpu.equal
def execFLTD : Handler := compareD double.isNan fun fpu => fpu.less
def execFLED : Handler := compareD double.isNan fun fpu => fpu.lessEqual

def execFCLASSD : Handler := fun _ c i => .ok ⟨{}, c.setGpr i.rd (classify double (c.fpr i.rs1))⟩

def execFLD : Handler := fun bus c i => fpLoadTo 8 id 4 i.rd i.rs1 i.imm bus c
def execFSD : Handler := fun bus c i => fpStoreFrom 8 4 i.rs1 i.rs2 i.imm bus c

end Rv64Vm
