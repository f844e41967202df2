import Rv64Vm.Isa.Rv64i

/-! # RV64F handlers

Single precision is computed in `double` and narrowed. Handlers that round take
the mode from the instruction or from `fcsr.frm` and refuse the two reserved
ones before they change anything; none of them looks at `mstatus.FS`.
-/

namespace Rv64Vm

namespace Core

def fpr (c : Core) (r : BitVec 5) : Word := c.hart.fpr r

def setFpr (c : Core) (r : BitVec 5) (v : Word) : Core :=
  c.mapHart fun h => { h with fpr := Function.update h.fpr r v }

/-- `fcsr.fields.fflags |= raised` -/
def raise (c : Core) (raised : Raised) : Core :=
  c.mapHart fun h => { h with fcsr := h.fcsr ||| raised.setWidth 64 }

/-- `fflags = (fflags | NV) & ~NX` -/
def raiseInvalid (c : Core) : Core :=
  c.mapHart fun h => { h with fcsr := (h.fcsr ||| 0x10) &&& ~~~1 }

def frm (c : Core) : BitVec 3 := c.hart.fcsr.extractLsb' 5 3

end Core

/-- NV and NX. -/
def flagNv : Raised := 0x10
def flagNx : Raised := 0x01

/-- `rm_func`: `none` for a reserved mode; otherwise the value, what `std::round`
    raised, and the core with the host's rounding mode set. -/
def rmFunc (fpu : HostFpu) (c : Core) (rm : BitVec 3) (val : Word) : Option (Word × Raised × Core) :=
  let cmp := if rm = 7 then c.frm else rm
  if cmp = 5 ∨ cmp = 6 then none
  else if cmp = 4 then some ((fpu.round val).1, (fpu.round val).2, c)
  else if cmp = 0 then some (val, 0, { c with rounding := .nearest })
  else if cmp = 1 then some (val, 0, { c with rounding := .towardZero })
  else if cmp = 2 then some (val, 0, { c with rounding := .downward })
  else if cmp = 3 then some (val, 0, { c with rounding := .upward })
  else some (val, 0, c)

/-- `{ false, false, 4, 2, inst }` -/
def reservedRounding (c : Core) (i : InstructionData) : Executed :=
  ⟨⟨false, false, 4, 2, i.inst.setWidth 64⟩, c⟩

def castFloat (fpu : HostFpu) (c : Core) (val : Word) : BitVec 32 × Core :=
  if double.isNan val then (single.canonicalNan, c.raise flagNv)
  else ((fpu.narrow c.rounding val).1, c)

/-- `RM_HANDLE` between `FLOAT_START` and `FLOAT_END`: the value narrowed to
    `float`, with the exceptions of that step added to `fflags`. -/
def rmHandle (fpu : HostFpu) (c : Core) (rm : BitVec 3) (val : Word) : Option (Word × Core) :=
  (rmFunc fpu c rm val).map fun (inter, raised, c) =>
    let (f, raised') := fpu.narrow c.rounding inter
    (fpu.widen f, c.raise (raised ||| raised'))

/-- The arithmetic handlers: `res` is computed first, in the host's current mode. -/
def floatOp (res : HostFpu → Core → InstructionData → Word) : Handler := fun bus c i =>
  match rmHandle bus.fpu c i.rm (res bus.fpu c i) with
  | none => .ok (reservedRounding c i)
  | some (val, c) =>
    let (f, c) := castFloat bus.fpu c val
    .ok ⟨{}, c.setFpr i.rd (f32Out f)⟩

section Operands

variable (fpu : HostFpu) (c : Core) (i : InstructionData)

/-- The operands widened to `double`. -/
def wide1 : Word := fpu.widen (f32In (c.fpr i.rs1))
def wide2 : Word := fpu.widen (f32In (c.fpr i.rs2))
def wide3 : Word := fpu.widen (f32In (c.fpr i.rs3))

end Operands

def execFMADDS : Handler := floatOp fun fpu c i =>
  (fpu.add c.rounding (fpu.mul c.rounding (wide1 fpu c i) (wide2 fpu c i)).1 (wide3 fpu c i)).1
def execFMSUBS : Handler := floatOp fun fpu c i =>
  (fpu.sub c.rounding (fpu.mul c.rounding (wide1 fpu c i) (wide2 fpu c i)).1 (wide3 fpu c i)).1
def execFNMADDS : Handler := floatOp fun fpu c i =>
  (fpu.sub c.rounding (fpu.mul c.rounding (double.neg (wide1 fpu c i)) (wide2 fpu c i)).1 (wide3 fpu c i)).1
def execFNMSUBS : Handler := floatOp fun fpu c i =>
  (fpu.add c.rounding (fpu.mul c.rounding (double.neg (wide1 fpu c i)) (wide2 fpu c i)).1 (wide3 fpu c i)).1
def execFADDS : Handler := floatOp fun fpu c i => (fpu.add c.rounding (wide1 fpu c i) (wide2 fpu c i)).1
def execFSUBS : Handler := floatOp fun fpu c i => (fpu.sub c.rounding (wide1 fpu c i) (wide2 fpu c i)).1
def execFMULS : Handler := floatOp fun fpu c i => (fpu.mul c.rounding (wide1 fpu c i) (wide2 fpu c i)).1
def execFDIVS : Handler := floatOp fun fpu c i => (fpu.div c.rounding (wide1 fpu c i) (wide2 fpu c i)).1
def execFSQRTS : Handler := floatOp fun fpu c i => fpu.sqrtFloat c.rounding (f32In (c.fpr i.rs1))

/-- The sign injections go through `cast_float`. -/
def signInject (sign : BitVec 32 → BitVec 32) : Handler := fun bus c i =>
  let res := single.copysign (f32In (c.fpr i.rs1)) (sign (f32In (c.fpr i.rs2)))
  let (f, c) := castFloat bus.fpu c (bus.fpu.widen res)
  .ok ⟨{}, c.setFpr i.rd (f32Out f)⟩

def execFSGNJS : Handler := signInject id
def execFSGNJNS : Handler := signInject single.neg

variable {w : Nat} (fmt : FloatFormat w)

/-- `(bits1 & ~sign_mask) | ((bits1 ^ bits2) & sign_mask)` -/
def xorSign (bits1 bits2 : BitVec w) : BitVec w :=
  (bits1 &&& ~~~fmt.signMask) ||| ((bits1 ^^^ bits2) &&& fmt.signMask)

def execFSGNJXS : Handler := fun _ c i =>
  .ok ⟨{}, c.setFpr i.rd (f32Out (xorSign single (f32In (c.fpr i.rs1)) (f32In (c.fpr i.rs2))))⟩

/-- The choice of `FMIN` (`pick = true`) and `FMAX` between two values; `before` is
    `isless`, or `isgreater`. -/
def minMax (pick : Bool) (before : BitVec w → BitVec w → Bool) (s1 s2 : BitVec w) : BitVec w :=
  if fmt.isNan s1 && fmt.isNan s2 then fmt.canonicalNan
  else if fmt.isNan s1 then s2
  else if fmt.isNan s2 then s1
  else if fmt.isZero s1 && fmt.isZero s2 then if fmt.signbit s1 == pick then s1 else s2
  else if before s1 s2 then s1 else s2

/-- A signalling operand raises NV. -/
def raiseSnan (s1 s2 : BitVec w) (c : Core) : Core :=
  if fmt.isSnan s1 || fmt.isSnan s2 then c.raise flagNv else c

def minMaxS (pick : Bool) (before : HostFpu → Word → Word → Bool) : Handler := fun bus c i =>
  let s1 := f32In (c.fpr i.rs1)
  let s2 := f32In (c.fpr i.rs2)
  let res := minMax single pick (fun x y => before bus.fpu (bus.fpu.widen x) (bus.fpu.widen y)) s1 s2
  .ok ⟨{}, (raiseSnan single s1 s2 c).setFpr i.rd (f32Out res)⟩

def execFMINS : Handler := minMaxS true fun fpu x y => fpu.less x y
def execFMAXS : Handler := minMaxS false fun fpu x y => fpu.less y x

/-! ## Conversions -/

/-- The integer range of a conversion: its bounds as integers and as `double`s,
    the upper one plus 1. -/
structure IntRange where
  signed : Bool
  min : Word
  max : Word
  minD : Word
  limitD : Word

def rangeI32 : IntRange := ⟨true, 0xFFFFFFFF80000000, 0x7FFFFFFF, 0xC1E0000000000000, 0x41E0000000000000⟩
def rangeU32 : IntRange := ⟨false, 0, 0xFFFFFFFF, 0, 0x41F0000000000000⟩
def rangeI64 : IntRange :=
  ⟨true, 0x8000000000000000, 0x7FFFFFFFFFFFFFFF, 0xC3E0000000000000, 0x43E0000000000000⟩
def rangeU64 : IntRange := ⟨false, 0, 0xFFFFFFFFFFFFFFFF, 0, 0x43F0000000000000⟩

/-- `-1.0` -/
def minusOneD : Word := 0xBFF0000000000000

def finalizeFcvt (range : IntRange) (fpu : HostFpu) (c : Core)
    (src : BitVec w) (exact rounded : Word) : Word × Core :=
  if fmt.isNan src then (range.max, c.raiseInvalid)
  else
    let above := (fmt.isInf src && !fmt.signbit src) || fpu.lessEqual range.limitD exact
    let below :=
      if range.signed then (fmt.isInf src && fmt.signbit src) || fpu.less exact range.minD
      else fpu.lessEqual exact minusOneD || (rounded.slt 0 && rounded != 0x8000000000000000)
    -- the unsigned branch tests the upper bound first, the signed one the lower
    if range.signed && below then (range.min, c.raiseInvalid)
    else if above then (range.max, c.raiseInvalid)
    else if below then (0, c.raiseInvalid)
    else if !fpu.equal (fpu.ofInt c.rounding rounded.toInt) exact then (rounded, c.raise flagNx)
    else (rounded, c)

/-- Conversion to an integer register; `finish` is the last cast. -/
def fcvtToInt (range : IntRange) (finish : Word → Word)
    (read : Core → BitVec 5 → BitVec w) (toDouble : HostFpu → BitVec w → Word) : Handler := fun bus c i =>
  let src := read c i.rs1
  let exact := toDouble bus.fpu src
  match rmFunc bus.fpu c i.rm exact with
  | none => .ok (reservedRounding c i)
  | some (inter, _, c) =>
    let rounded := bus.fpu.llrint c.rounding inter
    let (res, c) := finalizeFcvt fmt range bus.fpu c src exact rounded
    .ok ⟨{}, c.setGpr i.rd (finish res)⟩

/-- `static_cast<int32_t>` -/
def asInt32 (x : Word) : Word := sextW (low x)

def fcvtToIntS (range : IntRange) (finish : Word → Word) : Handler :=
  fcvtToInt single range finish (fun c r => f32In (c.fpr r)) (fun fpu x => fpu.widen x)

def execFCVTWS : Handler := fcvtToIntS rangeI32 asInt32
def execFCVTWUS : Handler := fcvtToIntS rangeU32 asInt32
def execFCVTLS : Handler := fcvtToIntS rangeI64 id
def execFCVTLUS : Handler := fcvtToIntS rangeU64 id

/-- Conversion from an integer register. -/
def fcvtFromIntS (src : Word → Int) : Handler := fun bus c i =>
  match rmHandle bus.fpu c i.rm (bus.fpu.ofInt c.rounding (src (c.gpr i.rs1))) with
  | none => .ok (reservedRounding c i)
  | some (exact, c) => .ok ⟨{}, c.setFpr i.rd (f32Out (bus.fpu.narrow c.rounding exact).1)⟩

def execFCVTSW : Handler := fcvtFromIntS fun x => (low x).toInt
def execFCVTSWU : Handler := fcvtFromIntS fun x => (low x).toNat
def execFCVTSL : Handler := fcvtFromIntS fun x => x.toInt
def execFCVTSLU : Handler := fcvtFromIntS fun x => x.toNat

def execFMVXW : Handler := fun _ c i => .ok ⟨{}, c.setGpr i.rd (sextW (f32In (c.fpr i.rs1)))⟩
def execFMVWX : Handler := fun _ c i => .ok ⟨{}, c.setFpr i.rd (f32Out (low (c.gpr i.rs1)))⟩

/-! ## Comparison and classification -/

/-- Compare; an operand that `invalid` refuses raises NV and gives 0. -/
def floatCompare {w : Nat} (invalid : BitVec w → Bool) (read : Core → BitVec 5 → BitVec w)
    (holds : HostFpu → BitVec w → BitVec w → Bool) : Handler := fun bus c i =>
  let src1 := read c i.rs1
  let src2 := read c i.rs2
  if invalid src1 || invalid src2 then .ok ⟨{}, (c.raise flagNv).setGpr i.rd 0⟩
  else .ok ⟨{}, c.setGpr i.rd (flag (holds bus.fpu src1 src2))⟩

def compareS (invalid : BitVec 32 → Bool) (holds : HostFpu → Word → Word → Bool) : Handler :=
  floatCompare invalid (fun c r => f32In (c.fpr r)) fun fpu x y => holds fpu (fpu.widen x) (fpu.widen y)

def execFEQS : Handler := compareS single.isSnan fun fpu => fpu.equal
def execFLTS : Handler := compareS single.isNan fun fpu => fpu.less
def execFLES : Handler := compareS single.isNan fun fpu => fpu.lessEqual

/-- The mask of `FCLASS`. -/
def classify (src : BitVec w) : Word :=
  let sign := fmt.signbit src
  if fmt.isInf src then if sign then 1 <<< 0 else 1 <<< 7
  else if fmt.isZero src then if sign then 1 <<< 3 else 1 <<< 4
  else if fmt.isSubnormal src then if sign then 1 <<< 2 else 1 <<< 5
  else if fmt.isNan src then if src &&& fmt.quietBit ≠ 0 then 1 <<< 9 else 1 <<< 8
  else if sign then 1 <<< 1 else 1 <<< 6

def execFCLASSS : Handler := fun _ c i => .ok ⟨{}, c.setGpr i.rd (classify single (f32In (c.fpr i.rs1)))⟩

/-! ## Loads and stores -/

/-- A floating-point load's handler with its registers. -/
def fpLoadTo (n : Nat) (box : Word → Word) (size : Word) (rd rs1 : BitVec 5) (imm : Word) (bus : Bus)
    (c : Core) : Except HostError Executed := do
  let a ← mmioRead bus c (c.gpr rs1 + imm) n
  let ret : ExecReturn := ⟨a.ret.isSuccess, false, size, a.ret.excCode, a.ret.tval⟩
  if a.ret.isSuccess then return ⟨ret, a.core.setFpr rd (box a.val)⟩
  else return ⟨ret, a.core⟩

def fpStoreFrom (n : Nat) (size : Word) (rs1 rs2 : BitVec 5) (imm : Word) (bus : Bus) (c : Core) :
    Except HostError Executed := do
  let a ← mmioWrite bus c (c.gpr rs1 + imm) n ((c.fpr rs2).setWidth (8 * n) |>.setWidth 64)
  return ⟨⟨a.ret.isSuccess, false, size, a.ret.excCode, a.ret.tval⟩, a.core⟩

def execFLW : Handler := fun bus c i => fpLoadTo 4 (fun v => f32Out (low v)) 4 i.rd i.rs1 i.imm bus c
def execFSW : Handler := fun bus c i => fpStoreFrom 4 4 i.rs1 i.rs2 i.imm bus c

end Rv64Vm
