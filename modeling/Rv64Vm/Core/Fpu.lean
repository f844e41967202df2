import Rv64Vm.Core.Types

/-! # The host's floating-point unit

The F and D handlers compute with the host's `float` and `double`. Arithmetic is
a parameter; what the source does with bit patterns (classification, signs, NaN
boxing) is defined on them.
-/

namespace Rv64Vm

/-- The host's rounding mode, as set by `fesetround`. -/
inductive Rounding where
  | nearest
  | towardZero
  | downward
  | upward
  deriving DecidableEq, Repr

/-- Exceptions raised by an operation, in the order of `fflags`: NV DZ OF UF NX. -/
abbrev Raised := BitVec 5

/-- Operations on the bit patterns of `double`, and of `float` where 32 bits wide. -/
structure HostFpu where
  add : Rounding → Word → Word → Word × Raised
  sub : Rounding → Word → Word → Word × Raised
  mul : Rounding → Word → Word → Word × Raised
  div : Rounding → Word → Word → Word × Raised
  fma : Rounding → Word → Word → Word → Word × Raised
  sqrt : Rounding → Word → Word × Raised
  /-- `(double)sqrt(x)` of a `float` -/
  sqrtFloat : Rounding → BitVec 32 → Word
  /-- `std::round` -/
  round : Word → Word × Raised
  /-- `static_cast<float>` -/
  narrow : Rounding → Word → BitVec 32 × Raised
  /-- `static_cast<double>` of a `float` -/
  widen : BitVec 32 → Word
  llrint : Rounding → Word → Word
  ofInt : Rounding → Int → Word
  less : Word → Word → Bool
  lessEqual : Word → Word → Bool
  equal : Word → Word → Bool

/-- The layout of an IEEE format. -/
structure FloatFormat (w : Nat) where
  expMask : BitVec w
  fracMask : BitVec w
  quietBit : BitVec w
  signMask : BitVec w
  canonicalNan : BitVec w

def single : FloatFormat 32 := ⟨0x7F800000, 0x007FFFFF, 0x00400000, 0x80000000, 0x7FC00000⟩

def double : FloatFormat 64 :=
  ⟨0x7FF0000000000000, 0x000FFFFFFFFFFFFF, 0x0008000000000000, 0x8000000000000000, 0x7FF8000000000000⟩

namespace FloatFormat

variable {w : Nat} (f : FloatFormat w) (x y : BitVec w)

def isNan : Bool := x &&& f.expMask == f.expMask && x &&& f.fracMask != 0
def isInf : Bool := x &&& f.expMask == f.expMask && x &&& f.fracMask == 0
def isZero : Bool := x &&& ~~~f.signMask == 0
def isSubnormal : Bool := x &&& f.expMask == 0 && x &&& f.fracMask != 0
def signbit : Bool := x &&& f.signMask != 0

def isSnan : Bool := f.isNan x && x &&& f.quietBit == 0

/-- The unary minus. -/
def neg : BitVec w := x ^^^ f.signMask

/-- `std::copysign(x, y)` -/
def copysign : BitVec w := (x &&& ~~~f.signMask) ||| (y &&& f.signMask)

end FloatFormat

/-- `f32_in`: the low half of a register, boxed or not. -/
def f32In (reg : Word) : BitVec 32 := reg.setWidth 32

/-- `f32_out`: NaN boxing. -/
def f32Out (val : BitVec 32) : Word := 0xFFFFFFFF00000000 ||| val.setWidth 64

end Rv64Vm
