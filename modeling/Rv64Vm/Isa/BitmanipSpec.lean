import Rv64Vm.Isa.Manual

/-! # The bit-manipulation extensions in the manual

Zba, Zbb and Zbs: the instructions by their operands, their encodings and the values
they have, and that the loops and shifts of the source compute such values.
-/

namespace Rv64Vm.Bitmanip

open Lib

/-- Two source registers. -/
inductive Binary where
  | addUw | sh1add | sh1addUw | sh2add | sh2addUw | sh3add | sh3addUw
  | andn | orn | xnor | max | maxu | min | minu
  | rol | rolw | ror | rorw
  | bclr | bext | binv | bset
  deriving DecidableEq, Repr

/-- One source register. -/
inductive Unary where
  | clz | clzw | ctz | ctzw | cpop | cpopw | sextB | sextH | zextH | orcB | rev8
  deriving DecidableEq, Repr

/-- A source register and a shift amount. -/
inductive Immediate where
  | slliUw | rori | roriw | bclri | bexti | binvi | bseti
  deriving DecidableEq, Repr

inductive Operation where
  | binary (op : Binary)
  | unary (op : Unary)
  | immediate (op : Immediate)
  deriving DecidableEq, Repr

/-! ## Encodings -/

open Encoding in
def Binary.encoding : Binary → Encoding
  | .addUw => withFunct7 opReg32 0b000 0b0000100
  | .sh1add => withFunct7 opReg 0b010 0b0010000
  | .sh1addUw => withFunct7 opReg32 0b010 0b0010000
  | .sh2add => withFunct7 opReg 0b100 0b0010000
  | .sh2addUw => withFunct7 opReg32 0b100 0b0010000
  | .sh3add => withFunct7 opReg 0b110 0b0010000
  | .sh3addUw => withFunct7 opReg32 0b110 0b0010000
  | .andn => withFunct7 opReg 0b111 0b0100000
  | .orn => withFunct7 opReg 0b110 0b0100000
  | .xnor => withFunct7 opReg 0b100 0b0100000
  | .max => withFunct7 opReg 0b110 0b0000101
  | .maxu => withFunct7 opReg 0b111 0b0000101
  | .min => withFunct7 opReg 0b100 0b0000101
  | .minu => withFunct7 opReg 0b101 0b0000101
  | .rol => withFunct7 opReg 0b001 0b0110000
  | .rolw => withFunct7 opReg32 0b001 0b0110000
  | .ror => withFunct7 opReg 0b101 0b0110000
  | .rorw => withFunct7 opReg32 0b101 0b0110000
  | .bclr => withFunct7 opReg 0b001 0b0100100
  | .bext => withFunct7 opReg 0b101 0b0100100
  | .binv => withFunct7 opReg 0b001 0b0110100
  | .bset => withFunct7 opReg 0b001 0b0010100

open Encoding in
def Unary.encoding : Unary → Encoding
  | .clz => withFunct12 opImm 0b001 0b011000000000
  | .clzw => withFunct12 opImm32 0b001 0b011000000000
  | .ctz => withFunct12 opImm 0b001 0b011000000001
  | .ctzw => withFunct12 opImm32 0b001 0b011000000001
  | .cpop => withFunct12 opImm 0b001 0b011000000010
  | .cpopw => withFunct12 opImm32 0b001 0b011000000010
  | .sextB => withFunct12 opImm 0b001 0b011000000100
  | .sextH => withFunct12 opImm 0b001 0b011000000101
  | .zextH => withFunct12 opReg32 0b100 0b000010000000
  | .orcB => withFunct12 opImm 0b101 0b001010000111
  | .rev8 => withFunct12 opImm 0b101 0b011010111000

open Encoding in
def Immediate.encoding : Immediate → Encoding
  | .slliUw => withFunct6 opImm32 0b001 0b000010
  | .rori => withFunct6 opImm 0b101 0b011000
  -- a five-bit amount: the bit above it is part of the function field
  | .roriw => withFunct7 opImm32 0b101 0b0110000
  | .bclri => withFunct6 opImm 0b001 0b010010
  | .bexti => withFunct6 opImm 0b101 0b010010
  | .binvi => withFunct6 opImm 0b001 0b011010
  | .bseti => withFunct6 opImm 0b001 0b001010

def Operation.encoding : Operation → Encoding
  | .binary op => op.encoding
  | .unary op => op.encoding
  | .immediate op => op.encoding

/-! ## Values -/

def zext32 (a : Word) : Word := (a.extractLsb' 0 32).setWidth 64

def Binary.value (a b : Word) : Binary → Word
  | .addUw => zext32 a + b
  | .sh1add => (a <<< 1) + b
  | .sh1addUw => (zext32 a <<< 1) + b
  | .sh2add => (a <<< 2) + b
  | .sh2addUw => (zext32 a <<< 2) + b
  | .sh3add => (a <<< 3) + b
  | .sh3addUw => (zext32 a <<< 3) + b
  | .andn => a &&& ~~~b
  | .orn => a ||| ~~~b
  | .xnor => ~~~(a ^^^ b)
  | .max => if a.toInt < b.toInt then b else a
  | .maxu => if a.toNat < b.toNat then b else a
  | .min => if a.toInt < b.toInt then a else b
  | .minu => if a.toNat < b.toNat then a else b
  | .rol => a.rotateLeft (shiftAmount b)
  | .rolw => ((a.extractLsb' 0 32).rotateLeft (shiftAmountW b)).signExtend 64
  | .ror => a.rotateRight (shiftAmount b)
  | .rorw => ((a.extractLsb' 0 32).rotateRight (shiftAmountW b)).signExtend 64
  | .bclr => a &&& ~~~BitVec.twoPow 64 (shiftAmount b)
  | .bext => if a.getLsbD (shiftAmount b) then 1 else 0
  | .binv => a ^^^ BitVec.twoPow 64 (shiftAmount b)
  | .bset => a ||| BitVec.twoPow 64 (shiftAmount b)

def Unary.value (a : Word) : Unary → Word
  | .clz => a.clz
  | .clzw => (a.extractLsb' 0 32).clz.setWidth 64
  | .ctz => a.ctz
  | .ctzw => (a.extractLsb' 0 32).ctz.setWidth 64
  | .cpop => a.cpop
  | .cpopw => (a.extractLsb' 0 32).cpop.setWidth 64
  | .sextB => (a.extractLsb' 0 8).signExtend 64
  | .sextH => (a.extractLsb' 0 16).signExtend 64
  | .zextH => (a.extractLsb' 0 16).setWidth 64
  -- each byte becomes all ones, unless it is zero
  | .orcB => loadLE 64 (fun i => if byteAt a i = 0 then 0 else 0xFF) 8
  | .rev8 => loadLE 64 (fun i => byteAt a (7 - i)) 8

def Immediate.value (a : Word) (shamt : Nat) : Immediate → Word
  | .slliUw => zext32 a <<< shamt
  | .rori => a.rotateRight shamt
  | .roriw => ((a.extractLsb' 0 32).rotateRight shamt).signExtend 64
  | .bclri => a &&& ~~~BitVec.twoPow 64 shamt
  | .bexti => if a.getLsbD shamt then 1 else 0
  | .binvi => a ^^^ BitVec.twoPow 64 shamt
  | .bseti => a ||| BitVec.twoPow 64 shamt

/-- The shift amount in a word. -/
def Immediate.shamt (w : Inst) : Immediate → Nat
  | .roriw => (w.extractLsb' 20 5).toNat
  | _ => (w.extractLsb' 20 6).toNat

/-- The value of an instruction in a state. -/
def Operation.value (c : Core) (w : Inst) : Operation → Word
  | .binary op => op.value (c.gpr (dRs1 w)) (c.gpr (dRs2 w))
  | .unary op => op.value (c.gpr (dRs1 w))
  | .immediate op => op.value (c.gpr (dRs1 w)) (op.shamt w)

/-! ## Counting -/

section Counting

variable {width : Nat} (x : BitVec width)

theorem setWidth_ofNat_count (narrow : width ≤ 64) {n : Nat} (small : n ≤ width) :
    (BitVec.ofNat width n).setWidth 64 = BitVec.ofNat 64 n := by
  apply BitVec.eq_of_toNat_eq
  have fits : n < 2 ^ width := lt_of_le_of_lt small Nat.lt_two_pow_self
  have wide : 2 ^ width ≤ 2 ^ 64 := Nat.pow_le_pow_right (by decide) narrow
  rw [BitVec.toNat_setWidth, BitVec.toNat_ofNat, BitVec.toNat_ofNat, Nat.mod_eq_of_lt fits]

/-- The loop of `CLZ` from position `top` on. -/
theorem sub_highestBit (narrow : width ≤ 64) {top : Nat} (inside : top < width) :
    BitVec.ofNat 64 (width - 1) - highestBit (x.setWidth 64) top = (x.clzAuxRec top).setWidth 64 := by
  induction top with
  | zero =>
    have low : (x.setWidth 64).getLsbD 0 = x.getLsbD 0 := by simp
    rw [highestBit, low, BitVec.clzAuxRec_zero]
    cases x.getLsbD 0 with
    | false =>
      rw [if_neg Bool.false_ne_true, if_neg Bool.false_ne_true, setWidth_ofNat_count narrow le_rfl]
      apply BitVec.eq_of_toNat_eq
      rw [BitVec.toNat_sub, BitVec.toNat_ofNat, BitVec.toNat_ofNat]
      change (2 ^ 64 - (2 ^ 64 - 1) + _) % 2 ^ 64 = _
      omega
    | true =>
      rw [if_pos rfl, if_pos rfl, setWidth_ofNat_count narrow (Nat.sub_le ..)]
      exact BitVec.sub_zero _
  | succ top ih =>
    have here : (x.setWidth 64).getLsbD (top + 1) = x.getLsbD (top + 1) := by
      rw [BitVec.getLsbD_setWidth, decide_eq_true (by omega), Bool.true_and]
    rw [highestBit, here, BitVec.clzAuxRec_succ]
    cases x.getLsbD (top + 1) with
    | false => exact ih (by omega)
    | true =>
      rw [if_pos rfl, if_pos rfl, setWidth_ofNat_count narrow (by omega)]
      apply BitVec.eq_of_toNat_eq
      rw [BitVec.toNat_sub, BitVec.toNat_ofNat, BitVec.toNat_ofNat, BitVec.toNat_ofNat]
      omega

/-- The loop of `CTZ` over the last `n + 1` positions. -/
theorem lowestBit_eq (narrow : width ≤ 64) {n : Nat} (inside : n < width) :
    lowestBit (x.setWidth 64) (width - 1 - n) (n + 1) = (x.reverse.clzAuxRec n).setWidth 64 := by
  have mirrored {i : Nat} (inside : i < width) : x.reverse.getLsbD i = (x.setWidth 64).getLsbD (width - 1 - i) := by
    rw [BitVec.getLsbD_reverse, BitVec.getMsbD, BitVec.getLsbD_setWidth, decide_eq_true inside,
      decide_eq_true (by omega : width - 1 - i < 64)]
  induction n with
  | zero =>
    rw [lowestBit, BitVec.clzAuxRec_zero, mirrored inside]
    cases (x.setWidth 64).getLsbD (width - 1 - 0) with
    | false =>
      rw [if_neg Bool.false_ne_true, if_neg Bool.false_ne_true, setWidth_ofNat_count narrow le_rfl, lowestBit,
        (by omega : width - 1 - 0 + 1 = width)]
    | true => rw [if_pos rfl, if_pos rfl, setWidth_ofNat_count narrow (by omega), Nat.sub_zero]
  | succ n ih =>
    rw [lowestBit, BitVec.clzAuxRec_succ, mirrored inside]
    cases (x.setWidth 64).getLsbD (width - 1 - (n + 1)) with
    | false =>
      rw [if_neg Bool.false_ne_true, if_neg Bool.false_ne_true, ← ih (by omega),
        (by omega : width - 1 - (n + 1) + 1 = width - 1 - n)]
    | true => rw [if_pos rfl, if_pos rfl, setWidth_ofNat_count narrow (by omega)]

/-- The loop of `CPOP` over the first `n` positions. -/
theorem countBits_eq (narrow : width ≤ 64) {n : Nat} (inside : n ≤ width) :
    countBits (x.setWidth 64) n = BitVec.ofNat 64 (x.cpopNatRec n 0) := by
  induction n with
  | zero => rfl
  | succ n ih =>
    have here : (x.setWidth 64).getLsbD n = x.getLsbD n := by
      rw [BitVec.getLsbD_setWidth, decide_eq_true (by omega), Bool.true_and]
    rw [countBits, ih (by omega), here, BitVec.cpopNatRec_succ, BitVec.cpopNatRec_add, BitVec.ofNat_add]
    cases x.getLsbD n with
    | false => rfl
    | true => rfl

end Counting

/-! ## Rotations -/

theorem zext32_eq (a : Word) : zext32 a = zextW a := by rw [zext32, extract_low, zextW]

theorem toNat_hostCount {n : Word} (small : n.toNat < 64) : (hostCount n).toNat = n.toNat := by
  rw [hostCount, toNat_and_63, Nat.mod_eq_of_lt small]

theorem toNat_hostCount_sub {width n : Word} (le : n.toNat ≤ width.toNat) :
    (hostCount (width - n)).toNat = (width.toNat - n.toNat) % 64 := by
  rw [hostCount, toNat_and_63, BitVec.toNat_sub_of_le (BitVec.le_def.mpr le)]

/-- A full-width shift of the host is one by 0, which is what a rotation by 0 needs. -/
theorem rotateLeft_eq {a n : Word} (small : n.toNat < 64) : rotateLeft 64 a n = a.rotateLeft n.toNat := by
  have other : (hostCount (64 - n)).toNat = (64 - n.toNat) % 64 := toNat_hostCount_sub small.le
  rw [rotateLeft, BitVec.rotateLeft_def, BitVec.shiftLeft_eq', BitVec.ushiftRight_eq', toNat_hostCount small, other,
    Nat.mod_eq_of_lt small]
  cases zero : n.toNat with
  | zero => simp [BitVec.ushiftRight_eq_zero]
  | succ k => rw [Nat.mod_eq_of_lt (by omega)]

theorem rotateRight_eq {a n : Word} (small : n.toNat < 64) : rotateRight 64 a n = a.rotateRight n.toNat := by
  have other : (hostCount (64 - n)).toNat = (64 - n.toNat) % 64 := toNat_hostCount_sub small.le
  rw [rotateRight, BitVec.rotateRight_def, BitVec.shiftLeft_eq', BitVec.ushiftRight_eq', toNat_hostCount small, other,
    Nat.mod_eq_of_lt small]
  cases zero : n.toNat with
  | zero => simp
  | succ k => rw [Nat.mod_eq_of_lt (by omega)]

theorem low_or (x y : Word) : low (x ||| y) = low x ||| low y := BitVec.setWidth_or

section Narrow

variable {a n : Word} (small : n.toNat < 32)
include small

theorem low_shifts : low (zextW a <<< hostCount n) = low a <<< n.toNat ∧
    low (zextW a >>> hostCount n) = low a >>> n.toNat ∧
    low (zextW a <<< hostCount (32 - n)) = low a <<< (32 - n.toNat) ∧
    low (zextW a >>> hostCount (32 - n)) = low a >>> (32 - n.toNat) := by
  have here : (hostCount n).toNat = n.toNat := toNat_hostCount (by omega)
  have other : (hostCount (32 - n)).toNat = 32 - n.toNat := by
    have count : (hostCount (32 - n)).toNat = (32 - n.toNat) % 64 := toNat_hostCount_sub small.le
    rw [count, Nat.mod_eq_of_lt (by omega)]
  have left (k : Nat) : low (zextW a <<< k) = low a <<< k := by
    apply BitVec.eq_of_getLsbD_eq
    intro i inside
    simp only [low, zextW, BitVec.getLsbD_setWidth, BitVec.getLsbD_shiftLeft]
    grind
  have right (k : Nat) : low (zextW a >>> k) = low a >>> k := by
    apply BitVec.eq_of_getLsbD_eq
    intro i inside
    simp only [low, zextW, BitVec.getLsbD_setWidth, BitVec.getLsbD_ushiftRight]
    grind
  simp only [BitVec.shiftLeft_eq', BitVec.ushiftRight_eq', here, other, left, right, and_self]

theorem low_rotateLeft : low (rotateLeft 32 (zextW a) n) = (low a).rotateLeft n.toNat := by
  rw [rotateLeft, low_or, (low_shifts small).1, (low_shifts small).2.2.2, BitVec.rotateLeft_def,
    Nat.mod_eq_of_lt small]

theorem low_rotateRight : low (rotateRight 32 (zextW a) n) = (low a).rotateRight n.toNat := by
  rw [rotateRight, low_or, (low_shifts small).2.1, (low_shifts small).2.2.1, BitVec.rotateRight_def,
    Nat.mod_eq_of_lt small]

end Narrow

/-! ## Bytes -/

theorem and_255 (x : Word) (n : Nat) : (x >>> (8 * n)) &&& 0xFF = (byteAt x n).setWidth 64 := by
  apply BitVec.eq_of_toNat_eq
  rw [BitVec.toNat_and, BitVec.toNat_ushiftRight, byteAt, BitVec.toNat_setWidth, BitVec.extractLsb'_toNat]
  have mask : x.toNat >>> (8 * n) &&& 0xFF = x.toNat >>> (8 * n) % 2 ^ 8 := Nat.and_two_pow_sub_one_eq_mod _ 8
  refine mask.trans ?_
  omega

theorem orcBytes_eq (x : Word) (n : Nat) :
    orcBytes x n = loadLE 64 (fun i => if byteAt x i = 0 then 0 else 0xFF) n := by
  induction n with
  | zero => rfl
  | succ n ih =>
    rw [orcBytes, loadLE, ih, and_255]
    congr 2
    by_cases zero : byteAt x n = 0
    · rw [if_pos zero, zero]
      rfl
    · have wide : (byteAt x n).setWidth 64 ≠ 0 := by
        intro same
        apply zero
        have narrow := congrArg (BitVec.setWidth 8) same
        rwa [BitVec.setWidth_setWidth_of_le _ (by decide), BitVec.setWidth_eq] at narrow
      rw [if_neg zero, if_neg wide]
      rfl

theorem byteAt_placed (b : Byte) {k i : Nat} (inside : i < 8) :
    byteAt (b.setWidth 64 <<< (k * 8)) i = if i = k then b else 0 := by
  apply BitVec.eq_of_getLsbD_eq
  intro j small
  rw [byteAt, BitVec.getLsbD_extractLsb', BitVec.getLsbD_shiftLeft, BitVec.getLsbD_setWidth]
  by_cases same : i = k
  · have place : 8 * i + j - k * 8 = j := by omega
    rw [if_pos same, place]
    grind
  · rw [if_neg same]
    have outside : 8 * i + j < k * 8 ∨ 8 ≤ 8 * i + j - k * 8 := by omega
    rcases outside with below | above
    · simp [below]
    · simp [BitVec.getLsbD_of_ge _ _ above]

/-- The loop of `REV8` has filled the topmost `n` bytes. -/
theorem byteAt_reversedBytes (x : Word) {n i : Nat} (turns : n ≤ 8) (inside : i < 8) :
    byteAt (reversedBytes x n) i = if 7 - i < n then byteAt x (7 - i) else 0 := by
  induction n with
  | zero => exact byteAt_zero 64 i
  | succ n ih =>
    have masked : (x >>> (n * 8)) &&& 0xFF = (byteAt x n).setWidth 64 := by rw [Nat.mul_comm, and_255]
    have split (p q : Word) : byteAt (p ||| q) i = byteAt p i ||| byteAt q i := BitVec.extractLsb'_or
    rw [reversedBytes, masked, split, ih (by omega), byteAt_placed _ inside]
    by_cases here : i = 8 - 1 - n
    · have last : 7 - i = n := by omega
      simp [here.symm, last]
    · have others : 7 - i < n ↔ 7 - i < n + 1 := by omega
      simp [here, others]

theorem reversedBytes_eq (x : Word) : reversedBytes x 8 = loadLE 64 (fun i => byteAt x (7 - i)) 8 := by
  apply eq_of_byteAt (n := 8) le_rfl
  intro i inside
  rw [byteAt_reversedBytes x le_rfl inside, byteAt_loadLE _ inside le_rfl, if_pos (by omega)]

end Rv64Vm.Bitmanip
