import Rv64Vm.Isa.BitmanipSpec

/-! # Bit-manipulation instructions against the manual

The instructions with register operands compute the manual's values, `ROL` and `ROR` by
a shift that C++ does not define when they rotate by 0. Those with a shift amount are
registered without an immediate decoder and run with 0 in its place.
-/

namespace Rv64Vm.Bitmanip

open Lib Encoding

/-! ## The table -/

def Binary.handler : Binary → Handler
  | .addUw => execADDUW
  | .sh1add => execSH1ADD
  | .sh1addUw => execSH1ADDUW
  | .sh2add => execSH2ADD
  | .sh2addUw => execSH2ADDUW
  | .sh3add => execSH3ADD
  | .sh3addUw => execSH3ADDUW
  | .andn => execANDN
  | .orn => execORN
  | .xnor => execXNOR
  | .max => execMAX
  | .maxu => execMAXU
  | .min => execMIN
  | .minu => execMINU
  | .rol => execROL
  | .rolw => execROLW
  | .ror => execROR
  | .rorw => execRORW
  | .bclr => execBCLR
  | .bext => execBEXT
  | .binv => execBINV
  | .bset => execBSET

def Unary.handler : Unary → Handler
  | .clz => execCLZ
  | .clzw => execCLZW
  | .ctz => execCTZ
  | .ctzw => execCTZW
  | .cpop => execCPOP
  | .cpopw => execCPOPW
  | .sextB => execSEXTB
  | .sextH => execSEXTH
  | .zextH => execZEXTH
  | .orcB => execORCB
  | .rev8 => execREV8

def Immediate.handler : Immediate → Handler
  | .slliUw => execSLLIUW
  | .rori => execRORI
  | .roriw => execRORIW
  | .bclri => execBCLRI
  | .bexti => execBEXTI
  | .binvi => execBINVI
  | .bseti => execBSETI

theorem Binary.held (op : Binary) : op.encoding.Held op.handler none := by
  cases op with
  | addUw => exact held_at mem_zba 0 rfl
  | sh1add => exact held_at mem_zba 1 rfl
  | sh1addUw => exact held_at mem_zba 2 rfl
  | sh2add => exact held_at mem_zba 3 rfl
  | sh2addUw => exact held_at mem_zba 4 rfl
  | sh3add => exact held_at mem_zba 5 rfl
  | sh3addUw => exact held_at mem_zba 6 rfl
  | andn => exact held_at mem_zbb 0 rfl
  | orn => exact held_at mem_zbb 1 rfl
  | xnor => exact held_at mem_zbb 2 rfl
  | max => exact held_at mem_zbb 9 rfl
  | maxu => exact held_at mem_zbb 10 rfl
  | min => exact held_at mem_zbb 11 rfl
  | minu => exact held_at mem_zbb 12 rfl
  | rol => exact held_at mem_zbb 16 rfl
  | rolw => exact held_at mem_zbb 17 rfl
  | ror => exact held_at mem_zbb 18 rfl
  | rorw => exact held_at mem_zbb 21 rfl
  | bclr => exact held_at mem_zbs 0 rfl
  | bext => exact held_at mem_zbs 2 rfl
  | binv => exact held_at mem_zbs 4 rfl
  | bset => exact held_at mem_zbs 6 rfl

theorem Unary.held (op : Unary) : op.encoding.Held op.handler none := by
  cases op with
  | clz => exact held_at mem_zbb 3 rfl
  | clzw => exact held_at mem_zbb 4 rfl
  | ctz => exact held_at mem_zbb 5 rfl
  | ctzw => exact held_at mem_zbb 6 rfl
  | cpop => exact held_at mem_zbb 7 rfl
  | cpopw => exact held_at mem_zbb 8 rfl
  | sextB => exact held_at mem_zbb 13 rfl
  | sextH => exact held_at mem_zbb 14 rfl
  | zextH => exact held_at mem_zbb 15 rfl
  | orcB => exact held_at mem_zbb 22 rfl
  | rev8 => exact held_at mem_zbb 23 rfl

/-- No immediate decoder: the decoder leaves 0. -/
theorem Immediate.held (op : Immediate) : op.encoding.Held op.handler none := by
  cases op with
  | slliUw => exact held_at mem_zba 7 rfl
  | rori => exact held_at mem_zbb 19 rfl
  | roriw => exact held_at mem_zbb 20 rfl
  | bclri => exact held_at mem_zbs 1 rfl
  | bexti => exact held_at mem_zbs 3 rfl
  | binvi => exact held_at mem_zbs 5 rfl
  | bseti => exact held_at mem_zbs 7 rfl

/-! ## Register operands -/

section Values

variable (a b : Word)

theorem index_shiftLeft : (1 : Word) <<< (b &&& 0x3F) = BitVec.twoPow 64 (shiftAmount b) := by
  rw [BitVec.shiftLeft_eq', shiftAmount_eq]
  rfl

theorem bext_eq (index : Word) : bext a index = if a.getLsbD index.toNat then 1 else 0 := by
  have lowest : (a >>> index.toNat) &&& 1 = (BitVec.ofBool ((a >>> index.toNat).getLsbD 0)).setWidth 64 :=
    BitVec.and_one_eq_setWidth_ofBool_getLsbD
  rw [bext, BitVec.ushiftRight_eq', lowest, BitVec.getLsbD_ushiftRight, Nat.add_zero]
  cases a.getLsbD index.toNat with
  | false => rfl
  | true => rfl

theorem rol_eq : rotateLeft 64 a (b &&& 0x3F) = a.rotateLeft (shiftAmount b) := by
  rw [← shiftAmount_eq]
  exact rotateLeft_eq (shiftAmount_eq b ▸ shiftAmount_lt b)

theorem ror_eq : rotateRight 64 a (b &&& 0x3F) = a.rotateRight (shiftAmount b) := by
  rw [← shiftAmount_eq]
  exact rotateRight_eq (shiftAmount_eq b ▸ shiftAmount_lt b)

theorem rolw_eq : sextW (low (rotateLeft 32 (zextW a) (b &&& 0x1F))) =
    ((a.extractLsb' 0 32).rotateLeft (shiftAmountW b)).signExtend 64 := by
  rw [low_rotateLeft (shiftAmountW_eq b ▸ shiftAmountW_lt b), shiftAmountW_eq, extract_low, sextW]

theorem rorw_eq : sextW (low (rotateRight 32 (zextW a) (b &&& 0x1F))) =
    ((a.extractLsb' 0 32).rotateRight (shiftAmountW b)).signExtend 64 := by
  rw [low_rotateRight (shiftAmountW_eq b ▸ shiftAmountW_lt b), shiftAmountW_eq, extract_low, sextW]

theorem maxS_eq : maxS a b = if a.toInt < b.toInt then b else a := by
  rw [maxS, BitVec.slt_eq_decide]
  simp only [decide_eq_true_eq]

theorem minS_eq : minS a b = if a.toInt < b.toInt then a else b := by
  rw [minS, BitVec.slt_eq_decide]
  simp only [decide_eq_true_eq]
  rcases lt_trichotomy a.toInt b.toInt with less | same | more
  · rw [if_neg (not_lt.mpr less.le), if_pos less]
  · rw [if_neg (by omega), if_neg (by omega), BitVec.eq_of_toInt_eq same]
  · rw [if_pos more, if_neg (not_lt.mpr more.le)]

theorem minU_eq : minU a b = if a.toNat < b.toNat then a else b := by
  rw [minU]
  simp only [BitVec.lt_def]
  rcases lt_trichotomy a.toNat b.toNat with less | same | more
  · rw [if_neg (not_lt.mpr less.le), if_pos less]
  · rw [if_neg (by omega), if_neg (by omega), BitVec.eq_of_toNat_eq same]
  · rw [if_pos more, if_neg (not_lt.mpr more.le)]

end Values

theorem Binary.handler_eq (op : Binary) (bus : Bus) (c : Core) (i : InstructionData) :
    op.handler bus c i = .ok ⟨{}, c.setGpr i.rd (op.value (c.gpr i.rs1) (c.gpr i.rs2))⟩ := by
  cases op with
  | addUw | sh1addUw | sh2addUw | sh3addUw =>
    refine written_congr ?_
    rw [Binary.value, zext32_eq, BitVec.add_comm]
  | sh1add | sh2add | sh3add =>
    refine written_congr ?_
    rw [Binary.value, BitVec.add_comm]
  | andn | orn | xnor | maxu => rfl
  | max => exact written_congr (maxS_eq ..)
  | min => exact written_congr (minS_eq ..)
  | minu => exact written_congr (minU_eq ..)
  | rol => exact written_congr (rol_eq ..)
  | ror => exact written_congr (ror_eq ..)
  | rolw => exact written_congr (rolw_eq ..)
  | rorw => exact written_congr (rorw_eq ..)
  | bclr => exact written_congr (congrArg (c.gpr i.rs1 &&& ~~~·) (index_shiftLeft _))
  | bext =>
    refine written_congr ((bext_eq ..).trans ?_)
    rw [Binary.value, shiftAmount_eq]
  | binv => exact written_congr (congrArg (c.gpr i.rs1 ^^^ ·) (index_shiftLeft _))
  | bset => exact written_congr (congrArg (c.gpr i.rs1 ||| ·) (index_shiftLeft _))

theorem Unary.handler_eq (op : Unary) (bus : Bus) (c : Core) (i : InstructionData) :
    op.handler bus c i = .ok ⟨{}, c.setGpr i.rd (op.value (c.gpr i.rs1))⟩ := by
  cases op with
  | clz =>
    refine written_congr ?_
    generalize c.gpr i.rs1 = a
    have loop := sub_highestBit a le_rfl (by decide : 63 < 64)
    rwa [BitVec.setWidth_eq, BitVec.setWidth_eq] at loop
  | clzw =>
    refine written_congr ?_
    generalize c.gpr i.rs1 = a
    rw [Unary.value, extract_low]
    exact sub_highestBit (low a) (by decide) (by decide : 31 < 32)
  | ctz =>
    refine written_congr ?_
    generalize c.gpr i.rs1 = a
    have loop := lowestBit_eq a le_rfl (by decide : 63 < 64)
    rwa [BitVec.setWidth_eq, BitVec.setWidth_eq] at loop
  | ctzw =>
    refine written_congr ?_
    generalize c.gpr i.rs1 = a
    rw [Unary.value, extract_low]
    exact lowestBit_eq (low a) (by decide) (by decide : 31 < 32)
  | cpop =>
    refine written_congr ?_
    generalize c.gpr i.rs1 = a
    have loop := countBits_eq a le_rfl (le_refl 64)
    rwa [BitVec.setWidth_eq] at loop
  | cpopw =>
    refine written_congr ?_
    generalize c.gpr i.rs1 = a
    have most : (low a).cpopNatRec 32 0 ≤ 32 := by
      have bound : (low a).cpopNatRec 32 0 ≤ 0 + 32 := BitVec.cpopNatRec_le _
      omega
    rw [Unary.value, extract_low, BitVec.cpop, setWidth_ofNat_count (by decide) most]
    exact countBits_eq (low a) (by decide) (le_refl 32)
  | sextB | sextH => rfl
  | zextH =>
    refine written_congr ?_
    generalize c.gpr i.rs1 = a
    apply BitVec.eq_of_toNat_eq
    rw [Unary.value, BitVec.toNat_and, BitVec.toNat_setWidth, BitVec.extractLsb'_toNat, Nat.shiftRight_zero]
    have mask : a.toNat &&& 0xFFFF = a.toNat % 2 ^ 16 := Nat.and_two_pow_sub_one_eq_mod _ 16
    refine mask.trans ?_
    omega
  | orcB => exact written_congr (orcBytes_eq _ 8)
  | rev8 => exact written_congr (reversedBytes_eq _)

/-! ## Shift amounts -/

/-- What the handlers compute with the 0 that stands for the amount. -/
def Immediate.computed (a : Word) : Immediate → Word
  | .slliUw => zext32 a
  | .rori => a
  | .roriw => low a ++ low a
  | .bclri => a &&& ~~~1
  | .bexti => a &&& 1
  | .binvi => a ^^^ 1
  | .bseti => a ||| 1

theorem rotateRight_zero (a : Word) : rotateRight 64 a 0 = a := by
  have full : (hostCount (64 - 0)).toNat = 0 := by decide
  rw [rotateRight, BitVec.shiftLeft_eq', BitVec.ushiftRight_eq', full]
  change a >>> 0 ||| a <<< 0 = a
  rw [BitVec.ushiftRight_zero, BitVec.shiftLeft_zero, BitVec.or_self]

theorem rotateRight_32_zero (a : Word) : rotateRight 32 (zextW a) 0 = low a ++ low a := by
  have half : (hostCount (32 - 0)).toNat = 32 := by decide
  rw [rotateRight, BitVec.shiftLeft_eq', BitVec.ushiftRight_eq', half]
  change zextW a >>> 0 ||| zextW a <<< 32 = low a ++ low a
  rw [BitVec.ushiftRight_zero]
  apply BitVec.eq_of_getLsbD_eq
  intro i inside
  rw [BitVec.getLsbD_or, BitVec.getLsbD_shiftLeft, zextW, BitVec.getLsbD_setWidth, BitVec.getLsbD_setWidth]
  generalize low a = x
  have joined : (x ++ x : Word).getLsbD i = if i < 32 then x.getLsbD i else x.getLsbD (i - 32) :=
    BitVec.getLsbD_append
  grind

theorem Immediate.handler_eq (op : Immediate) (bus : Bus) (c : Core) (w : Inst) :
    op.handler bus c (.ofInst w none) = .ok ⟨{}, c.setGpr (dRd w) (op.computed (c.gpr (dRs1 w)))⟩ := by
  have one : (1 : Word) <<< ((0 : Word) &&& 0x3F) = 1 := by decide
  have least (a : Word) : bext a ((0 : Word) &&& 0x3F) = a &&& 1 := congrArg (· &&& 1) (BitVec.ushiftRight_zero a)
  cases op with
  | slliUw => exact written_congr (BitVec.shiftLeft_zero (zextW _))
  | rori => exact written_congr (rotateRight_zero _)
  | roriw => exact written_congr (rotateRight_32_zero _)
  | bclri => exact written_congr (congrArg (c.gpr (dRs1 w) &&& ~~~·) one)
  | bexti => exact written_congr (least _)
  | binvi => exact written_congr (congrArg (c.gpr (dRs1 w) ^^^ ·) one)
  | bseti => exact written_congr (congrArg (c.gpr (dRs1 w) ||| ·) one)

/-- When that is the manual's value. -/
def Immediate.Agrees (a : Word) (shamt : Nat) : Immediate → Prop
  | .slliUw => shamt = 0 ∨ low a = 0
  | .rori => a.rotateRight shamt = a
  | .roriw => low a = 0 ∨ low a = BitVec.allOnes 32
  | .bclri => shamt = 0 ∨ (a.getLsbD 0 = false ∧ a.getLsbD shamt = false)
  | .bexti => a.getLsbD 0 = a.getLsbD shamt
  | .binvi => shamt = 0
  | .bseti => shamt = 0 ∨ (a.getLsbD 0 = true ∧ a.getLsbD shamt = true)

/-- A word that equals itself shifted has no lowest set bit. -/
theorem shiftLeft_eq_self_iff {width : Nat} {x : BitVec width} {n : Nat} : x <<< n = x ↔ n = 0 ∨ x = 0 := by
  constructor
  · intro same
    by_cases zero : n = 0
    · exact .inl zero
    · right
      apply BitVec.eq_of_getLsbD_eq
      intro i inside
      change x.getLsbD i = (0#_).getLsbD i
      rw [BitVec.getLsbD_zero]
      induction i using Nat.strong_induction_on with
      | _ i ih =>
        rw [← same, BitVec.getLsbD_shiftLeft]
        by_cases below : i < n
        · simp [below]
        · rw [ih (i - n) (by omega) (by omega), Bool.and_false]
  · intro either
    rcases either with rfl | rfl
    · exact BitVec.shiftLeft_zero x
    · exact BitVec.zero_shiftLeft n

section Agrees

variable {a : Word} {n : Nat}

theorem slliUw_agrees : zext32 a = zext32 a <<< n ↔ n = 0 ∨ low a = 0 := by
  have zero : zext32 a = 0 ↔ low a = 0 := by
    constructor
    · intro same
      have narrow := congrArg (BitVec.setWidth 32) same
      rwa [zext32_eq, zextW, BitVec.setWidth_setWidth_of_le _ (by decide), BitVec.setWidth_eq] at narrow
    · intro same
      rw [zext32_eq, zextW, same]
      rfl
  rw [eq_comm, shiftLeft_eq_self_iff, zero]

/-- The low half stands in both halves; the manual repeats the sign bit in the high one. -/
theorem roriw_agrees :
    low a ++ low a = ((a.extractLsb' 0 32).rotateRight n).signExtend 64 ↔ low a = 0 ∨ low a = BitVec.allOnes 32 := by
  rw [extract_low]
  generalize low a = x
  constructor
  · intro same
    have bit (i : Nat) (inside : i < 32) : x.getLsbD i = (x.rotateRight n).msb := by
      have high := congrArg (BitVec.getLsbD · (32 + i)) same
      simp only [BitVec.getLsbD_append, BitVec.getLsbD_signExtend] at high
      grind
    cases sign : (x.rotateRight n).msb with
    | false =>
      left
      apply BitVec.eq_of_getLsbD_eq
      intro i inside
      exact ((bit i inside).trans sign).trans BitVec.getLsbD_zero.symm
    | true =>
      right
      apply BitVec.eq_of_getLsbD_eq
      intro i inside
      rw [bit i inside, sign, BitVec.getLsbD_allOnes, decide_eq_true inside]
  · intro either
    have turned {b : Bool} (all : ∀ i < 32, x.getLsbD i = b) : ∀ i < 32, (x.rotateRight n).getLsbD i = b := by
      intro i inside
      have small : n % 32 < 32 := Nat.mod_lt _ (by decide)
      rw [BitVec.getLsbD_rotateRight]
      by_cases first : i < 32 - n % 32
      · rw [decide_eq_true first, cond_true, all _ (by omega)]
      · rw [decide_eq_false first, cond_false, decide_eq_true inside, Bool.true_and, all _ (by omega)]
    have uniform {b : Bool} (all : ∀ i < 32, x.getLsbD i = b) : x.rotateRight n = x := by
      apply BitVec.eq_of_getLsbD_eq
      intro i inside
      rw [turned all i inside, all i inside]
    rcases either with rfl | rfl
    · rw [uniform (b := false) fun i _ => BitVec.getLsbD_zero]
      decide
    · rw [uniform (b := true) fun i inside => by rw [BitVec.getLsbD_allOnes, decide_eq_true inside]]
      decide

theorem eq_iff_bits {x y : Word} : x = y ↔ ∀ i < 64, x.getLsbD i = y.getLsbD i := by
  constructor
  · intro same i _
    rw [same]
  · intro same
    exact BitVec.eq_of_getLsbD_eq same

variable {m : Nat} (left : m < 64) (right : n < 64)
include left right

theorem clear_eq_iff : a &&& ~~~BitVec.twoPow 64 m = a &&& ~~~BitVec.twoPow 64 n ↔
    n = m ∨ (a.getLsbD m = false ∧ a.getLsbD n = false) := by
  rw [eq_iff_bits]
  simp only [BitVec.getLsbD_and, BitVec.getLsbD_not, BitVec.getLsbD_twoPow]
  grind

theorem set_eq_iff : a ||| BitVec.twoPow 64 m = a ||| BitVec.twoPow 64 n ↔
    n = m ∨ (a.getLsbD m = true ∧ a.getLsbD n = true) := by
  rw [eq_iff_bits]
  simp only [BitVec.getLsbD_or, BitVec.getLsbD_twoPow]
  grind

theorem invert_eq_iff : a ^^^ BitVec.twoPow 64 m = a ^^^ BitVec.twoPow 64 n ↔ n = m := by
  rw [eq_iff_bits]
  simp only [BitVec.getLsbD_xor, BitVec.getLsbD_twoPow]
  grind

end Agrees

theorem Immediate.computed_eq_iff (op : Immediate) (a : Word) {n : Nat} (inside : n < 64) :
    op.computed a = op.value a n ↔ op.Agrees a n := by
  cases op with
  | slliUw => exact slliUw_agrees
  | rori => exact eq_comm
  | roriw => exact roriw_agrees
  | bclri => exact clear_eq_iff (m := 0) (by decide) inside
  | bexti =>
    have least : a &&& 1 = if a.getLsbD 0 then 1 else 0 :=
      (congrArg (· &&& 1) (BitVec.ushiftRight_zero a).symm).trans (bext_eq a 0)
    rw [Immediate.computed, Immediate.value, Immediate.Agrees, least]
    cases a.getLsbD 0 <;> cases a.getLsbD n <;> decide
  | binvi => exact invert_eq_iff (m := 0) (by decide) inside
  | bseti => exact set_eq_iff (m := 0) (by decide) inside

/-! ## All of them -/

/-- The counts of the two shifts of a rotation. -/
def rotationCounts (width n : Word) : List Word := [n, width - n]

/-- The counts that the handler of a rotation evaluates. -/
def Operation.counts (c : Core) (i : InstructionData) : Operation → List Word
  | .binary .rol | .binary .ror => rotationCounts 64 (c.gpr i.rs2 &&& 0x3F)
  | .binary .rolw | .binary .rorw => rotationCounts 32 (c.gpr i.rs2 &&& 0x1F)
  | .immediate .rori => rotationCounts 64 i.imm
  | .immediate .roriw => rotationCounts 32 i.imm
  | _ => []

/-- The word is decoded and run to the manual's value, and no rotation shifts by the register width. -/
structure Operation.Correct (op : Operation) (bus : Bus) (c : Core) (w : Inst) : Prop where
  value : Writes bus c w (op.value c w)
  counts : ∃ k, selected w = some k ∧ ∀ n ∈ op.counts c (decoded w k), n.toNat < 64

/-- What the source's instruction needs of its operands. -/
def Operation.Sound (c : Core) (w : Inst) : Operation → Prop
  | .binary .rol | .binary .ror => shiftAmount (c.gpr (dRs2 w)) ≠ 0
  | .binary _ | .unary _ => True
  | .immediate .rori => False
  | .immediate op => op.Agrees (c.gpr (dRs1 w)) (op.shamt w)

section Counts

variable {n : Word}

theorem counts_64_iff (small : n.toNat < 64) : (∀ k ∈ rotationCounts 64 n, k.toNat < 64) ↔ n.toNat ≠ 0 := by
  have other : (64 - n).toNat = 64 - n.toNat := BitVec.toNat_sub_of_le (BitVec.le_def.mpr small.le)
  simp only [rotationCounts, List.forall_mem_cons, List.not_mem_nil, false_implies, implies_true, and_true, other]
  omega

theorem counts_32 (small : n.toNat < 32) : ∀ k ∈ rotationCounts 32 n, k.toNat < 64 := by
  have other : (32 - n).toNat = 32 - n.toNat := BitVec.toNat_sub_of_le (BitVec.le_def.mpr small.le)
  simp only [rotationCounts, List.forall_mem_cons, List.not_mem_nil, false_implies, implies_true, and_true, other]
  omega

end Counts

section Correct

variable {w : Inst} (bus : Bus) (c : Core)

theorem Immediate.shamt_lt (op : Immediate) : op.shamt w < 64 := by
  have five : (w.extractLsb' 20 5).toNat < 64 := (BitVec.isLt _).trans (by decide)
  cases op with
  | roriw => exact five
  | _ => exact BitVec.isLt _

theorem Operation.counts_iff {o : Operation} {func : Handler} (held : o.encoding.Held func none)
    (is : o.encoding.Is w) :
    (∃ k, selected w = some k ∧ ∀ n ∈ o.counts c (decoded w k), n.toNat < 64) ↔
      ∀ n ∈ o.counts c (.ofInst w none), n.toNat < 64 := by
  obtain ⟨k, chosen, operands⟩ := held.decoded is
  constructor
  · intro ⟨k', chosen', small⟩
    rw [chosen] at chosen'
    rwa [← Option.some.inj chosen', operands] at small
  · intro small
    exact ⟨k, chosen, operands ▸ small⟩

theorem Binary.correct_iff (op : Binary) (is : op.encoding.Is w) :
    (Operation.binary op).Correct bus c w ↔ (Operation.binary op).Sound c w := by
  have value : Writes bus c w ((Operation.binary op).value c w) := (op.held.exec is bus c).trans (op.handler_eq ..)
  have counts := Operation.counts_iff (o := .binary op) c op.held is
  have six : (c.gpr (dRs2 w) &&& 0x3F).toNat < 64 := shiftAmount_eq _ ▸ shiftAmount_lt _
  have five : (c.gpr (dRs2 w) &&& 0x1F).toNat < 32 := shiftAmountW_eq _ ▸ shiftAmountW_lt _
  have whole : (Operation.binary op).Correct bus c w ↔
      ∀ n ∈ (Operation.binary op).counts c (.ofInst w none), n.toNat < 64 :=
    ⟨fun correct => counts.mp correct.counts, fun small => ⟨value, counts.mpr small⟩⟩
  rw [whole]
  cases op with
  | rol | ror =>
    refine (counts_64_iff six).trans ?_
    rw [shiftAmount_eq]
    rfl
  | rolw | rorw => exact iff_of_true (counts_32 five) trivial
  | _ => exact iff_of_true (fun _ mem => absurd mem List.not_mem_nil) trivial

theorem Unary.correct (op : Unary) (is : op.encoding.Is w) : (Operation.unary op).Correct bus c w where
  value := (op.held.exec is bus c).trans (op.handler_eq ..)
  counts := (Operation.counts_iff (o := .unary op) c op.held is).mpr fun _ mem => absurd mem List.not_mem_nil

theorem Immediate.correct_iff (op : Immediate) (is : op.encoding.Is w) :
    (Operation.immediate op).Correct bus c w ↔ (Operation.immediate op).Sound c w := by
  have computed : Writes bus c w (op.computed (c.gpr (dRs1 w))) := (op.held.exec is bus c).trans (op.handler_eq ..)
  have value : Writes bus c w ((Operation.immediate op).value c w) ↔ op.Agrees (c.gpr (dRs1 w)) (op.shamt w) :=
    (writes_iff computed).trans (op.computed_eq_iff _ op.shamt_lt)
  have counts := Operation.counts_iff (o := .immediate op) c op.held is
  have whole : (Operation.immediate op).Correct bus c w ↔ op.Agrees (c.gpr (dRs1 w)) (op.shamt w) ∧
      ∀ n ∈ (Operation.immediate op).counts c (.ofInst w none), n.toNat < 64 :=
    ⟨fun correct => ⟨value.mp correct.value, counts.mp correct.counts⟩,
      fun both => ⟨value.mpr both.1, counts.mpr both.2⟩⟩
  rw [whole]
  cases op with
  | rori =>
    have never := (counts_64_iff (n := 0) (by decide)).not.mpr (not_not.mpr rfl)
    exact iff_of_false (fun both => never both.2) not_false
  | roriw => exact and_iff_left (counts_32 (n := 0) (by decide))
  | _ => exact and_iff_left fun _ mem => absurd mem List.not_mem_nil

end Correct

/-- The bit-manipulation words that the source runs to the manual's value: all with register
operands, but for `ROL` and `ROR` by 0, which shift by 64; those with a shift amount only
where rotating, shifting or addressing by 0 happens to give the same value. -/
theorem bitmanip_correct_iff (op : Operation) (bus : Bus) (c : Core) (w : Inst) (is : op.encoding.Is w) :
    op.Correct bus c w ↔ op.Sound c w := by
  cases op with
  | binary op => exact op.correct_iff bus c is
  | unary op => exact iff_of_true (op.correct bus c is) trivial
  | immediate op => exact op.correct_iff bus c is

/-- A core without memory whose registers hold `v`. -/
def filledCore (v : Word) : Core := ⟨{ gpr := fun r => if r = 0 then 0 else v }, MemoryMap.empty, {}, [], {}, .nearest⟩

/-- `rol x1, x2, x3` rotates by 1. -/
theorem bitmanip_correct_rol : execWord Bus.empty (filledCore 0x8000000000000001) 0x603110B3 =
    .ok ⟨{}, (filledCore 0x8000000000000001).setGpr 1 3⟩ := by
  have sound : (Operation.binary .rol).Sound (filledCore 0x8000000000000001) 0x603110B3 := by
    change shiftAmount 0x8000000000000001 ≠ 0
    decide
  have correct := (bitmanip_correct_iff (.binary .rol) Bus.empty (filledCore 0x8000000000000001) 0x603110B3
    (by decide)).mpr sound
  exact correct.value

/-- `bseti x1, x2, 5` sets bit 0. -/
theorem bseti_sets_bit_zero : execWord Bus.empty (filledCore 0) 0x28511093 = .ok ⟨{}, (filledCore 0).setGpr 1 1⟩ ∧
    (Operation.immediate .bseti).value (filledCore 0) 0x28511093 = 32 ∧
    ¬ (Operation.immediate .bseti).Correct Bus.empty (filledCore 0) 0x28511093 := by
  have is : Immediate.bseti.encoding.Is 0x28511093 := by decide
  refine ⟨(Immediate.bseti.held.exec is ..).trans (Immediate.bseti.handler_eq ..), by decide, ?_⟩
  rw [Immediate.correct_iff _ _ _ is]
  change ¬ (5 = 0 ∨ (false = true ∧ false = true))
  decide

end Rv64Vm.Bitmanip
