import Rv64Vm.Exec.Effects
import Rv64Vm.Mmio.Whole

/-! # Moves of single-precision values

The moves and sign injections of RV64F carry bit patterns. The architecture moves the low half
of a NaN-boxed register unchanged, reads an unboxed one as the canonical NaN and raises nothing;
two of the sign injections go through `cast_float`, and none of the handlers looks at the box.
Loads and stores move every byte but at the end of a page.
-/

namespace Rv64Vm

open Lib

/-- What the moves rely on: a `float` is a NaN exactly if it is one as a `double`, and any other
    comes back from `double` as it was. -/
structure HostFpu.Lawful (fpu : HostFpu) : Prop where
  widen_nan : ∀ x, double.isNan (fpu.widen x) = single.isNan x
  narrow_widen : ∀ rounding x, single.isNan x = false → (fpu.narrow rounding (fpu.widen x)).1 = x

/-! ## The architecture -/

variable (x : BitVec 32)

/-- NaN boxing. -/
def box : Word := 0xFFFFFFFF#32 ++ x

/-- A register read as a single: the canonical NaN unless it is boxed. -/
def unboxed (reg : Word) : BitVec 32 := if reg.extractLsb' 32 32 = 0xFFFFFFFF#32 then reg.setWidth 32 else 0x7FC00000#32

/-- Only bit 31 is replaced. -/
def withSign (sign : Bool) : BitVec 32 := (x &&& 0x7FFFFFFF#32) ||| if sign then 0x80000000#32 else 0#32

inductive SignOp where
  | fsgnj
  | fsgnjn
  | fsgnjx
  deriving DecidableEq

/-- The new sign. -/
def SignOp.sign (a b : BitVec 32) : SignOp → Bool
  | .fsgnj => b.getLsbD 31
  | .fsgnjn => !b.getLsbD 31
  | .fsgnjx => a.getLsbD 31 ^^ b.getLsbD 31

inductive SingleMove where
  | sign (op : SignOp)
  | fmvxw
  | fmvwx
  | flw
  | fsw

def SignOp.handler : SignOp → Handler
  | .fsgnj => execFSGNJS
  | .fsgnjn => execFSGNJNS
  | .fsgnjx => execFSGNJXS

/-- The move is made bit by bit, and `fflags` is left alone. -/
def SingleMove.Correct (bus : Bus) (c : Core) (i : InstructionData) : SingleMove → Prop
  | .sign op =>
    let a := unboxed (c.fpr i.rs1)
    let b := unboxed (c.fpr i.rs2)
    op.handler bus c i = .ok ⟨{}, c.setFpr i.rd (box (withSign a (op.sign a b)))⟩
  | .fmvxw => execFMVXW bus c i = .ok ⟨{}, c.setGpr i.rd (((c.fpr i.rs1).setWidth 32).signExtend 64)⟩
  | .fmvwx => execFMVWX bus c i = .ok ⟨{}, c.setFpr i.rd (box ((c.gpr i.rs1).setWidth 32))⟩
  | .flw => (∀ e, execFLW bus c i = .ok e → e.core.hart.fcsr = c.hart.fcsr) ∧
      (execFLW bus c i).map (·.core) = (wholeRead bus c (c.gpr i.rs1 + i.imm) 4).map fun a =>
        if a.ret.isSuccess then a.core.setFpr i.rd (box (a.val.setWidth 32)) else a.core
  | .fsw => (∀ e, execFSW bus c i = .ok e → e.core.hart.fcsr = c.hart.fcsr) ∧
      (execFSW bus c i).map (·.core) =
        (wholeWrite bus c (c.gpr i.rs1 + i.imm) 4 (((c.fpr i.rs2).setWidth 32).setWidth 64)).map (·.core)

/-- The operands of a sign injection whose low halves do: they agree with what is read from the registers in the
    bits that are moved. A NaN in `FSGNJ` and `FSGNJN` has to be the positive canonical one, and NV to be up already. -/
def SignOp.Exact (c : Core) (i : InstructionData) (op : SignOp) : Prop :=
  let x := (c.fpr i.rs1).setWidth 32
  let y := (c.fpr i.rs2).setWidth 32
  let a := unboxed (c.fpr i.rs1)
  let b := unboxed (c.fpr i.rs2)
  if op ≠ .fsgnjx ∧ single.isNan x = true then
    c.hart.fcsr.getLsbD 4 = true ∧ a &&& 0x7FFFFFFF#32 = 0x7FC00000#32 ∧ op.sign a b = false
  else x &&& 0x7FFFFFFF#32 = a &&& 0x7FFFFFFF#32 ∧ op.sign x y = op.sign a b

def SingleMove.Exact (bus : Bus) (c : Core) (i : InstructionData) : SingleMove → Prop
  | .sign op => op.Exact c i
  | .fmvxw | .fmvwx => True
  | .flw => ¬ LosesRead bus c (c.gpr i.rs1 + i.imm) 4
  | .fsw => ¬ LosesWrite bus c (c.gpr i.rs1 + i.imm) 4 (((c.fpr i.rs2).setWidth 32).setWidth 64)

def SingleMove.accesses : SingleMove → Bool
  | .flw | .fsw => true
  | _ => false

/-! ## Bits -/

theorem f32Out_eq_box : f32Out x = box x := by
  apply BitVec.eq_of_getLsbD_eq
  intro b inside
  rw [f32Out, box, BitVec.getLsbD_or, BitVec.getLsbD_append, BitVec.getLsbD_setWidth]
  by_cases low : b < 32
  · have clear : ∀ b < 32, (0xFFFFFFFF00000000 : Word).getLsbD b = false := by decide
    simp only [clear b low, low, inside, Bool.false_or, decide_true, Bool.true_and, if_true]
  · have full : ∀ b < 32, (0xFFFFFFFF00000000 : Word).getLsbD (b + 32) = true ∧
      (0xFFFFFFFF#32).getLsbD b = true := by decide
    obtain ⟨k, rfl⟩ := Nat.exists_eq_add_of_le' (Nat.le_of_not_lt low)
    simp only [full k (by omega), low, if_false, Bool.true_or, Nat.add_sub_cancel]

theorem setWidth_box : (box x).setWidth 32 = x := by
  rw [← f32Out_eq_box, f32Out, BitVec.setWidth_or, BitVec.setWidth_setWidth_of_le x (by decide)]
  exact BitVec.zero_or

theorem and_signMask (y : BitVec 32) : y &&& 0x80000000#32 = if y.getLsbD 31 then 0x80000000#32 else 0#32 :=
  BitVec.and_twoPow y 31

theorem copysign_eq (x y : BitVec 32) : single.copysign x y = withSign x (y.getLsbD 31) := by
  rw [FloatFormat.copysign, withSign]
  exact congrArg _ (and_signMask y)

theorem xorSign_eq (x y : BitVec 32) : xorSign single x y = withSign x (x.getLsbD 31 ^^ y.getLsbD 31) := by
  rw [xorSign, withSign, ← BitVec.getLsbD_xor]
  exact congrArg _ (and_signMask (x ^^^ y))

theorem withSign_and (s : Bool) {m : BitVec 32} (low : 0x7FFFFFFF#32 &&& m = m)
    (high : 0x80000000#32 &&& m = 0#32) : withSign x s &&& m = x &&& m := by
  rw [withSign, BitVec.and_or_distrib_right, BitVec.and_assoc, low]
  cases s with
  | false => rw [if_neg nofun, BitVec.zero_and, BitVec.or_zero]
  | true => rw [if_pos rfl, high, BitVec.or_zero]

theorem isNan_withSign (s : Bool) : single.isNan (withSign x s) = single.isNan x := by
  rw [FloatFormat.isNan, FloatFormat.isNan, withSign_and x s rfl rfl, withSign_and x s rfl rfl]

theorem withSign_sign (s : Bool) : (withSign x s).getLsbD 31 = s := by
  rw [withSign, BitVec.getLsbD_or, BitVec.getLsbD_and]
  cases s <;> simp

theorem withSign_inj {x y : BitVec 32} {s t : Bool} :
    withSign x s = withSign y t ↔ x &&& 0x7FFFFFFF#32 = y &&& 0x7FFFFFFF#32 ∧ s = t := by
  constructor
  · intro same
    refine ⟨?_, ?_⟩
    · rw [← withSign_and x s (m := 0x7FFFFFFF#32) rfl rfl, same, withSign_and y t rfl rfl]
    · rw [← withSign_sign x s, same, withSign_sign]
  · rintro ⟨rest, rfl⟩
    rw [withSign, rest, withSign]

/-! ## The handlers -/

theorem setFpr_inj {c d : Core} {r : BitVec 5} {v w : Word} :
    c.setFpr r v = d.setFpr r w ↔ v = w ∧ c.setFpr r 0 = d.setFpr r 0 := by
  constructor
  · intro same
    have value := congrArg (fun c : Core => c.hart.fpr r) same
    have rest := congrArg (fun c : Core => c.setFpr r 0) same
    simp only [Core.setFpr, Core.mapHart, Function.update_self, Function.update_idem] at value rest
    exact ⟨value, rest⟩
  · rintro ⟨rfl, rest⟩
    have value := congrArg (fun c : Core => c.setFpr r v) rest
    simpa only [Core.setFpr, Core.mapHart, Function.update_idem] using value

theorem box_inj {x y : BitVec 32} : box x = box y ↔ x = y := by
  refine ⟨fun same => ?_, congrArg box⟩
  rw [← setWidth_box x, same, setWidth_box]

theorem raise_setFpr_iff {c : Core} {r : BitVec 5} :
    (c.raise flagNv).setFpr r 0 = c.setFpr r 0 ↔ c.hart.fcsr.getLsbD 4 = true := by
  have bit : flagNv.setWidth 64 = BitVec.twoPow 64 4 := rfl
  constructor
  · intro same
    have flags := congrArg (fun c : Core => c.hart.fcsr.getLsbD 4) same
    simp only [Core.setFpr, Core.raise, Core.mapHart, bit, BitVec.getLsbD_or, BitVec.getLsbD_twoPow] at flags
    simpa using flags
  · intro up
    have same : c.hart.fcsr ||| flagNv.setWidth 64 = c.hart.fcsr := by
      apply BitVec.eq_of_getLsbD_eq
      intro b _
      rw [bit, BitVec.getLsbD_or, BitVec.getLsbD_twoPow]
      by_cases here : 4 = b
      · rw [← here, up, Bool.true_or]
      · simp [here]
    simp only [Core.raise, Core.mapHart, Core.setFpr, same]

theorem SignOp.handler_eq {bus : Bus} (lawful : bus.fpu.Lawful) (c : Core) (i : InstructionData) (op : SignOp) :
    op.handler bus c i = .ok ⟨{}, if op ≠ .fsgnjx ∧ single.isNan ((c.fpr i.rs1).setWidth 32) = true
      then (c.raise flagNv).setFpr i.rd (box 0x7FC00000#32)
      else c.setFpr i.rd (box (withSign ((c.fpr i.rs1).setWidth 32)
        (op.sign ((c.fpr i.rs1).setWidth 32) ((c.fpr i.rs2).setWidth 32))))⟩ := by
  -- `FSGNJ` and `FSGNJN` differ in the sign that they take
  have cast (f : BitVec 32 → BitVec 32) : signInject f bus c i = .ok ⟨{},
      if single.isNan ((c.fpr i.rs1).setWidth 32) = true then (c.raise flagNv).setFpr i.rd (box 0x7FC00000#32)
      else c.setFpr i.rd (box (withSign ((c.fpr i.rs1).setWidth 32)
        ((f ((c.fpr i.rs2).setWidth 32)).getLsbD 31)))⟩ := by
    simp only [signInject, f32In, copysign_eq, castFloat, lawful.widen_nan, isNan_withSign, f32Out_eq_box]
    cases nan : single.isNan ((c.fpr i.rs1).setWidth 32) with
    | true => rfl
    | false =>
      rw [if_neg nofun, if_neg nofun, lawful.narrow_widen _ _ ((isNan_withSign ..).trans nan)]
  cases op with
  | fsgnj =>
    rw [handler, execFSGNJS, cast]
    simp only [ne_eq, reduceCtorEq, not_false_eq_true, true_and, sign, id_eq]
  | fsgnjn =>
    have flipped (y : BitVec 32) : (single.neg y).getLsbD 31 = !y.getLsbD 31 := by
      rw [FloatFormat.neg, BitVec.getLsbD_xor]
      exact Bool.xor_true _
    rw [handler, execFSGNJNS, cast]
    simp only [ne_eq, reduceCtorEq, not_false_eq_true, true_and, sign, flipped]
  | fsgnjx =>
    rw [handler, execFSGNJXS, if_neg fun both => both.1 rfl, f32Out_eq_box, xorSign_eq]
    rfl

theorem SignOp.correct_iff {bus : Bus} (lawful : bus.fpu.Lawful) (c : Core) (i : InstructionData) (op : SignOp) :
    (SingleMove.sign op).Correct bus c i ↔ op.Exact c i := by
  unfold SingleMove.Correct SignOp.Exact
  dsimp only
  rw [op.handler_eq lawful, Except.ok.injEq, Executed.mk.injEq, eq_self, true_and]
  by_cases cast : op ≠ .fsgnjx ∧ single.isNan ((c.fpr i.rs1).setWidth 32) = true
  · have canonical : 0x7FC00000#32 = withSign 0x7FC00000#32 false := rfl
    rw [if_pos cast, if_pos cast, setFpr_inj, box_inj, raise_setFpr_iff, canonical, withSign_inj, and_comm]
    simp only [eq_comm]
    rfl
  · rw [if_neg cast, if_neg cast, setFpr_inj, box_inj, withSign_inj, and_iff_left rfl]

theorem flw_correct_iff {bus : Bus} {c : Core} (i : InstructionData) (ram : RamOk c) :
    SingleMove.flw.Correct bus c i ↔ ¬ LosesRead bus c (c.gpr i.rs1 + i.imm) 4 := by
  have flags : ∀ e, execFLW bus c i = .ok e → e.core.hart.fcsr = c.hart.fcsr := by
    intro e ok
    unfold execFLW fpLoadTo at ok
    obtain ⟨a, read, ok⟩ := bind_eq_ok.mp ok
    have kept : a.core.hart.fcsr = c.hart.fcsr := by rw [(mmioRead_unwritten read).hart]
    split at ok
    case isTrue =>
      obtain rfl := pure_eq_ok.mp ok
      exact kept
    case isFalse =>
      obtain rfl := pure_eq_ok.mp ok
      exact kept
  have moved : (execFLW bus c i).map (·.core) = (mmioRead bus c (c.gpr i.rs1 + i.imm) 4).map fun a =>
      if a.ret.isSuccess then a.core.setFpr i.rd (box (a.val.setWidth 32)) else a.core := by
    simp only [execFLW, fpLoadTo, f32Out_eq_box]
    cases mmioRead bus c (c.gpr i.rs1 + i.imm) 4 with
    | error e => rfl
    | ok a => cases success : a.ret.isSuccess <;> simp [bind, Except.bind, Except.map, pure, Except.pure, success, low]
  rw [SingleMove.Correct, moved, and_iff_right flags]
  rcases wholeRead_cases bus (c.gpr i.rs1 + i.imm) (n := 4) ram (by decide) with
    ⟨kept, same⟩ | ⟨loses, v, v', c', read, whole, differ⟩
  · exact iff_of_true (by rw [same]) kept
  · refine iff_of_false (fun same => ?_) fun not => not loses
    rw [read, whole] at same
    have value := (setFpr_inj.mp (Except.ok.inj same)).1
    exact differ (box_inj.mp value).symm

theorem fsw_correct_iff {bus : Bus} {c : Core} (i : InstructionData) (reachable : MmuReachable c) (ram : RamOk c) :
    SingleMove.fsw.Correct bus c i ↔
      ¬ LosesWrite bus c (c.gpr i.rs1 + i.imm) 4 (((c.fpr i.rs2).setWidth 32).setWidth 64) := by
  have flags : ∀ e, execFSW bus c i = .ok e → e.core.hart.fcsr = c.hart.fcsr := by
    intro e ok
    unfold execFSW fpStoreFrom at ok
    obtain ⟨a, wrote, ok⟩ := bind_eq_ok.mp ok
    obtain rfl := pure_eq_ok.mp ok
    rw [(mmioWrite_accessed wrote).hart]
  have moved : (execFSW bus c i).map (·.core) =
      (mmioWrite bus c (c.gpr i.rs1 + i.imm) 4 (((c.fpr i.rs2).setWidth 32).setWidth 64)).map (·.core) := by
    simp only [execFSW, fpStoreFrom]
    cases mmioWrite bus c (c.gpr i.rs1 + i.imm) 4 (((c.fpr i.rs2).setWidth 32).setWidth 64) <;> rfl
  rw [SingleMove.Correct, moved, and_iff_right flags]
  rcases wholeWrite_cases bus (c.gpr i.rs1 + i.imm) (((c.fpr i.rs2).setWidth 32).setWidth 64) (n := 4)
    reachable.genOk reachable.shapeOk ram (by decide) with
    ⟨kept, same⟩ | ⟨loses, c', c'', wrote, whole, -, -, differ⟩
  · exact iff_of_true (by rw [same]) kept
  · refine iff_of_false (fun same => ?_) fun not => not loses
    rw [wrote, whole] at same
    exact differ (Except.ok.inj same).symm

/-- A unit that keeps the bits of a `float` in a `double`. -/
def HostFpu.bits : HostFpu :=
  { HostFpu.zero with
    widen := fun x => if single.isNan x then double.canonicalNan else x.setWidth 64
    narrow := fun _ x => (x.setWidth 32, 0) }

theorem HostFpu.bits_lawful : HostFpu.bits.Lawful where
  widen_nan x := by
    dsimp only [bits]
    cases single.isNan x with
    | true =>
      rw [if_pos rfl]
      decide
    | false =>
      have apart : x.setWidth 64 &&& double.expMask ≠ double.expMask := by
        intro same
        have bit := congrArg (BitVec.getLsbD · 52) same
        rw [BitVec.getLsbD_and, BitVec.getLsbD_setWidth, BitVec.getLsbD_of_ge x 52 (by decide)] at bit
        cases bit
      rw [if_neg nofun, FloatFormat.isNan, beq_eq_false_iff_ne.mpr apart, Bool.false_and]
  narrow_widen rounding x number := by
    dsimp only [bits]
    rw [number, if_neg nofun, BitVec.setWidth_setWidth_of_le x (by decide), BitVec.setWidth_eq]

/-- A hart with one value in all its registers. -/
def uniformCore (v : Word) : Core where
  hart := { fpr := fun _ => v }
  mmap := .empty
  smc := {}

def bitsBus : Bus := { Bus.empty with fpu := .bits }

/-- Two pages of RAM, with 1.0 in all floating-point registers and `x1` three bytes before the second. -/
def twoPageOnes : Core :=
  { twoPageCore with
    hart := { twoPageCore.hart with
      gpr := fun r => if r = 1 then 0x80000FFD else 0, fpr := fun _ => 0xFFFFFFFF3F800000 } }

end Rv64Vm
