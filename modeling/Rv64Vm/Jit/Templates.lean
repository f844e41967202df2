import Rv64Vm.Jit.Emitter

/-! # Code templates

The instruction sequences that `emit_r_to`, `emit_m_r_to`, `emit_i_to` and
`emit_u_to` choose, and those functions around them. A source operand is `none`
when the guest register is `x0`, which the templates treat apart; the
destination may share its host register with either source.
-/

namespace Rv64Vm.Jit

open Lib X86

inductive AluOp where
  | add | sub | xor | or | and | sll | srl | sra | slt | sltu | lui | auipc
  deriving DecidableEq, Repr

inductive MOp where
  | mul | mulh | mulhu | mulhsu | div | divu | rem | remu
  deriving DecidableEq, Repr

/-- `(int32_t)imm`, sign-extended by the instruction that carries it. -/
def imm32 (imm : Word) : Word := (imm.setWidth 32).signExtend 64

/-- `if(d != s) mov_rr(d, s)` -/
def moveUnless (d s : Reg) : List Instr := if d = s then [] else [.mov d s]

def moveUnless32 (d s : Reg) : List Instr := if d = s then [] else [.mov32 d s]

def zeroReg (d : Reg) : List Instr := [.arith .xor d d]

/-- ADD, XOR, OR and AND. -/
def commuteCode (op : Arith) (D : Reg) : Option Reg → Option Reg → List Instr
  | none, none => zeroReg D
  | none, some S | some S, none => if op = .and then zeroReg D else moveUnless D S
  | some S1, some S2 =>
    if D = S1 then [.arith op D S2]
    else if D = S2 then [.arith op D S1]
    else [.mov D S1, .arith op D S2]

def subCode (D : Reg) : Option Reg → Option Reg → List Instr
  | none, none => zeroReg D
  | some S1, none => moveUnless D S1
  | none, some S2 =>
    if D = S2 then [.mov regTmp S2, .neg regTmp, .mov D regTmp]
    else [.arith .xor D D, .arith .sub D S2]
  | some S1, some S2 =>
    if D = S1 then [.arith .sub D S2]
    else if D = S2 then [.mov regTmp S1, .arith .sub regTmp S2, .mov D regTmp]
    else [.mov D S1, .arith .sub D S2]

def shiftCode (op : Shift) (w : Bool) (D : Reg) : Option Reg → Option Reg → List Instr
  | none, _ => zeroReg D
  | some S1, none => moveUnless D S1
  -- the count is saved before D, which may be S2, is overwritten
  | some S1, some S2 =>
    [.mov regTmp S2] ++ moveUnless D S1 ++ [if w then .shiftCl32 op D else .shiftCl op D]

/-- Compare, and turn the flag into 0 or 1 in `d`. -/
def setCode (cc : Cond) (d : Reg) : List Instr := [.setcc cc d, .movzx8 d d]

def lessCode (cc : Cond) (D : Reg) : Option Reg → Option Reg → List Instr
  | none, none => zeroReg D
  | none, some S2 =>
    if D = S2 then zeroReg regTmp ++ [.arith .cmp regTmp S2] ++ setCode cc regTmp ++ [.mov D regTmp]
    else zeroReg D ++ [.arith .cmp D S2] ++ setCode cc D
  | some S1, none =>
    if D = S1 then zeroReg regTmp ++ [.arith .cmp S1 regTmp] ++ setCode cc regTmp ++ [.mov D regTmp]
    else zeroReg D ++ [.arith .cmp S1 D] ++ setCode cc D
  | some S1, some S2 => [.arith .cmp S1 S2] ++ setCode cc D

/-- The switch of `emit_r_to`. -/
def rCode (op : AluOp) (w : Bool) (D : Reg) (S1 S2 : Option Reg) : List Instr :=
  match op with
  | .add => commuteCode .add D S1 S2
  | .sub => subCode D S1 S2
  | .xor => commuteCode .xor D S1 S2
  | .or => commuteCode .or D S1 S2
  | .and => commuteCode .and D S1 S2
  | .sll => shiftCode .shl w D S1 S2
  | .srl => shiftCode .shr w D S1 S2
  | .sra => shiftCode .sar w D S1 S2
  | .slt => lessCode .l D S1 S2
  | .sltu => lessCode .b D S1 S2
  | .lui | .auipc => []

/-- `if(wVariant) movsxd(D, D)` -/
def signCode (w : Bool) (D : Reg) : List Instr := if w then [.movsxd D D] else []

/-- XOR, OR and AND with an immediate. -/
def logicImmCode (op : Arith) (D : Reg) (imm : Word) : Option Reg → List Instr
  | none => if op = .and then zeroReg D else [.movImm D (imm32 imm)]
  | some S1 => moveUnless D S1 ++ [.arithImm op D (imm32 imm)]

def shiftImmCode (op : Shift) (w : Bool) (D : Reg) (imm : Word) : Option Reg → List Instr
  | none => zeroReg D
  | some S1 =>
    let count := (imm &&& 0x3F).toNat
    moveUnless D S1 ++ [if w then .shift32 op D count else .shift op D count]

def lessImmCode (cc : Cond) (D : Reg) (imm : Word) : Option Reg → List Instr
  | none =>
    if imm = 0 then zeroReg D
    else zeroReg D ++ [.arithImm .cmp D (imm32 imm)] ++ setCode cc D
  | some S1 => [.arithImm .cmp S1 (imm32 imm)] ++ setCode cc D

/-- The switch of `emit_i_to`. -/
def iCode (op : AluOp) (w : Bool) (D : Reg) (imm : Word) (S1 : Option Reg) : List Instr :=
  match op with
  | .add => logicImmCode .add D imm S1
  | .xor => logicImmCode .xor D imm S1
  | .or => logicImmCode .or D imm S1
  | .and => logicImmCode .and D imm S1
  | .sll => shiftImmCode .shl w D imm S1
  | .srl => shiftImmCode .shr w D imm S1
  | .sra => shiftImmCode .sar w D imm S1
  | .slt => lessImmCode .l D imm S1
  | .sltu => lessImmCode .b D imm S1
  | .sub | .lui | .auipc => []

/-! ## Multiplication and division -/

namespace MOp

/-- `mulF` -/
def isMul (op : MOp) : Bool := op = .mul ∨ op = .mulh ∨ op = .mulhu ∨ op = .mulhsu
def isRem (op : MOp) : Bool := op = .rem ∨ op = .remu
/-- `signed_`, read for the divisions only -/
def isSigned (op : MOp) : Bool := op = .mulh ∨ op = .mulhsu ∨ op = .div ∨ op = .rem

end MOp

/-- MUL: the low half of the product. -/
def mulCode (w : Bool) (D S1 S2 : Reg) : List Instr :=
  let product (d s : Reg) : List Instr := if w then [.imulRR32 d s, .movsxd d d] else [.imulRR d s]
  if D = S1 then product D S2
  else if D = S2 then product D S1
  else [if w then .mov32 D S1 else .mov D S1] ++ product D S2

/-- MULH, MULHU and MULHSU: the high half, through RDX:RAX. -/
def mulhCode (op : MOp) (D S1 S2 : Reg) : List Instr :=
  [.mov .rax S1] ++
  (if op = .mulhsu then
    -- signed times unsigned: the unsigned high half minus S2 if S1 is negative
    [.mul S2, .mov regTmp S1, .shift .sar regTmp 63, .arith .and regTmp S2, .arith .sub .rdx regTmp]
  else if op = .mulh then [.imul S2]
  else [.mul S2]) ++ moveUnless D .rdx

/-- Divisor to RCX, dividend to RAX. -/
def divOperands (signed w : Bool) (S1 S2 : Reg) : List Instr :=
  if w then
    if signed then [.movsxd regTmp S2, .movsxd .rax S1] else [.mov32 regTmp S2, .mov32 .rax S1]
  else [.mov regTmp S2, .mov .rax S1]

/-- The result for a zero divisor. -/
def divByZero (op : MOp) (w : Bool) (D S1 : Reg) : List Instr :=
  if op.isRem then
    if op = .remu ∧ w then moveUnless D S1
    else if op = .rem ∧ w then [.mov D .rax]
    else moveUnless D .rax
  else [.movImm D (-1)]

/-- The result for the divisor -1. -/
def divByMinusOne (rem w : Bool) (D : Reg) : List Instr :=
  if rem then zeroReg D
  else (if w then [.neg32 .rax, .movsxd .rax .rax] else [.neg .rax]) ++ moveUnless D .rax

/-- Quotient or remainder to `D`. -/
def divResult (rem w : Bool) (D : Reg) : List Instr :=
  let result : Reg := if rem then .rdx else .rax
  if w then [.mov32 D result, .movsxd D D] else moveUnless D result

def divSigned (rem w : Bool) (D : Reg) : List Instr :=
  (if w then [.cdq, .idiv32 regTmp] else [.cqo, .idiv regTmp]) ++ divResult rem w D

def divUnsigned (rem w : Bool) (D : Reg) : List Instr :=
  zeroReg .rdx ++ [if w then .div32 regTmp else .div regTmp] ++ divResult rem w D

/-- Jump sites of a division, counted from `n`: `fix_nz`, `fix_done0`, `fix_n1`, `fix_done1`. -/
def divSites (op : MOp) : Nat := if op.isSigned then 4 else 2

/-- The divisions, with their guards for the divisors that make x86 fault. -/
def divCode (n : Label) (op : MOp) (w : Bool) (D S1 S2 : Reg) : List Instr :=
  divOperands op.isSigned w S1 S2 ++ [.arith .or regTmp regTmp, .jcc true .ne n] ++
  divByZero op w D S1 ++ [.jmp true (n + 1), .mark n] ++
  (if op.isSigned then
    [.arithImm .cmp regTmp (-1), .jcc true .ne (n + 2)] ++ divByMinusOne op.isRem w D ++
    [.jmp true (n + 3), .mark (n + 2)] ++ divSigned op.isRem w D ++ [.mark (n + 3), .mark (n + 1)]
  else divUnsigned op.isRem w D ++ [.mark (n + 1)])

/-- `emit_m_r_to` with `x0` as divisor or second factor. -/
def mZeroCode (op : MOp) (D : Reg) : List Instr :=
  if op.isMul then zeroReg D else [.movImm D (-1)]

/-- The remainder by `x0`: the dividend. -/
def remZeroCode (op : MOp) (w : Bool) (D S1 : Reg) : List Instr :=
  if op = .rem ∧ w then moveUnless32 D S1 ++ [.movsxd D D] else moveUnless D S1

namespace Emitter

variable (em : Emitter)

/-- Emit a sequence that names `k` new jump sites. -/
def emitSites (k : Nat) (is : List Instr) : Emitter :=
  { em.emit is with sites := em.sites + k }

/-- A source operand of a template: `x0` takes no host register. -/
def operand (v : GuestReg) (keep : Option GuestReg) : Option (Emitter × Option Reg) :=
  if v = 0 then some (em, none) else (em.hregForRead v keep).map fun (em, S) => (em, some S)

/-- The second operand, which shares the first one's register if they are equal. -/
def operand2 (v1 v2 : GuestReg) (S1 : Option Reg) : Option (Emitter × Option Reg) :=
  if v2 ≠ 0 ∧ v2 = v1 then some (em, S1) else em.operand v2 (some v1)

def emitRTo (dst src1 src2 : GuestReg) (op : AluOp) (w : Bool) : Option Emitter := do
  let (em, S1) ← em.operand src1 none
  let (em, S2) ← em.operand2 src1 src2 S1
  let (em, D) ← em.hregForWrite dst (some src1) (some src2)
  return ((em.emit (rCode op w D S1 S2)).markDirty dst).emit (signCode w D)

def emitITo (dst src1 : GuestReg) (imm : Word) (op : AluOp) (w : Bool) :
    Option Emitter := do
  let (em, S1) ← em.operand src1 none
  let (em, D) ← em.hregForWrite dst (some src1) none
  return ((em.emit (iCode op w D imm S1)).markDirty dst).emit (signCode w D)

/-- The code of `emit_u_to`; `imm` is already an `int32_t`. -/
def uCode (op : AluOp) (D : Reg) (imm : Word) : List Instr :=
  match op with
  | .lui => [.movAbs D imm]
  | .auipc =>
    [.load 8 .zero D regCtx (BitVec.ofNat 64 ctxOffEntry),
      .arithImm .add D (imm32 (imm + BitVec.ofNat 64 em.instrBytes))]
  | _ => []

def emitUTo (dst : GuestReg) (imm : Word) (op : AluOp) : Option Emitter := do
  let (em, D) ← em.hregForWrite dst none none
  return (em.emit (em.uCode op D imm)).markDirty dst

def emitMRTo (dst src1 src2 : GuestReg) (op : MOp) (w : Bool) : Option Emitter :=
  if src2 = 0 then
    if op.isRem then do
      let (em, S1) ← em.hregForRead src1 none
      let (em, D) ← em.hregForWrite dst (some src1) none
      return (em.emit (remZeroCode op w D S1)).markDirty dst
    else do
      let (em, D) ← em.hregForWrite dst (some src1) none
      return (em.emit (mZeroCode op D)).markDirty dst
  else if src1 = 0 ∧ (op.isMul ∨ op.isRem) then do
    let (em, D) ← em.hregForWrite dst (some src1) none
    return (em.emit (zeroReg D)).markDirty dst
  else do
    let (em, S1) ← em.hregForRead src1 none
    let (em, S2) ← if src2 = src1 then some (em, S1) else em.hregForRead src2 (some src1)
    let (em, D) ← em.hregForWrite dst (some src1) (some src2)
    if op = .mul then return (em.emit (mulCode w D S1 S2)).markDirty dst
    else if op.isMul then return (em.emit (mulhCode op D S1 S2)).markDirty dst
    else return (em.emitSites (divSites op) (divCode em.sites op w D S1 S2)).markDirty dst

end Emitter

end Rv64Vm.Jit
