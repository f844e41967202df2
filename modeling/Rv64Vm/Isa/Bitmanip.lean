import Rv64Vm.Isa.Rv64a

/-! # Zba, Zbb, Zbc and Zbs handlers

The bit loops are the source's. A shift by the full register width, which C++
leaves undefined, is the host's: `x << 64` and `x >> 64` on x86-64 shift by 0.
-/

namespace Rv64Vm

def aluU (f : Word → Word) : Handler := fun _ c i => .ok ⟨{}, c.setGpr i.rd (f (c.gpr i.rs1))⟩

/-! ## Zba -/

/-- `(uint64_t)(uint32_t)x` -/
def zextW (x : Word) : Word := (low x).setWidth 64

def shAdd (n : Nat) : Handler := aluR fun a b => b + (a <<< n)
def shAddUW (n : Nat) : Handler := aluR fun a b => b + (zextW a <<< n)

def execADDUW : Handler := aluR fun a b => b + zextW a
def execSH1ADD : Handler := shAdd 1
def execSH1ADDUW : Handler := shAddUW 1
def execSH2ADD : Handler := shAdd 2
def execSH2ADDUW : Handler := shAddUW 2
def execSH3ADD : Handler := shAdd 3
def execSH3ADDUW : Handler := shAddUW 3
def execSLLIUW : Handler := aluI fun a imm => zextW a <<< imm

/-! ## Zbb -/

def execANDN : Handler := aluR fun a b => a &&& ~~~b
def execORN : Handler := aluR fun a b => a ||| ~~~b
def execXNOR : Handler := aluR fun a b => ~~~(a ^^^ b)

/-- The first set bit among positions `top`, ..., 0, or -1. -/
def highestBit (x : Word) : Nat → Word
  | 0 => if x.getLsbD 0 then 0 else -1
  | top + 1 => if x.getLsbD (top + 1) then BitVec.ofNat 64 (top + 1) else highestBit x top

/-- The first set bit among the `n` positions from `i` on, or `i + n`. -/
def lowestBit (x : Word) (i : Nat) : Nat → Word
  | 0 => BitVec.ofNat 64 i
  | n + 1 => if x.getLsbD i then BitVec.ofNat 64 i else lowestBit x (i + 1) n

/-- Set bits among positions 0 to `n - 1`. -/
def countBits (x : Word) : Nat → Word
  | 0 => 0
  | n + 1 => countBits x n + (if x.getLsbD n then 1 else 0)

def execCLZ : Handler := aluU fun a => 63 - highestBit a 63
def execCLZW : Handler := aluU fun a => 31 - highestBit (zextW a) 31
def execCTZ : Handler := aluU fun a => lowestBit a 0 64
def execCTZW : Handler := aluU fun a => lowestBit (zextW a) 0 32
def execCPOP : Handler := aluU fun a => countBits a 64
def execCPOPW : Handler := aluU fun a => countBits (zextW a) 32

def execMAX : Handler := aluR maxS
def execMAXU : Handler := aluR maxU
def execMIN : Handler := aluR minS
def execMINU : Handler := aluR minU

def execSEXTB : Handler := aluU fun a => (a.setWidth 8).signExtend 64
def execSEXTH : Handler := aluU fun a => (a.setWidth 16).signExtend 64
def execZEXTH : Handler := aluU fun a => a &&& 0xFFFF

/-- A shift count as the host takes it. -/
def hostCount (n : Word) : Word := n &&& 0x3F

def rotateRight (width : Word) (x n : Word) : Word :=
  (x >>> hostCount n) ||| (x <<< hostCount (width - n))

def rotateLeft (width : Word) (x n : Word) : Word :=
  (x <<< hostCount n) ||| (x >>> hostCount (width - n))

def execROL : Handler := aluR fun a b => rotateLeft 64 a (b &&& 0x3F)
def execROLW : Handler := aluR fun a b => sextW (low (rotateLeft 32 (zextW a) (b &&& 0x1F)))
def execROR : Handler := aluR fun a b => rotateRight 64 a (b &&& 0x3F)
def execRORI : Handler := aluI fun a imm => rotateRight 64 a imm
-- the result is not cut to 32 bits
def execRORIW : Handler := aluI fun a imm => rotateRight 32 (zextW a) imm
def execRORW : Handler := aluR fun a b => sextW (low (rotateRight 32 (zextW a) (b &&& 0x1F)))

/-- The loop of `ORC.B` over its first `n` bytes. -/
def orcBytes (x : Word) : Nat → Word
  | 0 => 0
  | n + 1 => orcBytes x n ||| ((if (x >>> (8 * n)) &&& 0xFF = 0 then 0 else 0xFF) <<< (8 * n))

/-- The loop of `REV8` over its first `n` bytes. -/
def reversedBytes (x : Word) : Nat → Word
  | 0 => 0
  | n + 1 => reversedBytes x n ||| (((x >>> (n * 8)) &&& 0xFF) <<< ((8 - 1 - n) * 8))

def execORCB : Handler := aluU fun a => orcBytes a 8
def execREV8 : Handler := aluU fun a => reversedBytes a 8

/-! ## Zbc -/

/-- The shared loop: fold in `term i` for each set bit `i` of `b`, from `start` on. -/
def clmulLoop (term : Nat → Word) (b : Word) (start n : Nat) : Word :=
  (List.range' start n).foldl (fun out i => if b.getLsbD i then out ^^^ term i else out) 0

def execCLMUL : Handler := aluR fun a b => clmulLoop (fun i => a <<< i) b 0 64
def execCLMULH : Handler := aluR fun a b => clmulLoop (fun i => a >>> (64 - i)) b 1 63
def execCLMULR : Handler := aluR fun a b => clmulLoop (fun i => a >>> (63 - i)) b 0 64

/-! ## Zbs -/

def bitOp (f : Word → Word → Word) : Handler := aluR fun a b => f a (b &&& 0x3F)
def bitOpI (f : Word → Word → Word) : Handler := aluI fun a imm => f a (imm &&& 0x3F)

def bclr (a index : Word) : Word := a &&& ~~~((1 : Word) <<< index)
def bext (a index : Word) : Word := (a >>> index) &&& 1
def binv (a index : Word) : Word := a ^^^ ((1 : Word) <<< index)
def bset (a index : Word) : Word := a ||| ((1 : Word) <<< index)

def execBCLR : Handler := bitOp bclr
def execBCLRI : Handler := bitOpI bclr
def execBEXT : Handler := bitOp bext
def execBEXTI : Handler := bitOpI bext
def execBINV : Handler := bitOp binv
def execBINVI : Handler := bitOpI binv
def execBSET : Handler := bitOp bset
def execBSETI : Handler := bitOpI bset

end Rv64Vm
