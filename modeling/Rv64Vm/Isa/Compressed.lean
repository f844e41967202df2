import Rv64Vm.Isa.Formats

/-! # The compressed encodings of the architecture

The table of RV64C with D: for every 16-bit encoding the instruction that it expands
to, with the register fields and immediates as the architecture scatters them, and the
encodings that it reserves.
-/

namespace Rv64Vm

open Lib

namespace Rvc

/-! ## Fields -/

section Fields

variable (c : BitVec 16)

def rd : BitVec 5 := c.extractLsb' 7 5
def rs2 : BitVec 5 := c.extractLsb' 2 5

/-- A three-bit field names `x8` to `x15`. -/
def rs1Short : BitVec 5 := 0b01#2 ++ c.extractLsb' 7 3
def rs2Short : BitVec 5 := 0b01#2 ++ c.extractLsb' 2 3

def immCi : BitVec 6 := c.extractLsb' 12 1 ++ c.extractLsb' 2 5

def immAddi4spn : BitVec 10 :=
  c.extractLsb' 7 4 ++ c.extractLsb' 11 2 ++ c.extractLsb' 5 1 ++ c.extractLsb' 6 1 ++ 0#2

def immAddi16sp : BitVec 10 :=
  c.extractLsb' 12 1 ++ c.extractLsb' 3 2 ++ c.extractLsb' 5 1 ++ c.extractLsb' 2 1 ++ c.extractLsb' 6 1 ++ 0#4

/-- Offset of `C.LW` and `C.SW`. -/
def offsetW : BitVec 7 := c.extractLsb' 5 1 ++ c.extractLsb' 10 3 ++ c.extractLsb' 6 1 ++ 0#2

/-- Offset of `C.LD`, `C.SD`, `C.FLD` and `C.FSD`. -/
def offsetD : BitVec 8 := c.extractLsb' 5 2 ++ c.extractLsb' 10 3 ++ 0#3

def offsetLwsp : BitVec 8 := c.extractLsb' 2 2 ++ c.extractLsb' 12 1 ++ c.extractLsb' 4 3 ++ 0#2
def offsetLdsp : BitVec 9 := c.extractLsb' 2 3 ++ c.extractLsb' 12 1 ++ c.extractLsb' 5 2 ++ 0#3
def offsetSwsp : BitVec 8 := c.extractLsb' 7 2 ++ c.extractLsb' 9 4 ++ 0#2
def offsetSdsp : BitVec 9 := c.extractLsb' 7 3 ++ c.extractLsb' 10 3 ++ 0#3

def offsetJ : BitVec 12 :=
  c.extractLsb' 12 1 ++ c.extractLsb' 8 1 ++ c.extractLsb' 9 2 ++ c.extractLsb' 6 1 ++ c.extractLsb' 7 1 ++
    c.extractLsb' 2 1 ++ c.extractLsb' 11 1 ++ c.extractLsb' 3 3 ++ 0#1

def offsetB : BitVec 9 :=
  c.extractLsb' 12 1 ++ c.extractLsb' 5 2 ++ c.extractLsb' 2 1 ++ c.extractLsb' 10 2 ++ c.extractLsb' 3 2 ++ 0#1

end Fields

/-! ## The table -/

/-- An encoding: the words with `value` under `mask`, apart from those of another
    instruction, and what they expand to. -/
structure Row where
  mask : BitVec 16
  value : BitVec 16
  apart : Option (BitVec 16 × BitVec 16) := none
  word : BitVec 16 → Inst

def Is (c : BitVec 16) (p : BitVec 16 × BitVec 16) : Bool := c &&& p.1 == p.2

def Row.Applies (r : Row) (c : BitVec 16) : Bool := Is c (r.mask, r.value) && !r.apart.any (Is c)

def quadrant0 : List Row := [
  -- C.ADDI4SPN, C.FLD, C.LW, C.LD, C.FSD, C.SW, C.SD
  ⟨0xE003, 0x0000, none, fun c => iType (rs2Short c) 2 0 0x13 ((immAddi4spn c).setWidth 12)⟩,
  ⟨0xE003, 0x2000, none, fun c => iType (rs2Short c) (rs1Short c) 3 0x07 ((offsetD c).setWidth 12)⟩,
  ⟨0xE003, 0x4000, none, fun c => iType (rs2Short c) (rs1Short c) 2 0x03 ((offsetW c).setWidth 12)⟩,
  ⟨0xE003, 0x6000, none, fun c => iType (rs2Short c) (rs1Short c) 3 0x03 ((offsetD c).setWidth 12)⟩,
  ⟨0xE003, 0xA000, none, fun c => sType (rs1Short c) (rs2Short c) 3 0x27 ((offsetD c).setWidth 12)⟩,
  ⟨0xE003, 0xC000, none, fun c => sType (rs1Short c) (rs2Short c) 2 0x23 ((offsetW c).setWidth 12)⟩,
  ⟨0xE003, 0xE000, none, fun c => sType (rs1Short c) (rs2Short c) 3 0x23 ((offsetD c).setWidth 12)⟩]

def quadrant1 : List Row := [
  -- C.ADDI with C.NOP, C.ADDIW, C.LI, C.ADDI16SP, C.LUI
  ⟨0xE003, 0x0001, none, fun c => iType (rd c) (rd c) 0 0x13 ((immCi c).signExtend 12)⟩,
  ⟨0xE003, 0x2001, none, fun c => iType (rd c) (rd c) 0 0x1B ((immCi c).signExtend 12)⟩,
  ⟨0xE003, 0x4001, none, fun c => iType (rd c) 0 0 0x13 ((immCi c).signExtend 12)⟩,
  ⟨0xEF83, 0x6101, none, fun c => iType 2 2 0 0x13 ((immAddi16sp c).signExtend 12)⟩,
  ⟨0xE003, 0x6001, some (0xEF83, 0x6101), fun c => uType (rd c) 0x37 ((immCi c).signExtend 20)⟩,
  -- C.SRLI, C.SRAI, C.ANDI
  ⟨0xEC03, 0x8001, none, fun c => iType (rs1Short c) (rs1Short c) 5 0x13 (0b000000#6 ++ immCi c)⟩,
  ⟨0xEC03, 0x8401, none, fun c => iType (rs1Short c) (rs1Short c) 5 0x13 (0b010000#6 ++ immCi c)⟩,
  ⟨0xEC03, 0x8801, none, fun c => iType (rs1Short c) (rs1Short c) 7 0x13 ((immCi c).signExtend 12)⟩,
  -- C.SUB, C.XOR, C.OR, C.AND, C.SUBW, C.ADDW
  ⟨0xFC63, 0x8C01, none, fun c => rType (rs1Short c) (rs1Short c) (rs2Short c) 0 0x20 0x33⟩,
  ⟨0xFC63, 0x8C21, none, fun c => rType (rs1Short c) (rs1Short c) (rs2Short c) 4 0x00 0x33⟩,
  ⟨0xFC63, 0x8C41, none, fun c => rType (rs1Short c) (rs1Short c) (rs2Short c) 6 0x00 0x33⟩,
  ⟨0xFC63, 0x8C61, none, fun c => rType (rs1Short c) (rs1Short c) (rs2Short c) 7 0x00 0x33⟩,
  ⟨0xFC63, 0x9C01, none, fun c => rType (rs1Short c) (rs1Short c) (rs2Short c) 0 0x20 0x3B⟩,
  ⟨0xFC63, 0x9C21, none, fun c => rType (rs1Short c) (rs1Short c) (rs2Short c) 0 0x00 0x3B⟩,
  -- C.J, C.BEQZ, C.BNEZ
  ⟨0xE003, 0xA001, none, fun c => jType 0 0x6F ((offsetJ c).signExtend 21)⟩,
  ⟨0xE003, 0xC001, none, fun c => bType (rs1Short c) 0 0 0x63 ((offsetB c).signExtend 13)⟩,
  ⟨0xE003, 0xE001, none, fun c => bType (rs1Short c) 0 1 0x63 ((offsetB c).signExtend 13)⟩]

def quadrant2 : List Row := [
  -- C.SLLI, C.FLDSP, C.LWSP, C.LDSP
  ⟨0xE003, 0x0002, none, fun c => iType (rd c) (rd c) 1 0x13 (0b000000#6 ++ immCi c)⟩,
  ⟨0xE003, 0x2002, none, fun c => iType (rd c) 2 3 0x07 ((offsetLdsp c).setWidth 12)⟩,
  ⟨0xE003, 0x4002, none, fun c => iType (rd c) 2 2 0x03 ((offsetLwsp c).setWidth 12)⟩,
  ⟨0xE003, 0x6002, none, fun c => iType (rd c) 2 3 0x03 ((offsetLdsp c).setWidth 12)⟩,
  -- C.JR, C.MV, C.EBREAK, C.JALR, C.ADD
  ⟨0xF07F, 0x8002, none, fun c => iType 0 (rd c) 0 0x67 0⟩,
  ⟨0xF003, 0x8002, some (0xF07F, 0x8002), fun c => rType (rd c) 0 (rs2 c) 0 0x00 0x33⟩,
  ⟨0xFFFF, 0x9002, none, fun _ => 0x00100073⟩,
  ⟨0xF07F, 0x9002, some (0xFFFF, 0x9002), fun c => iType 1 (rd c) 0 0x67 0⟩,
  ⟨0xF003, 0x9002, some (0xF07F, 0x9002), fun c => rType (rd c) (rd c) (rs2 c) 0 0x00 0x33⟩,
  -- C.FSDSP, C.SWSP, C.SDSP
  ⟨0xE003, 0xA002, none, fun c => sType 2 (rs2 c) 3 0x27 ((offsetSdsp c).setWidth 12)⟩,
  ⟨0xE003, 0xC002, none, fun c => sType 2 (rs2 c) 2 0x23 ((offsetSwsp c).setWidth 12)⟩,
  ⟨0xE003, 0xE002, none, fun c => sType 2 (rs2 c) 3 0x23 ((offsetSdsp c).setWidth 12)⟩]

def rows : List Row := quadrant0 ++ quadrant1 ++ quadrant2

/-- The reserved operands of encodings that are in use, and the all-zero word among them:
    `C.ADDI4SPN` and `C.LUI` or `C.ADDI16SP` with immediate 0, `C.ADDIW`, `C.LWSP` and
    `C.LDSP` with `rd` 0, and `C.JR` with `rs1` 0. -/
def reserved : List (BitVec 16 × BitVec 16) := [
  (0xFFE3, 0x0000), (0xF07F, 0x6001), (0xEF83, 0x2001), (0xEF83, 0x4002), (0xEF83, 0x6002), (0xFFFF, 0x8002)]

/-- The instruction that a 16-bit word stands for; nothing if it is reserved. -/
def expand (c : BitVec 16) : Option Inst :=
  if reserved.any (Is c) then none else (rows.find? (·.Applies c)).map (·.word c)

example : expand 0x4501 = some 0x00000513 := by decide  -- li a0, 0
example : expand 0x8082 = some 0x00008067 := by decide  -- ret
example : expand 0x0000 = none := by decide

end Rvc

end Rv64Vm
