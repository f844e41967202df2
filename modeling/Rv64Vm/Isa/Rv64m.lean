import Rv64Vm.Isa.Rv64i

/-! # RV64M handlers

The `__int128` products are 128-bit vectors. The 32-bit product of `MULW` is the
wrapping one; the source multiplies two `int32_t`.
-/

namespace Rv64Vm

/-- `(uint64_t)-1` -/
def allOnes : Word := -1

/-- `std::numeric_limits<int32_t>::min()` and `int64_t`'s. -/
def min32 : BitVec 32 := 0x80000000
def min64 : Word := 0x8000000000000000

variable (a b : Word)

def mulW : Word := sextW (low a * low b)

def divW : Word :=
  if low b = 0 then allOnes
  else if low a = 0 then 0
  else if low a = min32 ∧ low b = -1 then sextW (low a)
  else sextW ((low a).sdiv (low b))

def divUW : Word :=
  if low b = 0 then allOnes
  else if low a = 0 then 0
  else sextW (low a / low b)

def remW : Word :=
  if low b = 0 then sextW (low a)
  else if low a = min32 ∧ low b = -1 then 0
  else sextW ((low a).srem (low b))

-- a zero divisor returns all 64 bits of rs1
def remUW : Word :=
  if low b = 0 then a
  else sextW (low a % low b)

def mulH : Word := (a.signExtend 128 * b.signExtend 128).extractLsb' 64 64

def mulHSU : Word := (a.signExtend 128 * b.setWidth 128).extractLsb' 64 64

def mulHU : Word := (a.setWidth 128 * b.setWidth 128).extractLsb' 64 64

def div : Word :=
  if b = 0 then allOnes
  else if a = 0 then 0
  else if a = min64 ∧ b = -1 then a
  else a.sdiv b

def divU : Word :=
  if b = 0 then allOnes
  else if a = 0 then 0
  else a / b

def rem : Word :=
  if b = 0 then a
  else if a = min64 ∧ b = -1 then 0
  else a.srem b

def remU : Word :=
  if b = 0 then a
  else a % b

def execMULW : Handler := aluR mulW
def execDIVW : Handler := aluR divW
def execDIVUW : Handler := aluR divUW
def execREMW : Handler := aluR remW
def execREMUW : Handler := aluR remUW
def execMUL : Handler := aluR (· * ·)
def execMULH : Handler := aluR mulH
def execMULHSU : Handler := aluR mulHSU
def execMULHU : Handler := aluR mulHU
def execDIV : Handler := aluR div
def execDIVU : Handler := aluR divU
def execREM : Handler := aluR rem
def execREMU : Handler := aluR remU

end Rv64Vm
