import Rv64Vm.Core.Types

/-! # Decoded instructions and their cache

The operand record that the decoder fills, and the two-way decode cache that all
harts share. An entry names its instruction by position in the instruction
table, where the source holds a pointer into it.
-/

namespace Rv64Vm

abbrev Inst := BitVec 32

structure InstructionData where
  rs3 : BitVec 5 := 0
  rm : BitVec 3 := 0
  rs1 : BitVec 5
  rs2 : BitVec 5
  rd : BitVec 5
  inst : Inst
  imm : Word
  size : Nat
  deriving DecidableEq, Repr

structure InstructionCache where
  pc : Word := 0
  inst : Option Nat := none
  data : InstructionData := { rs1 := 0, rs2 := 0, rd := 0, inst := 0, imm := 0, size := 4 }
  cacheGen : Nat := 0
  smcGen : Nat := 0
  deriving DecidableEq, Repr

/-- Two ways; `victim` is the one to be replaced next. -/
structure CacheSet where
  ways : Bool → InstructionCache := fun _ => {}
  victim : Bool := false

structure DecodeCache where
  sets : Nat → CacheSet := fun _ => {}
  /-- `cache_generation` -/
  generation : Nat := 0

end Rv64Vm
