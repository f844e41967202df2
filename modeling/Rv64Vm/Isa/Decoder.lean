import Mathlib.Data.List.MinMax
import Rv64Vm.Isa.Table
import Rv64Vm.Lib.Patterns

/-! # The decoder

`build_lut` spreads every registered pattern over the slots of a bit-extract hash
table, `decode_inst_slow` reads one slot and compares once, and `decode_inst` puts a
two-way cache in front of it. `pext_u32` is the host instruction.
-/

namespace Rv64Vm

open Lib

def pextU32 (val mask : Inst) : Nat := pext 32 val.toNat mask.toNat

def hashMask : Inst := 0xFFF0707F
def hashMask16 : Inst := 0x0000FFFF

def lutSize : Nat := 1 <<< 23
def lutSize16 : Nat := 1 <<< 18

/-- `__builtin_popcount(mask)` -/
def Instruction.fixedBits (i : Instruction) : Nat := popcount 32 i.mask.toNat

section BuildLut

/-- The `do ... while` loop of `build_lut` for one instruction; `put` is what happens to a slot. -/
def fillLut {α : Type} (inst : Instruction) (put : Option α → Option α) (hash : Inst) (size : Nat)
    (dontCareBits : Inst) : Nat → Inst → (Nat → Option α) → Nat → Option α
  | 0, _, lut => lut
  | fuel + 1, subMask, lut =>
    let testInst := (inst.matchBits &&& hash) ||| subMask
    let lutIdx := pextU32 testInst hash
    if lutIdx ≥ size then
      -- `continue` tests the condition of the loop without the step
      if subMask ≠ 0 then fillLut inst put hash size dontCareBits fuel subMask lut else lut
    else
      let lut := Function.update lut lutIdx (put (lut lutIdx))
      let subMask := (subMask - dontCareBits) &&& dontCareBits
      if subMask ≠ 0 then fillLut inst put hash size dontCareBits fuel subMask lut else lut

variable (table : List Instruction)

/-- The new pointer replaces a null one, or one with fewer fixed bits. -/
def prefer (k : Fin table.length) : Option (Fin table.length) → Option (Fin table.length)
  | some old => if (table.get k).fixedBits > (table.get old).fixedBits then some k else some old
  | none => some k

structure Luts where
  lut : Nat → Option (Fin table.length) := fun _ => none
  lut16 : Nat → Option (Fin table.length) := fun _ => none

variable {table}

/-- One round of the outer loop; 2^32 rounds are enough for every `sub_mask`. -/
def Luts.add (luts : Luts table) (k : Fin table.length) : Luts table :=
  let inst := table.get k
  let fill (hash : Inst) (size : Nat) :=
    fillLut inst (prefer table k) hash size (hash &&& ~~~(inst.mask &&& hash)) (2 ^ 32) 0
  if inst.size = 2 then { luts with lut16 := fill hashMask16 lutSize16 luts.lut16 }
  else { luts with lut := fill hashMask lutSize luts.lut }

variable (table)

def buildLut : Luts table := (List.finRange table.length).foldl Luts.add {}

end BuildLut

/-- The pointer that `decode_inst_slow` takes from the tables, not yet compared. -/
def Luts.find {table : List Instruction} (luts : Luts table) (inst : Inst) : Option (Fin table.length) :=
  let dinst := if inst &&& 0x3 ≠ 0x3 then luts.lut16 (pextU32 (inst &&& 0xFFFF) hashMask16) else none
  dinst.or (luts.lut (pextU32 inst hashMask))

def cacheSize : Nat := 2 <<< 17

def cacheIndex (pc : Word) : Nat := ((pc >>> 2) &&& BitVec.ofNat 64 (cacheSize - 1)).toNat

/-- The table of `init_all_instrs` with its two lookup tables. -/
def luts : Luts instructions := buildLut instructions

def decodeInstSlow (smcEpoch : Nat) (cache : DecodeCache) (pc : Word) (inst : Inst) :
    InstructionCache × DecodeCache :=
  let idx := cacheIndex pc
  let dinst := luts.find inst
  let f := dinst.any fun k => (instructions.get k).Matches inst
  let set := cache.sets idx
  let entry : InstructionCache :=
    if f then
      { pc := pc
        inst := dinst.map (·.val)
        data := .ofInst inst (dinst.bind fun k => (instructions.get k).immDecode)
        cacheGen := cache.generation
        smcGen := smcEpoch }
    else
      { set.ways set.victim with
        pc := 0
        inst := none
        data := .ofInst inst none
        cacheGen := 0 }
  let set := { ways := Function.update set.ways set.victim entry, victim := !set.victim }
  (entry, { cache with sets := Function.update cache.sets idx set })

def InstructionCache.Hits (smcEpoch : Nat) (cache : DecodeCache) (pc : Word) (inst : Inst)
    (way : InstructionCache) : Prop :=
  way.pc = pc ∧ way.data.inst = inst ∧ way.cacheGen = cache.generation ∧ way.smcGen = smcEpoch

instance (smcEpoch : Nat) (cache : DecodeCache) (pc : Word) (inst : Inst) (way : InstructionCache) :
    Decidable (way.Hits smcEpoch cache pc inst) := inferInstanceAs (Decidable (_ ∧ _))

def decodeInst (smcEpoch : Nat) (cache : DecodeCache) (pc : Word) (inst : Inst) : InstructionCache × DecodeCache :=
  let set := cache.sets (cacheIndex pc)
  if (set.ways false).Hits smcEpoch cache pc inst then (set.ways false, cache)
  else if (set.ways true).Hits smcEpoch cache pc inst then (set.ways true, cache)
  else decodeInstSlow smcEpoch cache pc inst

end Rv64Vm
