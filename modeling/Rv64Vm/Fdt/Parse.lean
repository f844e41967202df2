import Rv64Vm.Fdt.Serialize

/-! # Reading a flattened device tree

A reader of the flattened devicetree format, version 17: the header, the memory
reservation block up to its empty entry, the structure block token by token, and
the property names in the strings block. It takes nothing on trust: a block that
is cut short, an unknown token, a property after a child or bytes left over make
it fail.
-/

namespace Rv64Vm.Fdt

open Lib

/-! ## The reader -/

/-- A big-endian word. -/
def readWord : Bytes → Option (BitVec 32 × Bytes)
  | a :: b :: c :: d :: rest => some (loadLE 32 (fun i => [d, c, b, a].getD i 0) 4, rest)
  | _ => none

def readWords : Nat → Bytes → Option (List (BitVec 32) × Bytes)
  | 0, b => some ([], b)
  | n + 1, b => do
      let (w, b) ← readWord b
      let (ws, b) ← readWords n b
      return (w :: ws, b)

/-- A string with its zero, in whole words. -/
def readName (b : Bytes) : Option (Bytes × Bytes) :=
  let name := b.takeWhile (· ≠ 0)
  if roundUp (name.length + 1) ≤ b.length then some (name, b.drop (roundUp (name.length + 1))) else none

/-- `len` bytes, in whole words. -/
def readData (len : Nat) (b : Bytes) : Option (Bytes × Bytes) :=
  if roundUp len ≤ b.length then some (b.take len, b.drop (roundUp len)) else none

/-- The string at an offset of the strings block. -/
def stringAt (strings : Bytes) (off : Nat) : Option Bytes :=
  let name := (strings.drop off).takeWhile (· ≠ 0)
  if off + name.length < strings.length then some name else none

/-- The rest of a node up to its end token: properties, then children. -/
def parseItems (strings : Bytes) : Nat → Bytes → Option (List Property × List Tree × Bytes)
  | 0, _ => none
  | fuel + 1, b => do
      let (token, b) ← readWord b
      if token = fdtEndNode then return ([], [], b)
      else if token = fdtNop then parseItems strings fuel b
      else if token = fdtProp then
        let (len, b) ← readWord b
        let (nameOff, b) ← readWord b
        let (data, b) ← readData len.toNat b
        let name ← stringAt strings nameOff.toNat
        let (props, children, b) ← parseItems strings fuel b
        return (⟨name, data⟩ :: props, children, b)
      else if token = fdtBeginNode then
        let (name, b) ← readName b
        let (props, children, b) ← parseItems strings fuel b
        let (after, others, b) ← parseItems strings fuel b
        if after = [] then return ([], .node name props children :: others, b) else none
      else none

/-- The structure block: one node, and the end. -/
def parseStruct (strings block : Bytes) : Option Tree := do
  let (token, b) ← readWord block
  if token = fdtBeginNode then
    let (name, b) ← readName b
    let (props, children, b) ← parseItems strings block.length b
    let (token, b) ← readWord b
    if token = fdtEnd ∧ b = [] then return .node name props children else none
  else none

/-- The entries of the memory reservation block, up to the empty one. -/
def parseReserved : Nat → Bytes → Option (List (List (BitVec 32)))
  | 0, _ => none
  | fuel + 1, b => do
      let (entry, b) ← readWords 4 b
      if entry = [0, 0, 0, 0] then return []
      else return entry :: (← parseReserved fuel b)

structure Header where
  magic : BitVec 32
  totalSize : BitVec 32
  offStruct : BitVec 32
  offStrings : BitVec 32
  offReserved : BitVec 32
  version : BitVec 32
  compVersion : BitVec 32
  bootCpuid : BitVec 32
  sizeStrings : BitVec 32
  sizeStruct : BitVec 32

def readHeader (b : Bytes) : Option Header := do
  match ← readWords 10 b with
  | ([magic, totalSize, offStruct, offStrings, offReserved, version, compVersion, bootCpuid, sizeStrings,
        sizeStruct], _) =>
      return ⟨magic, totalSize, offStruct, offStrings, offReserved, version, compVersion, bootCpuid, sizeStrings,
        sizeStruct⟩
  | _ => none

/-- A header of version 17, or one that a reader of version 17 can read, for the bytes `b`. -/
def Header.Readable (h : Header) (b : Bytes) : Prop :=
  h.magic = fdtMagic ∧ h.totalSize.toNat ≤ b.length ∧ 17 ≤ h.version.toNat ∧ h.compVersion.toNat ≤ 17 ∧
    h.offReserved.toNat % 8 = 0 ∧ h.offStruct.toNat % 4 = 0

instance (h : Header) (b : Bytes) : Decidable (h.Readable b) := by unfold Header.Readable; infer_instance

/-- A block of the image. -/
def block (b : Bytes) (off size : BitVec 32) : Option Bytes :=
  if off.toNat + size.toNat ≤ b.length then some ((b.drop off.toNat).take size.toNat) else none

structure Blob where
  bootCpuid : BitVec 32
  reserved : List (List (BitVec 32))
  root : Tree

/-- A flattened tree at the start of `b`. -/
def parse (b : Bytes) : Option Blob := do
  let h ← readHeader b
  if h.Readable b then
    let b := b.take h.totalSize.toNat
    let reserved ← parseReserved b.length (b.drop h.offReserved.toNat)
    let strings ← block b h.offStrings h.sizeStrings
    let root ← parseStruct strings (← block b h.offStruct h.sizeStruct)
    return ⟨h.bootCpuid, reserved, root⟩
  else none

end Rv64Vm.Fdt
