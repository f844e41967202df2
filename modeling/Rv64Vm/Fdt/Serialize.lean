import Rv64Vm.Fdt.Node
import Rv64Vm.Lib.Buffers

/-! # Serializing a device tree

`get_tree_size`, `ser_tree`, `size_of_tree` and `serialize`. The writer goes over
the tree once with two positions, one in the structure block and one in the
strings block, and writes into a buffer that was cleared before. Sizes and
offsets are 32 bits wide.
-/

namespace Rv64Vm.Fdt

open Lib

/-- What serialization reads of a `Node`. -/
inductive Tree where
  | node (name : Bytes) (props : List Property) (children : List Tree)

/-- `align_up` on `size_t`. -/
def alignUp (v align : BitVec 64) : BitVec 64 := (v + align - 1) &&& ~~~(align - 1)

/-- `(uint32_t)align_up(n, sizeof(uint32_t))` -/
def alignWord (n : Nat) : BitVec 32 := (alignUp (BitVec.ofNat 64 n) 4).setWidth 32

def fdtMagic : BitVec 32 := 0xD00DFEED
def fdtVersion : BitVec 32 := 17
def fdtCompVersion : BitVec 32 := 16
def fdtBeginNode : BitVec 32 := 1
def fdtEndNode : BitVec 32 := 2
def fdtProp : BitVec 32 := 3
def fdtNop : BitVec 32 := 4
def fdtEnd : BitVec 32 := 9
def fdtHdrSize : BitVec 32 := 40
def fdtRsvSize : BitVec 32 := 16

/-! ## Sizes -/

structure SizeDesc where
  structSize : BitVec 32 := 0
  stringSize : BitVec 32 := 0
  deriving DecidableEq, Repr

def propSize (d : SizeDesc) (p : Property) : SizeDesc :=
  ⟨d.structSize + 12 + alignWord p.data.length, d.stringSize + alignWord (p.name.length + 1)⟩

mutual

def getTreeSize : Tree → SizeDesc → SizeDesc
  | .node name props children, d =>
    let d := { d with structSize := d.structSize + (4 + alignWord (if name = [] then 1 else name.length + 1)) }
    let d := getForestSize children (props.foldl propSize d)
    { d with structSize := d.structSize + 4 }

/-- The loop over the children. -/
def getForestSize : List Tree → SizeDesc → SizeDesc
  | [], d => d
  | c :: rest, d => getForestSize rest (getTreeSize c d)

end

def sizeOfTree (t : Tree) : BitVec 32 :=
  let d := getTreeSize t {}
  fdtHdrSize + fdtRsvSize + (d.structSize + 4) + d.stringSize

/-! ## The writer -/

structure SerializerCtx where
  buf : Nat → Byte
  structOff : BitVec 32
  stringsBegin : BitVec 32
  stringsOff : BitVec 32

/-- The bytes before the first zero, as `strlen` counts them. -/
def cString (s : Bytes) : Bytes := s.takeWhile (· ≠ 0)

def serU32 (ctx : SerializerCtx) (value : BitVec 32) : SerializerCtx :=
  { ctx with buf := put ctx.buf ctx.structOff.toNat (writeBe32 value), structOff := ctx.structOff + 4 }

def serString (ctx : SerializerCtx) (s : Bytes) : SerializerCtx :=
  { ctx with
    buf := put ctx.buf ctx.structOff.toNat (cString s ++ [0])
    structOff := alignWord (ctx.structOff.toNat + (cString s).length + 1) }

def serData (ctx : SerializerCtx) (data : Bytes) (len : BitVec 32) : SerializerCtx :=
  { ctx with
    buf := put ctx.buf ctx.structOff.toNat (data.take len.toNat)
    structOff := alignWord (ctx.structOff.toNat + len.toNat) }

def serName (ctx : SerializerCtx) (s : Bytes) : SerializerCtx :=
  { ctx with
    buf := put ctx.buf ctx.stringsOff.toNat (cString s ++ [0])
    stringsOff := alignWord (ctx.stringsOff.toNat + (cString s).length + 1) }

def serProp (ctx : SerializerCtx) (p : Property) : SerializerCtx :=
  let len := BitVec.ofNat 32 p.data.length
  let ctx := serU32 (serU32 ctx fdtProp) len
  let ctx := serU32 ctx (ctx.stringsOff - ctx.stringsBegin)
  serName (serData ctx p.data len) p.name

mutual

def serTree : SerializerCtx → Tree → SerializerCtx
  | ctx, .node name props children =>
    let ctx := serString (serU32 ctx fdtBeginNode) name
    serU32 (serForest (props.foldl serProp ctx) children) fdtEndNode

/-- The loop over the children. -/
def serForest : SerializerCtx → List Tree → SerializerCtx
  | ctx, [] => ctx
  | ctx, c :: rest => serForest (serTree ctx c) rest

end

/-- The ten words of the header. -/
def headerWords (total structOff stringsOff stringSize structSize bootCpuid : BitVec 32) : List (BitVec 32) :=
  [fdtMagic, total, structOff, stringsOff, fdtHdrSize, fdtVersion, fdtCompVersion, bootCpuid, stringSize, structSize]

/-- Word `i` goes to byte `4 * i`. -/
def writeHeader (buf : Nat → Byte) (words : List (BitVec 32)) : Nat → Byte :=
  words.zipIdx.foldl (fun buf p => put buf (4 * p.2) (writeBe32 p.1)) buf

/-- The writer when `serialize` is done: where its two positions are, and the buffer. -/
def serialized (t : Tree) (buf : Nat → Byte) (bootCpuid : BitVec 32) : SerializerCtx :=
  let d := getTreeSize t {}
  let structSize := d.structSize + 4
  let structOff := fdtHdrSize + fdtRsvSize
  let stringsBegin := fdtHdrSize + fdtRsvSize + structSize
  let bufSize := stringsBegin + d.stringSize
  let buf := put buf 0 (zeros bufSize.toNat)
  let buf := writeHeader buf (headerWords bufSize structOff stringsBegin d.stringSize structSize bootCpuid)
  serU32 (serTree ⟨buf, structOff, stringsBegin, stringsBegin⟩ t) fdtEnd

/-- `serialize` into a buffer of `size` bytes: the memory after it, and the size it returns. -/
def serialize (t : Tree) (buf : Nat → Byte) (size : Nat) (bootCpuid : BitVec 32) : (Nat → Byte) × Nat :=
  let bufSize := (sizeOfTree t).toNat
  if size < bufSize then (buf, 0) else ((serialized t buf bootCpuid).buf, bufSize)

end Rv64Vm.Fdt
