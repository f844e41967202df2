import Rv64Vm.Fdt.Serialize
import Rv64Vm.Lib.Masks

/-! # The image of a device tree

The blocks of a flattened tree as lists of bytes, and the writer's buffer as one
list of them: what is written of the structure block, zeros up to the strings
block, what is written of that, and zeros. Each call of the writer appends to
one of the two written parts.
-/

namespace Rv64Vm.Fdt

open Lib

/-! ## Blocks -/

/-- A property in the structure block, its name at `off` in the strings block. -/
def propStruct (off : Nat) (p : Property) : Bytes :=
  bigEndian fdtProp ++ bigEndian (BitVec.ofNat 32 p.data.length) ++ bigEndian (BitVec.ofNat 32 off) ++ padded p.data

def nameBytes (name : Bytes) : Bytes := padded (name ++ [0])

def propNames (props : List Property) : Bytes := props.flatMap fun p => nameBytes p.name

def propsStruct : Nat → List Property → Bytes
  | _, [] => []
  | off, p :: rest => propStruct off p ++ propsStruct (off + (nameBytes p.name).length) rest

mutual

/-- The names of a tree's properties, in the order of the tree. -/
def treeNames : Tree → Bytes
  | .node _ props children => propNames props ++ forestNames children

def forestNames : List Tree → Bytes
  | [] => []
  | c :: rest => treeNames c ++ forestNames rest

end

mutual

/-- A tree in the structure block, its property names from `off` on in the strings block. -/
def treeStruct : Nat → Tree → Bytes
  | off, .node name props children =>
    bigEndian fdtBeginNode ++ nameBytes name ++ propsStruct off props ++
      forestStruct (off + (propNames props).length) children ++ bigEndian fdtEndNode

def forestStruct : Nat → List Tree → Bytes
  | _, [] => []
  | off, c :: rest => treeStruct off c ++ forestStruct (off + (treeNames c).length) rest

end

/-! ## Sizes -/

theorem alignUp_four (n : Nat) : alignUp (BitVec.ofNat 64 n) 4 = BitVec.ofNat 64 (roundUp n) := by
  have cleared (x : BitVec 64) : x &&& ~~~(lowMask 64 2) = (x >>> 2) <<< 2 := by
    apply BitVec.eq_of_getLsbD_eq
    intro i hi
    simp only [BitVec.getLsbD_and, BitVec.getLsbD_not, getLsbD_lowMask (show 2 < 64 by decide),
      BitVec.getLsbD_shiftLeft, BitVec.getLsbD_ushiftRight, hi, decide_true, Bool.true_and]
    by_cases low : i < 2
    · simp [low]
    · simp [low, Nat.add_sub_of_le (Nat.le_of_not_lt low)]
  have mask : (4 : BitVec 64) - 1 = lowMask 64 2 := by decide
  apply BitVec.eq_of_toNat_eq
  rw [alignUp, mask, cleared, BitVec.toNat_shiftLeft, BitVec.toNat_ushiftRight, BitVec.toNat_sub, BitVec.toNat_add,
    roundUp]
  simp only [BitVec.ofNat_eq_ofNat, BitVec.toNat_ofNat, Nat.shiftLeft_eq, Nat.shiftRight_eq_div_pow]
  omega

theorem alignWord_eq (n : Nat) : alignWord n = BitVec.ofNat 32 (roundUp n) := by
  rw [alignWord, alignUp_four]
  apply BitVec.eq_of_toNat_eq
  simp

@[simp] theorem length_bigEndian (v : BitVec 32) : (bigEndian v).length = 4 := rfl

@[simp] theorem length_nameBytes (name : Bytes) : (nameBytes name).length = roundUp (name.length + 1) := by
  simp [nameBytes]

theorem length_propStruct (off : Nat) (p : Property) : (propStruct off p).length = 12 + roundUp p.data.length := by
  simp only [propStruct, List.length_append, length_bigEndian, length_padded]

/-- The size that `get_tree_size` has come to, where `n` bytes of structure and `m` of strings are added to it. -/
def SizeDesc.plus (d : SizeDesc) (n m : Nat) : SizeDesc :=
  ⟨d.structSize + BitVec.ofNat 32 n, d.stringSize + BitVec.ofNat 32 m⟩

theorem SizeDesc.plus_plus (d : SizeDesc) (n m n' m' : Nat) : (d.plus n m).plus n' m' = d.plus (n + n') (m + m') := by
  simp [SizeDesc.plus, BitVec.ofNat_add, BitVec.add_assoc]

theorem foldl_propSize (props : List Property) (off : Nat) (d : SizeDesc) :
    props.foldl propSize d = d.plus (propsStruct off props).length (propNames props).length := by
  induction props generalizing off d with
  | nil => simp [SizeDesc.plus, propsStruct, propNames]
  | cons p rest ih =>
    have one : propSize d p = d.plus (propStruct off p).length (nameBytes p.name).length := by
      simp [propSize, SizeDesc.plus, length_propStruct, alignWord_eq, BitVec.ofNat_add, BitVec.add_assoc]
    rw [List.foldl_cons, one, ih (off + (nameBytes p.name).length), SizeDesc.plus_plus]
    simp [propsStruct, propNames]

mutual

theorem getTreeSize_eq (t : Tree) (off : Nat) (d : SizeDesc) :
    getTreeSize t d = d.plus (treeStruct off t).length (treeNames t).length := by
  cases t with
  | node name props children =>
    have head : (if name = [] then 1 else name.length + 1) = name.length + 1 := by
      split
      case isTrue empty => rw [empty]; rfl
      case isFalse => rfl
    have begun : { d with structSize := d.structSize + (4 + alignWord (name.length + 1)) } =
        d.plus (4 + roundUp (name.length + 1)) 0 := by
      simp [SizeDesc.plus, alignWord_eq, BitVec.ofNat_add]
    have ended (d : SizeDesc) : { d with structSize := d.structSize + 4 } = d.plus 4 0 := by simp [SizeDesc.plus]
    rw [getTreeSize, head, begun, foldl_propSize props off,
      getForestSize_eq children (off + (propNames props).length), ended]
    simp only [SizeDesc.plus_plus, treeStruct, treeNames, List.length_append, length_bigEndian, length_nameBytes]
    congr 1
    omega
termination_by sizeOf t

theorem getForestSize_eq (ts : List Tree) (off : Nat) (d : SizeDesc) :
    getForestSize ts d = d.plus (forestStruct off ts).length (forestNames ts).length := by
  cases ts with
  | nil => simp [getForestSize, SizeDesc.plus, forestStruct, forestNames]
  | cons c rest =>
    rw [getForestSize, getTreeSize_eq c off d, getForestSize_eq rest (off + (treeNames c).length), SizeDesc.plus_plus]
    simp [forestStruct, forestNames]
termination_by sizeOf ts

end

theorem padded_of_aligned {bytes : Bytes} (aligned : bytes.length % 4 = 0) : padded bytes = bytes := by
  have same : roundUp bytes.length - bytes.length = 0 := by unfold roundUp; omega
  rw [padded, same]
  exact List.append_nil _

theorem takeWhile_of_noNul {s : Bytes} (clean : (0 : Byte) ∉ s) (rest : Bytes) :
    (s ++ rest).takeWhile (· ≠ 0) = s ++ rest.takeWhile (· ≠ 0) :=
  List.takeWhile_append_of_pos fun _ mem => decide_eq_true fun zero => clean (zero ▸ mem)

theorem cString_of_noNul {s : Bytes} (clean : (0 : Byte) ∉ s) : cString s = s := by
  have whole := takeWhile_of_noNul clean []
  rw [List.takeWhile_nil, List.append_nil] at whole
  exact whole

theorem toNat_alignWord {n : Nat} (fits : roundUp n < 2 ^ 32) : (alignWord n).toNat = roundUp n := by
  rw [alignWord_eq, toNat_ofNat_of_lt fits]

/-! ## The writer -/

/-- The writer's buffer, over the memory `buf`: `a` is what is written of the structure block and all before it, `b`
    what is written of the strings block, and there is room for `k` and `m` more bytes. -/
structure Draft (buf : Nat → Byte) (a : Bytes) (k : Nat) (b : Bytes) (m : Nat) (ctx : SerializerCtx) : Prop where
  bytes : ctx.buf = put buf 0 (a ++ zeros k ++ b ++ zeros m)
  structOff : ctx.structOff.toNat = a.length
  stringsBegin : ctx.stringsBegin.toNat = a.length + k
  stringsOff : ctx.stringsOff.toNat = a.length + k + b.length
  fits : a.length + k + b.length + m < 2 ^ 32
  structAligned : a.length % 4 = 0
  beginAligned : k % 4 = 0
  stringsAligned : b.length % 4 = 0

namespace Draft

variable {buf : Nat → Byte} {a b : Bytes} {k m : Nat} {ctx : SerializerCtx}

section Writing

variable (draft : Draft buf a k b m ctx)

include draft

/-- Bytes written to the structure block, and zeros up to the next word. -/
theorem structPut {bytes : Bytes} (room : (padded bytes).length ≤ k) {off : BitVec 32}
    (moved : off.toNat = a.length + (padded bytes).length) :
    Draft buf (a ++ padded bytes) (k - (padded bytes).length) b m
      { ctx with buf := put ctx.buf ctx.structOff.toNat bytes, structOff := off } := by
  have le := le_roundUp bytes.length
  rw [length_padded] at room moved ⊢
  have zero : zeros (k - bytes.length) =
      zeros (roundUp bytes.length - bytes.length) ++ zeros (k - roundUp bytes.length) := by
    rw [← zeros_add]
    congr 1
    omega
  have written : put (put buf 0 (a ++ zeros k ++ (b ++ zeros m))) (0 + a.length) bytes =
      put buf 0 (a ++ bytes ++ zeros (k - bytes.length) ++ (b ++ zeros m)) := put_zeros (by omega)
  constructor
  · dsimp only
    rw [draft.bytes, draft.structOff]
    rw [Nat.zero_add] at written
    simp only [List.append_assoc] at written ⊢
    rw [written, zero]
    simp only [padded, List.append_assoc]
  · simp only [List.length_append, length_padded, moved]
  · rw [List.length_append, length_padded]
    have := draft.stringsBegin
    dsimp only
    omega
  · rw [List.length_append, length_padded]
    have := draft.stringsOff
    dsimp only
    omega
  · rw [List.length_append, length_padded]
    have := draft.fits
    omega
  · rw [List.length_append, length_padded]
    have := draft.structAligned
    have := roundUp_mod bytes.length
    omega
  · have := draft.beginAligned
    have := roundUp_mod bytes.length
    omega
  · exact draft.stringsAligned

theorem stringsPut {bytes : Bytes} (room : (padded bytes).length ≤ m) {off : BitVec 32}
    (moved : off.toNat = a.length + k + b.length + (padded bytes).length) :
    Draft buf a k (b ++ padded bytes) (m - (padded bytes).length)
      { ctx with buf := put ctx.buf ctx.stringsOff.toNat bytes, stringsOff := off } := by
  have le := le_roundUp bytes.length
  rw [length_padded] at room moved ⊢
  have zero : zeros (m - bytes.length) =
      zeros (roundUp bytes.length - bytes.length) ++ zeros (m - roundUp bytes.length) := by
    rw [← zeros_add]
    congr 1
    omega
  have written : put (put buf 0 (a ++ zeros k ++ b ++ zeros m ++ [])) (0 + (a ++ zeros k ++ b).length) bytes =
      put buf 0 (a ++ zeros k ++ b ++ bytes ++ zeros (m - bytes.length) ++ []) := put_zeros (by omega)
  constructor
  · dsimp only
    rw [draft.bytes, draft.stringsOff]
    rw [Nat.zero_add, List.length_append, List.length_append, length_zeros] at written
    simp only [List.append_assoc, List.append_nil] at written ⊢
    rw [written, zero]
    simp only [padded, List.append_assoc]
  · exact draft.structOff
  · exact draft.stringsBegin
  · rw [List.length_append, length_padded]
    dsimp only
    omega
  · rw [List.length_append, length_padded]
    have := draft.fits
    omega
  · exact draft.structAligned
  · exact draft.beginAligned
  · rw [List.length_append, length_padded]
    have := draft.stringsAligned
    have := roundUp_mod bytes.length
    omega

theorem u32 (room : 4 ≤ k) (v : BitVec 32) : Draft buf (a ++ bigEndian v) (k - 4) b m (serU32 ctx v) := by
  have whole : padded (bigEndian v) = bigEndian v := padded_of_aligned (by rw [length_bigEndian])
  have fits := draft.fits
  have moved : (ctx.structOff + 4).toNat = a.length + (padded (bigEndian v)).length := by
    rw [BitVec.toNat_add, draft.structOff, whole, length_bigEndian]
    simp
    omega
  have written := draft.structPut (by rw [whole]; exact room) moved
  rw [whole, ← writeBe32_eq] at written
  rw [← writeBe32_eq]
  exact written

theorem string {s : Bytes} (clean : (0 : Byte) ∉ s) (room : (nameBytes s).length ≤ k) :
    Draft buf (a ++ nameBytes s) (k - (nameBytes s).length) b m (serString ctx s) := by
  have fits := draft.fits
  have round := roundUp_add draft.structAligned (s.length + 1)
  rw [length_nameBytes] at room
  have moved : (alignWord (ctx.structOff.toNat + s.length + 1)).toNat = a.length + (padded (s ++ [0])).length := by
    rw [draft.structOff, Nat.add_assoc, toNat_alignWord (by omega), round, length_padded, List.length_append]
    rfl
  rw [serString, cString_of_noNul clean]
  exact draft.structPut (by simpa using room) moved

theorem data {d : Bytes} (room : (padded d).length ≤ k) :
    Draft buf (a ++ padded d) (k - (padded d).length) b m (serData ctx d (BitVec.ofNat 32 d.length)) := by
  have fits := draft.fits
  have round := roundUp_add draft.structAligned d.length
  have le := le_roundUp d.length
  rw [length_padded] at room
  have len : (BitVec.ofNat 32 d.length).toNat = d.length := toNat_ofNat_of_lt (by omega)
  have moved : (alignWord (ctx.structOff.toNat + d.length)).toNat = a.length + (padded d).length := by
    rw [draft.structOff, toNat_alignWord (by omega), round, length_padded]
  rw [serData, len, List.take_length]
  exact draft.structPut (by simpa using room) moved

theorem name {s : Bytes} (clean : (0 : Byte) ∉ s) (room : (nameBytes s).length ≤ m) :
    Draft buf a k (b ++ nameBytes s) (m - (nameBytes s).length) (serName ctx s) := by
  have fits := draft.fits
  have aligned : (a.length + k + b.length) % 4 = 0 := by
    have := draft.structAligned
    have := draft.beginAligned
    have := draft.stringsAligned
    omega
  have round := roundUp_add aligned (s.length + 1)
  rw [length_nameBytes] at room
  have moved : (alignWord (ctx.stringsOff.toNat + s.length + 1)).toNat =
      a.length + k + b.length + (padded (s ++ [0])).length := by
    rw [draft.stringsOff, Nat.add_assoc _ s.length 1, toNat_alignWord (by omega), round, length_padded,
      List.length_append]
    rfl
  rw [serName, cString_of_noNul clean]
  exact draft.stringsPut (by simpa using room) moved

theorem nameOff : ctx.stringsOff - ctx.stringsBegin = BitVec.ofNat 32 b.length := by
  have fits := draft.fits
  apply BitVec.eq_of_toNat_eq
  rw [BitVec.toNat_sub, draft.stringsOff, draft.stringsBegin, BitVec.toNat_ofNat]
  omega

theorem prop {p : Property} (clean : (0 : Byte) ∉ p.name)
    (room : (propStruct b.length p).length ≤ k) (room' : (nameBytes p.name).length ≤ m) :
    Draft buf (a ++ propStruct b.length p) (k - (propStruct b.length p).length) (b ++ nameBytes p.name)
      (m - (nameBytes p.name).length) (serProp ctx p) := by
  rw [length_propStruct] at room
  have tagged := (draft.u32 (by omega) fdtProp).u32 (by omega) (BitVec.ofNat 32 p.data.length)
  have named := tagged.u32 (by omega) (BitVec.ofNat 32 b.length)
  have filled := (named.data (d := p.data) (by rw [length_padded]; omega)).name clean room'
  have length : k - 4 - 4 - 4 - (padded p.data).length = k - (propStruct b.length p).length := by
    rw [length_propStruct, length_padded]
    omega
  rw [length] at filled
  simp only [serProp, tagged.nameOff]
  simpa only [propStruct, List.append_assoc] using filled

theorem props {props : List Property} (clean : ∀ p ∈ props, (0 : Byte) ∉ p.name)
    (room : (propsStruct b.length props).length ≤ k) (room' : (propNames props).length ≤ m) :
    Draft buf (a ++ propsStruct b.length props) (k - (propsStruct b.length props).length) (b ++ propNames props)
      (m - (propNames props).length) (props.foldl serProp ctx) := by
  induction props generalizing a k b m ctx with
  | nil => simpa [propsStruct, propNames] using draft
  | cons p rest ih =>
    simp only [propsStruct, propNames, List.flatMap_cons, List.length_append] at room room' ⊢
    have first := draft.prop (clean p List.mem_cons_self) (by omega) (by omega)
    have later := ih first (fun q mem => clean q (List.mem_cons_of_mem _ mem))
      (by rw [List.length_append]; omega) (by rw [propNames]; omega)
    simpa only [List.length_append, List.append_assoc, Nat.sub_sub, propNames, List.foldl_cons] using later

end Writing

end Draft

mutual

/-- No name has a zero byte. -/
def Tree.Clean : Tree → Prop
  | .node name props children => (0 : Byte) ∉ name ∧ (∀ p ∈ props, (0 : Byte) ∉ p.name) ∧ ForestClean children

def ForestClean : List Tree → Prop
  | [] => True
  | c :: rest => c.Clean ∧ ForestClean rest

end

mutual

theorem Draft.tree {buf : Nat → Byte} {a b : Bytes} {k m : Nat} {ctx : SerializerCtx} (t : Tree) (clean : t.Clean)
    (draft : Draft buf a k b m ctx) (room : (treeStruct b.length t).length ≤ k) (room' : (treeNames t).length ≤ m) :
    Draft buf (a ++ treeStruct b.length t) (k - (treeStruct b.length t).length) (b ++ treeNames t)
      (m - (treeNames t).length) (serTree ctx t) := by
  cases t with
  | node name props children =>
    obtain ⟨named, propNamed, childrenClean⟩ := clean
    simp only [treeStruct, treeNames, List.length_append, length_bigEndian] at room room' ⊢
    have begun := (draft.u32 (by omega) fdtBeginNode).string named (by omega)
    have described := begun.props propNamed (by omega) (by omega)
    have nested := Draft.forest children childrenClean described (by rw [List.length_append]; omega) (by omega)
    have ended := nested.u32 (by rw [List.length_append]; omega) fdtEndNode
    rw [serTree]
    simpa only [List.length_append, List.append_assoc, Nat.sub_sub, Nat.add_assoc] using ended
termination_by sizeOf t

theorem Draft.forest {buf : Nat → Byte} {a b : Bytes} {k m : Nat} {ctx : SerializerCtx} (ts : List Tree)
    (clean : ForestClean ts) (draft : Draft buf a k b m ctx) (room : (forestStruct b.length ts).length ≤ k)
    (room' : (forestNames ts).length ≤ m) :
    Draft buf (a ++ forestStruct b.length ts) (k - (forestStruct b.length ts).length) (b ++ forestNames ts)
      (m - (forestNames ts).length) (serForest ctx ts) := by
  cases ts with
  | nil => simpa [forestStruct, forestNames, serForest] using draft
  | cons c rest =>
    obtain ⟨first, others⟩ := clean
    simp only [forestStruct, forestNames, List.length_append] at room room' ⊢
    have head := Draft.tree c first draft (by omega) (by omega)
    have tail := Draft.forest rest others head (by rw [List.length_append]; omega) (by omega)
    rw [serForest]
    simpa only [List.length_append, List.append_assoc, Nat.sub_sub] using tail
termination_by sizeOf ts

end

theorem propsStruct_aligned (off : Nat) (props : List Property) : (propsStruct off props).length % 4 = 0 := by
  induction props generalizing off with
  | nil => rfl
  | cons p rest ih =>
    have later := ih (off + (nameBytes p.name).length)
    have round := roundUp_mod p.data.length
    rw [propsStruct, List.length_append, length_propStruct]
    omega

mutual

theorem treeStruct_aligned (off : Nat) (t : Tree) : (treeStruct off t).length % 4 = 0 := by
  cases t with
  | node name props children =>
    have nested := forestStruct_aligned (off + (propNames props).length) children
    have described := propsStruct_aligned off props
    have round := roundUp_mod (name.length + 1)
    simp only [treeStruct, List.length_append, length_bigEndian, length_nameBytes]
    omega
termination_by sizeOf t

theorem forestStruct_aligned (off : Nat) (ts : List Tree) : (forestStruct off ts).length % 4 = 0 := by
  cases ts with
  | nil => simp [forestStruct]
  | cons c rest =>
    have first := treeStruct_aligned off c
    have others := forestStruct_aligned (off + (treeNames c).length) rest
    rw [forestStruct, List.length_append]
    omega
termination_by sizeOf ts

end

/-! ## The image -/

variable (t : Tree) (buf : Nat → Byte) (bootCpuid : BitVec 32)

def structBlock : Bytes := treeStruct 0 t ++ bigEndian fdtEnd

/-- The size of the whole image, without bound. -/
def Tree.bytes : Nat := 56 + (structBlock t).length + (treeNames t).length

def header : Bytes :=
  (headerWords (BitVec.ofNat 32 t.bytes) 56 (BitVec.ofNat 32 (56 + (structBlock t).length))
    (BitVec.ofNat 32 (treeNames t).length) (BitVec.ofNat 32 (structBlock t).length) bootCpuid).flatMap bigEndian

/-- The header, an empty memory reservation block, the structure block and the strings block. -/
def image : Bytes :=
  header t bootCpuid ++ zeros 16 ++ structBlock t ++ treeNames t

@[simp] theorem length_header : (header t bootCpuid).length = 40 := by
  simp [header, headerWords]

theorem length_image : (image t bootCpuid).length = t.bytes := by
  simp only [image, List.length_append, length_header, length_zeros, Tree.bytes]

theorem getTreeSize_structBlock :
    (getTreeSize t {}).structSize + 4 = BitVec.ofNat 32 (structBlock t).length ∧
      (getTreeSize t {}).stringSize = BitVec.ofNat 32 (treeNames t).length := by
  rw [getTreeSize_eq t 0, structBlock, List.length_append, length_bigEndian, BitVec.ofNat_add]
  simp [SizeDesc.plus]

theorem sizeOfTree_eq : sizeOfTree t = BitVec.ofNat 32 t.bytes := by
  obtain ⟨structSize, stringSize⟩ := getTreeSize_structBlock t
  simp only [sizeOfTree, structSize, stringSize, Tree.bytes, BitVec.ofNat_add, fdtHdrSize, fdtRsvSize]
  rfl

theorem writeHeader_eq (words : List (BitVec 32)) {buf : Nat → Byte} {n : Nat} (room : 4 * words.length ≤ n) :
    writeHeader (put buf 0 (zeros n)) words =
      put buf 0 (words.flatMap bigEndian ++ zeros (n - 4 * words.length)) := by
  have written (words : List (BitVec 32)) (i n : Nat) (before : Bytes) (place : before.length = 4 * i)
      (room : 4 * words.length ≤ n) :
      (words.zipIdx i).foldl (fun buf p => put buf (4 * p.2) (writeBe32 p.1)) (put buf 0 (before ++ zeros n)) =
        put buf 0 (before ++ words.flatMap bigEndian ++ zeros (n - 4 * words.length)) := by
    induction words generalizing i n before with
    | nil => simp
    | cons w rest ih =>
      rw [List.length_cons] at room
      have one : put (put buf 0 (before ++ zeros n ++ [])) (0 + before.length) (bigEndian w) =
          put buf 0 (before ++ bigEndian w ++ zeros (n - (bigEndian w).length) ++ []) :=
        put_zeros (by rw [length_bigEndian]; omega)
      simp only [List.append_nil, Nat.zero_add, length_bigEndian] at one
      rw [List.zipIdx_cons, List.foldl_cons, ← place, writeBe32_eq, one,
        ih (i + 1) (n - 4) (before ++ bigEndian w) (by rw [List.length_append, length_bigEndian]; omega) (by omega)]
      have left : n - 4 - 4 * rest.length = n - 4 * (rest.length + 1) := by omega
      simp only [List.flatMap_cons, List.append_assoc, List.length_cons, left]
  have whole := written words 0 n [] rfl room
  rw [writeHeader]
  simpa only [List.nil_append] using whole

/-- The writer before the tree. -/
def headed : SerializerCtx :=
  ⟨put buf 0 (header t bootCpuid ++ zeros (t.bytes - 40)), 56, BitVec.ofNat 32 (56 + (structBlock t).length),
    BitVec.ofNat 32 (56 + (structBlock t).length)⟩

theorem serialized_eq (fits : t.bytes < 2 ^ 32) :
    serialized t buf bootCpuid = serU32 (serTree (headed t buf bootCpuid) t) fdtEnd := by
  obtain ⟨structSize, stringSize⟩ := getTreeSize_structBlock t
  have total : BitVec.ofNat 32 (56 + (structBlock t).length) + BitVec.ofNat 32 (treeNames t).length =
      BitVec.ofNat 32 t.bytes := by
    rw [← BitVec.ofNat_add, Tree.bytes]
  have strings : fdtHdrSize + fdtRsvSize + BitVec.ofNat 32 (structBlock t).length =
      BitVec.ofNat 32 (56 + (structBlock t).length) := by
    rw [BitVec.ofNat_add]
    rfl
  have size : (BitVec.ofNat 32 t.bytes).toNat = t.bytes := toNat_ofNat_of_lt fits
  simp only [serialized, structSize, stringSize, strings, total, size]
  rw [writeHeader_eq _ (by rw [Tree.bytes]; simp [headerWords]; omega)]
  rfl

theorem headed_draft (fits : t.bytes < 2 ^ 32) :
    Draft buf (header t bootCpuid ++ zeros 16) (structBlock t).length [] (treeNames t).length
      (headed t buf bootCpuid) := by
  have length : (header t bootCpuid ++ zeros 16).length = 56 := by simp
  have spare : t.bytes - 40 = 16 + ((structBlock t).length + (treeNames t).length) := by rw [Tree.bytes]; omega
  have aligned : (structBlock t).length % 4 = 0 := by
    have tree := treeStruct_aligned 0 t
    rw [structBlock, List.length_append, length_bigEndian]
    omega
  rw [Tree.bytes] at fits
  refine ⟨?_, ?_, ?_, ?_, ?_, ?_, aligned, rfl⟩
  · simp only [headed, spare, zeros_add, List.append_assoc, List.append_nil]
  · rw [length]
    rfl
  · rw [length, headed, BitVec.toNat_ofNat]
    omega
  · rw [length, headed, BitVec.toNat_ofNat]
    simp
    omega
  · rw [length]
    simp
    omega
  · rw [length]

/-- The writer ends with both blocks full. -/
theorem serialized_draft (clean : t.Clean)
    (fits : t.bytes < 2 ^ 32) :
    Draft buf (header t bootCpuid ++ zeros 16 ++ structBlock t) 0 (treeNames t) 0 (serialized t buf bootCpuid) := by
  have block : (structBlock t).length = (treeStruct 0 t).length + 4 := by rw [structBlock, List.length_append]; rfl
  have tree := Draft.tree t clean (headed_draft t buf bootCpuid fits) (by rw [block]; exact Nat.le_add_right ..)
    (Nat.le_refl _)
  simp only [List.length_nil, List.nil_append, Nat.sub_self, block, Nat.add_sub_cancel_left] at tree
  have ended := tree.u32 (Nat.le_refl 4) fdtEnd
  rw [serialized_eq t buf bootCpuid fits]
  simpa only [structBlock, List.append_assoc, Nat.sub_self] using ended

/-- `serialize` writes the image, or nothing. -/
theorem serialize_eq (buf : Nat → Byte) (size : Nat) (bootCpuid : BitVec 32) (clean : t.Clean)
    (fits : t.bytes < 2 ^ 32) :
    serialize t buf size bootCpuid =
      if size < t.bytes then (buf, 0) else (put buf 0 (image t bootCpuid), t.bytes) := by
  have whole : (sizeOfTree t).toNat = t.bytes := by
    rw [sizeOfTree_eq, toNat_ofNat_of_lt fits]
  have written : (serialized t buf bootCpuid).buf = put buf 0 (image t bootCpuid) := by
    rw [(serialized_draft t buf bootCpuid clean fits).bytes]
    simp [zeros, image]
  simp only [serialize, whole, written]

end Rv64Vm.Fdt
