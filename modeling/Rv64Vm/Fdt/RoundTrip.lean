import Rv64Vm.Fdt.Image
import Rv64Vm.Fdt.Parse

/-! # The round trip

What `serialize` writes reads back as the tree it was given.
-/

namespace Rv64Vm.Fdt

open Lib

variable {name strings a b bytes rest : Bytes} {off n fuel : Nat} {children : List Tree} {t : Tree}

/-! ## Reading what was written -/

theorem readWord_bigEndian (v : BitVec 32) (rest : Bytes) : readWord (bigEndian v ++ rest) = some (v, rest) := by
  have word : loadLE 32 (fun i => [byteAt v 0, byteAt v 1, byteAt v 2, byteAt v 3].getD i 0) 4 = v := by
    apply eq_of_byteAt (n := 4) (Nat.le_refl _)
    intro i small
    rw [byteAt_loadLE _ small (Nat.le_refl _)]
    interval_cases i <;> rfl
  rw [bigEndian, List.cons_append, List.cons_append, List.cons_append, List.cons_append, List.nil_append, readWord,
    word]

theorem readWords_flatMap (ws : List (BitVec 32)) (rest : Bytes) :
    readWords ws.length (ws.flatMap bigEndian ++ rest) = some (ws, rest) := by
  induction ws with
  | nil => rfl
  | cons w ws ih =>
    simp only [List.flatMap_cons, List.append_assoc, List.length_cons, readWords, readWord_bigEndian, ih,
      Option.bind_eq_bind, Option.bind_some, Option.pure_def]

theorem takeWhile_nameBytes (clean : (0 : Byte) ∉ name) (rest : Bytes) :
    (nameBytes name ++ rest).takeWhile (· ≠ 0) = name := by
  rw [nameBytes, padded, List.append_assoc, List.append_assoc, takeWhile_of_noNul clean, List.singleton_append]
  simp

theorem readName_nameBytes (clean : (0 : Byte) ∉ name) (rest : Bytes) :
    readName (nameBytes name ++ rest) = some (name, rest) := by
  have room : roundUp (name.length + 1) ≤ (nameBytes name ++ rest).length := by simp
  have left : (nameBytes name ++ rest).drop (roundUp (name.length + 1)) = rest := by
    rw [← length_nameBytes, List.drop_left]
  simp only [readName, takeWhile_nameBytes clean, if_pos room, left]

theorem readData_padded (data rest : Bytes) : readData data.length (padded data ++ rest) = some (data, rest) := by
  rw [readData, ← length_padded, if_pos (by simp), List.drop_left, padded, List.append_assoc, List.take_left]

/-! ## Names -/

/-- The strings block carries `bytes` from `off` on. -/
def Carries (strings : Bytes) (off : Nat) (bytes : Bytes) : Prop :=
  ∃ before after, strings = before ++ bytes ++ after ∧ before.length = off

theorem Carries.left (carries : Carries strings off (a ++ b)) : Carries strings off a := by
  obtain ⟨before, after, split, length⟩ := carries
  exact ⟨before, b ++ after, by simp [split], length⟩

theorem Carries.right (carries : Carries strings off (a ++ b)) : Carries strings (off + a.length) b := by
  obtain ⟨before, after, split, length⟩ := carries
  exact ⟨before ++ a, after, by simp [split], by rw [List.length_append, length]⟩

theorem Carries.le (carries : Carries strings off bytes) : off + bytes.length ≤ strings.length := by
  obtain ⟨before, after, split, length⟩ := carries
  simp only [split, List.length_append, length]
  omega

theorem stringAt_of_carries (clean : (0 : Byte) ∉ name)
    (carries : Carries strings off (nameBytes name)) : stringAt strings off = some name := by
  have le := carries.le
  have long := le_roundUp (name.length + 1)
  obtain ⟨before, after, split, length⟩ := carries
  have dropped : strings.drop off = nameBytes name ++ after := by
    rw [split, List.append_assoc, ← length, List.drop_left]
  rw [length_nameBytes] at le
  have inside : off + name.length < strings.length := by omega
  simp only [stringAt, dropped, takeWhile_nameBytes clean, if_pos inside]

/-! ## Items -/

theorem parseItems_end (strings rest : Bytes) (fuel : Nat) :
    parseItems strings (fuel + 1) (bigEndian fdtEndNode ++ rest) = some ([], [], rest) := by
  simp [parseItems, readWord_bigEndian]

theorem parseItems_prop {p : Property} (clean : (0 : Byte) ∉ p.name)
    (carries : Carries strings off (nameBytes p.name)) (small : strings.length < 2 ^ 32)
    (short : p.data.length < 2 ^ 32) (rest : Bytes) (fuel : Nat) :
    parseItems strings (fuel + 1) (propStruct off p ++ rest) =
      (parseItems strings fuel rest).map fun items => (p :: items.1, items.2.1, items.2.2) := by
  have le := carries.le
  have name := stringAt_of_carries clean carries
  have other : fdtProp ≠ fdtEndNode ∧ fdtProp ≠ fdtNop := by decide
  simp only [propStruct, List.append_assoc, parseItems, readWord_bigEndian, Option.bind_eq_bind, Option.bind_some,
    other.1, other.2, if_false, if_true, toNat_ofNat_of_lt short, toNat_ofNat_of_lt (show off < 2 ^ 32 by omega),
    readData_padded, name]
  cases parseItems strings fuel rest with
  | none => rfl
  | some items => rfl

theorem parseItems_props {tail : Bytes} (small : strings.length < 2 ^ 32)
    (tailed : ∀ fuel, n < fuel → parseItems strings fuel tail = some ([], children, rest)) (props : List Property)
    (clean : ∀ p ∈ props, (0 : Byte) ∉ p.name) (carries : Carries strings off (propNames props))
    (short : (propsStruct off props).length < 2 ^ 32) (enough : (propsStruct off props).length + n < fuel) :
    parseItems strings fuel (propsStruct off props ++ tail) = some (props, children, rest) := by
  induction props generalizing off fuel with
  | nil =>
    simp only [propsStruct, List.length_nil, Nat.zero_add] at enough
    exact tailed fuel enough
  | cons p ps ih =>
    have le := le_roundUp p.data.length
    simp only [propsStruct, List.length_append, length_propStruct] at short enough
    obtain ⟨fuel, rfl⟩ := Nat.exists_eq_succ_of_ne_zero (show fuel ≠ 0 by omega)
    have names : Carries strings off (nameBytes p.name ++ propNames ps) := carries
    rw [propsStruct, List.append_assoc, parseItems_prop (clean p List.mem_cons_self) names.left small (by omega),
      ih (fun q mem => clean q (List.mem_cons_of_mem _ mem)) names.right (by omega) (by omega)]
    rfl

theorem parseItems_child {inside : Bytes} (clean : (0 : Byte) ∉ name) {props : List Property}
    {others : List Tree} {last : Bytes} (within : parseItems strings fuel inside = some (props, children, rest))
    (after : parseItems strings fuel rest = some ([], others, last)) :
    parseItems strings (fuel + 1) (bigEndian fdtBeginNode ++ nameBytes name ++ inside) =
      some ([], .node name props children :: others, last) := by
  have other : fdtBeginNode ≠ fdtEndNode ∧ fdtBeginNode ≠ fdtNop ∧ fdtBeginNode ≠ fdtProp := by decide
  simp only [List.append_assoc, parseItems, readWord_bigEndian, Option.bind_eq_bind, Option.bind_some, other.1,
    other.2.1, other.2.2, if_false, if_true, readName_nameBytes clean, within, after]
  rfl

/-- The inside of a node, with its end. -/
def inner (off : Nat) (props : List Property) (children : List Tree) : Bytes :=
  propsStruct off props ++ forestStruct (off + (propNames props).length) children ++ bigEndian fdtEndNode

theorem treeStruct_eq (off : Nat) (name : Bytes) (props : List Property) (children : List Tree) :
    treeStruct off (.node name props children) = bigEndian fdtBeginNode ++ nameBytes name ++
      inner off props children := by
  simp only [treeStruct, inner, List.append_assoc]

mutual

theorem parseItems_inner {strings : Bytes} (small : strings.length < 2 ^ 32) {name : Bytes} {props : List Property}
    {children : List Tree} {off : Nat} (clean : (Tree.node name props children).Clean)
    (carries : Carries strings off (treeNames (.node name props children)))
    (short : (inner off props children).length < 2 ^ 32) {fuel : Nat}
    (enough : (inner off props children).length ≤ fuel) (rest : Bytes) :
    parseItems strings fuel (inner off props children ++ rest) = some (props, children, rest) := by
  obtain ⟨-, propsClean, childrenClean⟩ := clean
  rw [treeNames] at carries
  simp only [inner, List.length_append, length_bigEndian] at short enough
  have nested (fuel : Nat) (enough : (forestStruct (off + (propNames props).length) children).length < fuel) :
      parseItems strings fuel
          (forestStruct (off + (propNames props).length) children ++ (bigEndian fdtEndNode ++ rest)) =
        some ([], children, rest) :=
    parseItems_forest small children childrenClean carries.right (by omega) enough rest
  rw [inner, List.append_assoc, List.append_assoc]
  exact parseItems_props small nested props propsClean carries.left (by omega) (by omega)
termination_by 1 + sizeOf children

theorem parseItems_forest {strings : Bytes} (small : strings.length < 2 ^ 32) (ts : List Tree) {off : Nat}
    (clean : ForestClean ts) (carries : Carries strings off (forestNames ts))
    (short : (forestStruct off ts).length < 2 ^ 32) {fuel : Nat} (enough : (forestStruct off ts).length < fuel)
    (rest : Bytes) :
    parseItems strings fuel (forestStruct off ts ++ (bigEndian fdtEndNode ++ rest)) = some ([], ts, rest) := by
  obtain ⟨fuel, rfl⟩ := Nat.exists_eq_succ_of_ne_zero (show fuel ≠ 0 by omega)
  cases ts with
  | nil =>
    rw [forestStruct, List.nil_append]
    exact parseItems_end ..
  | cons c others => cases c with
    | node name props children =>
      obtain ⟨first, later⟩ := clean
      rw [forestNames] at carries
      rw [forestStruct, treeStruct_eq] at short enough ⊢
      simp only [List.length_append, length_bigEndian] at short enough
      have after : parseItems strings fuel (_ ++ (bigEndian fdtEndNode ++ rest)) = some ([], others, rest) :=
        parseItems_forest small others later carries.right (by omega) (by omega) rest
      have within (rest : Bytes) :
          parseItems strings fuel (inner off props children ++ rest) = some (props, children, rest) :=
        parseItems_inner small first carries.left (by omega) (by omega) rest
      have whole := parseItems_child first.1 (within _) after
      simpa only [List.append_assoc] using whole
termination_by sizeOf ts

end

/-! ## The image -/

theorem structBlock_short (fits : t.bytes < 2 ^ 32) :
    (structBlock t).length < 2 ^ 32 ∧ (treeNames t).length < 2 ^ 32 := by
  unfold Tree.bytes at fits
  omega

theorem parseStruct_structBlock (clean : t.Clean) (fits : t.bytes < 2 ^ 32) :
    parseStruct (treeNames t) (structBlock t) = some t := by
  obtain ⟨short, small⟩ := structBlock_short fits
  cases t with
  | node name props children =>
    have split : structBlock (.node name props children) =
        bigEndian fdtBeginNode ++ (nameBytes name ++ (inner 0 props children ++ bigEndian fdtEnd)) := by
      rw [structBlock, treeStruct_eq]
      simp only [List.append_assoc]
    have length := congrArg List.length split
    simp only [List.length_append, length_bigEndian] at length
    have names : Carries (treeNames (.node name props children)) 0 (treeNames (.node name props children)) :=
      ⟨[], [], by simp, rfl⟩
    have items (fuel : Nat) (enough : (inner 0 props children).length ≤ fuel) :
        parseItems (treeNames (.node name props children)) fuel (inner 0 props children ++ bigEndian fdtEnd) =
          some (props, children, bigEndian fdtEnd) :=
      parseItems_inner small clean names (by omega) enough _
    have ended : readWord (bigEndian fdtEnd) = some (fdtEnd, []) := readWord_bigEndian fdtEnd []
    simp only [parseStruct, split, readWord_bigEndian, readName_nameBytes clean.1, Option.bind_eq_bind,
      Option.bind_some, if_true]
    rw [items _ (by simp only [List.length_append]; omega)]
    simp only [Option.bind_some, ended, and_self, if_true]
    rfl

theorem parseReserved_zeros (rest : Bytes) (fuel : Nat) : parseReserved (fuel + 1) (zeros 16 ++ rest) = some [] := by
  have entry : readWords 4 (zeros 16 ++ rest) = some ([0, 0, 0, 0], rest) := readWords_flatMap [0, 0, 0, 0] rest
  simp only [parseReserved, entry, Option.bind_eq_bind, Option.bind_some, if_true]
  rfl

/-- The header of the image, read back. -/
def headerOf (t : Tree) (bootCpuid : BitVec 32) : Header where
  magic := fdtMagic
  totalSize := BitVec.ofNat 32 t.bytes
  offStruct := 56
  offStrings := BitVec.ofNat 32 (56 + (structBlock t).length)
  offReserved := fdtHdrSize
  version := fdtVersion
  compVersion := fdtCompVersion
  bootCpuid := bootCpuid
  sizeStrings := BitVec.ofNat 32 (treeNames t).length
  sizeStruct := BitVec.ofNat 32 (structBlock t).length

theorem readHeader_image (t : Tree) (bootCpuid : BitVec 32) (rest : Bytes) :
    readHeader (image t bootCpuid ++ rest) = some (headerOf t bootCpuid) := by
  have words := readWords_flatMap (headerWords (BitVec.ofNat 32 t.bytes) 56
    (BitVec.ofNat 32 (56 + (structBlock t).length)) (BitVec.ofNat 32 (treeNames t).length)
    (BitVec.ofNat 32 (structBlock t).length) bootCpuid) (zeros 16 ++ (structBlock t ++ (treeNames t ++ rest)))
  simp only [headerWords, List.length_cons, List.length_nil] at words
  simp only [readHeader, image, header, headerWords, List.append_assoc]
  rw [words]
  rfl

theorem block_append {before after : Bytes} {off size : BitVec 32} (begins : off.toNat = before.length)
    (sized : size.toNat = bytes.length) : block (before ++ bytes ++ after) off size = some bytes := by
  have room : off.toNat + size.toNat ≤ (before ++ bytes ++ after).length := by
    simp only [List.length_append, begins, sized]
    omega
  rw [block, if_pos room, begins, sized, List.append_assoc, List.drop_left, List.take_left]

theorem parse_image (bootCpuid : BitVec 32) (clean : t.Clean) (fits : t.bytes < 2 ^ 32) (rest : Bytes) :
    parse (image t bootCpuid ++ rest) = some ⟨bootCpuid, [], t⟩ := by
  obtain ⟨short, small⟩ := structBlock_short fits
  have length := length_image t bootCpuid
  have total : (headerOf t bootCpuid).totalSize.toNat = t.bytes := toNat_ofNat_of_lt fits
  have readable : (headerOf t bootCpuid).Readable (image t bootCpuid ++ rest) := by
    have room : t.bytes ≤ (image t bootCpuid ++ rest).length := by
      rw [List.length_append, length]
      omega
    have aligned : (40 : BitVec 32).toNat % 8 = 0 ∧ (56 : BitVec 32).toNat % 4 = 0 := by decide
    exact ⟨rfl, total ▸ room, Nat.le_refl 17, Nat.le_succ 16, aligned⟩
  have taken : (image t bootCpuid ++ rest).take (headerOf t bootCpuid).totalSize.toNat = image t bootCpuid := by
    rw [total, ← length, List.take_left]
  have reserved : parseReserved (image t bootCpuid).length
      ((image t bootCpuid).drop (headerOf t bootCpuid).offReserved.toNat) = some [] := by
    have dropped : (image t bootCpuid).drop 40 = zeros 16 ++ (structBlock t ++ treeNames t) := by
      rw [image, List.append_assoc, List.append_assoc, ← length_header t bootCpuid, List.drop_left]
    obtain ⟨fuel, enough⟩ : ∃ fuel, (image t bootCpuid).length = fuel + 1 :=
      Nat.exists_eq_succ_of_ne_zero (by rw [length, Tree.bytes]; omega)
    rw [enough, show (headerOf t bootCpuid).offReserved.toNat = 40 from rfl, dropped, parseReserved_zeros]
  have begins : (header t bootCpuid ++ zeros 16).length = 56 := by simp
  have strings : block (image t bootCpuid) (headerOf t bootCpuid).offStrings (headerOf t bootCpuid).sizeStrings =
      some (treeNames t) := by
    have whole : image t bootCpuid = header t bootCpuid ++ zeros 16 ++ structBlock t ++ treeNames t ++ [] :=
      (List.append_nil _).symm
    rw [whole]
    apply block_append _ (toNat_ofNat_of_lt small)
    rw [List.length_append, begins]
    exact toNat_ofNat_of_lt (by unfold Tree.bytes at fits; omega)
  have structs : block (image t bootCpuid) (headerOf t bootCpuid).offStruct (headerOf t bootCpuid).sizeStruct =
      some (structBlock t) :=
    block_append begins.symm (toNat_ofNat_of_lt short)
  simp only [parse, readHeader_image, Option.bind_eq_bind, Option.bind_some, if_pos readable, taken, reserved, strings,
    structs, parseStruct_structBlock clean fits]
  rfl

/-! ## The round trip -/

/-- The first `size` bytes of memory. -/
def contents (buf : Nat → Byte) (size : Nat) : Bytes := (List.range size).map buf

theorem contents_put {buf : Nat → Byte} {size : Nat} (room : bytes.length ≤ size) :
    ∃ rest, contents (put buf 0 bytes) size = bytes ++ rest := by
  refine ⟨(contents (put buf 0 bytes) size).drop bytes.length, ?_⟩
  have first : (contents (put buf 0 bytes) size).take bytes.length = bytes := by
    apply List.ext_getElem?
    intro i
    by_cases inside : i < bytes.length
    · have byte : put buf 0 bytes (0 + i) = bytes[i]?.getD (buf (0 + i)) := put_at i
      rw [Nat.zero_add, List.getElem?_eq_getElem inside] at byte
      rw [List.getElem?_take_of_lt inside, contents, List.getElem?_map, List.getElem?_range (by omega),
        List.getElem?_eq_getElem inside]
      exact congrArg some byte
    · rw [List.getElem?_eq_none (by simp; omega), List.getElem?_eq_none (by omega)]
  have split := List.take_append_drop bytes.length (contents (put buf 0 bytes) size)
  rw [first] at split
  exact split.symm

/-- What `serialize` has written is a flattened tree of version 17 that reads back as `t`; its header gives the sizes
    that the two blocks came to; and nothing is written behind it. With too small a buffer nothing is written at all. -/
theorem serialize_round_trip (t : Tree) (clean : t.Clean) (fits : t.bytes < 2 ^ 32) (buf : Nat → Byte) (size : Nat)
    (bootCpuid : BitVec 32) :
    ((sizeOfTree t).toNat ≤ size →
      (serialize t buf size bootCpuid).2 = (sizeOfTree t).toNat ∧
      (∀ i, (sizeOfTree t).toNat ≤ i → (serialize t buf size bootCpuid).1 i = buf i) ∧
      parse (contents (serialize t buf size bootCpuid).1 size) = some ⟨bootCpuid, [], t⟩ ∧
      ∃ h, readHeader (contents (serialize t buf size bootCpuid).1 size) = some h ∧
        h.offStruct + h.sizeStruct = (serialized t buf bootCpuid).structOff ∧
        h.offStrings = (serialized t buf bootCpuid).stringsBegin ∧
        h.offStrings + h.sizeStrings = (serialized t buf bootCpuid).stringsOff) ∧
    (size < (sizeOfTree t).toNat → serialize t buf size bootCpuid = (buf, 0)) := by
  have total : (sizeOfTree t).toNat = t.bytes := by rw [sizeOfTree_eq, toNat_ofNat_of_lt fits]
  rw [serialize_eq t buf size bootCpuid clean fits, total]
  constructor
  · intro room
    rw [if_neg (Nat.not_lt.mpr room)]
    have length := length_image t bootCpuid
    obtain ⟨rest, written⟩ : ∃ rest, contents (put buf 0 (image t bootCpuid)) size = image t bootCpuid ++ rest :=
      contents_put (by omega)
    have behind (i : Nat) (le : t.bytes ≤ i) : put buf 0 (image t bootCpuid) i = buf i :=
      put_outside (.inr (by omega))
    refine ⟨rfl, behind, ?_, headerOf t bootCpuid, ?_, ?_⟩
    · rw [written]
      exact parse_image bootCpuid clean fits rest
    · rw [written]
      exact readHeader_image t bootCpuid rest
    · have draft := serialized_draft t buf bootCpuid clean fits
      have begins : (header t bootCpuid ++ zeros 16 ++ structBlock t).length = 56 + (structBlock t).length := by
        rw [List.length_append, List.length_append, length_header, length_zeros]
      have structOff := draft.structOff
      have stringsBegin := draft.stringsBegin
      have stringsOff := draft.stringsOff
      rw [begins] at structOff stringsBegin stringsOff
      unfold Tree.bytes at fits
      refine ⟨?_, ?_, ?_⟩ <;> apply BitVec.eq_of_toNat_eq
      · rw [structOff, BitVec.toNat_add]
        simp only [headerOf, BitVec.ofNat_eq_ofNat, BitVec.toNat_ofNat]
        omega
      · rw [stringsBegin]
        exact toNat_ofNat_of_lt (by omega)
      · rw [stringsOff, BitVec.toNat_add]
        simp only [headerOf, BitVec.toNat_ofNat]
        omega
  · intro short
    rw [if_pos short]

/-- A root with a property, a child with two, and a nameless grandchild. -/
def sampleTree : Tree :=
  .node [] [⟨[0x61], [0, 0, 0, 2]⟩]
    [.node [0x63, 0x70, 0x75] [⟨[0x72, 0x65, 0x67], [1, 2, 3, 4, 5]⟩, ⟨[0x61], []⟩] [.node [] [] []]]

theorem serialize_round_trip_sample :
    sampleTree.Clean ∧ sampleTree.bytes = 156 ∧
      parse (contents (serialize sampleTree (fun _ => 0xAA) 200 3).1 200) = some ⟨3, [], sampleTree⟩ := by
  have clean : sampleTree.Clean := by simp [sampleTree, Tree.Clean, ForestClean]
  have bytes : sampleTree.bytes = 156 := by decide
  have size : (sizeOfTree sampleTree).toNat = 156 := by rw [sizeOfTree_eq, bytes]; rfl
  obtain ⟨large, -⟩ := serialize_round_trip sampleTree clean (by rw [bytes]; decide) (fun _ => 0xAA) 200 3
  obtain ⟨-, -, parsed, -⟩ := large (by rw [size]; decide)
  exact ⟨clean, bytes, parsed⟩

end Rv64Vm.Fdt
