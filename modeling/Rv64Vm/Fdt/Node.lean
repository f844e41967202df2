import Mathlib.Tactic.IntervalCases
import Rv64Vm.Lib.Bytes
import Rv64Vm.Lib.Walks

/-! # Building a device tree

`Node` and the calls that build a tree: nodes live in a heap and are named by
their position in it, as pointers. A node keeps a pointer to its parent; the
nodes without one are the roots of the trees built so far. The last phandle that
was given out in a tree is kept in the `phandle` field of its root, the field
that holds the phandle of any other node.
-/

namespace Rv64Vm.Fdt

open Lib

abbrev Bytes := List Byte

structure Property where
  name : Bytes
  data : Bytes
  deriving DecidableEq, Repr

structure Node where
  name : Bytes
  parent : Option Nat := none
  /-- `0` while there is none. -/
  phandle : BitVec 32 := 0
  props : List Property := []
  children : List Nat := []
  deriving DecidableEq, Repr

/-! ## Big-endian words -/

def toBe32 (v : BitVec 32) : BitVec 32 :=
  ((v &&& 0x000000FF) <<< 24) ||| ((v &&& 0x0000FF00) <<< 8) ||| ((v &&& 0x00FF0000) >>> 8) |||
    ((v &&& 0xFF000000) >>> 24)

/-- `write_be32_to_buf`: the host stores the low byte first. -/
def writeBe32 (v : BitVec 32) : Bytes := (List.range 4).map fun i => byteAt (toBe32 v) i

/-- The bytes of a word, the most significant first. -/
def bigEndian (v : BitVec 32) : Bytes := [byteAt v 3, byteAt v 2, byteAt v 1, byteAt v 0]

theorem byteAt_toBe32 (v : BitVec 32) (i : Nat) (small : i < 4) : byteAt (toBe32 v) i = byteAt v (3 - i) := by
  apply BitVec.eq_of_getLsbD_eq
  intro b hb
  simp only [byteAt, toBe32, BitVec.getLsbD_extractLsb', BitVec.getLsbD_or, BitVec.getLsbD_shiftLeft,
    BitVec.getLsbD_ushiftRight, BitVec.getLsbD_and]
  interval_cases i <;> interval_cases b <;> simp

theorem writeBe32_eq (v : BitVec 32) : writeBe32 v = bigEndian v := by
  simp [writeBe32, bigEndian, List.range_succ, byteAt_toBe32]

/-! ## Properties -/

/-- The loop of `add_prop`: replace the first property of the name, or append one. -/
def setProp (name data : Bytes) : List Property → List Property
  | [] => [⟨name, data⟩]
  | p :: rest => if p.name = name then { p with data := data } :: rest else p :: setProp name data rest

def getProp (name : Bytes) (props : List Property) : Option Bytes := (props.find? (·.name = name)).map (·.data)

namespace Node

def addProp (n : Node) (name data : Bytes) : Node :=
  if name = [] then n else { n with props := setProp name data n.props }

def addPropU32 (n : Node) (name : Bytes) (val : BitVec 32) : Node := n.addProp name (writeBe32 val)

end Node

theorem getProp_setProp (name data : Bytes) (props : List Property) :
    getProp name (setProp name data props) = some data := by
  induction props with
  | nil => simp [setProp, getProp]
  | cons p rest ih =>
    by_cases same : p.name = name
    · simp [setProp, getProp, same]
    · simp only [setProp, same, if_false, getProp, List.find?_cons, decide_false]
      exact ih

theorem getProp_setProp_of_ne {name other : Bytes} (data : Bytes) (ne : other ≠ name) (props : List Property) :
    getProp name (setProp other data props) = getProp name props := by
  induction props with
  | nil => simp [setProp, getProp, ne]
  | cons p rest ih =>
    by_cases same : p.name = other
    · simp [setProp, getProp, same, ne]
    · by_cases found : p.name = name
      · simp [setProp, getProp, found, Ne.symm ne]
      · simp only [setProp, same, if_false, getProp, List.find?_cons, found, decide_false]
        exact ih

/-! ## The heap -/

abbrev Heap := List Node

namespace Heap

def parent (h : Heap) (n : Nat) : Option Nat := h[n]?.elim none (·.parent)

/-- `while(r->parent) r = r->parent` -/
def rootOf (h : Heap) (n : Nat) : Option Nat := iterate (follow h.parent) h.length n

/-- `add_child`. The caller owns the child, which is then a root, and is not in the tree of the child, which
    would come to own itself. -/
def addChild (h : Heap) (n child : Nat) : Option Heap := do
  let r ← h.rootOf n
  if n < h.length ∧ child < h.length ∧ h.parent child = none ∧ r ≠ child then
    return (h.modify child ({ · with parent := some n })).modify n fun node =>
      { node with children := node.children ++ [child] }
  else none

def isIllegalPhandle (ph : BitVec 32) : Bool := ph == 0 || ph == 0xFFFFFFFF

def allocateNewPhandle (h : Heap) (n : Nat) : Option (Heap × BitVec 32) := do
  let r ← h.rootOf n
  let root ← h[r]?
  return (h.set r { root with phandle := root.phandle + 1 }, root.phandle + 1)

/-- The name of the property. -/
def phandleName : Bytes := [0x70, 0x68, 0x61, 0x6E, 0x64, 0x6C, 0x65]

def getPhandle (h : Heap) (n : Nat) : Option (Heap × BitVec 32) := do
  let node ← h[n]?
  if node.parent = none ∨ node.name = [] then return (h, 0)
  else if isIllegalPhandle node.phandle then
    let (h, ph) ← h.allocateNewPhandle n
    return (h.modify n fun node => { node with phandle := ph }.addPropU32 phandleName ph, ph)
  else return (h, node.phandle)

end Heap

/-! ## Calls -/

inductive Call where
  | create (name : Bytes)
  | addChild (node child : Nat)
  | addProp (node : Nat) (name data : Bytes)
  | getPhandle (node : Nat)
  deriving DecidableEq, Repr

/-- The nodes, and what `get_phandle` has returned for which of them. -/
structure Build where
  heap : Heap := []
  returned : List (Nat × BitVec 32) := []
  deriving DecidableEq, Repr

/-- One call; none where the caller has broken the rules of ownership. -/
def Build.call (s : Build) : Call → Option Build
  | .create name => some { s with heap := s.heap ++ [{ name := name }] }
  | .addChild node child => (s.heap.addChild node child).map ({ s with heap := · })
  | .addProp node name data =>
    if node < s.heap.length then some { s with heap := s.heap.modify node (·.addProp name data) } else none
  | .getPhandle node =>
    (s.heap.getPhandle node).map fun p => ⟨p.1, s.returned ++ [(node, p.2)]⟩

end Rv64Vm.Fdt
