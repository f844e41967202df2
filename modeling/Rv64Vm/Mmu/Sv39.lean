import Rv64Vm.Mmu.PteAccess

/-! # The Sv39 algorithm of the privileged architecture

The specified translation over natural-number fields: which leaf entry a
virtual address reaches, when that leaf grants an access, and the physical
address it then gives. Nothing here mentions the emulator.
-/

namespace Rv64Vm.Sv39

/-- Page-table levels. -/
def levels : Nat := 3

def pgoff (va : Nat) : Nat := va % 2 ^ 12

def vpn (va i : Nat) : Nat := va / 2 ^ (12 + 9 * i) % 2 ^ 9

/-- The 44-bit page number of an entry. -/
def ppn (pte : Nat) : Nat := pte / 2 ^ 10 % 2 ^ 44

/-- Its three fields: nine, nine and twenty-six bits. -/
def ppnField (pte : Nat) : Nat → Nat
  | 0 => pte / 2 ^ 10 % 2 ^ 9
  | 1 => pte / 2 ^ 19 % 2 ^ 9
  | _ => pte / 2 ^ 28 % 2 ^ 26

/-- Bits 63..39 equal bit 38. -/
def Canonical (va : Nat) : Prop := ∀ k, 39 ≤ k → k < 64 → va.testBit k = va.testBit 38

def Valid (pte : Nat) : Prop := pte.testBit 0 ∧ ¬(pte.testBit 2 ∧ ¬ pte.testBit 1)

def IsLeaf (pte : Nat) : Prop := pte.testBit 1 ∨ pte.testBit 3

/-- Address of the entry that level `i` of the walk looks at. -/
def pteAddr (va i base : Nat) : Nat := base + vpn va i * 8

structure Leaf where
  addr : Nat
  pte : Nat
  level : Nat

/-- From the level-`i` table at `base`, the walk of `va` ends at a leaf. -/
inductive Reaches (mem : Nat → Nat) (va : Nat) : Nat → Nat → Leaf → Prop
  | leaf {i base} (valid : Valid (mem (pteAddr va i base))) (isLeaf : IsLeaf (mem (pteAddr va i base))) :
      Reaches mem va i base ⟨pteAddr va i base, mem (pteAddr va i base), i⟩
  | descend {i base l} (valid : Valid (mem (pteAddr va (i + 1) base)))
      (pointer : ¬ IsLeaf (mem (pteAddr va (i + 1) base)))
      (below : Reaches mem va i (ppn (mem (pteAddr va (i + 1) base)) * 4096) l) :
      Reaches mem va (i + 1) base l

/-- The walk of `va` looks at the entry at this address. -/
inductive Visits (mem : Nat → Nat) (va : Nat) : Nat → Nat → Nat → Prop
  | here {i base} : Visits mem va i base (pteAddr va i base)
  | descend {i base addr} (valid : Valid (mem (pteAddr va (i + 1) base)))
      (pointer : ¬ IsLeaf (mem (pteAddr va (i + 1) base)))
      (below : Visits mem va i (ppn (mem (pteAddr va (i + 1) base)) * 4096) addr) :
      Visits mem va (i + 1) base addr

/-- U, SUM, MXR and R/W/X. -/
structure Permitted (pte : Nat) (type : AccessType) (mode : PrivilegeMode) (mxr sum : Bool) : Prop where
  user : mode = .user → pte.testBit 4
  supervisor : mode = .supervisor → pte.testBit 4 → type ≠ .exec ∧ sum
  load : type = .load → pte.testBit 1 ∨ (pte.testBit 3 ∧ mxr)
  store : type = .store → pte.testBit 2
  exec : type = .exec → pte.testBit 3

/-- One field of the physical page number: from the address below the leaf's
    level, from the leaf otherwise. -/
def paField (va : Nat) (l : Leaf) (j : Nat) : Nat :=
  if j < l.level then vpn va j else ppnField l.pte j

def physAddr (va : Nat) (l : Leaf) : Nat :=
  pgoff va + paField va l 0 * 2 ^ 12 + paField va l 1 * 2 ^ 21 + paField va l 2 * 2 ^ 30

/-- The leaf under which the access is granted. -/
structure Grants (mem : Nat → Nat) (root va : Nat) (type : AccessType) (mode : PrivilegeMode)
    (mxr sum : Bool) (l : Leaf) : Prop where
  canonical : Canonical va
  reaches : Reaches mem va (levels - 1) (root * 4096) l
  aligned : ∀ j < l.level, ppnField l.pte j = 0
  permitted : Permitted l.pte type mode mxr sum

/-- The accessed bit, and for a store the dirty bit. -/
def adBits : AccessType → Word
  | .store => 0xC0#64
  | _ => 0x40#64

theorem Reaches.level_le {mem : Nat → Nat} {va i base : Nat} {l : Leaf}
    (reaches : Reaches mem va i base l) : l.level ≤ i := by
  induction reaches with
  | leaf => exact Nat.le_refl _
  | descend _ _ _ ih => exact Nat.le_succ_of_le ih

/-- A walk ends at one leaf only. -/
theorem Reaches.unique {mem : Nat → Nat} {va i base : Nat} {l l' : Leaf}
    (first : Reaches mem va i base l) (second : Reaches mem va i base l') : l = l' := by
  induction first with
  | leaf _ isLeaf =>
    cases second with
    | leaf => rfl
    | descend _ pointer _ => exact absurd isLeaf pointer
  | descend _ pointer _ ih =>
    cases second with
    | leaf _ isLeaf => exact absurd isLeaf pointer
    | descend _ _ below => exact ih below

end Rv64Vm.Sv39
