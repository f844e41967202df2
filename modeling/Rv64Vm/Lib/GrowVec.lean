import Mathlib.Logic.Function.Basic
import Mathlib.Tactic.Common

/-! # Growable vectors

A zero-filled vector that is resized on demand. Only the cells below `size`
exist; `get?` is the bounds-checked read. The size is kept because a reader may
treat "no such cell" and "cell holding the fill value" differently.
-/

namespace Rv64Vm.Lib

structure GrowVec (α : Type) where
  size : Nat
  cell : Nat → α

namespace GrowVec

variable {α : Type}

def empty (fill : α) : GrowVec α := ⟨0, fun _ => fill⟩

def get? (v : GrowVec α) (i : Nat) : Option α :=
  if i < v.size then some (v.cell i) else none

/-- Grow to `n` cells, the new ones holding `fill`; never shrinks. -/
def growTo (v : GrowVec α) (n : Nat) (fill : α) : GrowVec α :=
  if n ≤ v.size then v else ⟨n, fun i => if i < v.size then v.cell i else fill⟩

/-- Write an existing cell. -/
def set (v : GrowVec α) (i : Nat) (x : α) : GrowVec α :=
  ⟨v.size, Function.update v.cell i x⟩

/-- Rewrite every cell at once, keeping the size. -/
def mapIdx (v : GrowVec α) (f : Nat → α → α) : GrowVec α :=
  ⟨v.size, fun i => f i (v.cell i)⟩

@[simp] theorem get?_empty (fill : α) (i : Nat) : (empty fill).get? i = none := by
  simp [empty, get?]

/-- The idiom `if (i >= v.size()) v.resize(i + slack, fill); v[i] = x`. -/
def put (v : GrowVec α) (i slack : Nat) (fill x : α) : GrowVec α :=
  ((if v.size ≤ i then v.growTo (i + slack) fill else v).set i x)

end GrowVec

end Rv64Vm.Lib
