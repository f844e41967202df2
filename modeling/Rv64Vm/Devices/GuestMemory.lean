import Rv64Vm.Lib.Results
import Rv64Vm.Mmu.PteAccess

/-! # Guest memory as a device sees it

A device reads and writes RAM with `MemoryMap.load` and `MemoryMap.store`. `GuestMemory`
keeps beside the memory what a device has stored, in order, and what each store was for;
bytes that no recorded store covers are unchanged.
-/

namespace Rv64Vm

open Lib

variable {gpa addr value : Word} {bytes : List Byte} {purpose : Purpose} {size : Nat}

/-- The `n` bytes at `a` and the `k` bytes at `b` have none in common; addresses wrap. -/
def Apart (a : Word) (n : Nat) (b : Word) (k : Nat) : Prop := n ≤ (b - a).toNat ∧ k ≤ (a - b).toNat

namespace MemoryMap

variable {m m' : MemoryMap} {addr addr' value : Word} {size size' : Nat}

theorem store_eq_ok : m.store addr size value = .ok m' ↔
    ∃ i r off, m.resolve addr = .ok (i, r, off) ∧ ¬(size = 0 ∨ size > 64 ∨ size % 8 ≠ 0) ∧
      off + size / 8 ≤ r.size.toNat ∧ m.setData i (storeLE r.data off (size / 8) value) = m' := by
  simp only [store, bind_eq_ok]
  constructor
  · rintro ⟨⟨i, r, off⟩, resolved, stored⟩
    split at stored
    · cases stored
    · rename_i legal
      split at stored
      · rename_i inside
        exact ⟨i, r, off, resolved, legal, inside, Except.ok.inj stored⟩
      · cases stored
  · rintro ⟨i, r, off, resolved, legal, inside, rfl⟩
    refine ⟨⟨i, r, off⟩, resolved, ?_⟩
    simp only [legal, inside, if_false, if_true]

theorem load_eq (m : MemoryMap) (addr : Word) (size : Nat) :
    m.load addr size = (m.resolve addr).bind fun p =>
      if size = 0 ∨ size > 64 ∨ size % 8 ≠ 0 then .error .invalidArgument else p.2.1.read p.2.2 (size / 8) := rfl

/-- A load of `size` bits returns no more than that. -/
theorem load_fits {v : Word} (loaded : m.load addr size = .ok v) : (v.setWidth size).setWidth 64 = v := by
  obtain ⟨⟨_, r, off⟩, -, loaded⟩ := bind_eq_ok.mp loaded
  simp only [MemoryRegion.read] at loaded
  split at loaded
  · cases loaded
  · rename_i legal
    split at loaded
    · obtain rfl := Except.ok.inj loaded
      apply BitVec.eq_of_getLsbD_eq
      intro b hb
      rw [getLsbD_loadLE _ _ _ _ hb, BitVec.getLsbD_setWidth, BitVec.getLsbD_setWidth, getLsbD_loadLE _ _ _ _ hb]
      by_cases low : b < size
      · simp [low, hb]
      · have above : ¬ b < 8 * (size / 8) := by omega
        simp [above]
    · cases loaded

theorem load_store_same (stored : m.store addr size value = .ok m') :
    m'.load addr size = .ok ((value.setWidth size).setWidth 64) := by
  obtain ⟨i, r, off, resolved, legal, inside, rfl⟩ := store_eq_ok.mp stored
  rw [load_eq, resolve_setData, resolved]
  simp only [Except.map, Except.bind, legal, if_false, if_true, MemoryRegion.read, inside]
  congr 1
  apply BitVec.eq_of_getLsbD_eq
  intro b hb
  rw [getLsbD_loadLE _ _ _ _ hb]
  by_cases low : b < size
  · have below : b < 8 * (size / 8) := by omega
    have place : 8 * (b / 8) + b % 8 = b := by omega
    rw [storeLE_inside _ _ (by omega)]
    simp [below, low, hb, byteAt, Nat.mod_lt, place]
  · have above : ¬ b < 8 * (size / 8) := by omega
    simp [above, low]

theorem load_store_apart (stored : m.store addr size value = .ok m')
    (apart : Apart addr (size / 8) addr' (size' / 8)) : m'.load addr' size' = m.load addr' size' := by
  obtain ⟨i, r, off, resolved, -, -, rfl⟩ := store_eq_ok.mp stored
  rw [load_eq, load_eq, resolve_setData]
  cases resolved' : m.resolve addr' with
  | error e => rfl
  | ok p =>
    obtain ⟨i', r', off'⟩ := p
    simp only [Except.map, Except.bind]
    by_cases region : i = i'
    · subst region
      obtain ⟨found, above, offset⟩ := resolve_eq_ok resolved
      obtain ⟨found', above', offset'⟩ := resolve_eq_ok resolved'
      obtain rfl : r = r' := Option.some.inj (found.symm.trans found')
      have disjoint : off' + size' / 8 ≤ off ∨ off + size / 8 ≤ off' := by
        rw [BitVec.toNat_sub_of_le above] at offset
        rw [BitVec.toNat_sub_of_le above'] at offset'
        obtain ⟨forward, backward⟩ := apart
        rw [BitVec.le_def] at above above'
        rw [BitVec.toNat_sub] at forward backward
        have small := addr.isLt
        have small' := addr'.isLt
        omega
      simp only [if_true, MemoryRegion.read, loadLE_storeLE_disjoint r.data off off' value disjoint]
    · simp only [region, if_false]

end MemoryMap

/-- What a device stores for. -/
inductive Purpose where
  | data
  | status
  | used
  deriving DecidableEq, Repr

structure StoreRecord where
  addr : Word
  bytes : Nat
  value : Word
  purpose : Purpose
  deriving DecidableEq, Repr

structure GuestMemory where
  mmap : MemoryMap
  /-- The stores made so far, oldest first; no code reads it. -/
  log : List StoreRecord := []

namespace GuestMemory

def load (g : GuestMemory) (addr : Word) (size : Nat) : Except HostError Word := g.mmap.load addr size

def store (g : GuestMemory) (purpose : Purpose) (addr : Word) (size : Nat) (value : Word) :
    Except HostError GuestMemory := do
  let mmap ← g.mmap.store addr size value
  return { mmap := mmap, log := g.log ++ [⟨addr, size / 8, value, purpose⟩] }

/-- `copy_from_dram(gpa, dst, len)` -/
def copyFromDram (g : GuestMemory) (gpa : Word) : Nat → Except HostError (List Byte)
  | 0 => .ok []
  | len + 1 => do
      let byte ← g.load gpa 8
      return byte.setWidth 8 :: (← g.copyFromDram (gpa + 1#64) len)

/-- `copy_to_dram(gpa, src, len)` of a whole buffer. -/
def copyToDram (g : GuestMemory) (gpa : Word) : List Byte → Except HostError GuestMemory
  | [] => .ok g
  | byte :: rest => do (← g.store .data gpa 8 (byte.setWidth 64)).copyToDram (gpa + 1#64) rest

/-- The records of the bytes a copy stores. -/
def copyLog (gpa : Word) : List Byte → List StoreRecord
  | [] => []
  | byte :: rest => ⟨gpa, 1, byte.setWidth 64, .data⟩ :: copyLog (gpa + 1#64) rest

theorem next_byte (gpa : Word) (i : Nat) : gpa + BitVec.ofNat 64 (i + 1) = gpa + 1#64 + BitVec.ofNat 64 i := by
  rw [BitVec.ofNat_add, BitVec.add_comm (BitVec.ofNat 64 i), BitVec.add_assoc]

theorem of_mem_copyLog {r : StoreRecord} (mem : r ∈ copyLog gpa bytes) :
    r.purpose = .data ∧ r.bytes = 1 ∧ ∃ i < bytes.length, r.addr = gpa + BitVec.ofNat 64 i := by
  induction bytes generalizing gpa with
  | nil => cases mem
  | cons byte rest ih =>
    cases mem with
    | head => exact ⟨rfl, rfl, 0, Nat.succ_pos _, (BitVec.add_zero gpa).symm⟩
    | tail _ later =>
      obtain ⟨data, one, i, inside, place⟩ := ih later
      exact ⟨data, one, i + 1, Nat.succ_lt_succ inside, place.trans (next_byte gpa i).symm⟩

theorem copyLog_values (gpa : Word) (bytes : List Byte) :
    (copyLog gpa bytes).map StoreRecord.value = bytes.map (BitVec.setWidth 64) := by
  induction bytes generalizing gpa with
  | nil => rfl
  | cons byte rest ih => rw [copyLog, List.map_cons, List.map_cons, ih]

theorem copyLog_eq_nil : copyLog gpa bytes = [] ↔ bytes = [] := by
  cases bytes <;> simp [copyLog]

/-- `g'` is `g` after the stores `new`, and differs from it only where they are. -/
structure Stored (g g' : GuestMemory) (new : List StoreRecord) : Prop where
  log : g'.log = g.log ++ new
  frame : ∀ addr size, (∀ r ∈ new, Apart r.addr r.bytes addr (size / 8)) → g'.load addr size = g.load addr size

variable {g g' g'' : GuestMemory}

theorem Stored.refl (g : GuestMemory) : Stored g g [] := ⟨(List.append_nil _).symm, fun _ _ _ => rfl⟩

theorem Stored.trans {new later : List StoreRecord} (first : Stored g g' new) (second : Stored g' g'' later) :
    Stored g g'' (new ++ later) where
  log := by rw [second.log, first.log, List.append_assoc]
  frame addr size apart := by
    rw [List.forall_mem_append] at apart
    rw [second.frame addr size apart.2, first.frame addr size apart.1]

theorem store_stored
    (ran : g.store purpose addr size value = .ok g') : Stored g g' [⟨addr, size / 8, value, purpose⟩] := by
  obtain ⟨mmap, stored, result⟩ := bind_eq_ok.mp ran
  obtain rfl := pure_eq_ok.mp result
  refine ⟨rfl, fun addr' size' apart => ?_⟩
  exact MemoryMap.load_store_apart stored (apart _ (List.mem_singleton.mpr rfl))

theorem load_store_same
    (ran : g.store purpose addr size value = .ok g') : g'.load addr size = .ok ((value.setWidth size).setWidth 64) := by
  obtain ⟨mmap, stored, result⟩ := bind_eq_ok.mp ran
  obtain rfl := pure_eq_ok.mp result
  exact MemoryMap.load_store_same stored

theorem copyToDram_stored (ran : g.copyToDram gpa bytes = .ok g') : Stored g g' (copyLog gpa bytes) := by
  induction bytes generalizing g gpa with
  | nil =>
    obtain rfl := Except.ok.inj ran
    exact .refl g
  | cons byte rest ih =>
    obtain ⟨next, stored, later⟩ := bind_eq_ok.mp ran
    exact (store_stored stored).trans (ih later)

theorem copyFromDram_length {len : Nat} (ran : g.copyFromDram gpa len = .ok bytes) : bytes.length = len := by
  induction len generalizing gpa bytes with
  | zero =>
    obtain rfl := Except.ok.inj ran
    rfl
  | succ len ih =>
    obtain ⟨byte, -, rest⟩ := bind_eq_ok.mp ran
    obtain ⟨tail, copied, result⟩ := bind_eq_ok.mp rest
    obtain rfl := pure_eq_ok.mp result
    rw [List.length_cons, ih copied]

end GuestMemory

end Rv64Vm
