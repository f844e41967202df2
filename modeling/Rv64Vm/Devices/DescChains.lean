import Rv64Vm.Lib.Walks
import Rv64Vm.Devices.UsedRing

/-! # Descriptor chains

The descriptors of a queue form a graph that the guest draws: each has at most one successor.
`fetch_descriptor_chain` follows it from a head for at most as many descriptors as the queue
has entries. A path that comes back to a descriptor never ends, so that what is returned has
no descriptor twice.
-/

namespace Rv64Vm

open Lib

variable {path : List (BitVec 16)} {chain : List VirtqDesc}

namespace VirtQueueState

variable (q : VirtQueueState) (mem : GuestMemory)

/-- The descriptor that follows, if NEXT is set. -/
def link (idx : BitVec 16) : Option (BitVec 16) :=
  match q.readDesc mem idx with
  | .ok d => if d.hasNext then some d.next else none
  | .error _ => none

/-- One of the first `n` descriptors from `head` on has no NEXT. -/
def EndsWithin (head : BitVec 16) (n : Nat) : Prop :=
  ∃ k < n, ∃ idx d, walk (q.link mem) k head = some idx ∧ q.readDesc mem idx = .ok d ∧ d.hasNext = false

/-- The first `n` descriptors from `head` on are in RAM. -/
def Readable (head : BitVec 16) (n : Nat) : Prop :=
  ∀ k < n, ∀ idx, walk (q.link mem) k head = some idx → ∃ d, q.readDesc mem idx = .ok d

/-- `path` is the whole way from `head` and `chain` what is read along it. -/
structure Path (head : BitVec 16) (path : List (BitVec 16)) (chain : List VirtqDesc) : Prop where
  steps : ∀ k, walk (q.link mem) k head = path[k]?
  read : List.Forall₂ (fun idx d => q.readDesc mem idx = .ok d) path chain

/-- `followChain` with the number of descriptors that it reads. -/
def followCounted : Nat → BitVec 16 → Except HostError (Nat × Option (List VirtqDesc))
  | 0, _ => .ok (0, none)
  | iters + 1, idx => do
      let d ← q.readDesc mem idx
      if d.hasNext then
        let r ← followCounted iters d.next
        return (r.1 + 1, r.2.map (d :: ·))
      else return (1, some [d])

/-- `fetchDescriptorChain` with the number of descriptors that it reads. -/
def fetchCounted (head : BitVec 16) : Except HostError (Nat × Option (List VirtqDesc)) :=
  if q.descAddr = 0#64 then .ok (0, none) else q.followCounted mem q.size.toNat head

variable {q mem} {idx head : BitVec 16} {d : VirtqDesc} {iters : Nat} {result : Option (List VirtqDesc)}

theorem link_next (read : q.readDesc mem idx = .ok d) (goes : d.hasNext = true) : q.link mem idx = some d.next := by
  simp only [link, read, goes, if_true]

theorem link_last (read : q.readDesc mem idx = .ok d) (stop : d.hasNext = false) : q.link mem idx = none := by
  simp only [link, read, stop, Bool.false_eq_true, if_false]

theorem followCounted_snd (iters : Nat) (idx : BitVec 16) :
    (q.followCounted mem iters idx).map Prod.snd = q.followChain mem iters idx := by
  induction iters generalizing idx with
  | zero => rfl
  | succ iters ih =>
    rw [followCounted, followChain]
    cases read : q.readDesc mem idx with
    | error e => rfl
    | ok d =>
      cases goes : d.hasNext with
      | false => simp [goes, bind, Except.bind, pure, Except.pure, Except.map]
      | true =>
        have later := ih d.next
        cases counted : q.followCounted mem iters d.next with
        | error e =>
          rw [counted] at later
          simp [goes, bind, Except.bind, counted, ← later, Except.map]
        | ok r =>
          rw [counted] at later
          simp [goes, bind, Except.bind, counted, ← later, Except.map, pure, Except.pure]

theorem fetchCounted_snd (head : BitVec 16) :
    (q.fetchCounted mem head).map Prod.snd = q.fetchDescriptorChain mem head := by
  unfold fetchCounted fetchDescriptorChain
  split
  · rfl
  · exact followCounted_snd _ _

/-- What the loop finds with `iters` iterations left. -/
inductive Found (q : VirtQueueState) (mem : GuestMemory) (iters : Nat) (idx : BitVec 16) :
    Option (List VirtqDesc) → Prop
  | ended {path : List (BitVec 16)} {chain : List VirtqDesc} (along : q.Path mem idx path chain)
      (short : path.length ≤ iters) : Found q mem iters idx (some chain)
  | cut (goes : walk (q.link mem) iters idx ≠ none) : Found q mem iters idx none

theorem Path.last (read : q.readDesc mem idx = .ok d) (stop : d.hasNext = false) : q.Path mem idx [idx] [d] where
  steps k := by
    cases k with
    | zero => rfl
    | succ k => simp [walk, link_last read stop]
  read := .cons read .nil

theorem Path.cons (read : q.readDesc mem idx = .ok d)
    (goes : d.hasNext = true) (rest : q.Path mem d.next path chain) : q.Path mem idx (idx :: path) (d :: chain) where
  steps k := by
    cases k with
    | zero => rfl
    | succ k =>
      rw [walk, link_next read goes, Option.bind_some, rest.steps k]
      rfl
  read := .cons read rest.read

theorem Readable.next (ram : q.Readable mem idx (iters + 1)) (read : q.readDesc mem idx = .ok d)
    (goes : d.hasNext = true) : q.Readable mem d.next iters := by
  intro k small idx' there
  apply ram (k + 1) (Nat.succ_lt_succ small)
  rw [walk, link_next read goes]
  exact there

/-- The loop reads at most one descriptor an iteration and finds the way, or has not come to its end. -/
theorem followCounted_found (ram : q.Readable mem idx iters) :
    ∃ n result, q.followCounted mem iters idx = .ok (n, result) ∧ n ≤ iters ∧ Found q mem iters idx result := by
  induction iters generalizing idx with
  | zero => exact ⟨0, none, rfl, le_rfl, .cut (Option.some_ne_none _)⟩
  | succ iters ih =>
    obtain ⟨d, read⟩ := ram 0 (Nat.succ_pos _) idx rfl
    cases goes : d.hasNext with
    | false =>
      have last : q.followCounted mem (iters + 1) idx = .ok (1, some [d]) := by
        rw [followCounted, read]
        simp [goes, bind, Except.bind, pure, Except.pure]
      exact ⟨1, _, last, Nat.succ_le_succ (Nat.zero_le _), .ended (.last read goes) (Nat.succ_le_succ (Nat.zero_le _))⟩
    | true =>
      obtain ⟨n, result, counted, few, found⟩ := ih (ram.next read goes)
      have more : q.followCounted mem (iters + 1) idx = .ok (n + 1, result.map (d :: ·)) := by
        rw [followCounted, read]
        simp [goes, bind, Except.bind, counted, pure, Except.pure]
      refine ⟨n + 1, _, more, Nat.succ_le_succ few, ?_⟩
      cases found with
      | ended along short => exact .ended (.cons read goes along) (Nat.succ_le_succ short)
      | cut going =>
        apply Found.cut
        rw [walk, link_next read goes]
        exact going

theorem Path.stops (along : q.Path mem head path chain) : Stops (q.link mem) head :=
  ⟨path.length, by rw [along.steps, List.getElem?_length]⟩

/-- A path has no index twice. -/
theorem Path.nodup (along : q.Path mem head path chain) : path.Nodup := by
  rw [List.nodup_iff_injective_get]
  intro i j same
  have here (k : Fin path.length) : walk (q.link mem) k head = some (path.get k) := by
    rw [along.steps, List.getElem?_eq_getElem k.isLt]
    rfl
  exact Fin.ext (along.stops.neverTwice i j _ (here i) (same ▸ here j))

theorem Path.endsWithin (along : q.Path mem head path chain)
    (short : path.length ≤ iters) : q.EndsWithin mem head iters := by
  have nonempty : 0 < path.length := by
    have first := along.steps 0
    rw [walk] at first
    exact (List.getElem?_eq_some_iff.mp first.symm).1
  -- the last index of the path has no successor
  obtain ⟨k, length⟩ : ∃ k, path.length = k + 1 := ⟨path.length - 1, by omega⟩
  have inside : k < path.length := by omega
  have here : walk (q.link mem) k head = some path[k] := by rw [along.steps, List.getElem?_eq_getElem inside]
  have past : walk (q.link mem) (k + 1) head = none := by rw [along.steps, ← length, List.getElem?_length]
  rw [walk_add, here, Option.bind_some] at past
  have inChain : k < chain.length := along.read.length_eq ▸ inside
  have read : q.readDesc mem path[k] = .ok chain[k] := along.read.get inside inChain
  refine ⟨k, by omega, path[k], chain[k], here, read, ?_⟩
  cases goes : chain[k].hasNext with
  | false => rfl
  | true =>
    rw [walk, link_next read goes] at past
    cases past

theorem EndsWithin.walk_none {n : Nat} (ends : q.EndsWithin mem head n) : walk (q.link mem) n head = none := by
  obtain ⟨k, lt, idx, d, here, read, stop⟩ := ends
  have split : n = k + ((n - k - 1) + 1) := by omega
  rw [split, walk_add, here, Option.bind_some, walk, link_last read stop]
  rfl

theorem Found.isSome_iff (found : Found q mem iters head result) :
    (∃ chain, result = some chain) ↔ q.EndsWithin mem head iters := by
  cases found with
  | @ended path chain along short => exact iff_of_true ⟨chain, rfl⟩ (along.endsWithin short)
  | cut goes =>
    refine iff_of_false ?_ fun ends => goes ends.walk_none
    rintro ⟨chain, ⟨⟩⟩

/-- With its descriptors in RAM, `fetch_descriptor_chain` of either device returns after at most `q.size` descriptors.
    It returns true exactly if there is a table and the way from `head` ends within `q.size` descriptors; the chain is
    then what is read along that way, which has no index twice. A circular way gives false. -/
theorem descriptor_chain_law (q : VirtQueueState) (mem : GuestMemory) (head : BitVec 16)
    (ram : q.descAddr ≠ 0#64 → q.Readable mem head q.size.toNat) :
    ∃ n result, q.fetchCounted mem head = .ok (n, result) ∧ q.fetchDescriptorChain mem head = .ok result ∧
      n ≤ q.size.toNat ∧
      ((∃ chain, result = some chain) ↔ q.descAddr ≠ 0#64 ∧ q.EndsWithin mem head q.size.toNat) ∧
      (∀ chain, result = some chain → ∃ path, q.Path mem head path chain ∧ path.Nodup) ∧
      (¬ NeverTwice (q.link mem) head → result = none) := by
  by_cases table : q.descAddr = 0#64
  · have empty : q.fetchCounted mem head = .ok (0, none) := if_pos table
    refine ⟨0, none, empty, if_pos table, Nat.zero_le _, ?_, ?_, fun _ => rfl⟩
    · refine iff_of_false ?_ fun both => both.1 table
      rintro ⟨chain, ⟨⟩⟩
    · rintro chain ⟨⟩
  · obtain ⟨n, result, counted, few, found⟩ := followCounted_found (ram table)
    have fetched : q.fetchCounted mem head = .ok (n, result) := (if_neg table).trans counted
    have returned : q.fetchDescriptorChain mem head = .ok result := by
      rw [← fetchCounted_snd, fetched]
      rfl
    refine ⟨n, result, fetched, returned, few, ?_, ?_, ?_⟩
    · rw [found.isSome_iff]
      exact (and_iff_right table).symm
    · rintro chain rfl
      cases found with
      | ended along short => exact ⟨_, along, along.nodup⟩
    · intro circular
      cases found with
      | ended along short => exact absurd along.stops.neverTwice circular
      | cut => rfl

end VirtQueueState

/-- Two descriptors, the first with NEXT. -/
theorem descriptor_chain_two :
    smallQueue.Readable (pageWith readRequest) 0#16 smallQueue.size.toNat ∧
    ∃ n result, smallQueue.fetchCounted (pageWith readRequest) 0#16 = .ok (n, result) ∧
      n ≤ smallQueue.size.toNat := by
  have first : smallQueue.readDesc (pageWith readRequest) 0#16 = .ok ⟨0x80000300#64, 16#32, 1#16, 1#16⟩ := rfl
  have second : smallQueue.readDesc (pageWith readRequest) 1#16 = .ok ⟨0x80000400#64, 1#32, 2#16, 0#16⟩ := rfl
  have along : smallQueue.Path (pageWith readRequest) 0#16 [0#16, 1#16] _ :=
    .cons first rfl (.last second rfl)
  have ram : smallQueue.Readable (pageWith readRequest) 0#16 smallQueue.size.toNat := by
    intro k _ idx there
    rw [along.steps] at there
    have listed := List.mem_of_getElem? there
    simp only [List.mem_cons, List.not_mem_nil, or_false] at listed
    rcases listed with rfl | rfl
    · exact ⟨_, first⟩
    · exact ⟨_, second⟩
  obtain ⟨n, result, counted, -, few, -⟩ :=
    VirtQueueState.descriptor_chain_law smallQueue (pageWith readRequest) 0#16 fun _ => ram
  exact ⟨ram, n, result, counted, few⟩

end Rv64Vm
