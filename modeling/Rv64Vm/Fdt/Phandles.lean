import Rv64Vm.Fdt.Calls

/-! # Phandles

A root counts the phandles given out under it in its own `phandle` field. Once
the root is attached, that count passes for the node's phandle, and the next
root counts from one again. Phandles are unique exactly if all of them come from
one count, nobody asks the counting node for its own, and no later `add_prop`
replaces the property.
-/

namespace Rv64Vm.Fdt

open Lib

variable {c : Call} {rest calls : List Call} {p : Nat × BitVec 32} {r k : Nat}

/-! ## Unique phandles -/

def Heap.SameTree (h : Heap) (n m : Nat) : Prop := ∃ r, h.rootOf n = some r ∧ h.rootOf m = some r

/-- All nodes belong to one tree. -/
def Heap.Connected (h : Heap) : Prop := ∃ r, ∀ n < h.length, h.rootOf n = some r

/-- What callers of `get_phandle` rely on; zero says that there is no phandle. -/
structure PhandlesOk (s : Build) : Prop where
  distinct : ∀ n v m w, (n, v) ∈ s.returned → (m, w) ∈ s.returned → v ≠ 0 → w ≠ 0 → n ≠ m → s.heap.SameTree n m → v ≠ w
  legal : ∀ n v, (n, v) ∈ s.returned → v ≠ 0xFFFFFFFF
  repeated : ∀ n v w, (n, v) ∈ s.returned → (n, w) ∈ s.returned → v ≠ 0 → w ≠ 0 → v = w
  carried : ∀ n v, (n, v) ∈ s.returned → v ≠ 0 → s.heap.propAt n = some (bigEndian v)

/-- The last phandle property that the calls write to `n`. -/
def lastWrite (n : Nat) : List Call → Option Bytes
  | [] => none
  | c :: rest => (lastWrite n rest).or (c.writes n)

/-- The call does not spoil the phandles: a new one is counted by the root that has counted all others, the count
    is not at its end, and no later call replaces the property; a node that has one has got it by an earlier call. -/
def Unspoiled (s : Build) (c : Call) (rest : List Call) : Prop :=
  match c with
  | .getPhandle n =>
    s.heap.Eligible n →
      if Heap.isIllegalPhandle (s.heap.phandleAt n) then
        ∀ r, s.heap.rootOf n = some r →
          (s.heap.phandleAt r = 0 → ∀ p ∈ s.returned, p.2 = 0) ∧ s.heap.phandleAt r ≠ 0xFFFFFFFE ∧
          ∀ data, lastWrite n rest = some data → data = bigEndian (s.heap.phandleAt r + 1)
      else (n, s.heap.phandleAt n) ∈ s.returned
  | _ => True

/-- Node `r` has counted to `k`, and no other node has counted. -/
structure Counted (s : Build) (r k : Nat) : Prop where
  counter : (s.heap.phandleAt r).toNat = k
  small : k < 0xFFFFFFFF
  own : ∀ n, n ≠ r → s.heap.phandleAt n ≠ 0 → (n, s.heap.phandleAt n) ∈ s.returned
  kept : ∀ n v, (n, v) ∈ s.returned → v ≠ 0 →
    n ≠ r ∧ s.heap.phandleAt n = v ∧ s.heap.parent n ≠ none ∧ v.toNat ≤ k
  onto : ∀ v : BitVec 32, v ≠ 0 → v.toNat ≤ k → ∃ n, (n, v) ∈ s.returned
  once : ∀ n m v, (n, v) ∈ s.returned → (m, v) ∈ s.returned → v ≠ 0 → n = m

theorem Heap.isIllegalPhandle_iff {ph : BitVec 32} : Heap.isIllegalPhandle ph = true ↔ ph = 0 ∨ ph = 0xFFFFFFFF := by
  simp [Heap.isIllegalPhandle]

section Count

variable {s next : Build} {r k : Nat}

theorem counted_empty : Counted {} 0 0 where
  counter := rfl
  small := by decide
  own n _ nonzero := absurd rfl nonzero
  kept n v mem := absurd mem List.not_mem_nil
  onto v nonzero le := absurd (BitVec.eq_of_toNat_eq (Nat.le_zero.mp le)) nonzero
  once n m v mem := absurd mem List.not_mem_nil

/-- As long as nothing is counted, any node may come to count. -/
theorem Counted.move (counted : Counted s r 0) (r' : Nat) : Counted s r' 0 := by
  have zero (n : Nat) : s.heap.phandleAt n = 0 := by
    by_cases same : n = r
    · rw [same]
      exact BitVec.eq_of_toNat_eq counted.counter
    · by_contra nonzero
      have kept := counted.kept n _ (counted.own n same nonzero) nonzero
      exact nonzero (BitVec.eq_of_toNat_eq (Nat.le_zero.mp kept.2.2.2))
  exact {
    counter := by rw [zero]; rfl
    small := counted.small
    own := fun n _ nonzero => absurd (zero n) nonzero
    kept := fun n v mem nonzero =>
      absurd (BitVec.eq_of_toNat_eq (Nat.le_zero.mp (counted.kept n v mem nonzero).2.2.2)) nonzero
    onto := counted.onto
    once := counted.once }

theorem Counted.begun (counted : Counted s r k) (nonzero : k ≠ 0) : ∃ p ∈ s.returned, p.2 ≠ 0 := by
  have one : (1#32) ≠ 0 := by decide
  obtain ⟨n, mem⟩ := counted.onto 1#32 one (by simp; omega)
  exact ⟨_, mem, one⟩

theorem Counted.root_eq_zero (counted : Counted s r k) {r' : Nat} (top : s.heap.parent r' = none) (other : r' ≠ r) :
    s.heap.phandleAt r' = 0 := by
  by_contra nonzero
  exact (counted.kept r' _ (counted.own r' other nonzero) nonzero).2.2.1 top

theorem Counted.root_ne_max (counted : Counted s r k) {r' : Nat} (top : s.heap.parent r' = none) :
    s.heap.phandleAt r' ≠ 0xFFFFFFFF := by
  intro full
  by_cases same : r' = r
  · have small := counted.small
    rw [← counted.counter, ← same, full] at small
    exact absurd small (by decide)
  · rw [counted.root_eq_zero top same] at full
    exact absurd full (by decide)

/-- Where a node has been given a phandle, some node has been given 1. -/
theorem Counted.first (counted : Counted s r k) {m : Nat} {w : BitVec 32} (mem : (m, w) ∈ s.returned)
    (nonzero : w ≠ 0) : ∃ d, (d, 1#32) ∈ s.returned := by
  have le := (counted.kept m w mem nonzero).2.2.2
  have positive : w.toNat ≠ 0 := fun zero => nonzero (BitVec.eq_of_toNat_eq zero)
  refine counted.onto 1#32 (by decide) ?_
  simp
  omega

theorem mem_snoc {α : Type} {l : List α} {a b : α} : b ∈ l ++ [a] ↔ b ∈ l ∨ b = a := by simp

theorem Counted.same (counted : Counted s r k) (heap : next.heap = s.heap)
    (same : ∀ p : Nat × BitVec 32, p.2 ≠ 0 → (p ∈ next.returned ↔ p ∈ s.returned)) : Counted next r k where
  counter := by rw [heap]; exact counted.counter
  small := counted.small
  own n other nonzero := by
    rw [heap] at nonzero ⊢
    exact (same _ nonzero).mpr (counted.own n other nonzero)
  kept n v mem nonzero := by
    rw [heap]
    exact counted.kept n v ((same _ nonzero).mp mem) nonzero
  onto v nonzero le := by
    obtain ⟨n, mem⟩ := counted.onto v nonzero le
    exact ⟨n, (same _ nonzero).mpr mem⟩
  once n m v first second nonzero :=
    counted.once n m v ((same _ nonzero).mp first) ((same _ nonzero).mp second) nonzero

theorem Counted.succ {n : Nat} (counted : Counted s r k) (fits : k + 1 < 0xFFFFFFFF) (apart : n ≠ r)
    (attached : s.heap.parent n ≠ none) (illegal : Heap.isIllegalPhandle (s.heap.phandleAt n) = true)
    (parents : next.heap.parent = s.heap.parent)
    (phandles : next.heap.phandleAt =
      Function.update (Function.update s.heap.phandleAt r (s.heap.phandleAt r + 1)) n (s.heap.phandleAt r + 1))
    (returned : next.returned = s.returned ++ [(n, s.heap.phandleAt r + 1)]) : Counted next r (k + 1) := by
  have value : (s.heap.phandleAt r + 1).toNat = k + 1 := by
    rw [BitVec.toNat_add, counted.counter]
    simp
    omega
  have new : next.heap.phandleAt n = s.heap.phandleAt r + 1 := by rw [phandles, Function.update_self]
  have old (m : Nat) (other : m ≠ n) (other' : m ≠ r) : next.heap.phandleAt m = s.heap.phandleAt m := by
    rw [phandles, Function.update_of_ne other, Function.update_of_ne other']
  -- a node with a phandle is not the one that asks for its first
  have before (m : Nat) (v : BitVec 32) (mem : (m, v) ∈ s.returned) (nonzero : v ≠ 0) : m ≠ n := by
    intro same
    obtain ⟨-, is, -, le⟩ := counted.kept m v mem nonzero
    rw [same] at is
    rw [is] at illegal
    rcases Heap.isIllegalPhandle_iff.mp illegal with zero | last
    · exact nonzero zero
    · rw [last] at le
      have := counted.small
      simp at le
      omega
  have later (m : Nat) (v : BitVec 32) (mem : (m, v) ∈ s.returned) (nonzero : v ≠ 0) : v ≠ s.heap.phandleAt r + 1 := by
    intro same
    have le := (counted.kept m v mem nonzero).2.2.2
    rw [same, value] at le
    omega
  refine ⟨?_, fits, fun m other nonzero => ?_, fun m v mem nonzero => ?_, fun v nonzero le => ?_,
    fun m m' v mem mem' nonzero => ?_⟩
  · rw [phandles, Function.update_of_ne (Ne.symm apart), Function.update_self, value]
  · rw [returned, mem_snoc]
    by_cases same : m = n
    · rw [same, new]
      exact .inr rfl
    · rw [old m same other] at nonzero ⊢
      exact .inl (counted.own m other nonzero)
  · rw [returned, mem_snoc] at mem
    rcases mem with mem | same
    · obtain ⟨other, is, up, le⟩ := counted.kept m v mem nonzero
      exact ⟨other, (old m (before m v mem nonzero) other).trans is, parents ▸ up, Nat.le_succ_of_le le⟩
    · obtain ⟨rfl, rfl⟩ := Prod.mk.inj same
      exact ⟨apart, new, parents ▸ attached, Nat.le_of_eq value⟩
  · rw [returned]
    by_cases last : v = s.heap.phandleAt r + 1
    · exact ⟨n, mem_snoc.mpr (.inr (by rw [last]))⟩
    · have less : v.toNat ≤ k := by
        have ne : v.toNat ≠ k + 1 := fun same => last (BitVec.eq_of_toNat_eq (same.trans value.symm))
        omega
      obtain ⟨m, mem⟩ := counted.onto v nonzero less
      exact ⟨m, mem_snoc.mpr (.inl mem)⟩
  · rw [returned, mem_snoc] at mem mem'
    rcases mem with mem | same
    · rcases mem' with mem' | same'
      · exact counted.once m m' v mem mem' nonzero
      · exact absurd (Prod.mk.inj same').2 (later m v mem nonzero)
    · rcases mem' with mem' | same'
      · exact absurd (Prod.mk.inj same).2 (later m' v mem' nonzero)
      · rw [(Prod.mk.inj same).1, (Prod.mk.inj same').1]

theorem Counted.call (counted : Counted s r k) (effect : Effect s next c)
    (unspoiled : Unspoiled s c rest) : ∃ r k, Counted next r k := by
  cases effect with
  | other _ phandles returned attached _ =>
    refine ⟨r, k, ?_, counted.small, ?_, ?_, ?_, ?_⟩
    · rw [phandles]
      exact counted.counter
    · rw [phandles, returned]
      exact counted.own
    · rw [phandles, returned]
      intro n v mem nonzero
      obtain ⟨other, is, up, le⟩ := counted.kept n v mem nonzero
      exact ⟨other, is, attached n up, le⟩
    · rw [returned]
      exact counted.onto
    · rw [returned]
      exact counted.once
  | @refused n _ same returned =>
    refine ⟨r, k, counted.same same fun p nonzero => ?_⟩
    rw [returned, mem_snoc]
    exact or_iff_left fun is => nonzero (by rw [is])
  | @again n eligible legal same returned =>
    refine ⟨r, k, counted.same same fun p nonzero => ?_⟩
    have mem := unspoiled eligible
    rw [legal, if_neg Bool.false_ne_true] at mem
    rw [returned, mem_snoc]
    exact or_iff_left_of_imp fun is => is ▸ mem
  | @fresh n r' eligible illegal root top parents phandles _ _ returned =>
    have fine := unspoiled eligible
    rw [illegal, if_pos rfl] at fine
    obtain ⟨first, room, -⟩ := fine r' root
    have apart : n ≠ r' := fun same => eligible.attached (same ▸ top)
    have here : Counted s r' k := by
      by_cases fresh : k = 0
      · subst fresh
        exact counted.move r'
      · have same : r' = r := by
          by_contra other
          obtain ⟨p, mem, nonzero⟩ := counted.begun fresh
          exact nonzero (first (counted.root_eq_zero top other) p mem)
        rw [same]
        exact counted
    refine ⟨r', k + 1, here.succ ?_ apart eligible.attached illegal parents phandles returned⟩
    have ne : k ≠ 0xFFFFFFFE := fun same => room (BitVec.eq_of_toNat_eq (here.counter.trans same))
    have := here.small
    omega

end Count

/-! ## The property -/

section Run

variable {s next final : Build} {n : Nat}

/-- A node with a legal phandle keeps it, and only `add_prop` writes its property. -/
theorem Effect.keeps (effect : Effect s next c) (attached : s.heap.parent n ≠ none)
    (legal : Heap.isIllegalPhandle (s.heap.phandleAt n) = false) :
    next.heap.parent n ≠ none ∧ Heap.isIllegalPhandle (next.heap.phandleAt n) = false ∧
      next.heap.propAt n = (c.writes n).or (s.heap.propAt n) := by
  cases effect with
  | other _ phandles _ up props =>
    rw [phandles]
    exact ⟨up n attached, legal, props n⟩
  | refused _ same _ =>
    rw [same]
    exact ⟨attached, legal, rfl⟩
  | again _ _ same _ =>
    rw [same]
    exact ⟨attached, legal, rfl⟩
  | @fresh m r _ illegal _ top parents phandles _ others _ =>
    have asked : n ≠ m := by
      intro same
      rw [← same, legal] at illegal
      cases illegal
    have root : n ≠ r := fun same => attached (same ▸ top)
    rw [parents, phandles, Function.update_of_ne asked, Function.update_of_ne root]
    exact ⟨attached, legal, others n asked⟩

theorem prop_of_run (ran : run Build.call s calls = some final)
    (attached : s.heap.parent n ≠ none) (legal : Heap.isIllegalPhandle (s.heap.phandleAt n) = false) :
    final.heap.propAt n = (lastWrite n calls).or (s.heap.propAt n) := by
  induction calls generalizing s with
  | nil =>
    obtain rfl := Option.some.inj ran
    rfl
  | cons c rest ih =>
    obtain ⟨next, called, ranRest⟩ := run_cons_eq_some.mp ran
    obtain ⟨attached', legal', prop⟩ := (call_effect called).keeps attached legal
    rw [ih ranRest attached' legal', prop, lastWrite, Option.or_assoc]

theorem Effect.returned_mono (effect : Effect s next c) (mem : p ∈ s.returned) : p ∈ next.returned := by
  cases effect with
  | other _ _ returned _ _ => rwa [returned]
  | refused _ _ returned => rw [returned, mem_snoc]; exact .inl mem
  | again _ _ _ returned => rw [returned, mem_snoc]; exact .inl mem
  | fresh _ _ _ _ _ _ _ _ returned => rw [returned, mem_snoc]; exact .inl mem

theorem returned_of_run (ran : run Build.call s calls = some final) (mem : p ∈ s.returned) : p ∈ final.returned := by
  induction calls generalizing s with
  | nil =>
    obtain rfl := Option.some.inj ran
    exact mem
  | cons c rest ih =>
    obtain ⟨next, called, ranRest⟩ := run_cons_eq_some.mp ran
    exact ih ranRest ((call_effect called).returned_mono mem)

theorem length_of_run (ran : run Build.call s calls = some final) : s.heap.length ≤ final.heap.length := by
  induction calls generalizing s with
  | nil =>
    obtain rfl := Option.some.inj ran
    exact Nat.le_refl _
  | cons c rest ih =>
    obtain ⟨next, called, ranRest⟩ := run_cons_eq_some.mp ran
    exact (length_of_call called).trans (ih ranRest)

/-- The calls to come leave every phandle given out so far its property. -/
def Promised (s : Build) (calls : List Call) : Prop :=
  ∀ n v, (n, v) ∈ s.returned → v ≠ 0 → (lastWrite n calls).or (s.heap.propAt n) = some (bigEndian v)

theorem Promised.call (counted : Counted s r k)
    (promised : Promised s (c :: rest)) (effect : Effect s next c) (unspoiled : Unspoiled s c rest) :
    Promised next rest := by
  have kept (n : Nat) (v : BitVec 32) (mem : (n, v) ∈ s.returned) (nonzero : v ≠ 0) :
      (lastWrite n rest).or (next.heap.propAt n) = some (bigEndian v) := by
    obtain ⟨-, is, up, le⟩ := counted.kept n v mem nonzero
    have legal : Heap.isIllegalPhandle (s.heap.phandleAt n) = false := by
      rw [← Bool.not_eq_true, Heap.isIllegalPhandle_iff, is]
      rintro (zero | last)
      · exact nonzero zero
      · rw [last] at le
        have := counted.small
        simp at le
        omega
    have before := promised n v mem nonzero
    rw [lastWrite, Option.or_assoc] at before
    rw [(effect.keeps up legal).2.2]
    exact before
  intro n v mem nonzero
  cases effect with
  | other _ _ returned _ _ =>
    rw [returned] at mem
    exact kept n v mem nonzero
  | refused _ _ returned =>
    rw [returned, mem_snoc] at mem
    rcases mem with mem | same
    · exact kept n v mem nonzero
    · exact absurd (Prod.mk.inj same).2 nonzero
  | again eligible legal _ returned =>
    have earlier := unspoiled eligible
    rw [legal, if_neg Bool.false_ne_true] at earlier
    rw [returned, mem_snoc] at mem
    rcases mem with mem | same
    · exact kept n v mem nonzero
    · exact kept n v (same ▸ earlier) nonzero
  | @fresh m r' eligible illegal root _ _ _ prop _ returned =>
    rw [returned, mem_snoc] at mem
    rcases mem with mem | same
    · exact kept n v mem nonzero
    · obtain ⟨rfl, rfl⟩ := Prod.mk.inj same
      have fine := unspoiled eligible
      rw [illegal, if_pos rfl] at fine
      obtain ⟨-, -, written⟩ := fine r' root
      cases last : lastWrite n rest with
      | none => rw [prop, writeBe32_eq]; rfl
      | some data => rw [written data last]; rfl

theorem phandlesOk (counted : Counted s r k) (promised : Promised s []) : PhandlesOk s where
  distinct n v m w mem mem' nonzero _ differ _ := by
    intro same
    rw [← same] at mem'
    exact differ (counted.once n m v mem mem' nonzero)
  legal n v mem := by
    intro last
    have le := (counted.kept n v mem (by rw [last]; decide)).2.2.2
    have := counted.small
    rw [last] at le
    simp at le
    omega
  repeated n v w mem mem' nonzero some' := by
    rw [← (counted.kept n v mem nonzero).2.1, ← (counted.kept n w mem' some').2.1]
  carried n v mem nonzero := promised n v mem nonzero

theorem Heap.inside_of_attached {h : Heap} (attached : h.parent n ≠ none) : n < h.length := by
  by_contra outside
  apply attached
  rw [Heap.parent, List.getElem?_eq_none (Nat.le_of_not_lt outside)]
  rfl

theorem not_ok_of_twice {m : Nat} {v : BitVec 32} (connected : final.heap.Connected) (first : (n, v) ∈ final.returned)
    (second : (m, v) ∈ final.returned) (nonzero : v ≠ 0) (differ : n ≠ m) (inside : n < final.heap.length)
    (inside' : m < final.heap.length) : ¬ PhandlesOk final := by
  intro ok
  obtain ⟨r, root⟩ := connected
  exact ok.distinct n v m v first second nonzero nonzero differ ⟨r, root n inside, root m inside'⟩ rfl

/-- A call that spoils the phandles does so for good. -/
theorem not_ok_of_spoiled (counted : Counted s r k)
    (called : s.call c = some next) (ran : run Build.call next rest = some final) (connected : final.heap.Connected)
    (spoiled : ¬ Unspoiled s c rest) : ¬ PhandlesOk final := by
  have stays {p : Nat × BitVec 32} (mem : p ∈ next.returned) := returned_of_run ran mem
  have grows : s.heap.length ≤ final.heap.length := (length_of_call called).trans (length_of_run ran)
  have given {d : Nat} {v : BitVec 32} (mem : (d, v) ∈ s.returned) (nonzero : v ≠ 0) : d < final.heap.length :=
    Nat.lt_of_lt_of_le (Heap.inside_of_attached (counted.kept d v mem nonzero).2.2.1) grows
  have effect := call_effect called
  have before {p : Nat × BitVec 32} (mem : p ∈ s.returned) : p ∈ final.returned := stays (effect.returned_mono mem)
  cases effect with
  | other notAsked =>
    cases c with
    | getPhandle n => exact absurd rfl (notAsked n)
    | create | addChild | addProp => exact absurd trivial spoiled
  | refused ineligible => exact absurd (fun eligible => absurd eligible ineligible) spoiled
  | @again n eligible legal same returned =>
    have bogus : (n, s.heap.phandleAt n) ∉ s.returned := by
      intro mem
      apply spoiled
      intro _
      rw [legal, if_neg Bool.false_ne_true]
      exact mem
    have nonzero : s.heap.phandleAt n ≠ 0 := by
      intro zero
      rw [zero] at legal
      cases legal
    have counting : n = r := by
      by_contra other
      exact bogus (counted.own n other nonzero)
    obtain ⟨d, mem⟩ := counted.onto _ nonzero (by rw [counting, counted.counter])
    have differ : n ≠ d := fun same => bogus (by rw [← same] at mem; exact mem)
    have asked : (n, s.heap.phandleAt n) ∈ next.returned := by
      rw [returned, mem_snoc]
      exact .inr rfl
    exact not_ok_of_twice connected (stays asked) (before mem) nonzero differ
      (Nat.lt_of_lt_of_le eligible.inside grows) (given mem nonzero)
  | @fresh n r' eligible illegal root top parents phandles prop others returned =>
    have asked : (n, s.heap.phandleAt r' + 1) ∈ next.returned := by
      rw [returned, mem_snoc]
      exact .inr rfl
    have inside := Nat.lt_of_lt_of_le eligible.inside grows
    by_cases first : s.heap.phandleAt r' = 0 → ∀ p ∈ s.returned, p.2 = 0
    · by_cases room : s.heap.phandleAt r' = 0xFFFFFFFE
      · intro ok
        apply ok.legal n _ (stays asked)
        rw [room]
        rfl
      · have replaced : ∃ data, lastWrite n rest = some data ∧ data ≠ bigEndian (s.heap.phandleAt r' + 1) := by
          by_contra kept
          apply spoiled
          intro _
          rw [illegal, if_pos rfl]
          intro r'' root'
          obtain rfl := Option.some.inj (root.symm.trans root')
          refine ⟨first, room, fun data last => ?_⟩
          by_contra other
          exact kept ⟨data, last, other⟩
        obtain ⟨data, last, other⟩ := replaced
        have new : next.heap.phandleAt n = s.heap.phandleAt r' + 1 := by rw [phandles, Function.update_self]
        have legal : Heap.isIllegalPhandle (next.heap.phandleAt n) = false := by
          rw [← Bool.not_eq_true, Heap.isIllegalPhandle_iff, new]
          rintro (zero | full)
          · exact counted.root_ne_max top (by rw [← BitVec.add_sub_cancel (s.heap.phandleAt r') 1, zero]; rfl)
          · exact room (by rw [← BitVec.add_sub_cancel (s.heap.phandleAt r') 1, full]; rfl)
        have nonzero : s.heap.phandleAt r' + 1 ≠ 0 := by
          intro zero
          rw [new, zero] at legal
          cases legal
        intro ok
        have carried := ok.carried n _ (stays asked) nonzero
        rw [prop_of_run ran (by rw [parents]; exact eligible.attached) legal, last] at carried
        exact other (Option.some.inj carried)
    · simp only [Classical.not_imp, not_forall] at first
      obtain ⟨zero, ⟨m, w⟩, mem, nonzero⟩ := first
      have one : (1#32) ≠ 0 := by decide
      obtain ⟨d, mem'⟩ := counted.first mem nonzero
      have differ : n ≠ d := by
        intro same
        have is := (counted.kept d _ mem' one).2.1
        rw [same, is] at illegal
        cases illegal
      rw [zero] at asked
      exact not_ok_of_twice connected (stays asked) (before mem') one differ inside (given mem' one)

end Run

/-- The phandles of a finished tree are right exactly if no call has spoiled them. -/
theorem phandles_ok_iff (calls : List Call) (final : Build) (ran : run Build.call {} calls = some final)
    (connected : final.heap.Connected) : PhandlesOk final ↔ AlongRest Build.call Unspoiled {} calls := by
  have along (calls : List Call) (s : Build) (r k : Nat) (ran : run Build.call s calls = some final)
      (counted : Counted s r k) (promised : Promised s calls) :
      PhandlesOk final ↔ AlongRest Build.call Unspoiled s calls := by
    induction calls generalizing s r k with
    | nil =>
      obtain rfl := Option.some.inj ran
      exact iff_of_true (phandlesOk counted promised) trivial
    | cons c rest ih =>
      obtain ⟨next, called, ranRest⟩ := run_cons_eq_some.mp ran
      by_cases unspoiled : Unspoiled s c rest
      · have effect := call_effect called
        obtain ⟨r', k', counted'⟩ := counted.call effect unspoiled
        rw [ih next r' k' ranRest counted' (promised.call counted effect unspoiled)]
        simp only [AlongRest, unspoiled, called, Option.some.injEq, forall_eq', true_and]
      · exact iff_of_false (not_ok_of_spoiled counted called ranRest connected unspoiled)
          fun along => unspoiled along.1
  exact along calls {} 0 0 ran counted_empty fun n v mem => absurd mem List.not_mem_nil

/-- A root, `soc` below it and `plic` below that, whose phandle is then asked for twice. -/
def plicCalls : List Call :=
  [.create [], .create [0x73, 0x6F, 0x63], .addChild 0 1, .create [0x70, 0x6C, 0x69, 0x63], .addChild 1 2,
    .getPhandle 2, .getPhandle 2]

theorem phandles_ok_plic :
    ∃ final, run Build.call {} plicCalls = some final ∧ final.heap.Connected ∧ final.returned = [(2, 1), (2, 1)] ∧
      PhandlesOk final := by
  obtain ⟨final, ran, connected, returned⟩ : ∃ final, run Build.call {} plicCalls = some final ∧
      final.heap.Connected ∧ final.returned = [(2, 1), (2, 1)] := ⟨_, rfl, ⟨0, by decide⟩, rfl⟩
  refine ⟨final, ran, connected, returned, (phandles_ok_iff plicCalls final ran connected).mpr ?_⟩
  refine ⟨trivial, fun _ h₁ => ⟨trivial, fun _ h₂ => ⟨trivial, fun _ h₃ => ?_⟩⟩⟩
  refine ⟨trivial, fun _ h₄ => ⟨trivial, fun _ h₅ => ?_⟩⟩
  cases h₁; cases h₂; cases h₃; cases h₄; cases h₅
  refine ⟨fun _ => ?_, fun _ h₆ => ⟨fun _ => ?_, fun _ _ => trivial⟩⟩
  · intro r root
    cases root
    exact ⟨by decide, by decide, fun data last => by cases last⟩
  · cases h₆
    decide

/-- `cpu` gets its phandle below `cpus`, which counts it; `cpus` is then attached to the root. -/
def cpusCalls : List Call :=
  [.create [], .create [0x63, 0x70, 0x75, 0x73], .create [0x63, 0x70, 0x75], .addChild 1 2, .getPhandle 2,
    .addChild 0 1, .getPhandle 1]

/-- Both nodes have phandle 1. -/
theorem attached_root_repeats_phandle :
    ∃ final, run Build.call {} cpusCalls = some final ∧ final.heap.Connected ∧ final.returned = [(2, 1), (1, 1)] ∧
      ¬ PhandlesOk final := by
  refine ⟨_, rfl, ⟨0, by decide⟩, rfl, fun ok => ?_⟩
  exact ok.distinct 2 1 1 1 (by decide) (by decide) (by decide) (by decide) (by decide) ⟨0, rfl, rfl⟩ rfl

end Rv64Vm.Fdt
