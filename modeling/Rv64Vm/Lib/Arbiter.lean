import Mathlib.Data.Set.Card
import Mathlib.Order.Lattice
import Mathlib.Tactic.Common

/-! # Arbitration by priority

A scan that keeps the best contender so far, with its priority, ends with a contender that
no other beats, or with the initial holder if nobody contends. A pool from which the
foremost is taken again and again is drained in order.
-/

namespace Rv64Vm.Lib

variable {ι P : Type} [LinearOrder P]

/-- One round of a scan: a contender that beats the holder takes its place, and one of the
    same priority may. -/
structure Challenge (contends : ι → Prop) (prio : ι → P) (round : ι × P → ι → ι × P) : Prop where
  idle : ∀ best i, ¬ contends i → round best i = best
  wins : ∀ best i, contends i → best.2 < prio i → round best i = (i, prio i)
  loses : ∀ best i, prio i < best.2 → round best i = best
  ties : ∀ best i, prio i = best.2 → round best i = best ∨ (contends i ∧ round best i = (i, prio i))

/-- `best` is what a scan of `l` from `init` may end with. -/
def Arbitrated (contends : ι → Prop) (prio : ι → P) (init : ι × P) (l : List ι) (best : ι × P) : Prop :=
  (best = init ∧ ∀ i ∈ l, ¬ contends i) ∨
    (best.1 ∈ l ∧ contends best.1 ∧ best.2 = prio best.1 ∧ ∀ i ∈ l, contends i → prio i ≤ best.2)

variable {contends : ι → Prop} {prio : ι → P} {round : ι × P → ι → ι × P} {init best : ι × P}

section Floor

variable (rules : Challenge contends prio round) (floor : ∀ i, contends i → init.2 < prio i)

include rules floor

theorem Arbitrated.step {l : List ι} (so_far : Arbitrated contends prio init l best) (i : ι) :
    Arbitrated contends prio init (l ++ [i]) (round best i) := by
  simp only [Arbitrated, List.mem_append, List.mem_singleton, or_imp, forall_and, forall_eq]
  by_cases enters : contends i
  · rcases so_far with ⟨rfl, none⟩ | ⟨mem, holder, value, top⟩
    · -- the first contender takes the place of the initial holder
      rw [rules.wins best i enters (floor i enters)]
      exact .inr ⟨.inr rfl, enters, rfl, fun j listed other => absurd other (none j listed), fun _ => le_rfl⟩
    · rcases lt_trichotomy best.2 (prio i) with less | equal | more
      · rw [rules.wins best i enters less]
        exact .inr ⟨.inr rfl, enters, rfl, fun j listed other => (top j listed other).trans less.le, fun _ => le_rfl⟩
      · rcases rules.ties best i equal.symm with kept | ⟨-, taken⟩
        · rw [kept]
          exact .inr ⟨.inl mem, holder, value, top, fun _ => equal.ge⟩
        · rw [taken]
          exact .inr ⟨.inr rfl, enters, rfl, fun j listed other => (top j listed other).trans equal.le, fun _ => le_rfl⟩
      · rw [rules.loses best i more]
        exact .inr ⟨.inl mem, holder, value, top, fun _ => more.le⟩
  · rw [rules.idle best i enters]
    rcases so_far with ⟨same, none⟩ | ⟨mem, holder, value, top⟩
    · exact .inl ⟨same, none, enters⟩
    · exact .inr ⟨.inl mem, holder, value, top, fun contends => absurd contends enters⟩

theorem Arbitrated.foldl (l : List ι) {seen : List ι} (so_far : Arbitrated contends prio init seen best) :
    Arbitrated contends prio init (seen ++ l) (l.foldl round best) := by
  induction l generalizing seen best with
  | nil =>
    rw [List.append_nil]
    exact so_far
  | cons i l ih =>
    rw [List.append_cons]
    exact ih (so_far.step rules floor i)

theorem Arbitrated.scan (l : List ι) : Arbitrated contends prio init l (l.foldl round init) :=
  Arbitrated.foldl rules floor l (.inl ⟨rfl, fun _ listed => absurd listed List.not_mem_nil⟩)

end Floor

/-- The round that gives way to a contender of higher priority only. -/
def challenge (contends : ι → Prop) (prio : ι → P) [DecidablePred contends] (best : ι × P) (i : ι) : ι × P :=
  if contends i ∧ best.2 < prio i then (i, prio i) else best

theorem challenge_rules (contends : ι → Prop) (prio : ι → P) [DecidablePred contends] :
    Challenge contends prio (challenge contends prio) where
  idle _ _ out := if_neg fun enters => out enters.1
  wins _ _ enters beats := if_pos ⟨enters, beats⟩
  loses _ _ weaker := if_neg fun enters => lt_asymm weaker enters.2
  ties _ _ equal := .inl (if_neg fun enters => enters.2.ne equal.symm)

/-! ## Draining -/

section Draining

variable {σ : Type} (head : σ → Option ι) (pop : σ → σ) (waits : σ → ι → Prop) (ahead : σ → ι → ι → Prop)

/-- `head` is ahead of all others that wait, and `pop` removes it and nothing else. -/
structure Drains : Prop where
  empty : ∀ s, head s = none → ∀ i, ¬ waits s i
  first : ∀ s i, head s = some i → waits s i ∧ ∀ j, waits s j → j ≠ i → ahead s i j
  popped : ∀ s i, head s = some i → ∀ j, waits (pop s) j ↔ waits s j ∧ j ≠ i
  idle : ∀ s, head s = none → pop s = s
  order : ∀ s, ahead (pop s) = ahead s

/-- What taking the head `k` times gives. -/
def drain : Nat → σ → List (Option ι)
  | 0, _ => []
  | k + 1, s => head s :: drain k (pop s)

/-- `order` lists those that wait, each once, the foremost first. -/
structure Queue (s : σ) (order : List ι) : Prop where
  mem : ∀ i, i ∈ order ↔ waits s i
  sorted : order.Pairwise (ahead s)

variable {head pop waits ahead}

theorem Drains.drain_none (rules : Drains head pop waits ahead) {s : σ} (empty : head s = none) (k : Nat) :
    drain head pop k s = List.replicate k none := by
  induction k with
  | zero => rfl
  | succ k ih => rw [drain, empty, rules.idle s empty, ih, List.replicate_succ]

/-- Taking the head again and again gives the whole queue and then nothing. -/
theorem Drains.queue (rules : Drains head pop waits ahead) (s : σ) (finite : {i | waits s i}.Finite) :
    ∃ order, Queue waits ahead s order ∧
      ∀ k, drain head pop k s = (order.take k).map some ++ List.replicate (k - order.length) none := by
  -- on the number of those that wait
  obtain ⟨n, size⟩ : ∃ n, {i | waits s i}.ncard = n := ⟨_, rfl⟩
  induction n generalizing s with
  | zero =>
    have nobody (i : ι) : ¬ waits s i := by
      intro waiting
      have empty := (Set.ncard_eq_zero finite).mp size
      exact Set.notMem_empty i (empty ▸ waiting)
    have empty : head s = none := by
      cases found : head s with
      | none => rfl
      | some i => exact absurd (rules.first s i found).1 (nobody i)
    refine ⟨[], ⟨fun i => ⟨fun mem => absurd mem List.not_mem_nil, fun w => absurd w (nobody i)⟩, .nil⟩, ?_⟩
    intro k
    simpa using rules.drain_none empty k
  | succ n ih =>
    cases found : head s with
    | none =>
      have empty : {i | waits s i} = ∅ := Set.eq_empty_of_forall_notMem (rules.empty s found)
      rw [empty, Set.ncard_empty] at size
      exact absurd size (Nat.succ_ne_zero n).symm
    | some i =>
      obtain ⟨waiting, foremost⟩ := rules.first s i found
      have removed : {j | waits (pop s) j} = {j | waits s j} \ {i} :=
        Set.ext fun j => rules.popped s i found j
      have fewer : {j | waits (pop s) j}.ncard = n := by
        have mem : i ∈ {j | waits s j} := waiting
        rw [removed, Set.ncard_sdiff_singleton_of_mem mem, size, Nat.add_sub_cancel]
      obtain ⟨order, queue, drained⟩ := ih (pop s) (removed ▸ finite.sdiff) fewer
      refine ⟨i :: order, ⟨fun j => ?_, ?_⟩, fun k => ?_⟩
      · rw [List.mem_cons, queue.mem, rules.popped s i found]
        by_cases same : j = i
        · subst same
          exact iff_of_true (.inl rfl) waiting
        · simp only [same, false_or, ne_eq, not_false_eq_true, and_true]
      · rw [List.pairwise_cons]
        refine ⟨fun j mem => ?_, rules.order s ▸ queue.sorted⟩
        obtain ⟨still, other⟩ := (rules.popped s i found j).mp ((queue.mem j).mp mem)
        exact foremost j still other
      · cases k with
        | zero => simp [drain]
        | succ k => simp [drain, found, drained]

end Draining

end Rv64Vm.Lib
