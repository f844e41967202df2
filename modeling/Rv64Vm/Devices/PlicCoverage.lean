import Rv64Vm.Devices.PlicOrder
import Rv64Vm.Lib.Masks

/-! # Which sources the controller serves

The constructor sizes the pending and enable words by `(max_sources + 31) / 32`, while the
word of a source is `id / 32`; the last source has no word if `max_sources` is a multiple
of 32. The enable window of a context has room for 32 words, so that sources from 1024 on
cannot be enabled.
-/

namespace Rv64Vm

open Lib

namespace Plic

variable {p q : Plic} {ctx c : Nat} {s : BitVec 32} {op : Op} {ops : List Op}

/-- The pending bit of a source is `level` after an operation, and all others are as before. -/
structure Marks (p q : Plic) (s : Nat) (level : Bool) : Prop where
  own : q.Pending s ↔ level = true
  others : ∀ t, t ≠ s → (q.Pending t ↔ p.Pending t)

/-- The source can be raised, enabled, claimed and completed. -/
structure Serves (p : Plic) (s : BitVec 32) : Prop where
  raised : ∀ level, ∃ q, p.next (.setPending s level) = some q ∧ Marks p q s.toNat level
  completed : ∀ op, p.Completes s op → ∃ q, p.next op = some q ∧ Marks p q s.toNat false
  enabled : ∀ ctx < p.numContexts, ∃ ops q, run next p ops = some q ∧ q.Enabled ctx s.toNat
  delivered : ∀ ctx < p.numContexts, p.Pending s.toNat → p.Enabled ctx s.toNat →
    (p.contexts ctx).threshold.toNat < p.priority s.toNat →
      p.line ctx = true ∧ ∃ k, s.toNat ∈ claims ctx k p

/-- Neither a device nor a guest changes anything in the name of the source. -/
structure Ignores (p : Plic) (s : BitVec 32) : Prop where
  raised : ∀ level, p.next (.setPending s level) = some p
  completed : ∀ op, p.Completes s op → p.next op = some p
  prioritised : s.toNat < 0x400 → ∀ value, p.next (.write (p.start + BitVec.ofNat 64 (4 * s.toNat)) 4 value) = some p

/-- The sources from 1 to `max_sources` are served, all other numbers ignored. -/
structure Covers (p : Plic) : Prop where
  serves : ∀ s : BitVec 32, s ≠ 0 ∧ s.toNat ≤ p.maxSources.toNat → p.Serves s
  ignores : ∀ s : BitVec 32, s.toNat = 0 ∨ s.toNat > p.maxSources.toNat → p.Ignores s

/-! ## Pending words -/

theorem wordsCount_eq (small : p.maxSources.toNat < 1024) : p.wordsCount = (p.maxSources.toNat + 31) / 32 := by
  unfold wordsCount
  rw [BitVec.toNat_udiv, BitVec.toNat_add]
  change (p.maxSources.toNat + 31) % 2 ^ 32 / 32 = _
  rw [Nat.mod_eq_of_lt (by omega)]

/-- A multiple of 32 leaves its last source without a word. -/
theorem wordsCount_eq_div (whole : p.maxSources.toNat % 32 = 0) : p.wordsCount = p.maxSources.toNat / 32 := by
  have bound := p.maxSources.isLt
  unfold wordsCount
  rw [BitVec.toNat_udiv, BitVec.toNat_add]
  change (p.maxSources.toNat + 31) % 2 ^ 32 / 32 = _
  omega

theorem marks_withPending {id : Nat} {level : Bool} {l : List Nat} (inside : id / 32 < p.wordsCount) :
    Marks p (l.foldl updateContext (p.withPending id level)) id level where
  own := by
    rw [(updates_same _ l).pending_iff, pending_withPending, if_pos rfl]
    exact and_iff_right inside
  others t other := by rw [(updates_same _ l).pending_iff, pending_withPending, if_neg other]

theorem next_of_effect {l : List Nat} (done : p.effect op = .ok (q, l)) :
    p.next op = some (l.foldl updateContext q) := by
  rw [next, step_eq_effect, done]
  rfl

theorem effect_setPending (valid : s ≠ 0 ∧ s.toNat ≤ p.maxSources.toNat) (level : Bool) :
    p.effect (.setPending s level) = if s.toNat / 32 < p.wordsCount
      then .ok (p.withPending s.toNat level, List.range p.numContexts) else .error .undefinedBehaviour := by
  have positive : s.toNat ≠ 0 := fun zero => valid.1 (BitVec.eq_of_toNat_eq zero)
  exact if_neg (by omega)

theorem effect_complete (completes : p.Completes s op) : ∃ ctx, p.effect op =
    if s.toNat = 0 ∨ s.toNat > p.maxSources.toNat then .ok (p, [])
    else if s.toNat / 32 < p.wordsCount then .ok (p.withPending s.toNat false, [ctx])
    else .error .undefinedBehaviour := by
  cases op with
  | write addr size value =>
    obtain ⟨word, ⟨ctx, selected⟩, named⟩ := completes
    refine ⟨ctx, ?_⟩
    simp only [effect, word, ne_eq, not_true_eq_false, if_false, selected, named]
  | setPending | read => exact completes.elim

/-! ## Enable registers -/

/-- The address of an enable word. -/
def enablesAddr (p : Plic) (ctx word : Nat) : Word := p.start + BitVec.ofNat 64 (0x2000 + ctx * 0x80 + word * 4)

theorem numContexts_le (p : Plic) : p.numContexts ≤ 510 := by
  have := p.numHarts.isLt
  unfold numContexts
  omega

theorem register_enablesAddr {word : Nat} (valid : ctx < p.numContexts) (inside : word < p.wordsCount)
    (small : word < 32) : p.register (p.enablesAddr ctx word - p.start).toNat = .enables ctx word := by
  have bound := p.numContexts_le
  rw [enablesAddr, toNat_add_ofNat_sub _ (by omega), register, if_neg (by omega), if_neg (by omega), if_pos (by omega)]
  have context : (0x2000 + ctx * 0x80 + word * 4 - 0x2000) / 0x80 = ctx := by omega
  have index : (0x2000 + ctx * 0x80 + word * 4 - 0x2000) % 0x80 / 4 = word := by omega
  simp only [context, index, valid, inside, and_self, if_true]

/-- A guest's write of all ones enables every source of the word. -/
theorem enabled_by_write {t : Nat} (valid : ctx < p.numContexts) (inside : t / 32 < p.wordsCount) (small : t < 1024) :
    ∃ q, p.next (.write (p.enablesAddr ctx (t / 32)) 4 0xFFFFFFFF) = some q ∧ q.Enabled ctx t := by
  have selected := register_enablesAddr valid inside (by omega)
  have done : p.effect (.write (p.enablesAddr ctx (t / 32)) 4 0xFFFFFFFF) =
      .ok (p.withEnables ctx (t / 32) 0xFFFFFFFF, [ctx]) := by
    simp only [effect, selected, ne_eq, not_true_eq_false, if_false]
    rfl
  refine ⟨_, next_of_effect done, ?_⟩
  have bit : (0xFFFFFFFF#32).getLsbD (t % 32) = true := by
    have ones : (0xFFFFFFFF#32) = BitVec.allOnes 32 := rfl
    rw [ones, BitVec.getLsbD_allOnes, decide_eq_true_eq]
    exact Nat.mod_lt _ (by decide)
  rw [Enabled, (updates_same _ [ctx]).enables]
  unfold withEnables
  dsimp only
  rw [Function.update_self]
  dsimp only
  rw [Function.update_self]
  exact bit

/-- Nothing reaches the enable bits from the 1024th on. -/
theorem enabled_of_next {t : Nat} (far : 1024 ≤ t) (stepped : p.next op = some q) :
    q.Enabled ctx t ↔ p.Enabled ctx t := by
  rw [next_eq_some, step_eq_effect] at stepped
  obtain ⟨⟨r, l⟩, done, rfl⟩ := map_eq_ok.mp stepped
  unfold Enabled
  rw [(updates_same r l).enables]
  cases effect_change done with
  | none | request | lowered | priority => rfl
  | @enables target word value valid small =>
    have other : t / 32 ≠ word := by omega
    unfold withEnables
    dsimp only
    rw [Function.update_apply]
    split
    case isTrue same =>
      dsimp only
      rw [Function.update_of_ne other, same]
    case isFalse => rfl
  | @threshold target value valid =>
    unfold withThreshold
    dsimp only
    rw [Function.update_apply]
    split
    case isTrue same => rw [same]
    case isFalse => rfl

/-! ## Lines -/

/-- The line of a context is up while some source may interrupt it. -/
def Reported (p : Plic) : Prop := ∀ c < p.numContexts, p.HasEligible c → p.line c = true

theorem eligible_of_context (same : q.contexts c = p.contexts c) (sources : q.maxSources = p.maxSources)
    (words : q.pendingWords = p.pendingWords) (priorities : q.priorities = p.priorities) {t : Nat}
    (eligible : q.Eligible c t) : p.Eligible c t := by
  obtain ⟨positive, inRange, pending, enabled, above⟩ := eligible
  unfold Pending wordsCount at pending
  unfold Enabled at enabled
  unfold priority at above
  rw [sources] at inRange
  rw [sources, words] at pending
  rw [same] at enabled
  rw [same, priorities] at above
  exact ⟨positive, inRange, pending, enabled, above⟩

/-- A context that an operation does not recompute gains no source by it. -/
theorem hasEligible_of_change {l : List Nat} (change : Change p op q l) (valid : c < p.numContexts) (out : c ∉ l)
    (has : q.HasEligible c) : p.HasEligible c := by
  obtain ⟨t, eligible⟩ := has
  cases change with
  | none => exact ⟨t, eligible⟩
  | request | priority => exact absurd (List.mem_range.mpr valid) out
  | lowered => exact ⟨t, (eligible_withPending_false.mp eligible).1⟩
  | @enables ctx word value _ _ =>
    have other : c ≠ ctx := mt List.mem_singleton.mpr out
    have same : (p.withEnables ctx word value).contexts c = p.contexts c := Function.update_of_ne other _ _
    exact ⟨t, eligible_of_context same rfl rfl rfl eligible⟩
  | @threshold ctx value _ =>
    have other : c ≠ ctx := mt List.mem_singleton.mpr out
    have same : (p.withThreshold ctx value).contexts c = p.contexts c := Function.update_of_ne other _ _
    exact ⟨t, eligible_of_context same rfl rfl rfl eligible⟩

theorem reported_next (reported : p.Reported) (stepped : p.next op = some q) : q.Reported := by
  rw [next_eq_some, step_eq_effect] at stepped
  obtain ⟨⟨r, l⟩, done, rfl⟩ := map_eq_ok.mp stepped
  have touches := effect_touches done
  have same := updates_same r l
  intro c valid has
  rw [same.numContexts, numContexts, touches.numHarts] at valid
  rw [same.hasEligible_iff] at has
  dsimp only
  rw [updates_line]
  split
  case isTrue => exact raise_iff.mpr has
  case isFalse out =>
    rw [touches.line]
    exact reported c valid (hasEligible_of_change (effect_change done) valid out has)

theorem reported_run (initial : p.Initial) (ran : run next p ops = some q) : q.Reported :=
  run_invariant_of_step (fun _ _ _ stepped before => reported_next before stepped)
    (fun c valid has => (linesOk_initial initial c valid).1.mpr has) ran

/-! ## Coverage -/

theorem claims_reach {t : Nat} (eligible : p.Eligible ctx t) : ∃ k, t ∈ claims ctx k p := by
  obtain ⟨order, queue, returned⟩ := p.claims_eq_queue ctx
  refine ⟨order.length, ?_⟩
  rw [returned, List.take_length]
  exact List.mem_append_left _ ((queue.mem t).mpr eligible)

theorem serves_of_word (reported : p.Reported) (valid : s ≠ 0 ∧ s.toNat ≤ p.maxSources.toNat)
    (inside : s.toNat / 32 < p.wordsCount) (small : s.toNat < 1024) : p.Serves s where
  raised level := by
    have done := effect_setPending valid level
    rw [if_pos inside] at done
    exact ⟨_, next_of_effect done, marks_withPending inside⟩
  completed op completes := by
    have positive : s.toNat ≠ 0 := fun zero => valid.1 (BitVec.eq_of_toNat_eq zero)
    obtain ⟨ctx, done⟩ := effect_complete completes
    rw [if_neg (by omega), if_pos inside] at done
    exact ⟨_, next_of_effect done, marks_withPending inside⟩
  enabled ctx known := by
    obtain ⟨q, stepped, enabled⟩ := enabled_by_write known inside small
    exact ⟨[_], q, run_cons_eq_some.mpr ⟨q, stepped, rfl⟩, enabled⟩
  delivered ctx known pending enabled above := by
    have positive : s.toNat ≠ 0 := fun zero => valid.1 (BitVec.eq_of_toNat_eq zero)
    have eligible : p.Eligible ctx s.toNat := ⟨positive, valid.2, pending, enabled, above⟩
    exact ⟨reported ctx known ⟨_, eligible⟩, claims_reach eligible⟩

theorem ignores_of_out (out : s.toNat = 0 ∨ s.toNat > p.maxSources.toNat) : p.Ignores s := by
  refine ⟨fun level => ?_, fun op completes => ?_, fun window value => ?_⟩
  · have done : p.effect (.setPending s level) = .ok (p, []) := if_pos out
    exact next_of_effect done
  · obtain ⟨ctx, done⟩ := effect_complete completes
    rw [if_pos out] at done
    exact next_of_effect done
  · have selected : p.register (p.start + BitVec.ofNat 64 (4 * s.toNat) - p.start).toNat = .reserved := by
      have index : 4 * s.toNat / 4 = s.toNat := by omega
      rw [toNat_add_ofNat_sub _ (by omega), register, if_pos (by omega)]
      dsimp only
      rw [index, if_neg (by omega)]
    have done : p.effect (.write (p.start + BitVec.ofNat 64 (4 * s.toNat)) 4 value) = .ok (p, []) := by
      simp only [effect, selected, ne_eq, not_true_eq_false, if_false]
    exact next_of_effect done

/-- The last source of a multiple of 32 cannot be raised. -/
theorem not_serves_last (whole : p.maxSources.toNat % 32 = 0) (positive : p.maxSources ≠ 0) :
    ¬ p.Serves p.maxSources := by
  intro serves
  obtain ⟨q, stepped, -⟩ := serves.raised true
  have outside : ¬ p.maxSources.toNat / 32 < p.wordsCount := by
    rw [wordsCount_eq_div whole]
    exact lt_irrefl _
  have done : p.effect (.setPending p.maxSources true) = _ := effect_setPending ⟨positive, le_rfl⟩ true
  rw [if_neg outside] at done
  rw [next, step_eq_effect, done] at stepped
  cases stepped

/-- The 1024th source cannot be enabled. -/
theorem not_serves_far (initial : p.Initial) (hart : 0 < p.numContexts) (far : 1024 ≤ s.toNat) : ¬ p.Serves s := by
  intro serves
  obtain ⟨ops, q, ran, enabled⟩ := serves.enabled 0 hart
  have off : ¬ p.Enabled 0 s.toNat := by
    rw [Enabled, (initial.2.2.1 0).2.1]
    simp
  have never : ¬ q.Enabled 0 s.toNat :=
    run_invariant_of_step (I := fun r => ¬ r.Enabled 0 s.toNat)
      (fun _ _ _ stepped before after => before ((enabled_of_next far stepped).mp after)) off ran
  exact never enabled

/-- One hart and `n` sources, as the constructor leaves them. -/
def fresh (n : BitVec 32) : Plic where
  start := 0x0C000000#64
  numHarts := 1
  maxSources := n
  ip _ := 0

theorem fresh_initial (n : BitVec 32) : (fresh n).Initial :=
  ⟨fun _ => rfl, fun _ => rfl, fun _ => ⟨rfl, fun _ => rfl, rfl⟩, fun _ _ => BitVec.getLsbD_zero⟩

/-- In every state that a controller of `n` sources reaches, the sources up to `n` are served
    and all others ignored, exactly if `n` is below 1024 and no multiple of 32. -/
theorem covers_iff (n : BitVec 32) (positive : n ≠ 0) :
    (∀ p ops q, p.Initial → p.maxSources = n → run next p ops = some q → q.Covers) ↔
      n.toNat % 32 ≠ 0 ∧ n.toNat < 1024 := by
  constructor
  · intro covers
    have covered : (fresh n).Covers := covers (fresh n) [] (fresh n) (fresh_initial n) rfl rfl
    constructor
    · intro whole
      exact not_serves_last (p := fresh n) whole positive (covered.serves n ⟨positive, le_rfl⟩)
    · by_contra far
      have valid : (1024#32) ≠ 0 ∧ (1024#32).toNat ≤ n.toNat := ⟨by decide, not_lt.mp far⟩
      exact not_serves_far (fresh_initial n) (show 0 < 2 by decide) le_rfl (covered.serves 1024 valid)
  · rintro ⟨ragged, small⟩ p ops q initial sources ran
    have kept : q.maxSources.toNat = n.toNat := by rw [maxSources_of_run ran, sources]
    have words : q.wordsCount = (q.maxSources.toNat + 31) / 32 := wordsCount_eq (by omega)
    refine ⟨fun s valid => ?_, fun s out => ignores_of_out out⟩
    exact serves_of_word (reported_run initial ran) valid (by omega) (by omega)

theorem covers_ragged :
    63#32 ≠ 0 ∧ ∀ p ops q, p.Initial → p.maxSources = 63#32 → run next p ops = some q → q.Covers :=
  ⟨by decide, (covers_iff 63#32 (by decide)).mpr (by decide)⟩

/-- `init_auto` asks for 64 sources; raising the last one writes beyond `pending_words`. -/
theorem last_source_outside :
    (fresh 64).Initial ∧ (fresh 64).setPending 64 true = .error .undefinedBehaviour ∧ ¬ (fresh 64).Covers := by
  refine ⟨fresh_initial 64, rfl, fun covers => ?_⟩
  exact not_serves_last (p := fresh 64) rfl (by decide) (covers.serves 64 (by decide))

end Plic

end Rv64Vm
