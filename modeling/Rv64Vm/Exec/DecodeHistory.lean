import Rv64Vm.Exec.Fetch

/-! # The decode cache over its history

Calls of `decode_inst`, FENCE.I and changes of the self-modifying-code epoch in any order. What a
call returns is what the slow path of an empty cache returns: a hit asks for the word itself, and
an entry with a `pc` holds the decoding of its word. An entry that a bump has passed stays
behind its generation for good.
-/

namespace Rv64Vm

/-- The decoder with the global epoch. -/
structure DecodeState where
  epoch : Nat
  cache : DecodeCache := {}

inductive DecodeOp where
  | decode (pc : Word) (inst : Inst)
  /-- FENCE.I: the next `cache_generation`. -/
  | fenceI
  /-- The next `g_smc_epoch`. -/
  | smc
  deriving DecidableEq, Repr

namespace DecodeState

variable (s : DecodeState)

def step : DecodeOp → DecodeState
  | .decode pc inst => { s with cache := (decodeInst s.epoch s.cache pc inst).2 }
  | .fenceI => { s with cache := { s.cache with generation := s.cache.generation + 1 } }
  | .smc => { s with epoch := s.epoch + 1 }

def runs (ops : List DecodeOp) : DecodeState := ops.foldl step s

abbrev entry (idx : Nat) (way : Bool) : InstructionCache := (s.cache.sets idx).ways way

/-- `decode_inst` would return the entry. -/
abbrev Hit (idx : Nat) (way : Bool) (pc : Word) (w : Inst) : Prop :=
  (s.entry idx way).Hits s.epoch s.cache pc w

/-- No entry is from a generation to come. -/
def Stamped : Prop :=
  ∀ idx way, (s.entry idx way).pc ≠ 0 →
    (s.entry idx way).cacheGen ≤ s.cache.generation ∧ (s.entry idx way).smcGen ≤ s.epoch

variable {s : DecodeState} {op : DecodeOp} {pc : Word} {w : Inst} {idx : Nat} {way : Bool}

/-- A call that misses replaces the victim of its set. -/
def Replaces (s : DecodeState) (pc : Word) (w : Inst) (idx : Nat) (way : Bool) : Prop :=
  (∀ way, ¬ s.Hit (cacheIndex pc) way pc w) ∧ idx = cacheIndex pc ∧ way = (s.cache.sets (cacheIndex pc)).victim

/-- A call returns a way that is hit, or both ways miss. -/
theorem decodeInst_cases (s : DecodeState) (pc : Word) (w : Inst) :
    (∃ way, s.Hit (cacheIndex pc) way pc w ∧
        decodeInst s.epoch s.cache pc w = (s.entry (cacheIndex pc) way, s.cache)) ∨
      (∀ way, ¬ s.Hit (cacheIndex pc) way pc w) ∧
        decodeInst s.epoch s.cache pc w = decodeInstSlow s.epoch s.cache pc w := by
  unfold decodeInst
  dsimp only
  by_cases first : s.Hit (cacheIndex pc) false pc w
  · exact .inl ⟨false, first, if_pos first⟩
  by_cases second : s.Hit (cacheIndex pc) true pc w
  · exact .inl ⟨true, second, (if_neg first).trans (if_pos second)⟩
  · exact .inr ⟨Bool.forall_bool.mpr ⟨first, second⟩, (if_neg first).trans (if_neg second)⟩

theorem decodeInst_miss (miss : ∀ way, ¬ s.Hit (cacheIndex pc) way pc w) :
    decodeInst s.epoch s.cache pc w = decodeInstSlow s.epoch s.cache pc w := by
  rcases s.decodeInst_cases pc w with ⟨way, hit, -⟩ | ⟨-, slow⟩
  · exact absurd hit (miss way)
  · exact slow

theorem decodeInstSlow_sets (epoch : Nat) (cache : DecodeCache) (pc : Word) (w : Inst) :
    (decodeInstSlow epoch cache pc w).2.sets = Function.update cache.sets (cacheIndex pc)
      { ways := Function.update (cache.sets (cacheIndex pc)).ways (cache.sets (cacheIndex pc)).victim
          (decodeInstSlow epoch cache pc w).1
        victim := !(cache.sets (cacheIndex pc)).victim } := rfl

theorem Replaces.entry (replaces : s.Replaces pc w idx way) :
    (s.step (.decode pc w)).entry idx way = (decodeInstSlow s.epoch s.cache pc w).1 := by
  obtain ⟨miss, rfl, rfl⟩ := replaces
  change ((decodeInst s.epoch s.cache pc w).2.sets _).ways _ = _
  rw [decodeInst_miss miss, decodeInstSlow_sets, Function.update_self]
  exact Function.update_self ..

theorem step_entry (other : ¬ s.Replaces pc w idx way) : (s.step (.decode pc w)).entry idx way = s.entry idx way := by
  change ((decodeInst s.epoch s.cache pc w).2.sets _).ways _ = _
  rcases s.decodeInst_cases pc w with ⟨way', -, hit⟩ | ⟨miss, slow⟩
  · rw [hit]
  · rw [slow, decodeInstSlow_sets]
    by_cases here : idx = cacheIndex pc
    · subst here
      rw [Function.update_self]
      exact Function.update_of_ne (fun victim => other ⟨miss, rfl, victim⟩) _ _
    · rw [Function.update_of_ne here]

theorem step_generation : (s.step (.decode pc w)).cache.generation = s.cache.generation := by
  change (decodeInst s.epoch s.cache pc w).2.generation = _
  rcases s.decodeInst_cases pc w with ⟨way', -, hit⟩ | ⟨-, slow⟩
  · rw [hit]
  · rw [slow]
    rfl

theorem decodeInstSlow_stamps {epoch : Nat} {cache : DecodeCache} (used : (decodeInstSlow epoch cache pc w).1.pc ≠ 0) :
    (decodeInstSlow epoch cache pc w).1.cacheGen = cache.generation ∧
      (decodeInstSlow epoch cache pc w).1.smcGen = epoch := by
  cases chosen : selected w with
  | none => exact absurd (decodeInstSlow_none chosen) used
  | some k =>
    rw [decodeInstSlow_some chosen]
    exact ⟨rfl, rfl⟩

theorem step_good (good : s.cache.Good) : (s.step op).cache.Good := by
  cases op with
  | decode pc inst => exact decodeInst_good good
  | fenceI => exact good
  | smc => exact good

theorem step_stamped (stamped : s.Stamped) : (s.step op).Stamped := by
  intro idx way used
  cases op with
  | decode pc inst =>
    rw [step_generation]
    by_cases replaces : s.Replaces pc inst idx way
    · rw [replaces.entry] at used ⊢
      obtain ⟨cacheGen, smcGen⟩ := decodeInstSlow_stamps used
      exact ⟨cacheGen.le, smcGen.le⟩
    · rw [step_entry replaces] at used ⊢
      exact stamped idx way used
  | fenceI => exact ⟨Nat.le_succ_of_le (stamped idx way used).1, (stamped idx way used).2⟩
  | smc => exact ⟨(stamped idx way used).1, Nat.le_succ_of_le (stamped idx way used).2⟩

/-- Generations and epochs do not go back. -/
theorem step_le (s : DecodeState) (op : DecodeOp) :
    s.cache.generation ≤ (s.step op).cache.generation ∧ s.epoch ≤ (s.step op).epoch := by
  cases op with
  | decode pc inst => exact ⟨step_generation.ge, le_rfl⟩
  | fenceI => exact ⟨Nat.le_succ _, le_rfl⟩
  | smc => exact ⟨le_rfl, Nat.le_succ _⟩

theorem runs_invariant (good : s.cache.Good) (stamped : s.Stamped) (ops : List DecodeOp) :
    (s.runs ops).cache.Good ∧ (s.runs ops).Stamped := by
  induction ops generalizing s with
  | nil => exact ⟨good, stamped⟩
  | cons op ops ih => exact ih (step_good good) (step_stamped stamped)

theorem runs_le (s : DecodeState) (ops : List DecodeOp) :
    s.cache.generation ≤ (s.runs ops).cache.generation ∧ s.epoch ≤ (s.runs ops).epoch := by
  induction ops generalizing s with
  | nil => exact ⟨le_rfl, le_rfl⟩
  | cons op ops ih =>
    obtain ⟨generation, epoch⟩ := step_le s op
    obtain ⟨generation', epoch'⟩ := ih (s.step op)
    exact ⟨generation.trans generation', epoch.trans epoch'⟩

/-! ## Hits -/

theorem Hit.decoded (good : s.cache.Good) (nonzero : pc ≠ 0) (hit : s.Hit idx way pc w) :
    ∃ k, (s.entry idx way).Decoded k ∧ selected w = some k := by
  have used : (s.entry idx way).pc ≠ 0 := fun zero => nonzero (hit.1.symm.trans zero)
  obtain ⟨k, decoded⟩ := good idx way used
  have best : Best (s.entry idx way).data.inst k := decoded.1
  rw [hit.2.1] at best
  exact ⟨k, decoded, selected_eq_some_iff.mpr best⟩

/-- What leaves an entry without a hit: a bump, or an illegal word in its place. -/
inductive Invalidates (s : DecodeState) (idx : Nat) (way : Bool) : DecodeOp → Prop
  | fenceI : Invalidates s idx way .fenceI
  | smc : Invalidates s idx way .smc
  | illegal {pc : Word} {w : Inst} (illegal : selected w = none) (replaces : s.Replaces pc w idx way) :
      Invalidates s idx way (.decode pc w)

theorem Invalidates.not_hit (stamped : s.Stamped) (invalidates : s.Invalidates idx way op) {later : List DecodeOp}
    (kept : ((s.step op).runs later).entry idx way = (s.step op).entry idx way) (nonzero : pc ≠ 0) :
    ¬ ((s.step op).runs later).Hit idx way pc w := by
  intro hit
  obtain ⟨there, -, cacheGen, smcGen⟩ := hit
  rw [kept] at there cacheGen smcGen
  obtain ⟨generation, epoch⟩ := (s.step op).runs_le later
  cases invalidates with
  | fenceI =>
    obtain ⟨old, -⟩ := stamped idx way fun zero => nonzero (there.symm.trans zero)
    change (s.entry idx way).cacheGen = _ at cacheGen
    change s.cache.generation + 1 ≤ _ at generation
    omega
  | smc =>
    obtain ⟨-, old⟩ := stamped idx way fun zero => nonzero (there.symm.trans zero)
    change (s.entry idx way).smcGen = _ at smcGen
    change s.epoch + 1 ≤ _ at epoch
    omega
  | illegal illegal replaces =>
    rw [replaces.entry] at there
    exact nonzero (there.symm.trans (decodeInstSlow_none illegal))

/-! ## Transparency -/

/-- Handler, operands, immediate, size and legality. -/
def Same (entry fresh : InstructionCache) : Prop :=
  entry.inst = fresh.inst ∧ entry.data = fresh.data ∧ (entry.pc = 0 ↔ fresh.pc = 0)

theorem same_of_miss (epoch epoch' : Nat) (cache cache' : DecodeCache) (pc : Word) (w : Inst) :
    Same (decodeInstSlow epoch cache pc w).1 (decodeInstSlow epoch' cache' pc w).1 := by
  cases chosen : selected w with
  | some k =>
    rw [decodeInstSlow_some chosen, decodeInstSlow_some chosen]
    exact ⟨rfl, rfl, Iff.rfl⟩
  | none =>
    have missed : ((luts.find w).any fun k => (instructions.get k).Matches w) = false := by
      rw [selected, Option.filter_eq_none_iff] at chosen
      cases found : luts.find w with
      | none => rfl
      | some k => exact eq_false_of_ne_true (chosen k found)
    simp only [decodeInstSlow, missed, Bool.false_eq_true, if_false]
    exact ⟨rfl, rfl, Iff.rfl⟩

theorem same_of_hit (good : s.cache.Good) (nonzero : pc ≠ 0) (hit : s.Hit idx way pc w) (epoch : Nat) :
    Same (s.entry idx way) (decodeInstSlow epoch {} pc w).1 := by
  obtain ⟨k, ⟨-, inst, data⟩, chosen⟩ := hit.decoded good nonzero
  rw [hit.2.1] at data
  rw [decodeInstSlow_some chosen]
  exact ⟨inst, data, by rw [hit.1]⟩

theorem decodeInst_same (good : s.cache.Good) (nonzero : pc ≠ 0) (epoch : Nat) :
    Same (decodeInst s.epoch s.cache pc w).1 (decodeInstSlow epoch {} pc w).1 := by
  rcases s.decodeInst_cases pc w with ⟨way, hit, returned⟩ | ⟨-, slow⟩
  · rw [returned]
    exact same_of_hit good nonzero hit epoch
  · rw [slow]
    exact same_of_miss ..

/-- After any history a call at a `pc` other than 0 returns what a fresh decoder returns, and no
later call returns an entry that was invalidated. -/
theorem decode_transparent (start : Nat) (ops : List DecodeOp) (pc : Word) (w : Inst) (nonzero : pc ≠ 0) :
    let s := runs ⟨start, {}⟩ ops
    (∀ epoch, Same (decodeInst s.epoch s.cache pc w).1 (decodeInstSlow epoch {} pc w).1) ∧
      (selected w = none → ∀ idx way, ¬ s.Hit idx way pc w) ∧
      ∀ before op later, ops = before ++ op :: later → ∀ idx way,
        (runs ⟨start, {}⟩ before).Invalidates idx way op →
        s.entry idx way = ((runs ⟨start, {}⟩ before).step op).entry idx way → ¬ s.Hit idx way pc w := by
  intro s
  have fresh : Stamped ⟨start, {}⟩ := fun _ _ used => absurd rfl used
  obtain ⟨good, -⟩ := runs_invariant DecodeCache.good_empty fresh ops
  refine ⟨decodeInst_same good nonzero, ?_, ?_⟩
  · intro illegal idx way hit
    obtain ⟨k, -, chosen⟩ := Hit.decoded good nonzero hit
    rw [illegal] at chosen
    cases chosen
  · intro before op later order idx way invalidates kept
    obtain ⟨-, stamped⟩ := runs_invariant DecodeCache.good_empty fresh before
    have split : s = ((runs ⟨start, {}⟩ before).step op).runs later := by
      simp only [s, order, runs, List.foldl_append, List.foldl_cons]
    rw [split] at kept ⊢
    exact invalidates.not_hit stamped kept nonzero

/-- ADDI at 0x80000000, overwritten and decoded again. -/
theorem decode_transparent_addi :
    let s := runs ⟨0, {}⟩ [.decode 0x80000000 0x00500513, .fenceI, .smc, .decode 0x80000000 0]
    (0x80000000 : Word) ≠ 0 ∧
      ∀ epoch, Same (decodeInst s.epoch s.cache 0x80000000 0x00500513).1
        (decodeInstSlow epoch {} 0x80000000 0x00500513).1 :=
  ⟨by decide, (decode_transparent 0 _ 0x80000000 0x00500513 (by decide)).1⟩

end DecodeState

end Rv64Vm
