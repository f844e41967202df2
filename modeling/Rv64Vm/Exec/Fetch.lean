import Rv64Vm.Exec.Tick
import Rv64Vm.Exec.Effects
import Rv64Vm.Isa.DecoderCorrect

/-! # What a fetch delivers

Every entry of the decode cache is the decoding of the word it holds, so it does
not matter whether `decode_inst` hits. A fetch writes nothing but the cache, and the
instruction it delivers is the best match of the word it read.
-/

namespace Rv64Vm

open Lib

variable {k : Fin instructions.length} {w : FetchedWord} {bus : Bus}

/-! ## The decode cache -/

/-- The entry holds the decoding of its word. -/
def InstructionCache.Decoded (entry : InstructionCache) (k : Fin instructions.length) : Prop :=
  Best entry.data.inst k ∧ entry.inst = some k.val ∧
    entry.data = .ofInst entry.data.inst (instructions.get k).immDecode

/-- Entries of `pc` 0 are empty or illegal. -/
def DecodeCache.Good (cache : DecodeCache) : Prop :=
  ∀ idx way, ((cache.sets idx).ways way).pc ≠ 0 → ∃ k, ((cache.sets idx).ways way).Decoded k

theorem DecodeCache.good_empty : DecodeCache.Good {} := fun _ _ used => absurd rfl used

section Decode

variable {smcEpoch : Nat} {cache : DecodeCache} {pc : Word} {w : Inst}

theorem decodeInstSlow_some (chosen : selected w = some k) : (decodeInstSlow smcEpoch cache pc w).1 =
      { pc := pc
        inst := some k.val
        data := .ofInst w (instructions.get k).immDecode
        cacheGen := cache.generation
        smcGen := smcEpoch } := by
  obtain ⟨found, hit⟩ := Option.filter_eq_some_iff.mp chosen
  simp only [decodeInstSlow, found, Option.any_some, hit, if_true, Option.map_some, Option.bind_some]

theorem decodeInstSlow_none (nothing : selected w = none) : (decodeInstSlow smcEpoch cache pc w).1.pc = 0 := by
  have missed : ((luts.find w).any fun k => (instructions.get k).Matches w) = false := by
    cases found : luts.find w with
    | none => rfl
    | some k =>
      cases hit : decide ((instructions.get k).Matches w) with
      | false => exact hit
      | true =>
        rw [selected, found, Option.filter_some, if_pos hit] at nothing
        cases nothing
  simp only [decodeInstSlow, missed, Bool.false_eq_true, if_false]

theorem decodeInstSlow_decoded (used : (decodeInstSlow smcEpoch cache pc w).1.pc ≠ 0) :
    ∃ k, (decodeInstSlow smcEpoch cache pc w).1.Decoded k ∧
      (decodeInstSlow smcEpoch cache pc w).1.data.inst = w := by
  cases chosen : selected w with
  | none => exact absurd (decodeInstSlow_none chosen) used
  | some k =>
    rw [decodeInstSlow_some chosen]
    exact ⟨k, ⟨selected_eq_some_iff.mp chosen, rfl, rfl⟩, rfl⟩

theorem decodeInstSlow_good (good : cache.Good) : (decodeInstSlow smcEpoch cache pc w).2.Good := by
  intro idx way
  have sets : (decodeInstSlow smcEpoch cache pc w).2.sets = Function.update cache.sets (cacheIndex pc)
      { ways := Function.update (cache.sets (cacheIndex pc)).ways (cache.sets (cacheIndex pc)).victim
          (decodeInstSlow smcEpoch cache pc w).1
        victim := !(cache.sets (cacheIndex pc)).victim } := rfl
  rw [sets]
  by_cases here : idx = cacheIndex pc
  · subst here
    rw [Function.update_self]
    by_cases replaced : way = (cache.sets (cacheIndex pc)).victim
    · subst replaced
      dsimp only
      rw [Function.update_self]
      intro used
      obtain ⟨k, decoded, -⟩ := decodeInstSlow_decoded used
      exact ⟨k, decoded⟩
    · dsimp only
      rw [Function.update_of_ne replaced]
      exact good _ way
  · rw [Function.update_of_ne here]
    exact good idx way

/-- What `decode_inst` returns is the decoding of the word, cached or not. -/
theorem decodeInst_decoded (good : cache.Good) (used : (decodeInst smcEpoch cache pc w).1.pc ≠ 0) :
    ∃ k, (decodeInst smcEpoch cache pc w).1.Decoded k ∧ (decodeInst smcEpoch cache pc w).1.data.inst = w := by
  unfold decodeInst at used ⊢
  dsimp only at used ⊢
  split at used
  case isTrue hit =>
    rw [if_pos hit]
    obtain ⟨k, decoded⟩ := good _ _ used
    exact ⟨k, decoded, hit.2.1⟩
  case isFalse miss =>
    rw [if_neg miss]
    split at used
    case isTrue hit =>
      rw [if_pos hit]
      obtain ⟨k, decoded⟩ := good _ _ used
      exact ⟨k, decoded, hit.2.1⟩
    case isFalse miss₂ =>
      rw [if_neg miss₂]
      exact decodeInstSlow_decoded used

theorem decodeInst_good (good : cache.Good) : (decodeInst smcEpoch cache pc w).2.Good := by
  unfold decodeInst
  dsimp only
  split_ifs
  · exact good
  · exact good
  · exact decodeInstSlow_good good

/-- An illegal word is one that no registered pattern matches. -/
theorem decodeInst_illegal (nonzero : pc ≠ 0)
    (illegal : (decodeInst smcEpoch cache pc w).1.pc = 0) (k : Fin instructions.length) :
    ¬ (instructions.get k).Applies w := by
  unfold decodeInst at illegal
  dsimp only at illegal
  split at illegal
  case isTrue hit => exact absurd (hit.1.symm.trans illegal) nonzero
  case isFalse =>
    split at illegal
    case isTrue hit => exact absurd (hit.1.symm.trans illegal) nonzero
    case isFalse =>
      cases chosen : selected w with
      | none => exact selected_eq_none_iff.mp chosen k
      | some k' =>
        rw [decodeInstSlow_some chosen] at illegal
        exact absurd illegal nonzero

end Decode

/-! ## The fetch -/

section Fetch

variable {c : Core} {va : Word}

theorem ne_zero_of_inRam {memsize phys : Word} (inside : outsideRam memsize phys = false) : phys ≠ 0 := by
  rintro rfl
  simp [outsideRam, dramBase] at inside

/-- The fetch of a word translates, and delivers one only from RAM. -/
theorem fetchWord_translated (ok : fetchWord c va = .ok w) :
    Translated c w.core ∧ (w.ret.isSuccess = true → w.physPc ≠ 0) := by
  unfold fetchWord at ok
  obtain ⟨t, translated, stop⟩ := bind_guard_eq_ok.mp ok
  have begun := translate_translated translated
  rcases stop with ⟨failed, rfl⟩ | ⟨-, ok⟩
  · exact ⟨begun, fun worked => absurd (failed.symm.trans worked) nofun⟩
  split at ok
  case isTrue => exact pure_eq_ok.mp ok ▸ ⟨begun, nofun⟩
  case isFalse inside =>
    have used := ne_zero_of_inRam (Bool.eq_false_iff.mpr inside)
    obtain ⟨lo, -, ok⟩ := bind_eq_ok.mp ok
    split at ok
    case isTrue => exact pure_eq_ok.mp ok ▸ ⟨begun, fun _ => used⟩
    case isFalse =>
      split at ok
      case isTrue =>
        obtain ⟨inst, -, ok⟩ := bind_eq_ok.mp ok
        exact pure_eq_ok.mp ok ▸ ⟨begun, fun _ => used⟩
      case isFalse =>
        obtain ⟨t₂, translated₂, stop⟩ := bind_guard_eq_ok.mp ok
        have both := begun.trans (translate_translated translated₂)
        rcases stop with ⟨-, rfl⟩ | ⟨-, ok⟩
        · exact ⟨both, fun _ => used⟩
        split at ok
        case isTrue => exact pure_eq_ok.mp ok ▸ ⟨both, fun _ => used⟩
        case isFalse =>
          obtain ⟨hi, -, ok⟩ := bind_eq_ok.mp ok
          exact pure_eq_ok.mp ok ▸ ⟨both, fun _ => used⟩

/-- What a fetch leaves: the machine as after a translation, a good cache, and on
success the decoding of the word. -/
structure FetchEnds (c : Core) (f : Fetched) : Prop where
  translated : Translated c { f.core with decoder := c.decoder }
  good : f.core.decoder.Good
  decoded : f.ret.isSuccess = true → ∃ k, f.cache.Decoded k

theorem fetchInstruction_ends (good : c.decoder.Good) {f : Fetched} (ok : fetchInstruction c va = .ok f) :
    FetchEnds c f := by
  unfold fetchInstruction at ok
  obtain ⟨w, fetched, stop⟩ := bind_guard_eq_ok.mp ok
  obtain ⟨translated, -⟩ := fetchWord_translated fetched
  have cache : w.core.decoder = c.decoder := translated.decoder
  have kept : Translated c { w.core with decoder := c.decoder } :=
    ⟨translated.hart, translated.smc, translated.io, rfl, translated.rounding, translated.ram⟩
  rcases stop with ⟨failed, rfl⟩ | ⟨-, ok⟩
  · exact ⟨kept, cache ▸ good, fun worked => absurd (failed.symm.trans worked) nofun⟩
  have after : (decodeInst w.core.smc.smcEpoch w.core.decoder w.physPc w.inst).2.Good :=
    decodeInst_good (cache ▸ good)
  dsimp only at ok
  split at ok
  case isTrue => exact pure_eq_ok.mp ok ▸ ⟨kept, after, nofun⟩
  case isFalse used =>
    obtain ⟨k, decoded, -⟩ := decodeInst_decoded (cache ▸ good) used
    exact pure_eq_ok.mp ok ▸ ⟨kept, after, fun _ => ⟨k, decoded⟩⟩

theorem singleInst_decoded {e : InstructionCache}
    (decoded : e.Decoded k) : singleInst bus c e = (instructions.get k).func bus c e.data := by
  have inst : e.inst.bind (instructions[·]?) = some (instructions.get k) := by
    rw [decoded.2.1]
    exact List.getElem?_eq_getElem k.isLt
  rw [singleInst, inst]

/-- A word that has an instruction is decoded to it, cached or not. -/
theorem fetchInstruction_of_best (good : c.decoder.Good)
    (fetched : fetchWord c va = .ok w) (success : w.ret.isSuccess = true) (placed : w.physPc ≠ 0)
    (best : Best w.inst k) :
    ∃ entry decoder, fetchInstruction c va = .ok ⟨{}, w.physPc, entry, { w.core with decoder := decoder }⟩ ∧
      entry.Decoded k ∧ entry.data.inst = w.inst := by
  obtain ⟨translated, -⟩ := fetchWord_translated fetched
  have cached : w.core.decoder.Good := translated.decoder ▸ good
  have legal : (decodeInst w.core.smc.smcEpoch w.core.decoder w.physPc w.inst).1.pc ≠ 0 := fun none =>
    decodeInst_illegal placed none k best.1
  obtain ⟨k', decoded, inst⟩ := decodeInst_decoded cached legal
  obtain rfl : k' = k := Best.unique (inst ▸ decoded.1) best
  refine ⟨_, (decodeInst w.core.smc.smcEpoch w.core.decoder w.physPc w.inst).2, ?_, decoded, inst⟩
  rw [fetchInstruction, fetched]
  simp only [bind, Except.bind, success, Bool.not_true, Bool.false_eq_true, if_false, legal]
  rfl

/-- `tick` where the fetch reads a word that has an instruction. -/
theorem tick_of_best (bus : Bus) (good : c.decoder.Good) (awake : c.hart.beginTick.wfi = false)
    (fetched : fetchWord (c.mapHart Hart.beginTick) c.hart.beginTick.pc = .ok w)
    (success : w.ret.isSuccess = true) (placed : w.physPc ≠ 0) (best : Best w.inst k) :
    executedWord c = some w.inst ∧ ∃ decoder, tick bus c =
      ((instructions.get k).func bus { w.core with decoder := decoder }
        (.ofInst w.inst (instructions.get k).immDecode)).map finish := by
  obtain ⟨entry, decoder, got, decoded, inst⟩ :=
    fetchInstruction_of_best (c := c.mapHart Hart.beginTick) good fetched success placed best
  have waiting : (c.mapHart Hart.beginTick).hart.wfi = false := awake
  have data : entry.data = .ofInst w.inst (instructions.get k).immDecode := inst ▸ decoded.2.2
  change fetchInstruction (c.mapHart Hart.beginTick) (c.mapHart Hart.beginTick).hart.pc = _ at got
  constructor
  · simp only [executedWord, waiting, Bool.false_eq_true, if_false, got, if_true, inst]
  · refine ⟨decoder, ?_⟩
    simp only [tick, waiting, Bool.false_eq_true, if_false, executeOne, got, bind, Except.bind, Bool.not_true,
      singleInst_decoded decoded, data]
    cases (instructions.get k).func bus { w.core with decoder := decoder }
      (.ofInst w.inst (instructions.get k).immDecode) <;> rfl

/-- `tick` on a machine that gets to execute `w`. -/
theorem tick_executes {c' : Core} {w : Inst} (good : c.decoder.Good)
    (word : executedWord c = some w) (ends : tick bus c = .ok c') :
    ∃ f k out, FetchEnds (c.mapHart Hart.beginTick) f ∧ f.cache.Decoded k ∧ f.cache.data.inst = w ∧
      (instructions.get k).func bus f.core f.cache.data = .ok out ∧ c' = finish out := by
  unfold executedWord at word
  unfold tick at ends
  dsimp only at word ends
  cases waiting : (c.mapHart Hart.beginTick).hart.wfi with
  | true => simp [waiting] at word
  | false =>
    simp only [waiting, Bool.false_eq_true, if_false] at word ends
    unfold executeOne at ends
    cases fetched : fetchInstruction (c.mapHart Hart.beginTick) (c.mapHart Hart.beginTick).hart.pc with
    | error e => simp [fetched] at word
    | ok f =>
      rw [fetched] at word ends
      cases success : f.ret.isSuccess with
      | false => simp [success] at word
      | true =>
        simp only [success, if_true, Option.some.injEq] at word
        simp only [bind, Except.bind, success, Bool.not_true, Bool.false_eq_true, if_false] at ends
        have delivered := fetchInstruction_ends (c := c.mapHart Hart.beginTick) good fetched
        obtain ⟨k, decoded⟩ := delivered.decoded success
        rw [singleInst_decoded decoded] at ends
        cases ran : (instructions.get k).func bus f.core f.cache.data with
        | error e =>
          rw [ran] at ends
          cases ends
        | ok out =>
          simp only [ran, pure, Except.pure, Except.ok.injEq] at ends
          exact ⟨f, k, out, delivered, decoded, word, ran, ends.symm⟩

end Fetch

end Rv64Vm
