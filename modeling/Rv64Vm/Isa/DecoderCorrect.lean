import Rv64Vm.Isa.Decoder
import Rv64Vm.Isa.Encodings

/-! # The decoder is pattern matching

A slot of the lookup tables holds the most specific of the patterns that agree with
its words under the hash mask. No two registered patterns of one specificity
meet in a slot, and none hides behind a more specific one that fails outside the
hash, so one comparison decides.
-/

namespace Rv64Vm

open Lib

/-! ## What the slots hold -/

theorem free_dontCareBits (i : Instruction) (hash : Inst) :
    i.code.Free hash.toNat (hash &&& ~~~(i.mask &&& hash)).toNat := by
  intro j
  show (hash &&& ~~~(i.mask &&& hash)).getLsbD j = (hash.getLsbD j && !i.mask.getLsbD j)
  rw [BitVec.getLsbD_and, BitVec.getLsbD_not, BitVec.getLsbD_and]
  cases inHash : hash.getLsbD j with
  | false => rfl
  | true => simp [BitVec.lt_of_getLsbD inHash]

theorem popcount_le (n m : Nat) : popcount n m ≤ n := by
  induction n generalizing m with
  | zero => exact Nat.le_refl 0
  | succ n ih =>
    have := ih (m / 2)
    rw [popcount]
    omega

/-- While the hash fits the table, the `continue` is never taken and the loop runs over all submasks. -/
theorem fillLut_eq {α : Type} {inst : Instruction} {put : Option α → Option α} {hash : Inst} {size : Nat}
    (fits : 2 ^ popcount 32 hash.toNat ≤ size) (dontCareBits : Inst) (fuel : Nat) (subMask : Inst)
    (lut : Nat → Option α) :
    fillLut inst put hash size dontCareBits fuel subMask lut =
      forSubmasks 32 dontCareBits.toNat (fun x lut => Function.update lut (inst.code.slot 32 hash.toNat x)
        (put (lut (inst.code.slot 32 hash.toNat x)))) fuel subMask.toNat lut := by
  induction fuel generalizing subMask lut with
  | zero => rfl
  | succ fuel ih =>
    have slot : pextU32 ((inst.matchBits &&& hash) ||| subMask) hash =
        inst.code.slot 32 hash.toNat subMask.toNat := by
      rw [pextU32, BitVec.toNat_or, BitVec.toNat_and]
      rfl
    have inside : ¬ inst.code.slot 32 hash.toNat subMask.toNat ≥ size :=
      not_le.mpr (lt_of_lt_of_le (pext_lt ..) fits)
    have next : ((subMask - dontCareBits) &&& dontCareBits).toNat =
        nextSub 32 subMask.toNat dontCareBits.toNat := by
      rw [BitVec.toNat_and, BitVec.toNat_sub, nextSub, Nat.add_comm]
    rw [fillLut, forSubmasks]
    simp only [slot, if_neg inside]
    by_cases last : (subMask - dontCareBits) &&& dontCareBits = 0
    · rw [if_neg (not_not.mpr last), if_pos (by rw [← next, last]; rfl)]
    · have more : nextSub 32 subMask.toNat dontCareBits.toNat ≠ 0 := by
        rw [← next]
        exact fun zero => last (BitVec.eq_of_toNat_eq zero)
      rw [if_pos last, if_neg more, ih, next]

theorem fillLut_slot {α : Type} {inst : Instruction} {put : Option α → Option α} {hash : Inst} {size : Nat}
    (fits : 2 ^ popcount 32 hash.toNat ≤ size) (lut : Nat → Option α) (w : Inst) :
    fillLut inst put hash size (hash &&& ~~~(inst.mask &&& hash)) (2 ^ 32) 0 lut (pextU32 w hash) =
      if inst.code.Hashes hash.toNat w.toNat then put (lut (pextU32 w hash)) else lut (pextU32 w hash) := by
  rw [fillLut_eq fits]
  exact (free_dontCareBits inst hash).fill_slot hash.isLt w.isLt
    (Nat.pow_le_pow_right (by decide) (popcount_le ..)) lut

section Slots

variable {table : List Instruction} {w : Inst}

/-- The pattern is of the size of the table and agrees with `w` under its hash. -/
def Claims (is16 : Bool) (hash w : Inst) (k : Fin table.length) : Prop :=
  ((table.get k).size = 2 ↔ is16 = true) ∧ (table.get k).code.Hashes hash.toNat w.toNat

instance (is16 : Bool) (hash : Inst) (k : Fin table.length) : Decidable (Claims is16 hash w k) :=
  inferInstanceAs (Decidable (_ ∧ _))

theorem lutSize_fits : 2 ^ popcount 32 hashMask.toNat ≤ lutSize := by decide +kernel
theorem lutSize16_fits : 2 ^ popcount 32 hashMask16.toNat ≤ lutSize16 := by decide +kernel

theorem Luts.add_short {luts : Luts table} {k : Fin table.length} (short : (table.get k).size = 2) :
    luts.add k = { luts with
      lut16 := fillLut (table.get k) (prefer table k) hashMask16 lutSize16
        (hashMask16 &&& ~~~((table.get k).mask &&& hashMask16)) (2 ^ 32) 0 luts.lut16 } :=
  if_pos short

theorem Luts.add_long {luts : Luts table} {k : Fin table.length} (long : (table.get k).size ≠ 2) :
    luts.add k = { luts with
      lut := fillLut (table.get k) (prefer table k) hashMask lutSize
        (hashMask &&& ~~~((table.get k).mask &&& hashMask)) (2 ^ 32) 0 luts.lut } :=
  if_neg long

theorem add_lut (luts : Luts table) (k : Fin table.length) :
    (luts.add k).lut (pextU32 w hashMask) =
      if Claims false hashMask w k then prefer table k (luts.lut (pextU32 w hashMask))
      else luts.lut (pextU32 w hashMask) := by
  by_cases short : (table.get k).size = 2
  · have apart : ¬ Claims false hashMask w k := fun claims => Bool.false_ne_true (claims.1.mp short)
    rw [if_neg apart, Luts.add_short short]
  · have claims : Claims false hashMask w k ↔ (table.get k).code.Hashes hashMask.toNat w.toNat :=
      and_iff_right (iff_of_false short Bool.false_ne_true)
    rw [Luts.add_long short]
    exact (fillLut_slot lutSize_fits luts.lut w).trans (if_congr claims rfl rfl).symm

theorem add_lut16 (luts : Luts table) (k : Fin table.length) :
    (luts.add k).lut16 (pextU32 w hashMask16) =
      if Claims true hashMask16 w k then prefer table k (luts.lut16 (pextU32 w hashMask16))
      else luts.lut16 (pextU32 w hashMask16) := by
  by_cases short : (table.get k).size = 2
  · have claims : Claims true hashMask16 w k ↔ (table.get k).code.Hashes hashMask16.toNat w.toNat :=
      and_iff_right (iff_of_true short rfl)
    rw [Luts.add_short short]
    exact (fillLut_slot lutSize16_fits luts.lut16 w).trans (if_congr claims rfl rfl).symm
  · have apart : ¬ Claims true hashMask16 w k := fun claims => short (claims.1.mpr rfl)
    rw [if_neg apart, Luts.add_long short]

/-- A fold that prefers on the candidates only. -/
theorem foldl_prefer (P : Fin table.length → Prop) [DecidablePred P] {read : Luts table → Option (Fin table.length)}
    (step : ∀ luts k, read (luts.add k) = if P k then prefer table k (read luts) else read luts)
    (ks : List (Fin table.length)) (luts : Luts table) :
    read (ks.foldl Luts.add luts) = (ks.filter P).foldl (fun best k => prefer table k best) (read luts) := by
  induction ks generalizing luts with
  | nil => rfl
  | cons k ks ih =>
    rw [List.foldl_cons, ih, step]
    by_cases claims : P k <;> simp [claims]

variable {is16 : Bool} {hash : Inst} {j k : Fin table.length}

/-- What the slot of `w` holds in the table of one size: a candidate with the most fixed bits. -/
def winner (table : List Instruction) (is16 : Bool) (hash w : Inst) : Option (Fin table.length) :=
  ((List.finRange table.length).filter fun k => Claims is16 hash w k).argmax fun k => (table.get k).fixedBits

theorem slot_eq_winner (read : Luts table → Option (Fin table.length)) (empty : read {} = none)
    (step : ∀ luts k, read (luts.add k) =
      if Claims is16 hash w k then prefer table k (read luts) else read luts) :
    read (buildLut table) = winner table is16 hash w := by
  have same : (fun best k => prefer table k best) =
      List.argAux fun b c => (table.get c).fixedBits < (table.get b).fixedBits := by
    funext best k
    cases best <;> rfl
  rw [buildLut, foldl_prefer _ step, empty, same]
  rfl

theorem buildLut_lut (w : Inst) : (buildLut table).lut (pextU32 w hashMask) = winner table false hashMask w :=
  slot_eq_winner (fun luts => luts.lut (pextU32 w hashMask)) rfl add_lut

theorem buildLut_lut16 (w : Inst) : (buildLut table).lut16 (pextU32 w hashMask16) = winner table true hashMask16 w :=
  slot_eq_winner (fun luts => luts.lut16 (pextU32 w hashMask16)) rfl add_lut16

theorem claims_of_winner (won : winner table is16 hash w = some k) : Claims is16 hash w k := by
  have mem := List.argmax_mem (Option.mem_def.mpr won)
  exact of_decide_eq_true (List.mem_filter.mp mem).2

theorem winner_best (won : winner table is16 hash w = some k) (claims : Claims is16 hash w j) :
    (table.get j).fixedBits ≤ (table.get k).fixedBits :=
  List.le_of_mem_argmax (f := fun k => (table.get k).fixedBits)
    (List.mem_filter.mpr ⟨List.mem_finRange j, decide_eq_true claims⟩) (Option.mem_def.mpr won)

theorem winner_eq_none_iff : winner table is16 hash w = none ↔ ∀ k : Fin table.length, ¬ Claims is16 hash w k := by
  rw [winner, List.argmax_eq_none, List.eq_nil_iff_forall_not_mem]
  simp

end Slots

/-! ## One comparison decides -/

/-- A pattern is only for words of its own size. -/
def Instruction.Applies (i : Instruction) (w : Inst) : Prop :=
  i.Matches w ∧ (i.size = 2 ↔ w &&& 0x3 ≠ 0x3)

section Registered

variable {w : Inst} {j k : Fin instructions.length} {h : Nat}

/-- The two low bits are under both hashes, so a claimed slot fixes the size. -/
theorem size_of_hashes (low : h &&& 3 = 3) (hashed : (instructions.get k).code.Hashes h w.toNat) :
    (instructions.get k).size = 2 ↔ w &&& 0x3 ≠ 0x3 := by
  have same : w.toNat &&& 3 = (instructions.get k).code.value &&& 3 :=
    calc w.toNat &&& 3
        = w.toNat &&& ((instructions.get k).code.mask &&& (h &&& 3)) := by rw [low, mask_low]
      _ = w.toNat &&& (instructions.get k).code.mask &&& h &&& 3 := by simp only [Nat.and_assoc]
      _ = (instructions.get k).code.value &&& (h &&& 3) := by rw [hashed, Nat.and_assoc]
      _ = (instructions.get k).code.value &&& 3 := by rw [low]
  have word : w &&& 0x3 = 0x3 ↔ (instructions.get k).code.value &&& 3 = 3 := by
    rw [← same, ← BitVec.toNat_inj, BitVec.toNat_and]
    rfl
  have value := value_low k
  split at value
  case isTrue short => exact iff_of_true short fun three => value.2 (word.mp three)
  case isFalse long => exact iff_of_false long (not_not.mpr (word.mpr value))

theorem applies_iff : (instructions.get k).Applies w ↔ (instructions.get k).Matches w := by
  refine and_iff_left_of_imp fun hit => size_of_hashes (h := 3) rfl ?_
  exact (Instruction.matches_code.mpr hit).hashes

/-- If a pattern of the size matches, then the slot's one does, and it is the most specific. -/
theorem winner_of_matches {is16 : Bool} {hash : Inst}
    (own : ∀ k : Fin instructions.length, ((instructions.get k).size = 2 ↔ is16 = true) →
      (instructions.get k).hash = hash.toNat)
    (hit : (instructions.get j).Matches w) (size : (instructions.get j).size = 2 ↔ is16 = true) :
    ∃ k, winner instructions is16 hash w = some k ∧ (instructions.get k).Matches w ∧
      (j = k ∨ (instructions.get j).fixedBits < (instructions.get k).fixedBits) := by
  have matched := Instruction.matches_code.mpr hit
  cases won : winner instructions is16 hash w with
  | none => exact absurd ⟨size, matched.hashes⟩ (winner_eq_none_iff.mp won j)
  | some k =>
    obtain ⟨sizeK, hashed⟩ := claims_of_winner won
    -- the patterns of this size, as one separated family
    let Sized := { k : Fin instructions.length // (instructions.get k).size = 2 ↔ is16 = true }
    have separated : ∀ a b : Sized, a ≠ b →
        (instructions.get a.1).code.Separated 32 hash.toNat (instructions.get b.1).code := by
      intro a b differ
      rw [← own a.1 a.2]
      exact separated_registered (fun same => differ (Subtype.ext same)) (a.2.trans b.2.symm)
    have best : ∀ b : Sized, (instructions.get b.1).code.Hashes hash.toNat w.toNat →
        (instructions.get b.1).code.fixed 32 ≤ (instructions.get k).code.fixed 32 :=
      fun b hashedB => winner_best won ⟨b.2, hashedB⟩
    obtain ⟨matchedK, better⟩ := Pattern.best_of_hashed (k := (⟨k, sizeK⟩ : Sized)) separated hashed best
      (j := ⟨j, size⟩) matched
    exact ⟨k, rfl, Instruction.matches_code.mp matchedK, better.imp_left (congrArg Subtype.val)⟩

theorem find_long (long : w &&& 0x3 = 0x3) : luts.find w = winner instructions false hashMask w := by
  rw [Luts.find, if_neg (not_not.mpr long), Option.none_or, luts, buildLut_lut]

/-- The tables of the long patterns have nothing for a short word. -/
theorem find_short (short : w &&& 0x3 ≠ 0x3) : luts.find w = winner instructions true hashMask16 w := by
  have low : pextU32 (w &&& 0xFFFF) hashMask16 = pextU32 w hashMask16 := by
    apply (pext_eq_iff (BitVec.isLt _) (BitVec.isLt _)).mpr
    rw [← BitVec.toNat_and, ← BitVec.toNat_and, BitVec.and_assoc]
    rfl
  have nothing : winner instructions false hashMask w = none := by
    apply winner_eq_none_iff.mpr
    rintro k ⟨size, hashed⟩
    exact Bool.false_ne_true (size.mp ((size_of_hashes (by decide +kernel) hashed).mpr short))
  rw [Luts.find, if_pos short, low, luts, buildLut_lut16, buildLut_lut, nothing, Option.or_none]

/-- If any pattern applies, the pointer from the tables is the most specific one that does. -/
theorem find_of_applies (hit : (instructions.get j).Applies w) :
    ∃ k, luts.find w = some k ∧ (instructions.get k).Matches w ∧
      (j = k ∨ (instructions.get j).fixedBits < (instructions.get k).fixedBits) := by
  by_cases long : w &&& 0x3 = 0x3
  · rw [find_long long]
    have size : (instructions.get j).size = 2 ↔ false = true :=
      iff_of_false (fun short => hit.2.mp short long) Bool.false_ne_true
    exact winner_of_matches (fun k other => Instruction.hash_long (Bool.false_ne_true ∘ other.mp)) hit.1 size
  · rw [find_short long]
    have size : (instructions.get j).size = 2 ↔ true = true := iff_of_true (hit.2.mpr long) rfl
    exact winner_of_matches (fun k other => Instruction.hash_short (other.mpr rfl)) hit.1 size

/-- No two patterns of one specificity apply to the same word. -/
theorem fixedBits_ne (differ : j ≠ k) (left : (instructions.get j).Applies w)
    (right : (instructions.get k).Applies w) :
    (instructions.get j).fixedBits ≠ (instructions.get k).fixedBits := by
  have separated := separated_registered differ (left.2.trans right.2.symm)
  exact separated.fixed_ne (Instruction.matches_code.mpr left.1) (Instruction.matches_code.mpr right.1)

/-- The most specific of the patterns that apply. -/
def Best (w : Inst) (k : Fin instructions.length) : Prop :=
  (instructions.get k).Applies w ∧
    ∀ j, (instructions.get j).Applies w → (instructions.get j).fixedBits ≤ (instructions.get k).fixedBits

theorem Best.unique (left : Best w j) (right : Best w k) : j = k := by
  by_contra differ
  exact fixedBits_ne differ left.1 right.1 (le_antisymm (right.2 j left.1) (left.2 k right.1))

/-- An instruction without operands is the best match of its only word. -/
theorem best_of_fixed {ins : Instruction} (mem : ins ∈ instructions) (hit : ins.Matches w)
    (all : ins.fixedBits = 32) : ∃ k, instructions.get k = ins ∧ Best w k := by
  obtain ⟨k, rfl⟩ := List.mem_iff_get.mp mem
  exact ⟨k, rfl, applies_iff.mpr hit, fun j _ => all ▸ popcount_le ..⟩

/-- What is left of the pointer after the comparison. -/
def selected (w : Inst) : Option (Fin instructions.length) :=
  (luts.find w).filter fun k => (instructions.get k).Matches w

theorem selected_eq_some_iff : selected w = some k ↔ Best w k := by
  have found : selected w = some k ↔ luts.find w = some k ∧ (instructions.get k).Matches w := by
    simp [selected, Option.filter_eq_some_iff]
  constructor
  · intro chosen
    obtain ⟨slot, hit⟩ := found.mp chosen
    refine ⟨applies_iff.mpr hit, fun j applies => ?_⟩
    obtain ⟨k', slot', _, better⟩ := find_of_applies applies
    obtain rfl : k = k' := Option.some.inj (slot.symm.trans slot')
    rcases better with rfl | less
    · exact le_rfl
    · exact less.le
  · intro best
    obtain ⟨k', slot, hit, better⟩ := find_of_applies best.1
    have same : k = k' := by
      rcases better with same | less
      · exact same
      · exact absurd (best.2 k' (applies_iff.mpr hit)) (not_le.mpr less)
    exact found.mpr ⟨same ▸ slot, best.1.1⟩

theorem selected_eq_none_iff : selected w = none ↔ ∀ k, ¬ (instructions.get k).Applies w := by
  constructor
  · intro nothing k applies
    obtain ⟨k', slot, hit, _⟩ := find_of_applies applies
    have chosen : selected w = some k' := by
      rw [selected, slot]
      exact if_pos (decide_eq_true hit)
    rw [chosen] at nothing
    cases nothing
  · intro none
    cases chosen : selected w with
    | none => rfl
    | some k => exact absurd (selected_eq_some_iff.mp chosen).1 (none k)

theorem decodeInstSlow_inst (smcEpoch : Nat) (cache : DecodeCache) (pc : Word) (w : Inst) :
    (decodeInstSlow smcEpoch cache pc w).1.inst = (selected w).map (·.val) := by
  rw [selected]
  cases found : luts.find w with
  | none => simp [decodeInstSlow, found]
  | some k =>
    by_cases hit : (instructions.get k).Matches w <;> rw [List.get_eq_getElem] at hit <;>
      simp [decodeInstSlow, found, hit, Option.filter]

/-- The slow path of the decoder is pattern matching over the whole table: it selects the
matching instruction with the most fixed bits, reports an illegal one only if nothing
matches, and never has to choose between equals. A winner of a slot that fails
outside the hash does not hide a weaker match. -/
theorem decodeInstSlow_eq_match (smcEpoch : Nat) (cache : DecodeCache) (pc : Word) (w : Inst) :
    (∀ k : Fin instructions.length,
      (decodeInstSlow smcEpoch cache pc w).1.inst = some k.val ↔
        (instructions.get k).Applies w ∧ ∀ j, (instructions.get j).Applies w →
          (instructions.get j).fixedBits ≤ (instructions.get k).fixedBits) ∧
    ((decodeInstSlow smcEpoch cache pc w).1.inst = none ↔ ∀ k, ¬ (instructions.get k).Applies w) ∧
    (∀ j k, j ≠ k → (instructions.get j).Applies w → (instructions.get k).Applies w →
      (instructions.get j).fixedBits ≠ (instructions.get k).fixedBits) ∧
    ∀ j k, luts.find w = some k → ¬ (instructions.get k).Matches w → (instructions.get j).Applies w →
      (∀ i, (instructions.get i).Applies w → (instructions.get i).fixedBits ≤ (instructions.get j).fixedBits) →
      (decodeInstSlow smcEpoch cache pc w).1.inst = some j.val := by
  have chosen : ∀ k : Fin instructions.length,
      (decodeInstSlow smcEpoch cache pc w).1.inst = some k.val ↔ Best w k := by
    intro k
    rw [decodeInstSlow_inst, ← selected_eq_some_iff]
    simp [Option.map_eq_some_iff, Fin.val_inj]
  refine ⟨chosen, ?_, fun j k => fixedBits_ne, fun j k _ _ applies best => (chosen j).mpr ⟨applies, best⟩⟩
  rw [decodeInstSlow_inst, Option.map_eq_none_iff]
  exact selected_eq_none_iff

end Registered

end Rv64Vm
