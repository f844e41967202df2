import Rv64Vm.Isa.Table
import Rv64Vm.Lib.Patterns

/-! # The registered encodings

Every encoding is a bit pattern. The numbers of all of them are computed from their
spellings and checked together: the two low bits tell the sizes apart, and two
patterns that meet under the hash mask of the decoder differ in specificity, with
nothing of the more specific one left to the bits that only it looks at.
-/

namespace Rv64Vm

open Lib

namespace Instruction

/-- `patternBits` from the bits read so far. -/
def readBits (p : Char → Bool) (chars : List Char) (bits : Inst) : Inst :=
  chars.foldl (fun bits ch => (bits <<< 1) ||| (if p ch then 1 else 0)) bits

theorem readBits_and {p q : Char → Bool} (weaker : ∀ ch, p ch = true → q ch = true) (chars : List Char)
    {a b : Inst} (inside : a &&& b = a) :
    readBits p chars a &&& readBits q chars b = readBits p chars a := by
  induction chars generalizing a b with
  | nil => exact inside
  | cons ch chars ih =>
    have digit : (if p ch then (1 : Inst) else 0) &&& (if q ch then 1 else 0) = if p ch then 1 else 0 := by
      cases hp : p ch with
      | false => simp
      | true => simp [weaker ch hp]
    apply ih
    apply BitVec.eq_of_getLsbD_eq
    intro j _
    have accumulated := congrArg (BitVec.getLsbD · (j - 1)) inside
    have lowest := congrArg (BitVec.getLsbD · j) digit
    simp only [BitVec.getLsbD_and, BitVec.getLsbD_or, BitVec.getLsbD_shiftLeft] at accumulated lowest ⊢
    rw [Bool.and_eq_left_iff_imp] at accumulated lowest ⊢
    simp only [Bool.or_eq_true, Bool.and_eq_true]
    exact Or.imp (fun high => ⟨high.1, accumulated high.2⟩) lowest

theorem matchBits_and_mask (i : Instruction) : i.matchBits &&& i.mask = i.matchBits :=
  readBits_and (fun ch => by simp +contextual) i.pattern.toList BitVec.and_self

/-- The encoding as a general pattern. -/
def code (i : Instruction) : Pattern where
  mask := i.mask.toNat
  value := i.matchBits.toNat
  value_and_mask := by rw [← BitVec.toNat_and, matchBits_and_mask]

theorem matches_code {i : Instruction} {w : Inst} : i.code.Matches w.toNat ↔ i.Matches w := by
  rw [Pattern.Matches, Matches, ← BitVec.toNat_inj, BitVec.toNat_and]
  rfl

end Instruction

/-! ## The check of the table -/

/-- Size, mask and value. -/
abbrev Fields := Nat × Nat × Nat

def Instruction.fields (i : Instruction) : Fields := (i.size, i.code.mask, i.code.value)

def fieldsOf (chars : List Char) : Fields :=
  (chars.length / 8, (Instruction.readBits (fun ch => ch = '0' ∨ ch = '1') chars 0).toNat,
    (Instruction.readBits (· = '1') chars 0).toNat)

inductive Spelled : List Instruction → List (List Char) → Prop
  | nil : Spelled [] []
  | cons {i is chars rest} : i.pattern = String.ofList chars → Spelled is rest →
      Spelled (i :: is) (chars :: rest)

theorem Spelled.append {is js ls ms} (left : Spelled is ls) (right : Spelled js ms) :
    Spelled (is ++ js) (ls ++ ms) := by
  induction left with
  | nil => exact right
  | cons spelled _ ih => exact .cons spelled ih

theorem Spelled.fields_eq {is ls} (spelled : Spelled is ls) : is.map (·.fields) = ls.map fieldsOf := by
  induction spelled with
  | nil => rfl
  | @cons i _ chars _ pattern _ ih =>
    have characters : i.pattern.toList = chars := by rw [pattern, String.toList_ofList]
    have same : i.fields = fieldsOf chars := by rw [← characters]; rfl
    rw [List.map_cons, List.map_cons, ih, same]

/-- The patterns as the checks of the table read them. -/
def spelling : { ls // Spelled instructions ls } := by
  apply Subtype.mk
  unfold instructions
  iterate 13 apply Spelled.append
  all_goals repeat (first | exact Spelled.nil | apply Spelled.cons rfl)

theorem fields_eq_spelling : instructions.map (·.fields) = spelling.1.map fieldsOf := spelling.2.fields_eq

def hashOf (size : Nat) : Nat := bif Nat.beq size 2 then 0xFFFF else 0xFFF0707F

def yieldsB (h : Nat) (p q : Fields) : Bool :=
  Nat.blt (popcount 32 p.2.1) (popcount 32 q.2.1) && Nat.beq (Nat.land q.2.1 (Nat.lor h p.2.1)) q.2.1 &&
    Nat.beq (Nat.land p.2.1 q.2.2) (Nat.land q.2.1 p.2.2)

def separatedB (h : Nat) (p q : Fields) : Bool :=
  bif Nat.beq (Nat.land (Nat.land p.2.1 q.2.2) h) (Nat.land (Nat.land q.2.1 p.2.2) h) then
    yieldsB h p q || yieldsB h q p
  else true

/-- Two low bits tell the sizes apart, and a short pattern is within its hash. -/
def lowBitsB (p : Fields) : Bool :=
  Nat.beq (Nat.land p.2.1 3) 3 &&
    bif Nat.beq p.1 2 then Nat.beq (Nat.land p.2.1 0xFFFF) p.2.1 && !Nat.beq (Nat.land p.2.2 3) 3
    else Nat.beq (Nat.land p.2.2 3) 3

def wellFormedB : List Fields → Bool
  | [] => true
  | p :: ps => lowBitsB p && ps.all (separatedB (hashOf p.1) p) && wellFormedB ps

theorem instructions_wellFormed : wellFormedB (instructions.map (·.fields)) = true := by
  rw [fields_eq_spelling]
  decide +kernel

theorem lowBits_of_wellFormed {ps : List Fields} (checked : wellFormedB ps = true) : ∀ p ∈ ps, lowBitsB p = true := by
  induction ps with
  | nil => exact fun _ no => absurd no List.not_mem_nil
  | cons p ps ih =>
    simp only [wellFormedB, Bool.and_eq_true] at checked
    rintro q (_ | later)
    · exact checked.1.1
    · exact ih checked.2 q ‹_›

theorem pairwise_of_wellFormed {ps : List Fields} (checked : wellFormedB ps = true) :
    ps.Pairwise fun p q => separatedB (hashOf p.1) p q = true := by
  induction ps with
  | nil => exact .nil
  | cons p ps ih =>
    simp only [wellFormedB, Bool.and_eq_true, List.all_eq_true] at checked
    exact .cons checked.1.2 (ih checked.2)

theorem yields_of_yieldsB {h : Nat} {i j : Instruction} (checked : yieldsB h i.fields j.fields = true) :
    i.code.Yields 32 h j.code := by
  simp only [yieldsB, Bool.and_eq_true, Nat.beq_eq] at checked
  obtain ⟨⟨less, hidden⟩, agree⟩ := checked
  exact ⟨Nat.le_of_ble_eq_true less, hidden, agree⟩

theorem separated_of_separatedB {h : Nat} {i j : Instruction}
    (checked : separatedB h i.fields j.fields = true) : i.code.Separated 32 h j.code := by
  intro clash
  have visible : Nat.beq (Nat.land (Nat.land i.code.mask j.code.value) h)
      (Nat.land (Nat.land j.code.mask i.code.value) h) = true := Nat.beq_eq.mpr clash
  have which : (yieldsB h i.fields j.fields || yieldsB h j.fields i.fields) = true := by
    rw [separatedB] at checked
    simpa only [Instruction.fields, visible, cond_true] using checked
  exact (Bool.or_eq_true _ _ ▸ which).imp yields_of_yieldsB yields_of_yieldsB

/-! ## What the check says of the table -/

/-- The hash mask of the lookup table that an instruction is entered in. -/
def Instruction.hash (i : Instruction) : Nat := hashOf i.size

theorem Instruction.hash_short {i : Instruction} (short : i.size = 2) : i.hash = 0xFFFF := by
  rw [hash, hashOf, Nat.beq_eq.mpr short, cond_true]

theorem Instruction.hash_long {i : Instruction} (long : i.size ≠ 2) : i.hash = 0xFFF0707F := by
  rw [hash, hashOf, Bool.eq_false_iff.mpr fun same => long (Nat.beq_eq.mp same), cond_false]

section Registered

variable {j k : Fin instructions.length}

theorem lowBits_registered (k : Fin instructions.length) : lowBitsB (instructions.get k).fields = true :=
  lowBits_of_wellFormed instructions_wellFormed _ (List.mem_map_of_mem (List.get_mem ..))

theorem mask_low (k : Fin instructions.length) : (instructions.get k).code.mask &&& 3 = 3 := by
  have checked := lowBits_registered k
  simp only [lowBitsB, Bool.and_eq_true, Nat.beq_eq] at checked
  exact checked.1

/-- A short pattern is within its hash, and only long ones have both low bits set. -/
theorem value_low (k : Fin instructions.length) :
    if (instructions.get k).size = 2 then
      (instructions.get k).code.mask &&& 0xFFFF = (instructions.get k).code.mask ∧
        (instructions.get k).code.value &&& 3 ≠ 3
    else (instructions.get k).code.value &&& 3 = 3 := by
  have checked := lowBits_registered k
  rw [lowBitsB, Bool.and_eq_true] at checked
  by_cases short : (instructions.get k).size = 2
  · have tested : Nat.beq (instructions.get k).fields.1 2 = true := Nat.beq_eq.mpr short
    rw [tested, cond_true, Bool.and_eq_true, Bool.not_eq_true', ← Bool.not_eq_true] at checked
    rw [if_pos short]
    exact ⟨Nat.beq_eq.mp checked.2.1, fun set => checked.2.2 (Nat.beq_eq.mpr set)⟩
  · have tested : Nat.beq (instructions.get k).fields.1 2 = false :=
      Bool.eq_false_iff.mpr fun same => short (Nat.beq_eq.mp same)
    rw [tested, cond_false] at checked
    rw [if_neg short]
    exact Nat.beq_eq.mp checked.2

theorem separated_of_lt (lt : j < k) :
    (instructions.get j).code.Separated 32 (instructions.get j).hash (instructions.get k).code := by
  have pairs := pairwise_of_wellFormed instructions_wellFormed
  rw [List.pairwise_map, List.pairwise_iff_getElem] at pairs
  exact separated_of_separatedB (pairs j k j.isLt k.isLt lt)

theorem separated_registered (differ : j ≠ k)
    (same : (instructions.get j).size = 2 ↔ (instructions.get k).size = 2) :
    (instructions.get j).code.Separated 32 (instructions.get j).hash (instructions.get k).code := by
  rcases Nat.lt_or_gt_of_ne (Fin.val_ne_of_ne differ) with before | after
  · exact separated_of_lt before
  · have hashes : (instructions.get j).hash = (instructions.get k).hash := by
      by_cases short : (instructions.get j).size = 2
      · rw [Instruction.hash_short short, Instruction.hash_short (same.mp short)]
      · rw [Instruction.hash_long short, Instruction.hash_long (short ∘ same.mpr)]
    intro clash
    rw [hashes] at clash ⊢
    exact (separated_of_lt after clash.symm).symm

end Registered

end Rv64Vm
