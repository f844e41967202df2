import Rv64Vm.Isa.DecoderCorrect

/-! # Which instruction a word is

Few registered encodings overlap: four compressed ones have a more specific
neighbour. A word that matches an encoding and none of its neighbours is that
instruction for the decoder.
-/

namespace Rv64Vm

open Lib

variable {a b i : Instruction} {chars : List Char} {w : Inst} {func : Handler} {immDecode : Option (Inst → Word)}
  {f : Fields}

/-- The two share a word. -/
def overlapB (p q : Fields) : Bool := Nat.beq (Nat.land p.2.1 q.2.2) (Nat.land q.2.1 p.2.2)

/-- Mask and value of the more specific neighbours: `C.NOP` of `C.ADDI`, `C.JR` of `C.MV`,
    `C.EBREAK` of `C.JALR`, and both of `C.ADD`. -/
def neighbours (p : Fields) : List (Nat × Nat) :=
  bif Nat.beq p.2.1 0xE003 && Nat.beq p.2.2 0x0001 then [(0xFFFF, 0x0001)]
  else bif Nat.beq p.2.1 0xF003 && Nat.beq p.2.2 0x8002 then [(0xF07F, 0x8002)]
  else bif Nat.beq p.2.1 0xF07F && Nat.beq p.2.2 0x9002 then [(0xFFFF, 0x9002)]
  else bif Nat.beq p.2.1 0xF003 && Nat.beq p.2.2 0x9002 then [(0xFFFF, 0x9002), (0xF07F, 0x9002)]
  else []

def neighboursB : List Fields → Bool
  | [] => true
  | p :: ps =>
    ps.all (fun q => bif overlapB p q then (neighbours p).contains q.2 || (neighbours q).contains p.2 else true) &&
      neighboursB ps

theorem instructions_neighbours : neighboursB (instructions.map (·.fields)) = true := by
  rw [fields_eq_spelling]
  decide +kernel

theorem pairwise_neighbours {ps : List Fields} (checked : neighboursB ps = true) :
    ps.Pairwise fun p q => overlapB p q = true → q.2 ∈ neighbours p ∨ p.2 ∈ neighbours q := by
  induction ps with
  | nil => exact .nil
  | cons p ps ih =>
    simp only [neighboursB, Bool.and_eq_true, List.all_eq_true] at checked
    refine .cons (fun q mem overlap => ?_) (ih checked.2)
    have entry := checked.1 q mem
    rw [overlap, cond_true, Bool.or_eq_true] at entry
    exact entry.imp List.contains_iff_mem.mp List.contains_iff_mem.mp

section Selection

variable {w : Inst} {j k : Fin instructions.length}

theorem overlapB_comm (p q : Fields) : overlapB p q = overlapB q p := by
  rw [Bool.eq_iff_iff, overlapB, overlapB, Nat.beq_eq, Nat.beq_eq]
  exact eq_comm

theorem mem_neighbours (differ : j ≠ k)
    (overlap : overlapB (instructions.get j).fields (instructions.get k).fields = true) :
    (instructions.get k).fields.2 ∈ neighbours (instructions.get j).fields ∨
      (instructions.get j).fields.2 ∈ neighbours (instructions.get k).fields := by
  have pairs := pairwise_neighbours instructions_neighbours
  rw [List.pairwise_map, List.pairwise_iff_getElem] at pairs
  rcases Nat.lt_or_gt_of_ne (Fin.val_ne_of_ne differ) with before | after
  · exact pairs j k j.isLt k.isLt before overlap
  · exact (pairs k j k.isLt j.isLt after (overlapB_comm _ _ ▸ overlap)).symm

theorem popcount_neighbours {p : Fields} {q : Nat × Nat} (mem : q ∈ neighbours p) :
    popcount 32 p.2.1 ≤ popcount 32 q.1 := by
  unfold neighbours at mem
  simp only [cond_eq_ite, Bool.and_eq_true, Nat.beq_eq] at mem
  split_ifs at mem with addi mv jalr add
  · rw [addi.1, List.mem_singleton.mp mem]
    decide
  · rw [mv.1, List.mem_singleton.mp mem]
    decide
  · rw [jalr.1, List.mem_singleton.mp mem]
    decide
  · rw [add.1]
    simp only [List.mem_cons, List.not_mem_nil, or_false] at mem
    rcases mem with rfl | rfl <;> decide
  · exact absurd mem List.not_mem_nil

theorem fixedBits_le_of_neighbour (more : b.fields.2 ∈ neighbours a.fields) : a.fixedBits ≤ b.fixedBits := by
  have bits (i : Instruction) : i.fixedBits = popcount 32 i.fields.2.1 := rfl
  rw [bits, bits]
  exact popcount_neighbours more

theorem Instruction.Matches.fields (hit : a.Matches w) :
    w.toNat &&& a.fields.2.1 = a.fields.2.2 := Instruction.matches_code.mpr hit

theorem overlapB_of_matches (left : a.Matches w) (right : b.Matches w) : overlapB a.fields b.fields = true :=
  Nat.beq_eq.mpr ((Instruction.matches_code.mpr left).agree (Instruction.matches_code.mpr right))

/-- A word that matches an encoding and none of its neighbours is decoded to it. -/
theorem best_of_matches {ins : Instruction} (mem : ins ∈ instructions) (hit : ins.Matches w)
    (alone : ∀ q ∈ neighbours ins.fields, w.toNat &&& q.1 ≠ q.2) :
    ∃ k, instructions.get k = ins ∧ Best w k := by
  obtain ⟨k, rfl⟩ := List.mem_iff_get.mp mem
  refine ⟨k, rfl, applies_iff.mpr hit, fun j applies => ?_⟩
  by_cases same : j = k
  · rw [same]
  · rcases mem_neighbours same (overlapB_of_matches applies.1 hit) with more | less
    · exact fixedBits_le_of_neighbour more
    · exact absurd applies.1.fields (alone _ less)

end Selection

/-! ## Registered handlers -/

/-- The table has an instruction with these fields. -/
def Registered (func : Handler) (immDecode : Option (Inst → Word)) (f : Fields) : Prop :=
  ∃ ins ∈ instructions, ins.func = func ∧ ins.immDecode = immDecode ∧ ins.fields = f

theorem fields_eq_fieldsOf (pattern : i.pattern = String.ofList chars) : i.fields = fieldsOf chars := by
  have characters : i.pattern.toList = chars := by rw [pattern, String.toList_ofList]
  rw [← characters]
  rfl

/-- The instruction that a word decodes to, with its operands. -/
def decoded (w : Inst) (k : Fin instructions.length) : InstructionData := .ofInst w (instructions.get k).immDecode

/-- What executing a word does: its handler, or the exception of a word that has none. -/
def execWord (bus : Bus) (c : Core) (w : Inst) : Except HostError Executed :=
  match selected w with
  | some k => (instructions.get k).func bus c (.ofInst w (instructions.get k).immDecode)
  | none => .ok ⟨⟨false, false, 0, excIllegalInstruction, w.setWidth 64⟩, c⟩

theorem execWord_of_best {bus : Bus} {c : Core} {k : Fin instructions.length} (best : Best w k) :
    execWord bus c w = (instructions.get k).func bus c (.ofInst w (instructions.get k).immDecode) := by
  rw [execWord, selected_eq_some_iff.mpr best]

theorem Registered.best (registered : Registered func immDecode f) (hit : w.toNat &&& f.2.1 = f.2.2)
    (alone : ∀ q ∈ neighbours f, w.toNat &&& q.1 ≠ q.2) :
    ∃ k, (instructions.get k).func = func ∧ (instructions.get k).immDecode = immDecode ∧ Best w k := by
  obtain ⟨ins, mem, rfl, rfl, rfl⟩ := registered
  obtain ⟨k, rfl, best⟩ := best_of_matches mem (Instruction.matches_code.mp hit) alone
  exact ⟨k, rfl, rfl, best⟩

theorem Registered.exec (registered : Registered func immDecode f) (hit : w.toNat &&& f.2.1 = f.2.2)
    (alone : ∀ q ∈ neighbours f, w.toNat &&& q.1 ≠ q.2) (bus : Bus) (c : Core) :
    execWord bus c w = func bus c (.ofInst w immDecode) := by
  obtain ⟨k, rfl, rfl, best⟩ := registered.best hit alone
  exact execWord_of_best best

/-- A long encoding is no one's neighbour. -/
theorem Registered.long {m v : Inst} (registered : Registered func immDecode (4, m.toNat, v.toNat)) (hit : w &&& m = v)
    (none : neighbours (4, m.toNat, v.toNat) = []) (bus : Bus) (c : Core) :
    execWord bus c w = func bus c (.ofInst w immDecode) := by
  apply registered.exec
  · rw [← BitVec.toNat_and, hit]
  · rw [none]
    nofun

theorem registered_at {table : List Instruction} (sub : ∀ i ∈ table, i ∈ instructions) (k : Fin table.length)
    (pattern : (table.get k).pattern = String.ofList chars) (fields : fieldsOf chars = f) :
    Registered (table.get k).func (table.get k).immDecode f :=
  ⟨table.get k, sub _ (List.get_mem ..), rfl, rfl, (fields_eq_fieldsOf pattern).trans fields⟩

-- rows are given by number
instance : NeZero initRv64i.length := ⟨by decide⟩
instance : NeZero initRv64d.length := ⟨by decide⟩
instance : NeZero initRv64c.length := ⟨by decide⟩
instance : NeZero initPriv.length := ⟨by decide⟩
instance : NeZero initZicsr.length := ⟨by decide⟩
instance : NeZero initZba.length := ⟨by decide⟩
instance : NeZero initZbb.length := ⟨by decide⟩
instance : NeZero initZbs.length := ⟨by decide⟩

theorem mem_instructions : i ∈ instructions ↔
    i ∈ initRv64i ∨ i ∈ initRv64m ∨ i ∈ initRv64a ∨ i ∈ initRv64f ∨ i ∈ initRv64d ∨ i ∈ initRv64c ∨ i ∈ initPriv ∨
      i ∈ initZicsr ∨ i ∈ initZifencei ∨ i ∈ initZba ∨ i ∈ initZbb ∨ i ∈ initZbc ∨ i ∈ initZbs ∨ i ∈ initZicboz := by
  simp only [instructions, List.mem_append, or_assoc]

theorem mem_rv64i (i) (mem : i ∈ initRv64i) : i ∈ instructions := by simp only [mem_instructions, mem, true_or]
theorem mem_rv64d (i) (mem : i ∈ initRv64d) : i ∈ instructions := by simp only [mem_instructions, mem, true_or, or_true]
theorem mem_rv64c (i) (mem : i ∈ initRv64c) : i ∈ instructions := by simp only [mem_instructions, mem, true_or, or_true]
theorem mem_priv (i) (mem : i ∈ initPriv) : i ∈ instructions := by simp only [mem_instructions, mem, true_or, or_true]
theorem mem_zicsr (i) (mem : i ∈ initZicsr) : i ∈ instructions := by simp only [mem_instructions, mem, true_or, or_true]
theorem mem_zba (i) (mem : i ∈ initZba) : i ∈ instructions := by simp only [mem_instructions, mem, true_or, or_true]
theorem mem_zbb (i) (mem : i ∈ initZbb) : i ∈ instructions := by simp only [mem_instructions, mem, true_or, or_true]
theorem mem_zbs (i) (mem : i ∈ initZbs) : i ∈ instructions := by simp only [mem_instructions, mem, true_or, or_true]

end Rv64Vm
