import Rv64Vm.Isa.Formats
import Rv64Vm.Isa.Selection

/-! # Encodings of the manual

The manual names an instruction by its major opcode and the function fields beside it.
Where the table holds such an encoding, its handler is what a word of the encoding runs.
-/

namespace Rv64Vm

/-- The bits of a word that name an instruction. -/
structure Encoding where
  mask : Inst
  value : Inst
  deriving DecidableEq, Repr

namespace Encoding

def Is (e : Encoding) (w : Inst) : Prop := w &&& e.mask = e.value

instance (e : Encoding) (w : Inst) : Decidable (e.Is w) := inferInstanceAs (Decidable (_ = _))

section Fields

variable (op : BitVec 7) (f3 : BitVec 3)

def major : Encoding := ⟨0x7F, 0#25 ++ op⟩
def minor : Encoding := ⟨0x707F, 0#17 ++ f3 ++ 0#5 ++ op⟩
def withFunct6 (f6 : BitVec 6) : Encoding := ⟨0xFC00707F, f6 ++ 0#11 ++ f3 ++ 0#5 ++ op⟩
def withFunct7 (f7 : BitVec 7) : Encoding := ⟨0xFE00707F, f7 ++ 0#10 ++ f3 ++ 0#5 ++ op⟩
def withFunct12 (f12 : BitVec 12) : Encoding := ⟨0xFFF0707F, f12 ++ 0#5 ++ f3 ++ 0#5 ++ op⟩

end Fields

def fields (e : Encoding) : Fields := (4, e.mask.toNat, e.value.toNat)

/-- The table holds the encoding, and no word of it is a more specific instruction. -/
structure Held (e : Encoding) (func : Handler) (immDecode : Option (Inst → Word)) : Prop where
  registered : Registered func immDecode e.fields
  alone : neighbours e.fields = []

theorem held_at {e : Encoding} {table : List Instruction} (sub : ∀ i ∈ table, i ∈ instructions)
    (k : Fin table.length) {chars : List Char} (pattern : (table.get k).pattern = String.ofList chars)
    (fields : fieldsOf chars = e.fields := by decide +kernel)
    (alone : neighbours e.fields = [] := by decide +kernel) :
    e.Held (table.get k).func (table.get k).immDecode :=
  ⟨registered_at sub k pattern fields, alone⟩

section Held

variable {e : Encoding} {func : Handler} {immDecode : Option (Inst → Word)} {w : Inst}

theorem Is.fields (is : e.Is w) : w.toNat &&& e.fields.2.1 = e.fields.2.2 := by
  rw [Encoding.fields, ← BitVec.toNat_and]
  exact congrArg BitVec.toNat is

theorem Held.exec (held : e.Held func immDecode) (is : e.Is w) (bus : Bus) (c : Core) :
    execWord bus c w = func bus c (.ofInst w immDecode) :=
  held.registered.long is held.alone bus c

/-- The decoder chooses the row with the encoding's bits. -/
theorem Is.selected (is : e.Is w) {ins : Instruction} (mem : ins ∈ instructions) (fields : ins.fields = e.fields)
    (alone : neighbours e.fields = []) : ∃ k, Rv64Vm.selected w = some k ∧ instructions.get k = ins := by
  have hit : ins.Matches w := by
    apply Instruction.matches_code.mp
    change w.toNat &&& ins.fields.2.1 = ins.fields.2.2
    rw [fields]
    exact is.fields
  have none : ∀ q ∈ neighbours ins.fields, w.toNat &&& q.1 ≠ q.2 := by
    rw [fields, alone]
    intro q mem
    exact absurd mem List.not_mem_nil
  obtain ⟨k, same, best⟩ := best_of_matches mem hit none
  exact ⟨k, selected_eq_some_iff.mpr best, same⟩

theorem Held.decoded (held : e.Held func immDecode) (is : e.Is w) :
    ∃ k, Rv64Vm.selected w = some k ∧ decoded w k = .ofInst w immDecode := by
  obtain ⟨ins, mem, -, rfl, fields⟩ := held.registered
  obtain ⟨k, chosen, rfl⟩ := is.selected mem fields held.alone
  exact ⟨k, chosen, rfl⟩

/-- The decoder finds nothing for an encoding apart from all of the table. -/
theorem Is.unknown (is : e.Is w) (apart : ∀ f ∈ instructions.map (·.fields), overlapB f e.fields = false) :
    Rv64Vm.selected w = none := by
  rw [selected_eq_none_iff]
  intro k applies
  have clear := apart _ (List.mem_map_of_mem (List.get_mem instructions k))
  have agree : w.toNat &&& (instructions.get k).fields.2.1 &&& e.fields.2.1 =
      w.toNat &&& e.fields.2.1 &&& (instructions.get k).fields.2.1 := by
    rw [Nat.and_assoc, Nat.and_comm _ e.fields.2.1, ← Nat.and_assoc]
  rw [applies.1.fields, is.fields, Nat.and_comm, Nat.and_comm e.fields.2.2] at agree
  have shared : overlapB (instructions.get k).fields e.fields = true := Nat.beq_eq.mpr agree.symm
  rw [shared] at clear
  cases clear

end Held

end Encoding

/-! ## Operands -/

def opImm : BitVec 7 := 0b0010011
def opImm32 : BitVec 7 := 0b0011011
def opReg : BitVec 7 := 0b0110011
def opReg32 : BitVec 7 := 0b0111011

/-- The low six bits of a register. -/
def shiftAmount (b : Word) : Nat := (b.extractLsb' 0 6).toNat

/-- The low five bits of a register. -/
def shiftAmountW (b : Word) : Nat := (b.extractLsb' 0 5).toNat

theorem extract_low (a : Word) : a.extractLsb' 0 32 = low a := rfl

theorem toNat_and_63 (b : Word) : (b &&& 0x3F).toNat = b.toNat % 64 := by
  rw [BitVec.toNat_and]
  exact Nat.and_two_pow_sub_one_eq_mod b.toNat 6

theorem toNat_and_31 (b : Word) : (b &&& 0x1F).toNat = b.toNat % 32 := by
  rw [BitVec.toNat_and]
  exact Nat.and_two_pow_sub_one_eq_mod b.toNat 5

theorem shiftAmount_eq (b : Word) : (b &&& 0x3F).toNat = shiftAmount b := by
  rw [toNat_and_63, shiftAmount, BitVec.extractLsb'_toNat, Nat.shiftRight_zero]

theorem shiftAmountW_eq (b : Word) : (b &&& 0x1F).toNat = shiftAmountW b := by
  rw [toNat_and_31, shiftAmountW, BitVec.extractLsb'_toNat, Nat.shiftRight_zero]

theorem shiftAmount_lt (b : Word) : shiftAmount b < 64 := (b.extractLsb' 0 6).isLt
theorem shiftAmountW_lt (b : Word) : shiftAmountW b < 32 := (b.extractLsb' 0 5).isLt

/-! ## Writing a register -/

/-- The word's handler succeeds, writes `v` to the destination register and changes nothing else. -/
def Writes (bus : Bus) (c : Core) (w : Inst) (v : Word) : Prop := execWord bus c w = .ok ⟨{}, c.setGpr (dRd w) v⟩

theorem written_congr {c : Core} {rd : BitVec 5} {v v' : Word} (same : v = v') :
    (.ok ⟨{}, c.setGpr rd v⟩ : Except HostError Executed) = .ok ⟨{}, c.setGpr rd v'⟩ := by
  rw [same]

theorem Core.setGpr_inj {c : Core} {r : BitVec 5} {v v' : Word} (same : c.setGpr r v = c.setGpr r v') : v = v' := by
  have at_r : (c.setGpr r v).gpr r = (c.setGpr r v').gpr r := by rw [same]
  simpa [Core.gpr, Core.setGpr, Core.mapHart] using at_r

theorem writes_iff {bus : Bus} {c : Core} {w : Inst} {v v' : Word} (written : Writes bus c w v) :
    Writes bus c w v' ↔ v = v' := by
  constructor
  · intro other
    have same := written.symm.trans other
    exact Core.setGpr_inj (congrArg Executed.core (Except.ok.inj same))
  · intro same
    rw [← same]
    exact written

end Rv64Vm
