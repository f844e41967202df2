import Rv64Vm.Exec.Blocks
import Rv64Vm.Exec.Fetch
import Rv64Vm.Exec.Handlers

/-! # Blocks are straight lines

`is_block_end` knows the instructions by their opcodes alone. Every handler of a word that it
lets through is one that steps: the jumps and all handlers that know of privilege have words that
end a block. So `run_block` and `compile_block` step alike.
-/

namespace Rv64Vm

open Lib

variable {w : Inst} {k : Fin instructions.length} {c c' : Core} {bus : Bus} {i : BlockInstr} {va : Word}
  {instrs rest : List BlockInstr}

/-! ## The table by opcode -/

section Opcodes

variable {ins : Instruction} {w : Inst} {is : List Instruction} {m v : Nat}

/-- A check of the spelling is one of the table. -/
theorem fields_of_spelled {p : Fields → Bool}
    (spelled : ∃ ls, Spelled is ls ∧ ls.all (fun chars => p (fieldsOf chars)) = true) :
    ∀ ins ∈ is, p ins.fields = true := by
  obtain ⟨ls, spelled, checked⟩ := spelled
  intro ins registered
  have mapped : ins.fields ∈ ls.map fieldsOf := spelled.fields_eq ▸ List.mem_map_of_mem registered
  obtain ⟨chars, listed, same⟩ := List.mem_map.mp mapped
  rw [← same]
  exact List.all_eq_true.mp checked chars listed

theorem size_short : ∀ ins ∈ initRv64c, Nat.beq ins.fields.1 2 = true := by
  apply fields_of_spelled (p := fun f => Nat.beq f.1 2)
  apply Exists.intro
  apply And.intro
  case left =>
    unfold initRv64c
    repeat (first | exact Spelled.nil | apply Spelled.cons rfl)
  case right => decide +kernel

theorem size_long : ∀ ins ∈ longTables, Nat.beq ins.fields.1 4 = true := by
  apply fields_of_spelled (p := fun f => Nat.beq f.1 4)
  apply Exists.intro
  apply And.intro
  case left =>
    unfold longTables
    iterate 10 apply Spelled.append
    all_goals repeat (first | exact Spelled.nil | apply Spelled.cons rfl)
  case right => decide +kernel

/-- All that knows of privilege has the opcode SYSTEM. -/
theorem system_privileged : ∀ ins ∈ initPriv ++ initZicsr, fixesB 0x7F 0x73 ins.fields = true := by
  apply fields_of_spelled
  apply Exists.intro
  apply And.intro
  case left =>
    apply Spelled.append
    all_goals repeat (first | exact Spelled.nil | apply Spelled.cons rfl)
  case right => decide +kernel

theorem word_of_fixesB (hit : ins.Matches w) (checked : fixesB m v ins.fields = true) : w.toNat &&& m = v := by
  simp only [fixesB, Bool.and_eq_true, Nat.beq_eq] at checked
  have matched : w.toNat &&& ins.code.mask = ins.code.value := Instruction.matches_code.mpr hit
  have fixed : ins.code.mask &&& m = m := checked.1
  calc w.toNat &&& m
      = w.toNat &&& (ins.code.mask &&& m) := by rw [fixed]
    _ = w.toNat &&& ins.code.mask &&& m := (Nat.and_assoc ..).symm
    _ = ins.code.value &&& m := by rw [matched]
    _ = v := checked.2

theorem and_eq_of_toNat {m v : Inst} (same : w.toNat &&& m.toNat = v.toNat) : w &&& m = v := by
  apply BitVec.eq_of_toNat_eq
  rw [BitVec.toNat_and, same]

theorem and_of_and {n m v : Inst} (word : w &&& m = v) (sub : m &&& n = n) : w &&& n = v &&& n := by
  rw [← word, BitVec.and_assoc, sub]

/-- Opcodes that end a block whatever the rest of the word is. -/
theorem isBlockEnd_of_opcode {opcode : Inst} (listed : opcode ∈ [0x63, 0x6F, 0x67, 0x73, 0x0F])
    (word : w &&& 0x7F = opcode) : isBlockEnd w = true := by
  rw [isBlockEnd, if_pos]
  simp only [List.mem_cons, List.not_mem_nil, or_false] at listed
  rcases listed with rfl | rfl | rfl | rfl | rfl
  all_goals
    rw [word]
    rfl

/-- `C.J`, `C.BEQZ` and `C.BNEZ`. -/
theorem isBlockEnd_of_quadrant {f3 : Inst} (listed : f3 ∈ [5, 6, 7]) (low : w &&& 3 = 1)
    (funct : (w >>> 13) &&& 7 = f3) : isBlockEnd w = true := by
  have compressed : w &&& 3 ≠ 3 := by
    rw [low]
    decide
  rw [isBlockEnd, if_pos compressed, if_pos low, funct, ite_eq_left_iff]
  intro _
  simp only [List.mem_cons, List.not_mem_nil, or_false] at listed
  rcases listed with rfl | rfl | rfl
  all_goals rfl

/-- `C.JR`, `C.JALR` and `C.EBREAK`. -/
theorem isBlockEnd_of_register (word : w &&& 0xE07F = 0x8002) : isBlockEnd w = true := by
  have opcode : w &&& 0x7F = 0x02 := and_of_and word (by decide)
  have rest : w &&& 0xE003 = 0x8002 := and_of_and word (by decide)
  have low : w &&& 3 = 2 := and_of_and word (by decide)
  have compressed : w &&& 3 ≠ 3 := by
    rw [low]
    decide
  have other : ¬ w &&& 3 = 1 := by
    rw [low]
    decide
  rw [isBlockEnd, if_pos compressed, if_neg other, opcode, rest]
  rfl

theorem fields_of_funct {f : Inst} {v : Inst} (word : w &&& 0xE003 = v) (low : v &&& 3 = 1)
    (funct : (v >>> 13) &&& 7 = f) :
    w &&& 3 = 1 ∧ (w >>> 13) &&& 7 = f := by
  constructor
  · rw [and_of_and word (by decide), low]
  · have mask : ((0xE003 : Inst) >>> 13) &&& (7 : Inst) = 7 := by decide
    calc (w >>> 13) &&& (7 : Inst)
        = ((w >>> 13) &&& ((0xE003 : Inst) >>> 13)) &&& (7 : Inst) := by rw [BitVec.and_assoc, mask]
      _ = ((w &&& 0xE003) >>> 13) &&& (7 : Inst) := by rw [BitVec.ushiftRight_and_distrib]
      _ = f := by rw [word, funct]

theorem isBlockEnd_of_jump (hit : ins.Matches w) (jump : jumpB ins.fields = true) : isBlockEnd w = true := by
  simp only [jumpB, List.any_cons, List.any_nil, Bool.or_false, Bool.or_eq_true] at jump
  rcases jump with branch | jal | jalr | cj | cbeqz | cbnez | register
  · exact isBlockEnd_of_opcode (by decide) (and_eq_of_toNat (m := 0x7F#32) (v := 0x63#32) (word_of_fixesB hit branch))
  · exact isBlockEnd_of_opcode (by decide) (and_eq_of_toNat (m := 0x7F#32) (v := 0x6F#32) (word_of_fixesB hit jal))
  · exact isBlockEnd_of_opcode (by decide) (and_eq_of_toNat (m := 0x7F#32) (v := 0x67#32) (word_of_fixesB hit jalr))
  · have word : w &&& 0xE003 = 0xA001 := and_eq_of_toNat (word_of_fixesB hit cj)
    obtain ⟨low, funct⟩ := fields_of_funct word (f := 5) (by decide) (by decide)
    exact isBlockEnd_of_quadrant (by decide) low funct
  · have word : w &&& 0xE003 = 0xC001 := and_eq_of_toNat (word_of_fixesB hit cbeqz)
    obtain ⟨low, funct⟩ := fields_of_funct word (f := 6) (by decide) (by decide)
    exact isBlockEnd_of_quadrant (by decide) low funct
  · have word : w &&& 0xE003 = 0xE001 := and_eq_of_toNat (word_of_fixesB hit cbnez)
    obtain ⟨low, funct⟩ := fields_of_funct word (f := 7) (by decide) (by decide)
    exact isBlockEnd_of_quadrant (by decide) low funct
  · exact isBlockEnd_of_register (and_eq_of_toNat (word_of_fixesB hit register))

theorem isBlockEnd_of_privileged (hit : ins.Matches w) (privileged : ins ∈ initPriv ∨ ins ∈ initZicsr) :
    isBlockEnd w = true := by
  have system := system_privileged ins (List.mem_append.mpr privileged)
  exact isBlockEnd_of_opcode (by decide) (and_eq_of_toNat (m := 0x7F#32) (v := 0x73#32) (word_of_fixesB hit system))

end Opcodes

/-! ## One instruction -/

/-- `((inst & 0x3) == 0x3) ? 4 : 2` -/
def instLength (inst : Inst) : Word := if inst &&& 0x3 = 0x3 then 4 else 2

theorem Known.plain {ins : Instruction} {size : Word} (known : Known size ins) (hit : ins.Matches w)
    (inside : isBlockEnd w = false) : Plain size ins.func := by
  rcases known with plain | ⟨-, jump⟩
  · exact plain
  · exact absurd ((isBlockEnd_of_jump hit jump).symm.trans inside) Bool.false_ne_true.symm

/-- A word inside a block has a handler that steps by its length. -/
theorem plain_of_inside (best : Best w k) (inside : isBlockEnd w = false) :
    Plain (instLength w) (instructions.get k).func := by
  obtain ⟨hit, size⟩ := best.1
  rcases table_cases _ (List.get_mem instructions k) with long | short | privileged
  · have bytes : (instructions.get k).size = 4 := Nat.beq_eq.mp (size_long _ long)
    have low : w &&& 0x3 = 0x3 := by
      by_contra other
      have two := size.mpr other
      omega
    rw [instLength, if_pos low]
    exact (known_long _ long).plain hit inside
  · have low : w &&& 0x3 ≠ 0x3 := size.mp (Nat.beq_eq.mp (size_short _ short))
    rw [instLength, if_neg low]
    exact (known_rv64c _ short).plain hit inside
  · exact absurd ((isBlockEnd_of_privileged hit privileged).symm.trans inside) Bool.false_ne_true.symm

/-- What an instruction inside a block does not change. -/
structure SameContext (c c' : Core) : Prop where
  pc : c'.hart.pc = c.hart.pc
  mode : c'.hart.mode = c.hart.mode
  satp : c'.hart.satp = c.hart.satp
  wfi : c'.hart.wfi = c.hart.wfi
  status : c'.hart.status = c.hart.status
  csrs : c'.hart.csrs = c.hart.csrs
  generation : c'.hart.tlb.generation = c.hart.tlb.generation

theorem Straight.sameContext (straight : Straight c c') : SameContext c c' where
  pc := straight.pc
  mode := by rw [straight.hart]
  satp := by rw [straight.hart]
  wfi := by rw [straight.hart]
  status := by rw [straight.hart]
  csrs := by rw [straight.hart]
  generation := straight.generation

theorem steps_of_inside (best : Best w k) (inside : isBlockEnd w = false) {i : InstructionData} {e : Executed}
    (ok : (instructions.get k).func bus c i = .ok e)
    (success : e.ret.isSuccess = true) : SameContext c e.core ∧ e.ret.increasePc = instLength w := by
  cases plain_of_inside best inside ok with
  | retired frame _ step => exact ⟨frame.sameContext, step⟩
  | failed _ failure => exact absurd (failure.symm.trans success) Bool.false_ne_true
  | store _ _ same =>
    rw [same] at success
    cases success

/-! ## The block -/

/-- What `compile_block` keeps of a fetch. -/
def BlockInstr.ofFetched (f : Fetched) : BlockInstr :=
  ⟨f.cache.inst, f.cache.data, instLength f.cache.data.inst⟩

/-- The machine and the address of the fetch number `k` of the decode loop. -/
def fetchPoint (c : Core) (va : Word) : Nat → Option (Core × Word)
  | 0 => some (c, va)
  | k + 1 =>
    match fetchInstruction c va with
    | .ok f => fetchPoint f.core (va + instLength f.cache.data.inst) k
    | .error _ => none

/-- A list of instructions as the decode loop leaves it: each one fetched where the one before it
ends, and only the last one may end a block. -/
inductive Laid : Core → Word → List BlockInstr → Prop
  | nil {c : Core} {va : Word} : Laid c va []
  | cons {c : Core} {va : Word} {f : Fetched} {k : Fin instructions.length} {rest : List BlockInstr}
      (fetched : fetchInstruction c va = .ok f) (success : f.ret.isSuccess = true) (decoded : f.cache.Decoded k)
      (inside : rest ≠ [] → isBlockEnd f.cache.data.inst = false)
      (next : Laid f.core (va + instLength f.cache.data.inst) rest) : Laid c va (.ofFetched f :: rest)

theorem collectInstrs_laid {n : Nat} (good : c.decoder.Good)
    (ok : collectInstrs c va n = .ok (c', instrs)) : Laid c va instrs := by
  induction n generalizing c c' va instrs with
  | zero =>
    obtain ⟨rfl, rfl⟩ := Prod.mk.inj (Except.ok.inj ok)
    exact .nil
  | succ n ih =>
    unfold collectInstrs at ok
    obtain ⟨f, fetched, ok⟩ := bind_eq_ok.mp ok
    dsimp only at ok
    have ends := fetchInstruction_ends good fetched
    split at ok
    case isTrue =>
      obtain ⟨-, rfl⟩ := Prod.mk.inj (pure_eq_ok.mp ok)
      exact .nil
    case isFalse kept =>
      simp only [Bool.or_eq_true, Bool.not_eq_true', not_or, Bool.not_eq_false] at kept
      obtain ⟨k, decoded⟩ := ends.decoded kept.1.1
      split at ok
      case isTrue =>
        obtain ⟨-, rfl⟩ := Prod.mk.inj (pure_eq_ok.mp ok)
        exact .cons fetched kept.1.1 decoded (fun more => absurd rfl more) .nil
      case isFalse inside =>
        obtain ⟨⟨core, rest⟩, collected, ok⟩ := bind_eq_ok.mp ok
        obtain ⟨-, rfl⟩ := Prod.mk.inj (pure_eq_ok.mp ok)
        exact .cons fetched kept.1.1 decoded (fun _ => eq_false_of_ne_true inside) (ih ends.good collected)

/-- The machine before instruction number `k` of a run, with the instructions still to come. -/
def runTo (bus : Bus) (c : Core) : List BlockInstr → Nat → Option (Core × List BlockInstr)
  | instrs, 0 => some (c, instrs)
  | [], _ + 1 => none
  | i :: rest, k + 1 =>
    match i.exec bus c with
    | .ok out =>
      if out.ret.isSuccess = true ∧ rest ≠ [] then
        runTo bus (out.core.setPc (out.core.hart.pc + out.ret.increasePc)).clearX0 rest k
      else none
    | .error _ => none

theorem runTo_succ {k : Nat} {point : Core × List BlockInstr} (reached : runTo bus c (i :: rest) (k + 1) = some point) :
    ∃ out, i.exec bus c = .ok out ∧ out.ret.isSuccess = true ∧ rest ≠ [] ∧
      runTo bus (out.core.setPc (out.core.hart.pc + out.ret.increasePc)).clearX0 rest k = some point := by
  unfold runTo at reached
  cases ran : i.exec bus c with
  | error e =>
    rw [ran] at reached
    cases reached
  | ok out =>
    rw [ran] at reached
    dsimp only at reached
    split at reached
    case isTrue went => exact ⟨out, rfl, went.1, went.2, reached⟩
    case isFalse => cases reached

/-- The run of the block goes through that machine. -/
theorem runInstrs_of_runTo {k : Nat} (n : Nat)
    (reached : runTo bus c instrs k = some (c', rest)) : runInstrs bus c n instrs = runInstrs bus c' (n + k) rest := by
  induction k generalizing c instrs n with
  | zero =>
    unfold runTo at reached
    obtain ⟨rfl, rfl⟩ := Prod.mk.inj (Option.some.inj reached)
    rfl
  | succ k ih =>
    cases instrs with
    | nil => cases reached
    | cons i tail =>
      obtain ⟨out, ran, success, more, reached⟩ := runTo_succ reached
      rw [← Nat.succ_add_eq_add_succ, ← ih (n + 1) reached, runInstrs, ran]
      simp only [bind, Except.bind, success, Bool.not_true, Bool.false_eq_true, if_false, more]

theorem exec_ofFetched {f : Fetched} (decoded : f.cache.Decoded k) :
    (BlockInstr.ofFetched f).exec bus c = (instructions.get k).func bus c f.cache.data :=
  singleInst_decoded (e := { inst := f.cache.inst, data := f.cache.data }) decoded

/-- Instruction number `k` was fetched as far from the start of the decode loop as the run has gone
since the start of the block. -/
theorem Laid.runTo_pc {c₀ cₖ : Core} {k : Nat}
    (laid : Laid c va instrs) (reached : runTo bus c₀ instrs k = some (cₖ, i :: rest)) :
    ∃ core f d, fetchPoint c va k = some (core, va + d) ∧ fetchInstruction core (va + d) = .ok f ∧
      f.ret.isSuccess = true ∧ i = .ofFetched f ∧ cₖ.hart.pc = c₀.hart.pc + d := by
  induction k generalizing c c₀ va instrs with
  | zero =>
    unfold runTo at reached
    obtain ⟨rfl, rfl⟩ := Prod.mk.inj (Option.some.inj reached)
    cases laid with
    | @cons _ _ f _ _ fetched success =>
      refine ⟨c, f, 0#64, ?_, ?_, success, rfl, ?_⟩
      · rw [fetchPoint, BitVec.add_zero]
      · rw [BitVec.add_zero, fetched]
      · rw [BitVec.add_zero]
  | succ k ih =>
    cases laid with
    | nil => cases reached
    | @cons _ _ f _ tail fetched success decoded inside next =>
      obtain ⟨out, ran, success', more, reached⟩ := runTo_succ reached
      rw [exec_ofFetched decoded] at ran
      obtain ⟨same, step⟩ := steps_of_inside decoded.1 (inside more) ran success'
      obtain ⟨core, g, d, point, fetched', worked, rfl, pc⟩ := ih next reached
      refine ⟨core, g, instLength f.cache.data.inst + d, ?_, ?_, worked, rfl, ?_⟩
      · rw [fetchPoint, fetched, ← BitVec.add_assoc]
        exact point
      · rw [← BitVec.add_assoc, fetched']
      · have before : (out.core.setPc (out.core.hart.pc + out.ret.increasePc)).clearX0.hart.pc =
            out.core.hart.pc + out.ret.increasePc := rfl
        rw [pc, before, same.pc, step, BitVec.add_assoc]

/-- The instructions of a block that `compile_block` has built. -/
theorem compileBlock_laid {bc : BlockCache} {startPhys : Word} {out : Compiled} {slot : Nat}
    (good : c.decoder.Good) (ok : compileBlock c bc startPhys = .ok out) (built : out.block = some slot) :
    Laid c c.hart.pc (out.cache.slots slot).instrs := by
  unfold compileBlock at ok
  obtain ⟨⟨core, instrs⟩, collected, ok⟩ := bind_eq_ok.mp ok
  dsimp only at ok
  have laid := collectInstrs_laid good collected
  cases last : instrs.getLast? with
  | none =>
    rw [last] at ok
    obtain rfl := pure_eq_ok.mp ok
    cases built
  | some i =>
    rw [last] at ok
    obtain rfl := pure_eq_ok.mp ok
    obtain rfl := Option.some.inj built
    have stored : ∀ b : Block, (bc.put (BlockCache.buildSlot startPhys) b).slots (BlockCache.buildSlot startPhys) = b :=
      fun b => Function.update_self ..
    rw [stored]
    exact laid

/-- Inside a block nothing transfers control, and instruction number `k` is executed where it was
fetched: as far from the entry as the fetch was from the `pc` of `compile_block`. -/
theorem straight_line (c : Core) (bc : BlockCache) (startPhys : Word) (good : c.decoder.Good) :
    (∀ w k, Best w k → isBlockEnd w = false → ∀ bus c e,
      (instructions.get k).func bus c (.ofInst w (instructions.get k).immDecode) = .ok e → e.ret.isSuccess = true →
        SameContext c e.core ∧ e.ret.increasePc = instLength w) ∧
      ∀ out slot, compileBlock c bc startPhys = .ok out → out.block = some slot →
        ∀ bus entry k cₖ i rest, runTo bus entry.clearX0 (out.cache.slots slot).instrs k = some (cₖ, i :: rest) →
          runBlock bus entry (out.cache.slots slot) = runInstrs bus cₖ k (i :: rest) ∧
          ∃ core f d, fetchPoint c c.hart.pc k = some (core, c.hart.pc + d) ∧
            fetchInstruction core (c.hart.pc + d) = .ok f ∧ f.ret.isSuccess = true ∧ i = .ofFetched f ∧
            cₖ.hart.pc = entry.hart.pc + d := by
  constructor
  · intro w k best inside bus c e ok success
    exact steps_of_inside best inside ok success
  · intro out slot ok built bus entry k cₖ i rest reached
    constructor
    · have through := runInstrs_of_runTo 0 reached
      rwa [Nat.zero_add] at through
    · obtain ⟨core, f, d, point, fetched, success, same, pc⟩ := (compileBlock_laid good ok built).runTo_pc reached
      exact ⟨core, f, d, point, fetched, success, same, pc⟩

/-- ADDI is inside a block. -/
theorem straight_line_addi :
    DecodeCache.Good {} ∧ isBlockEnd 0x00500513 = false ∧ ∀ k, Best 0x00500513 k → ∀ bus c e,
      (instructions.get k).func bus c (.ofInst 0x00500513 (instructions.get k).immDecode) = .ok e →
        e.ret.isSuccess = true → SameContext c e.core ∧ e.ret.increasePc = 4 := by
  have inside : isBlockEnd 0x00500513 = false := by decide
  refine ⟨DecodeCache.good_empty, inside, ?_⟩
  intro k best bus c e ok success
  exact (straight_line ⟨{}, .empty, {}, [], {}, .nearest⟩ {} 0 DecodeCache.good_empty).1 _ k best inside bus c e ok
    success

end Rv64Vm
