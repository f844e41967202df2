import Rv64Vm.Core.Mmu

/-! # TLB operations, slot by slot

The census never feeds back into the entries, so every operation is described
by its effect on the slots and the generation: `insert` writes one slot, the
granular flushes only clear generations (`OnlyEvicts`), a full flush only bumps
the generation.
-/

namespace Rv64Vm.Tlb

open Lib

@[simp] theorem addWritable_entries (t : Tlb) (e : TlbEntry) : (t.addWritable e).entries = t.entries := by
  unfold addWritable
  dsimp only
  split
  · rfl
  · split <;> rfl

@[simp] theorem addWritable_generation (t : Tlb) (e : TlbEntry) : (t.addWritable e).generation = t.generation := by
  unfold addWritable
  dsimp only
  split
  · rfl
  · split <;> rfl

@[simp] theorem dropWritable_generation (t : Tlb) (e : TlbEntry) : (t.dropWritable e).generation = t.generation := by
  unfold dropWritable
  dsimp only
  split
  · rfl
  · split <;> rfl

section Insert

variable (t : Tlb) (smc : SelfMod) (va pa : Word) (bits : Nat) (perm : BitVec 8) (asid : BitVec 16)
  (global : Bool) (host : Word)

@[simp] theorem insert_generation : (t.insert smc va pa bits perm asid global host).generation = t.generation := by
  simp [insert]

theorem insert_entries :
    (t.insert smc va pa bits perm asid global host).entries =
      Function.update t.entries (index va) (t.newEntry smc va pa bits perm asid global host) := by
  simp [insert]

end Insert

/-- `after` has the same generation, and each of its slots is the old one,
    possibly with its generation cleared. -/
def OnlyEvicts (before after : Tlb) : Prop :=
  after.generation = before.generation ∧
    ∀ i, after.entries i = before.entries i ∨
      after.entries i = { before.entries i with generation := 0 }

theorem OnlyEvicts.refl (t : Tlb) : OnlyEvicts t t := ⟨rfl, fun _ => .inl rfl⟩

theorem OnlyEvicts.trans {a b c : Tlb} (first : OnlyEvicts a b) (second : OnlyEvicts b c) : OnlyEvicts a c := by
  refine ⟨second.1.trans first.1, fun i => ?_⟩
  rcases second.2 i with same | cleared
  · rw [same]
    exact first.2 i
  · right
    rw [cleared]
    rcases first.2 i with same' | cleared'
    · rw [same']
    · rw [cleared']

variable (t : Tlb)

theorem evict_onlyEvicts (i : Nat) : OnlyEvicts t (t.evict i) := by
  refine ⟨by simp [evict], fun k => ?_⟩
  by_cases here : k = i
  · subst here
    right
    simp [evict]
  · left
    simp [evict, here]

theorem evict_if_onlyEvicts (i : Nat) (cond : Prop) [Decidable cond] :
    OnlyEvicts t (if cond then t.evict i else t) := by
  split
  · exact evict_onlyEvicts t i
  · exact .refl t

theorem flushAddr_onlyEvicts (va : Word) : OnlyEvicts t (t.flushAddr va) :=
  evict_if_onlyEvicts t _ _

theorem flushAddrAsid_onlyEvicts (va : Word) (asid : BitVec 16) : OnlyEvicts t (t.flushAddrAsid va asid) :=
  evict_if_onlyEvicts t _ _

theorem flushAsid_onlyEvicts (asid : BitVec 16) : OnlyEvicts t (t.flushAsid asid) := by
  unfold flushAsid
  induction List.range size generalizing t with
  | nil => exact .refl t
  | cons i rest ih => exact (evict_if_onlyEvicts t i _).trans (ih _)

theorem noteExec_cases (phys : Word) : t.noteExec phys = t ∨ t.noteExec phys = t.flushAll := by
  unfold noteExec
  split
  · split
    · exact .inr rfl
    · exact .inl rfl
  · exact .inl rfl

/-- No slot is ahead of the TLB's generation, and the generation is not that of
    a cleared slot. -/
structure GenOk (t : Tlb) : Prop where
  positive : 0 < t.generation
  bounded : ∀ i, (t.entries i).generation ≤ t.generation

theorem genOk_initial : GenOk {} := ⟨Nat.one_pos, fun _ => Nat.zero_le _⟩

theorem GenOk.onlyEvicts {t t' : Tlb} (ok : GenOk t) (evicts : OnlyEvicts t t') : GenOk t' := by
  refine ⟨evicts.1 ▸ ok.positive, fun i => ?_⟩
  rw [evicts.1]
  rcases evicts.2 i with same | cleared
  · rw [same]
    exact ok.bounded i
  · rw [cleared]
    exact Nat.zero_le _

theorem GenOk.flushAll {t : Tlb} (ok : GenOk t) : GenOk t.flushAll :=
  ⟨Nat.succ_pos _, fun i => Nat.le_succ_of_le (ok.bounded i)⟩

/-- After a full flush no slot is current. -/
theorem GenOk.flushAll_stale {t : Tlb} (ok : GenOk t) (i : Nat) :
    (t.flushAll.entries i).generation ≠ t.flushAll.generation :=
  Nat.ne_of_lt (Nat.lt_succ_of_le (ok.bounded i))

theorem GenOk.insert {t : Tlb} (ok : GenOk t) (smc : SelfMod) (va pa : Word) (bits : Nat)
    (perm : BitVec 8) (asid : BitVec 16) (global : Bool) (host : Word) :
    GenOk (t.insert smc va pa bits perm asid global host) := by
  refine ⟨by simpa using ok.positive, fun i => ?_⟩
  rw [insert_entries, insert_generation]
  by_cases here : i = index va
  · subst here
    simp [newEntry]
  · simpa [here] using ok.bounded i

/-! ## Hits -/

/-- The parts of a hit. -/
theorem lookup_eq_some_iff {t : Tlb} {va pa : Word} {type : AccessType} {asid : BitVec 16}
    {mode : PrivilegeMode} {mxr sum : Bool} :
    t.lookup va type asid mode mxr sum = some pa ↔
      let e := t.entries (index va)
      e.generation = t.generation ∧ va &&& ~~~(pageMask e.pageBits) = e.vpageBase ∧
        (e.global = true ∨ e.asid = asid) ∧ permits e.perm type mode mxr sum = true ∧
        pa = e.ppageBase ||| (va &&& pageMask e.pageBits) := by
  dsimp only
  unfold lookup
  dsimp only
  split
  case isTrue stale => exact ⟨nofun, fun parts => absurd parts.1 stale⟩
  case isFalse current =>
    split
    case isTrue outside => exact ⟨nofun, fun parts => absurd parts.2.1 outside⟩
    case isFalse inside =>
      split
      case isTrue foreign =>
        refine ⟨nofun, fun parts => ?_⟩
        rcases parts.2.2.1 with global | same
        · simp [global] at foreign
        · simp [same] at foreign
      case isFalse owned =>
        split
        case isTrue refused => exact ⟨nofun, fun parts => by simp [parts.2.2.2.1] at refused⟩
        case isFalse permitted =>
          constructor
          · intro hit
            refine ⟨not_not.mp current, not_not.mp inside, ?_, by simpa using permitted,
              (Option.some.inj hit).symm⟩
            cases global : (t.entries (index va)).global with
            | true => exact .inl rfl
            | false => exact .inr (by simpa [global] using owned)
          · rintro ⟨-, -, -, -, rfl⟩
            rfl

theorem index_congr {va va' : Word} (same : va' >>> 12 = va >>> 12) : index va' = index va := by
  rw [index, index, same]

end Rv64Vm.Tlb
