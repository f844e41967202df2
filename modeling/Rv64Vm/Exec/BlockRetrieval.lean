import Rv64Vm.Exec.RunBlocks

/-! # Finding a block again

`compile_block` builds at one index of the physical pc and `lookup` searches at another. Beside the cache
`run_blocks` keeps the block in its memo, where it compares less than `lookup` does: a slot in which
`compile_block` has given up keeps its old epoch and instructions.
-/

namespace Rv64Vm

open Lib Jit

variable {c : Core} {bc : BlockCache} {p phys maxInsts n : Word} {built : Compiled} {r : HartRun J}
  {memoWay block : Option Nat}

/-! ## Where a block is looked for -/

theorem getLsbD_indexMask (k : Nat) : BlockCache.indexMask.getLsbD k = decide (k < 15) := by
  have ones : BlockCache.indexMask = (BitVec.allOnes 15).setWidth 64 := by decide
  rw [ones, BitVec.getLsbD_setWidth, BitVec.getLsbD_allOnes]
  rcases Nat.lt_or_ge k 15 with inside | outside
  · simp only [inside, decide_true, Bool.and_true, decide_eq_true_eq]
    omega
  · simp only [Nat.not_lt.mpr outside, decide_false, Bool.and_false]

/-- The two indices agree where bits 1 to 16 are all the same. -/
theorem buildSlot_eq_lookupSlot_iff (p : Word) :
    BlockCache.buildSlot p = BlockCache.lookupSlot p ↔ ∀ k < 16, p.getLsbD (k + 1) = p.getLsbD 1 := by
  unfold BlockCache.buildSlot BlockCache.lookupSlot
  rw [BitVec.toNat_inj]
  constructor
  · intro same k inside
    induction k with
    | zero => rfl
    | succ k ih =>
      have bit := congrArg (BitVec.getLsbD · k) same
      simp only [BitVec.getLsbD_and, BitVec.getLsbD_ushiftRight, getLsbD_indexMask, show k < 15 by omega, decide_true,
        Bool.and_true, Nat.add_comm 2 k, Nat.add_comm 1 k] at bit
      exact bit.trans (ih (by omega))
  · intro same
    apply BitVec.eq_of_getLsbD_eq
    intro k _
    simp only [BitVec.getLsbD_and, BitVec.getLsbD_ushiftRight, getLsbD_indexMask]
    by_cases inside : k < 15
    · rw [Nat.add_comm 2 k, Nat.add_comm 1 k, same (k + 1) (by omega), same k (by omega)]
    · simp only [inside, decide_false, Bool.and_false]

theorem markExecuted_epoch (pages : List Word) (c : Core) :
    (pages.foldl Core.markExecuted c).smc.smcEpoch = c.smc.smcEpoch := by
  induction pages generalizing c with
  | nil => rfl
  | cons page rest ih => exact ih _

/-- What `compile_block` leaves in its slot. -/
theorem compileBlock_slot (ok : compileBlock c bc p = .ok built) :
    ∃ b : Block, built.cache = bc.put (BlockCache.buildSlot p) b ∧ b.startPhys = p ∧ ((built.block = none ∧ b.gen = 0) ∨
        (built.block = some (BlockCache.buildSlot p) ∧ b.gen = bc.generation ∧ b.smc = built.core.smc.smcEpoch)) := by
  unfold compileBlock at ok
  obtain ⟨⟨c₁, instrs⟩, -, ok⟩ := bind_eq_ok.mp ok
  dsimp only at ok
  cases last : instrs.getLast? with
  | none =>
    rw [last] at ok
    obtain rfl := pure_eq_ok.mp ok
    exact ⟨_, rfl, rfl, .inl ⟨rfl, rfl⟩⟩
  | some i =>
    rw [last] at ok
    obtain rfl := pure_eq_ok.mp ok
    exact ⟨_, rfl, rfl, .inr ⟨rfl, rfl, (markExecuted_epoch ..).symm⟩⟩

theorem put_slots (bc : BlockCache) (i j : Nat) (b : Block) :
    (bc.put i b).slots j = if j = i then b else bc.slots j := Function.update_apply ..

/-- A block is found again exactly where the two indices agree. -/
theorem lookup_compiled_iff {bc' : BlockCache} {slot : Nat}
    (ok : compileBlock c bc p = .ok built) (formed : built.block = some slot)
    (gen : bc'.generation = built.cache.generation) (kept : bc'.slots slot = built.cache.slots slot) :
    bc'.lookup built.core.smc.smcEpoch p = some slot ↔ BlockCache.buildSlot p = BlockCache.lookupSlot p := by
  obtain ⟨b, cache, start, ends⟩ := compileBlock_slot ok
  rcases ends with ⟨nothing, -⟩ | ⟨here, current, epoch⟩
  · exact absurd (nothing.symm.trans formed) nofun
  · obtain rfl := Option.some.inj (here.symm.trans formed)
    have stored : bc'.slots (BlockCache.buildSlot p) = b := by
      rw [kept, cache, put_slots, if_pos rfl]
    have generation : bc'.generation = bc.generation := by rw [gen, cache]; rfl
    unfold BlockCache.lookup
    constructor
    · intro found
      split at found
      case isTrue => exact (Option.some.inj found).symm
      case isFalse => cases found
    · intro same
      have valid : bc'.Valid built.core.smc.smcEpoch p (BlockCache.lookupSlot p) := by
        rw [← same]
        unfold BlockCache.Valid
        rw [stored]
        exact ⟨start, current.trans generation.symm, epoch⟩
      rw [if_pos valid, same]

/-! ## The memo -/

namespace HartRun

variable {J : Type}

/-- The block of a way, if `run_blocks` takes it. -/
def remembered (r : HartRun J) (phys : Word) (memoWay : Option Nat) : Option Nat :=
  memoWay.bind fun i =>
    (r.dhot i).block.filter fun b => (r.dhot i).blockGen = r.cache.generation &&
      (r.cache.slots b).startPhys = phys && (r.cache.slots b).smc = r.core.smc.smcEpoch

theorem remembered_spec {b : Nat} (found : r.remembered phys memoWay = some b) :
    ∃ i, (r.dhot i).block = some b ∧ (r.dhot i).blockGen = r.cache.generation := by
  obtain ⟨i, -, found⟩ := Option.bind_eq_some_iff.mp found
  obtain ⟨block, checked⟩ := Option.filter_eq_some_iff.mp found
  simp only [Bool.and_eq_true, decide_eq_true_eq] at checked
  exact ⟨i, block, checked.1.1⟩

/-- The block is put into the way. -/
def remember (r : HartRun J) (memoWay block : Option Nat) : HartRun J :=
  match block, memoWay with
  | some b, some i => r.setWay i { r.dhot i with block := some b, blockGen := r.cache.generation }
  | _, _ => r

/-- The three ways to a block. -/
theorem selectBlock_cases {r r' : HartRun J} {phys : Word} {memoWay block : Option Nat}
    (ok : r.selectBlock phys memoWay = .ok (r', block)) :
    (r.remembered phys memoWay = block ∧ block ≠ none ∧ r' = r) ∨
    (r.remembered phys memoWay = none ∧
      ((r.cache.lookup r.core.smc.smcEpoch phys = block ∧ block ≠ none ∧ r' = r.remember memoWay block) ∨
      ∃ built, r.cache.lookup r.core.smc.smcEpoch phys = none ∧ compileBlock r.core r.cache phys = .ok built ∧
        block = built.block ∧ r' = { r with core := built.core, cache := built.cache }.remember memoWay block)) := by
  unfold selectBlock at ok
  cases memo : r.remembered phys memoWay with
  | some b =>
    unfold remembered at memo
    rw [memo] at ok
    cases ok
    exact .inl ⟨rfl, Option.some_ne_none b, rfl⟩
  | none =>
    unfold remembered at memo
    rw [memo] at ok
    refine .inr ⟨rfl, ?_⟩
    dsimp only at ok
    cases cached : r.cache.lookup r.core.smc.smcEpoch phys with
    | some b =>
      rw [cached] at ok
      obtain ⟨found, same, ok⟩ := bind_eq_ok.mp ok
      cases same
      left
      cases memoWay with
      | none =>
        cases ok
        exact ⟨rfl, Option.some_ne_none b, rfl⟩
      | some i =>
        cases ok
        exact ⟨rfl, Option.some_ne_none b, rfl⟩
    | none =>
      rw [cached] at ok
      obtain ⟨built, compiled, ok⟩ := bind_eq_ok.mp ok
      obtain ⟨found, same, ok⟩ := bind_eq_ok.mp ok
      cases same
      right
      dsimp only at ok
      refine ⟨built, rfl, compiled, ?_⟩
      cases formed : built.block with
      | none =>
        rw [formed] at ok
        cases ok
        exact ⟨rfl, rfl⟩
      | some b =>
        rw [formed] at ok
        cases memoWay with
        | none =>
          cases ok
          exact ⟨rfl, rfl⟩
        | some i =>
          cases ok
          exact ⟨rfl, rfl⟩

/-! ## Moves -/

/-- What the rest of `run_blocks` does to the memo: the cache stays, and a way keeps its block or loses it. -/
structure Elsewhere (r r' : HartRun J) : Prop where
  cache : r'.cache = r.cache
  ways : ∀ i, (r'.dhot i).block = none ∨
    ((r'.dhot i).block = (r.dhot i).block ∧ (r'.dhot i).blockGen = (r.dhot i).blockGen)

/-- A hart, and the slots in which the last `compile_block` has given up. -/
structure Watched (J : Type) where
  run : HartRun J
  broken : Nat → Bool

inductive MemoMove (J : Type) where
  | elsewhere (next : HartRun J)
  | clear
  | select (phys : Word) (memoWay : Option Nat)

open Classical in
noncomputable def watch (s : Watched J) : MemoMove J → Option (Watched J)
  | .elsewhere next => if Elsewhere s.run next then some { s with run := next } else none
  | .clear => some { s with run := { s.run with cache := s.run.cache.clear } }
  | .select phys memoWay =>
    match s.run.selectBlock phys memoWay with
    | .error _ => none
    | .ok (r, block) =>
      if s.run.remembered phys memoWay = none ∧ s.run.cache.lookup s.run.core.smc.smcEpoch phys = none then
        some ⟨r, Function.update s.broken (BlockCache.buildSlot phys) block.isNone⟩
      else some { s with run := r }

/-- A block that is taken from the memo is of the cache's generation. -/
def Current (s : Watched J) : MemoMove J → Prop
  | .select phys memoWay => ∀ b, s.run.remembered phys memoWay = some b →
      (s.run.cache.slots b).gen = s.run.cache.generation
  | _ => True

/-- No block is taken from the memo after `compile_block` has given up in its slot. -/
def Unbroken (s : Watched J) : MemoMove J → Prop
  | .select phys memoWay => ∀ b, s.run.remembered phys memoWay = some b → s.broken b = false
  | _ => True

/-- What the memo knows of its slots. -/
structure Tracked (s : Watched J) : Prop where
  positive : 0 < s.run.cache.generation
  gaveUp : ∀ b, s.broken b = true → (s.run.cache.slots b).gen = 0
  formed : ∀ i b, (s.run.dhot i).block = some b → (s.run.dhot i).blockGen = s.run.cache.generation →
    s.broken b = false → (s.run.cache.slots b).gen = s.run.cache.generation
  past : ∀ i b, (s.run.dhot i).block = some b → (s.run.dhot i).blockGen ≤ s.run.cache.generation

namespace Tracked

variable {s : Watched J}

theorem current_iff_unbroken (tracked : Tracked s) (move : MemoMove J) : Current s move ↔ Unbroken s move := by
  cases move with
  | elsewhere => exact Iff.rfl
  | clear => exact Iff.rfl
  | select phys memoWay =>
    refine forall_congr' fun b => imp_congr_right fun found => ?_
    obtain ⟨i, block, gen⟩ := remembered_spec found
    constructor
    · intro current
      cases broken : s.broken b with
      | false => rfl
      | true =>
        have zero := tracked.gaveUp b broken
        have positive := tracked.positive
        omega
    · exact tracked.formed i b block gen

/-- The way of a block that is of the cache's generation may be remembered. -/
theorem remember (tracked : Tracked s)
    (good : ∀ b, block = some b → (s.run.cache.slots b).gen = s.run.cache.generation) :
    Tracked { s with run := s.run.remember memoWay block } := by
  unfold HartRun.remember
  cases block with
  | none => exact tracked
  | some b =>
    cases memoWay with
    | none => exact tracked
    | some i =>
      have way (d : DispatchHot) (k : Nat) : (s.run.setWay i d).dhot k = if k = i then d else s.run.dhot k :=
        Function.update_apply ..
      refine ⟨tracked.positive, tracked.gaveUp, fun k b' block => ?_, fun k b' block => ?_⟩
      all_goals
        dsimp only at block ⊢
        rw [way] at block ⊢
        by_cases same : k = i
      · rw [if_pos same] at block ⊢
        obtain rfl := Option.some.inj block
        exact fun _ _ => good _ rfl
      · rw [if_neg same] at block ⊢
        exact tracked.formed k b' block
      · rw [if_pos same]
        exact Nat.le_refl _
      · rw [if_neg same] at block ⊢
        exact tracked.past k b' block

theorem put (tracked : Tracked s) (core : Core) (slot : Nat) (b : Block) (formed : Bool)
    (gen : b.gen = if formed then s.run.cache.generation else 0) :
    Tracked ⟨{ s.run with core := core, cache := s.run.cache.put slot b },
      Function.update s.broken slot (!formed)⟩ := by
  refine ⟨tracked.positive, fun k broken => ?_, fun i k block current fine => ?_, tracked.past⟩
  · dsimp only at broken ⊢
    rw [Function.update_apply] at broken
    rw [put_slots]
    by_cases same : k = slot
    · rw [if_pos same, Bool.not_eq_true'] at broken
      rw [if_pos same, gen, broken]
      rfl
    · rw [if_neg same] at broken ⊢
      exact tracked.gaveUp k broken
  · dsimp only at fine ⊢
    rw [Function.update_apply] at fine
    rw [put_slots]
    by_cases same : k = slot
    · rw [if_pos same, Bool.not_eq_false'] at fine
      rw [if_pos same, gen, fine]
      rfl
    · rw [if_neg same] at fine ⊢
      exact tracked.formed i k block current fine

theorem watch (tracked : Tracked s) {move : MemoMove J} {next : Watched J} (taken : watch s move = some next) :
    Tracked next := by
  cases move with
  | elsewhere r =>
    dsimp only [HartRun.watch] at taken
    split at taken
    case isFalse => cases taken
    case isTrue other =>
      obtain rfl := Option.some.inj taken
      have before {i b : Nat} (block : (r.dhot i).block = some b) :
          (s.run.dhot i).block = some b ∧ (r.dhot i).blockGen = (s.run.dhot i).blockGen := by
        rcases other.ways i with none | same
        · exact absurd (none.symm.trans block) nofun
        · exact ⟨same.1 ▸ block, same.2⟩
      refine ⟨?_, ?_, fun i b block => ?_, fun i b block => ?_⟩
      all_goals dsimp only at *
      all_goals rw [other.cache]
      · exact tracked.positive
      · exact tracked.gaveUp
      · rw [(before block).2]
        exact tracked.formed i b (before block).1
      · rw [(before block).2]
        exact tracked.past i b (before block).1
  | clear =>
    obtain rfl := Option.some.inj taken
    refine ⟨Nat.succ_pos _, tracked.gaveUp, fun i b block current => ?_, fun i b block => ?_⟩
    · have past := tracked.past i b block
      have later : (s.run.dhot i).blockGen = s.run.cache.generation + 1 := current
      omega
    · exact Nat.le_succ_of_le (tracked.past i b block)
  | select phys memoWay =>
    dsimp only [HartRun.watch] at taken
    cases selected : s.run.selectBlock phys memoWay with
    | error e =>
      rw [selected] at taken
      cases taken
    | ok found =>
      rw [selected] at taken
      dsimp only at taken
      rcases selectBlock_cases selected with ⟨memo, held, same⟩ | ⟨memo, rest⟩
      · rw [if_neg fun both => held (memo.symm.trans both.1), same] at taken
        obtain rfl := Option.some.inj taken
        exact tracked
      · rcases rest with ⟨cached, held, same⟩ | ⟨built, missed, ok, formed, same⟩
        · rw [if_neg fun both => held (cached.symm.trans both.2), same] at taken
          obtain rfl := Option.some.inj taken
          refine tracked.remember fun b block => ?_
          rw [block] at cached
          unfold BlockCache.lookup at cached
          split at cached
          case isTrue valid =>
            rw [← Option.some.inj cached]
            exact valid.2.1
          case isFalse => cases cached
        · rw [if_pos ⟨memo, missed⟩, same, formed] at taken
          obtain rfl := Option.some.inj taken
          obtain ⟨b, cache, -, ends⟩ := compileBlock_slot ok
          rw [cache]
          rcases ends with ⟨nothing, zero⟩ | ⟨here, gen, -⟩
          · rw [nothing]
            exact tracked.put built.core _ b false zero
          · rw [here]
            have after := tracked.put built.core (BlockCache.buildSlot phys) b true gen
            refine after.remember fun k block => ?_
            rw [← Option.some.inj block]
            dsimp only
            rw [put_slots, if_pos rfl, gen]
            rfl

end Tracked

/-! ## `run_blocks` is made of these moves -/

/-- One hart comes from the other by moves, whatever slots are broken. -/
def Moves (r r' : HartRun J) : Prop :=
  ∀ broken, ∃ moves broken', Lib.run watch ⟨r, broken⟩ moves = some ⟨r', broken'⟩

section Moves

variable {E : JitEngine J} {bus : Bus} {r r' r'' : HartRun J}

theorem Elsewhere.of_same (cache : r'.cache = r.cache) (dhot : r'.dhot = r.dhot) : Elsewhere r r' :=
  ⟨cache, fun i => .inr ⟨by rw [dhot], by rw [dhot]⟩⟩

theorem Elsewhere.trans (first : Elsewhere r r') (second : Elsewhere r' r'') : Elsewhere r r'' := by
  refine ⟨second.cache.trans first.cache, fun i => ?_⟩
  rcases second.ways i with none | ⟨block, gen⟩
  · exact .inl none
  · rcases first.ways i with none | ⟨block', gen'⟩
    · exact .inl (block.trans none)
    · exact .inr ⟨block.trans block', gen.trans gen'⟩

theorem Elsewhere.moves (other : Elsewhere r r') : Moves r r' := by
  intro broken
  refine ⟨[.elsewhere r'], broken, ?_⟩
  rw [run_cons, watch, if_pos other]
  rfl

theorem Moves.trans (first : Moves r r') (second : Moves r' r'') : Moves r r'' := by
  intro broken
  obtain ⟨moves, broken', ran⟩ := first broken
  obtain ⟨moves', broken'', ran'⟩ := second broken'
  exact ⟨moves ++ moves', broken'', by rw [run_append, ran, Option.bind_some, ran']⟩

theorem moves_clear (r : HartRun J) : Moves r { r with cache := r.cache.clear } :=
  fun broken => ⟨[.clear], broken, rfl⟩

theorem moves_select (ok : r.selectBlock phys memoWay = .ok (r', block)) : Moves r r' := by
  intro broken
  by_cases compiles : r.remembered phys memoWay = none ∧ r.cache.lookup r.core.smc.smcEpoch phys = none
  · refine ⟨[.select phys memoWay], Function.update broken (BlockCache.buildSlot phys) block.isNone, ?_⟩
    rw [run_cons, watch, ok]
    dsimp only
    rw [if_pos compiles]
    rfl
  · refine ⟨[.select phys memoWay], broken, ?_⟩
    rw [run_cons, watch, ok]
    dsimp only
    rw [if_neg compiles]
    rfl

theorem setWay_elsewhere {i : Nat} {d : DispatchHot}
    (way : d.block = none ∨ (d.block = (r.dhot i).block ∧ d.blockGen = (r.dhot i).blockGen)) :
    Elsewhere r (r.setWay i d) := by
  refine ⟨rfl, fun k => ?_⟩
  have set : (r.setWay i d).dhot k = if k = i then d else r.dhot k := Function.update_apply ..
  rw [set]
  by_cases same : k = i
  · rw [if_pos same, same]
    exact way
  · rw [if_neg same]
    exact .inr ⟨rfl, rfl⟩

theorem touchWay_elsewhere (r : HartRun J) : Elsewhere r r.touchWay.2 := by
  unfold touchWay
  dsimp only
  refine .trans (setWay_elsewhere ?_) (.of_same rfl rfl)
  dsimp only
  split
  case isTrue => exact .inr ⟨rfl, rfl⟩
  case isFalse => exact .inl rfl

theorem resolve_elsewhere {j : J} {i : Nat} {found : Option (Word × JITExec)}
    (ok : r.resolve E j i = .ok (r', found)) : Elsewhere r r' := by
  unfold resolve at ok
  dsimp only at ok
  split at ok
  case isTrue =>
    cases ok
    exact .of_same rfl rfl
  case isFalse =>
    split at ok
    case isTrue =>
      cases ok
      exact .of_same rfl rfl
    case isFalse =>
      obtain ⟨t, -, ok⟩ := bind_eq_ok.mp ok
      split at ok
      case isTrue =>
        cases ok
        exact .of_same rfl rfl
      case isFalse =>
        obtain ⟨⟨jj, j', c⟩, -, ok⟩ := bind_eq_ok.mp ok
        cases ok
        have same : Elsewhere r { r with core := c, jctx := some j' } := .of_same rfl rfl
        exact same.trans (setWay_elsewhere (.inr ⟨rfl, rfl⟩))

theorem enter_elsewhere {j : J} {jj : JITExec} {n : Word} (ok : r.enter E j jj = .ok (r', n)) : Elsewhere r r' := by
  unfold enter at ok
  obtain ⟨⟨j', after⟩, -, ok⟩ := bind_eq_ok.mp ok
  cases ok
  exact .of_same rfl rfl

/-- The hart that the compiled part of a pass leaves. -/
def Dispatched.run : Dispatched J → HartRun J
  | .trapped r | .interpret r _ _ | .executed r _ _ => r

theorem dispatchCompiled_elsewhere {d : Dispatched J} (ok : r.dispatchCompiled E = .ok d) : Elsewhere r d.run := by
  unfold dispatchCompiled at ok
  split at ok
  case h_1 =>
    cases ok
    exact .of_same rfl rfl
  case h_2 j _ =>
    split at ok
    case isFalse =>
      cases ok
      exact .of_same rfl rfl
    case isTrue =>
      have touched := touchWay_elsewhere r
      generalize r.touchWay = way at ok touched
      obtain ⟨⟨r₁, found⟩, resolved, ok⟩ := bind_eq_ok.mp ok
      have other := touched.trans (resolve_elsewhere resolved)
      cases found with
      | none =>
        cases ok
        exact other
      | some code =>
        dsimp only at ok
        split at ok
        case isTrue =>
          cases ok
          exact other
        case isFalse =>
          obtain ⟨⟨r₂, n⟩, entered, ok⟩ := bind_eq_ok.mp ok
          have called := other.trans (enter_elsewhere entered)
          dsimp only at ok
          split at ok
          case isTrue =>
            cases ok
            exact called.trans (.of_same rfl rfl)
          case isFalse =>
            cases ok
            exact called

theorem pollAfter_elsewhere (r : HartRun J) (prev executed : Word) : Elsewhere r (r.pollAfter prev executed).1 := by
  unfold pollAfter
  split <;> exact .of_same rfl rfl

theorem interpretAt_moves {total phys : Word} {memoWay : Option Nat} {t : Turn J}
    (ok : r.interpretAt bus total phys memoWay = .ok t) : Moves r t.run := by
  unfold interpretAt at ok
  obtain ⟨⟨r₁, block⟩, selected, ok⟩ := bind_eq_ok.mp ok
  refine (moves_select selected).trans ?_
  cases block with
  | none =>
    obtain ⟨r₂, ticked, ok⟩ := bind_eq_ok.mp ok
    obtain ⟨c, -, ticked⟩ := bind_eq_ok.mp ticked
    have same : Elsewhere r₁ r₂ := by
      cases ticked
      split <;> exact .of_same rfl rfl
    split at ok <;> cases ok <;> exact same.moves
  | some slot =>
    obtain ⟨ran, -, ok⟩ := bind_eq_ok.mp ok
    dsimp only at ok
    cases fault : ran.fault with
    | some f =>
      rw [fault] at ok
      cases ok
      exact Elsewhere.moves (.of_same rfl rfl)
    | none =>
      rw [fault] at ok
      dsimp only at ok
      have counted : Elsewhere r₁ (({ r₁ with core := ran.core }.retire (BitVec.ofNat 64 ran.executed)).note
          (.retired ran.executed)) := .of_same rfl rfl
      have other := counted.trans (pollAfter_elsewhere _ ran.core.hart.instret (BitVec.ofNat 64 ran.executed))
      generalize pollAfter _ _ _ = after at ok other
      split at ok
      case isTrue =>
        cases ok
        exact other.moves
      case isFalse =>
        cases ok
        dsimp only
        split
        case isTrue => exact other.moves.trans (moves_clear _)
        case isFalse => exact other.moves

theorem turn_moves {maxInsts total : Word} {t : Turn J} (ok : r.turn E bus maxInsts total = .ok t) : Moves r t.run := by
  unfold turn at ok
  obtain ⟨d, dispatched, ok⟩ := bind_eq_ok.mp ok
  have other := dispatchCompiled_elsewhere dispatched
  cases d with
  | trapped r₁ =>
    cases ok
    exact other.moves
  | executed r₁ prev n =>
    cases ok
    exact (other.trans (pollAfter_elsewhere ..)).moves
  | interpret r₁ phys memoWay =>
    cases phys with
    | some phys => exact other.moves.trans (interpretAt_moves ok)
    | none =>
      obtain ⟨translated, -, ok⟩ := bind_eq_ok.mp ok
      split at ok
      case isTrue =>
        cases ok
        have same : Elsewhere r₁ ({ r₁ with core := translated.core }.trap translated.ret.excCode
            translated.ret.tval) := .of_same rfl rfl
        exact (other.trans same).moves
      case isFalse =>
        have same : Elsewhere r₁ { r₁ with core := translated.core } := .of_same rfl rfl
        exact (other.trans same).moves.trans (interpretAt_moves ok)

theorem iteration_moves {maxInsts total : Word} {t : Turn J} (ok : r.iteration E bus maxInsts total = .ok t) :
    Moves r t.run := by
  unfold iteration at ok
  split at ok
  case isTrue =>
    cases ok
    exact Elsewhere.moves (.of_same rfl rfl)
  case isFalse =>
    split at ok
    case isTrue =>
      cases ok
      exact Elsewhere.moves (.of_same rfl rfl)
    case isFalse =>
      have polled : Elsewhere r (if r.core.hart.instret &&& 0x2FFF = 0 then r.poll else (r, false)).1 := by
        split <;> exact .of_same rfl rfl
      generalize (if r.core.hart.instret &&& 0x2FFF = 0 then r.poll else (r, false)) = after at ok polled
      dsimp only at ok
      split at ok
      case isTrue =>
        cases ok
        exact polled.moves
      case isFalse => exact polled.moves.trans (turn_moves ok)

theorem loop_moves {total : Word} {fuel : Nat} (ok : r.loop E bus maxInsts fuel total = .ok (some (r', n))) :
    Moves r r' := by
  induction fuel generalizing r total with
  | zero => cases ok
  | succ fuel ih =>
    obtain ⟨t, passed, ok⟩ := bind_eq_ok.mp ok
    split at ok
    case isTrue => exact (iteration_moves passed).trans (ih ok)
    case isFalse =>
      cases ok
      exact iteration_moves passed

/-- A call of `run_blocks` does nothing else to the cache and the memo. -/
theorem runBlocks_moves (ok : r.runBlocks E bus maxInsts = .ok (some (r', n))) : Moves r r' := by
  unfold runBlocks at ok
  split at ok
  case isTrue =>
    cases ok
    exact Elsewhere.moves (.of_same rfl rfl)
  case isFalse => exact loop_moves ok

end Moves

theorem Tracked.start (empty : ∀ i, (r.dhot i).block = none) (positive : 0 < r.cache.generation) :
    Tracked ⟨r, fun _ => false⟩ where
  positive := positive
  gaveUp _ broken := absurd broken Bool.false_ne_true
  formed i _ block := absurd ((empty i).symm.trans block) nofun
  past i _ block := absurd ((empty i).symm.trans block) nofun

/-- A block is found again exactly if bits 1 to 16 of its address are all the same, and a block from the memo is of the
    cache's generation exactly if `compile_block` has not given up in its slot since. The moves are all that
    `run_blocks` does to the two. -/
theorem block_retrieval_iff (J : Type) :
    (∀ c bc p built slot, compileBlock c bc p = .ok built → built.block = some slot → ∀ bc' : BlockCache,
      bc'.generation = built.cache.generation → bc'.slots slot = built.cache.slots slot →
        (bc'.lookup built.core.smc.smcEpoch p = some slot ↔ ∀ k < 16, p.getLsbD (k + 1) = p.getLsbD 1)) ∧
    (∀ r : HartRun J, (∀ i, (r.dhot i).block = none) → 0 < r.cache.generation → ∀ moves,
      (Along watch Current ⟨r, fun _ => false⟩ moves ↔ Along watch Unbroken ⟨r, fun _ => false⟩ moves)) ∧
    ∀ (E : JitEngine J) bus maxInsts n (r r' : HartRun J), r.runBlocks E bus maxInsts = .ok (some (r', n)) →
      Moves r r' := by
  refine ⟨?_, ?_, fun E bus maxInsts n r r' ok => runBlocks_moves ok⟩
  · intro c bc p built slot ok formed bc' gen kept
    rw [lookup_compiled_iff ok formed gen kept, buildSlot_eq_lookupSlot_iff]
  · intro r empty positive moves
    exact along_iff_of_invariant (fun _ move tracked => Tracked.current_iff_unbroken tracked move)
      (fun _ _ _ tracked taken => Tracked.watch tracked taken) moves (Tracked.start empty positive)

end HartRun

/-! ## A block that is not found -/

theorem fetchInstruction_pc {va : Word} {f : Fetched} (ok : fetchInstruction c va = .ok f)
    (success : f.ret.isSuccess = true) : f.cache.pc ≠ 0 := by
  unfold fetchInstruction at ok
  obtain ⟨w, -, ok⟩ := bind_eq_ok.mp ok
  split at ok
  case isTrue failed =>
    cases ok
    exact absurd success (by simpa using failed)
  case isFalse =>
    dsimp only at ok
    split at ok
    case isTrue =>
      cases ok
      cases success
    case isFalse used =>
      cases ok
      exact used

/-- An SRET at a place. -/
def sretAt (place : Nat) : Core where
  hart := { pc := 0x80000000#64 + BitVec.ofNat 64 place, memsize := 0x1000#64 }
  mmap := (MemoryMap.empty.addRegion 0x80000000#64 0x1000#64 0x700000000000#64).setData 0 fun i =>
    if place ≤ i ∧ i < place + 4 then sretWord.extractLsb' (8 * (i - place)) 8 else 0
  smc := {}

theorem compileBlock_single {w : FetchedWord} (good : c.decoder.Good)
    (fetched : fetchWord c c.hart.pc = .ok w) (success : w.ret.isSuccess = true) (placed : w.physPc ≠ 0)
    (isSret : w.inst = sretWord) :
    ∃ built, compileBlock c bc p = .ok built ∧ built.block = some (BlockCache.buildSlot p) ∧
      ∃ decoder, built.core = (blockPages p 1).foldl Core.markExecuted { w.core with decoder := decoder } := by
  have hit : sretEntry.Matches sretWord := by decide +kernel
  obtain ⟨k, -, best⟩ := best_of_fixed sretEntry_mem hit (by decide +kernel)
  obtain ⟨entry, decoder, got, -, inst⟩ := fetchInstruction_of_best good fetched success placed (isSret ▸ best)
  have used := fetchInstruction_pc got rfl
  rw [isSret] at inst
  have ends : isBlockEnd sretWord = true := by decide
  have clean : poisonsX0 sretWord = false := by decide
  have collected : collectInstrs c c.hart.pc blockMaxInsts =
      .ok ({ w.core with decoder := decoder }, [⟨entry.inst, entry.data, 4⟩]) := by
    unfold blockMaxInsts collectInstrs
    rw [got]
    simp only [bind, Except.bind, inst, clean, ends, Bool.not_true, Bool.or_false, used, decide_false,
      Bool.false_eq_true, if_false, if_true]
    rfl
  unfold compileBlock
  rw [collected]
  exact ⟨_, rfl, rfl, decoder, rfl⟩

/-- At `0x80000004` the block is built in slot 1 and looked for in slot 2. -/
theorem lookup_misses : ∃ built, compileBlock (sretAt 4) {} 0x80000004 = .ok built ∧ built.block = some 1 ∧
    built.cache.lookup built.core.smc.smcEpoch 0x80000004 ≠ some 1 := by
  obtain ⟨built, ok, formed, -⟩ := @compileBlock_single (sretAt 4) {} 0x80000004 _ DecodeCache.good_empty rfl rfl
    (by decide) rfl
  have slot : BlockCache.buildSlot 0x80000004 = 1 := by decide
  rw [slot] at formed
  refine ⟨built, ok, formed, ?_⟩
  rw [ne_eq, lookup_compiled_iff ok formed rfl rfl]
  decide

theorem lookup_finds : ∃ built, compileBlock (sretAt 0) {} 0x80000000 = .ok built ∧
    built.cache.lookup built.core.smc.smcEpoch 0x80000000 = some 0 ∧
    (Along HartRun.watch HartRun.Current ⟨(.fresh (sretAt 0) {} : HartRun Unit), fun _ => false⟩ [.clear] ↔
      Along HartRun.watch HartRun.Unbroken ⟨(.fresh (sretAt 0) {} : HartRun Unit), fun _ => false⟩ [.clear]) := by
  obtain ⟨built, ok, formed, -⟩ := @compileBlock_single (sretAt 0) {} 0x80000000 _ DecodeCache.good_empty rfl rfl
    (by decide) rfl
  have slot : BlockCache.buildSlot 0x80000000 = 0 := by decide
  rw [slot] at formed
  obtain ⟨lookups, memo, -⟩ := HartRun.block_retrieval_iff Unit
  refine ⟨built, ok, (lookups _ _ _ _ _ ok formed built.cache rfl rfl).mpr (by decide), ?_⟩
  exact memo _ (fun _ => rfl) Nat.one_pos [.clear]

end Rv64Vm
