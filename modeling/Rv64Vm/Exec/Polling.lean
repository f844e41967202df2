import Rv64Vm.Exec.Bookkeeping
import Rv64Vm.Exec.Cadence

/-! # Polling along runs

Each pass of `run_blocks` is one of those of `Cadence`, so along every sequence of calls the
interrupts are looked at often enough as long as no block faults across a multiple of `0x4000`.
A program whose blocks always fault is never interrupted.
-/

namespace Rv64Vm

open Lib Jit

variable {c : Core} {n : Nat} {instrs : List BlockInstr} {bc : BlockCache} {phys maxInsts total : Word}

/-- What is left open about a compiler: it does not retire. -/
structure JitEngine.Compiles {J : Type} (E : JitEngine J) : Prop where
  salvage : ∀ {j c phys p jj j' c'}, E.salvage j c phys p = some (jj, j', c') → c'.hart.instret = c.hart.instret
  compile : ∀ {j c va phys jj j' c'}, E.compile j c va phys = .ok (jj, j', c') → c'.hart.instret = c.hart.instret

/-- What the loop relies on: a call leaves the count to the loop, and comes back within its budget and one block. -/
structure JitEngine.Lawful {J : Type} (E : JitEngine J) : Prop extends E.Compiles where
  call : ∀ {j jj cache r j' after}, E.call j jj cache r = .ok (j', after) →
    after.core.hart.instret = r.core.hart.instret
  budget : ∀ {j jj cache r j' after}, E.call j jj cache r = .ok (j', after) → r.hctx.chainBudget = chainCadence →
    (chainCadence - after.hctx.chainBudget).toNat ≤ chainCadence.toNat + maxInstructions

/-- Chains of compiled blocks keep to their budget. -/
theorem JitEngine.Compiles.chained {E : JitEngine CodeCache} (compiles : E.Compiles) : E.chained.Lawful where
  toCompiles := ⟨compiles.salvage, compiles.compile⟩
  call ran := (runChain_accounts ran).1
  budget ran full := (runChain_accounts ran).2 (Nat.le_of_eq (congrArg BitVec.toNat full))

namespace HartRun

variable {J : Type} {E : JitEngine J} {bus : Bus}

/-- No block is longer than its array. -/
def Fits (r : HartRun J) : Prop := ∀ slot, (r.cache.slots slot).instrs.length ≤ blockMaxInsts

/-- Nothing is counted and nothing is logged. -/
structure Uncounted (r r' : HartRun J) : Prop where
  instret : r'.core.hart.instret = r.core.hart.instret
  log : r'.log = r.log
  fits : r.Fits → r'.Fits

theorem Uncounted.refl (r : HartRun J) : Uncounted r r := ⟨rfl, rfl, id⟩

theorem Uncounted.trans {r r' r'' : HartRun J} (first : Uncounted r r') (second : Uncounted r' r'') : Uncounted r r'' :=
  ⟨second.instret.trans first.instret, second.log.trans first.log, second.fits ∘ first.fits⟩

/-! ## Compiled code -/

section Compiled

variable {r r' : HartRun J}

theorem touchWay_uncounted (r : HartRun J) : Uncounted r r.touchWay.2 := ⟨rfl, rfl, id⟩

theorem translate_instret {type : AccessType} {va : Word} {t : Translation} (ok : translate c type va = .ok t) :
    t.core.hart.instret = c.hart.instret := by
  rw [(translate_translated ok).hart]

theorem obtainCode_instret (lawful : E.Lawful) {j j' : J} {c c' : Core} {phys : Word} {jj : JITExec}
    (ok : obtainCode E j c phys = .ok (jj, j', c')) : c'.hart.instret = c.hart.instret := by
  unfold obtainCode at ok
  dsimp only at ok
  split at ok
  · cases ok
    rfl
  · split at ok
    · split at ok
      case h_1 found salvaged =>
        cases ok
        exact lawful.salvage salvaged
      case h_2 => exact lawful.compile ok
    · cases ok
      rfl

theorem resolve_uncounted (lawful : E.Lawful) {j : J} {i : Nat} {found : Option (Word × JITExec)}
    (ok : r.resolve E j i = .ok (r', found)) : Uncounted r r' := by
  unfold resolve at ok
  dsimp only at ok
  split at ok
  · cases ok
    exact .refl r
  · split at ok
    · cases ok
      exact .refl r
    · obtain ⟨t, translated, ok⟩ := bind_eq_ok.mp ok
      have instret := translate_instret translated
      split at ok
      · cases ok
        exact ⟨(trap_instret ..).trans instret, rfl, id⟩
      · obtain ⟨⟨jj, j', c⟩, obtained, ok⟩ := bind_eq_ok.mp ok
        cases ok
        exact ⟨(obtainCode_instret lawful obtained).trans instret, rfl, id⟩

/-- The call counts what the budget says. -/
theorem enter_counts (lawful : E.Lawful) {j : J} {jj : JITExec} {n : Word} (ok : r.enter E j jj = .ok (r', n)) :
    r'.core.hart.instret = r.core.hart.instret + n ∧ r'.log = r.log ∧ n.toNat ≤ 0x3080 ∧ (r.Fits → r'.Fits) := by
  unfold enter at ok
  obtain ⟨⟨j', after⟩, called, ok⟩ := bind_eq_ok.mp ok
  cases ok
  refine ⟨congrArg (· + _) (lawful.call called), rfl, lawful.budget called rfl, id⟩

/-- What the compiled part of a pass counts. -/
def Dispatched.Counts (r : HartRun J) : Dispatched J → Prop
  | .trapped r' | .interpret r' _ _ => Uncounted r r'
  | .executed r' prev n => prev = r.core.hart.instret ∧ r'.core.hart.instret = prev + n ∧
      r'.log = .retired n.toNat :: r.log ∧ n.toNat ≤ 0x3080 ∧ (r.Fits → r'.Fits)

theorem dispatchCompiled_counts (lawful : E.Lawful) {d : Dispatched J} (ok : r.dispatchCompiled E = .ok d) :
    d.Counts r ∧ ∀ r' prev, d ≠ .executed r' prev 0 := by
  unfold dispatchCompiled at ok
  split at ok
  case h_1 =>
    cases ok
    exact ⟨.refl r, fun _ _ => nofun⟩
  case h_2 j _ =>
    split at ok
    case isFalse =>
      cases ok
      exact ⟨.refl r, fun _ _ => nofun⟩
    case isTrue =>
      have touched := touchWay_uncounted r
      generalize r.touchWay = way at ok touched
      obtain ⟨⟨r₁, found⟩, resolved, ok⟩ := bind_eq_ok.mp ok
      have quiet := touched.trans (resolve_uncounted lawful resolved)
      cases found with
      | none =>
        cases ok
        exact ⟨quiet, fun _ _ => nofun⟩
      | some code =>
        dsimp only at ok
        split at ok
        case isTrue =>
          cases ok
          exact ⟨quiet, fun _ _ => nofun⟩
        case isFalse =>
          obtain ⟨⟨r₂, n⟩, entered, ok⟩ := bind_eq_ok.mp ok
          obtain ⟨instret, log, small, fits⟩ := enter_counts lawful entered
          dsimp only at ok
          split at ok
          case isTrue some =>
            cases ok
            refine ⟨⟨quiet.instret, instret, congrArg _ (log.trans quiet.log), small, fits ∘ quiet.fits⟩, ?_⟩
            intro _ _ none
            cases none
            exact some rfl
          case isFalse none =>
            cases ok
            refine ⟨⟨instret.trans ?_, log.trans quiet.log, fits ∘ quiet.fits⟩, fun _ _ => nofun⟩
            rw [not_not.mp none, quiet.instret]
            exact BitVec.add_zero _

end Compiled

/-! ## The interpreter -/

section Interpreter

variable {r r' : HartRun J} {c c' : Core}

theorem collectInstrs_spec {pcVa : Word}
    (ok : collectInstrs c pcVa n = .ok (c', instrs)) : c'.hart.instret = c.hart.instret ∧ instrs.length ≤ n := by
  induction n generalizing c pcVa instrs with
  | zero =>
    cases ok
    exact ⟨rfl, Nat.le_refl 0⟩
  | succ n ih =>
    obtain ⟨f, fetched, ok⟩ := bind_eq_ok.mp ok
    have instret : f.core.hart.instret = c.hart.instret := by rw [fetchInstruction_hart fetched]
    dsimp only at ok
    split at ok
    case isTrue =>
      cases ok
      exact ⟨instret, Nat.zero_le _⟩
    case isFalse =>
      split at ok
      case isTrue =>
        cases ok
        exact ⟨instret, Nat.succ_le_succ (Nat.zero_le n)⟩
      case isFalse =>
        obtain ⟨⟨c₁, rest⟩, collected, ok⟩ := bind_eq_ok.mp ok
        cases ok
        obtain ⟨same, short⟩ := ih collected
        exact ⟨same.trans instret, Nat.succ_le_succ short⟩

theorem markExecuted_instret (pages : List Word) (c : Core) :
    (pages.foldl Core.markExecuted c).hart.instret = c.hart.instret := by
  induction pages generalizing c with
  | nil => rfl
  | cons page rest ih => exact ih _

theorem put_fits {b : Block} {i : Nat} (fits : ∀ slot, (bc.slots slot).instrs.length ≤ blockMaxInsts)
    (short : b.instrs.length ≤ blockMaxInsts) (slot : Nat) :
    ((bc.put i b).slots slot).instrs.length ≤ blockMaxInsts := by
  change (Function.update bc.slots i b slot).instrs.length ≤ _
  by_cases same : slot = i
  · rw [same, Function.update_self]
    exact short
  · rw [Function.update_of_ne same]
    exact fits slot

theorem compileBlock_spec {built : Compiled} (ok : compileBlock c bc phys = .ok built) :
    built.core.hart.instret = c.hart.instret ∧ ((∀ slot, (bc.slots slot).instrs.length ≤ blockMaxInsts) →
      ∀ slot, (built.cache.slots slot).instrs.length ≤ blockMaxInsts) := by
  obtain ⟨⟨c₁, instrs⟩, collected, ok⟩ := bind_eq_ok.mp ok
  obtain ⟨instret, short⟩ := collectInstrs_spec collected
  dsimp only at ok
  split at ok
  · cases ok
    exact ⟨instret, fun fits => put_fits fits (fits _)⟩
  · cases ok
    exact ⟨(markExecuted_instret ..).trans instret, fun fits => put_fits fits short⟩

theorem selectBlock_uncounted {memoWay block : Option Nat}
    (ok : r.selectBlock phys memoWay = .ok (r', block)) : Uncounted r r' := by
  unfold selectBlock at ok
  dsimp only at ok
  split at ok
  case h_1 =>
    cases ok
    exact .refl r
  case h_2 =>
    split at ok
    case h_1 =>
      obtain ⟨found, same, ok⟩ := bind_eq_ok.mp ok
      cases same
      split at ok <;> cases ok <;> exact ⟨rfl, rfl, id⟩
    case h_2 =>
      obtain ⟨built, compiled, ok⟩ := bind_eq_ok.mp ok
      obtain ⟨instret, fits⟩ := compileBlock_spec compiled
      obtain ⟨found, same, ok⟩ := bind_eq_ok.mp ok
      cases same
      split at ok <;> cases ok <;> exact ⟨instret, rfl, fits⟩

theorem runInstrs_counts {ran : BlockRun} (ok : runInstrs bus c n instrs = .ok ran) :
    ran.core.hart.instret = c.hart.instret ∧ ran.executed ≤ n + instrs.length ∧
      (ran.fault = none → n < ran.executed) := by
  induction instrs generalizing c n with
  | nil => cases ok
  | cons i rest ih =>
    obtain ⟨out, executed, ok⟩ := bind_eq_ok.mp ok
    have kept := (singleInst_bookkept executed).instret
    split at ok
    case isTrue =>
      cases ok
      exact ⟨kept, Nat.le_add_right .., nofun⟩
    case isFalse =>
      dsimp only at ok
      split at ok
      case isTrue =>
        cases ok
        exact ⟨kept, by simp, fun _ => Nat.lt_succ_self n⟩
      case isFalse =>
        obtain ⟨instret, short, moves⟩ := ih ok
        exact ⟨instret.trans kept, by simp only [List.length_cons]; omega, Nat.lt_of_succ_lt ∘ moves⟩

theorem beginTick_instret (h : Hart) : h.beginTick.instret = h.instret := by
  unfold Hart.beginTick
  dsimp only
  split
  · exact checkInts_instret ..
  · rfl

theorem tick_instret (ok : tick bus c = .ok c') :
    c'.hart.instret = c.hart.instret ∨ c'.hart.instret = c.hart.instret + 1 := by
  have begun : (c.mapHart Hart.beginTick).hart.instret = c.hart.instret := beginTick_instret c.hart
  unfold tick at ok
  dsimp only at ok
  split at ok
  · cases ok
    left
    split
    · exact begun
    · exact begun
  · rw [← begun]
    exact (executeOne_bookkept ok).1

end Interpreter

/-! ## Passes -/

section Passes

variable {r r' r'' : HartRun J}

/-- A pass after its first look. -/
structure Works (r r' : HartRun J) : Prop where
  worked : Worked r.core.hart.instret r.log r'.core.hart.instret r'.log
  fits : r'.Fits

theorem Works.after (quiet : Uncounted r r') (works : Works r' r'') : Works r r'' := by
  refine ⟨?_, works.fits⟩
  rw [← quiet.instret, ← quiet.log]
  exact works.worked

theorem Uncounted.trapped (quiet : Uncounted r r') (fits : r.Fits) (cause : Nat) (tval : Word) :
    Works r (r'.trap cause tval) := by
  have instret : (r'.trap cause tval).core.hart.instret = r.core.hart.instret := (trap_instret ..).trans quiet.instret
  refine ⟨?_, quiet.fits fits⟩
  rw [instret, show (r'.trap cause tval).log = r.log from quiet.log]
  exact .trapped

theorem tickOnce_works (fits : r.Fits) (ok : r.tickOnce bus = .ok r') : Works r r' := by
  obtain ⟨c, ticked, ok⟩ := bind_eq_ok.mp ok
  cases ok
  have log : (if r.core.hart.instret &&& 0x2FFF = 0 then r.note .polled else r).log =
      looked r.core.hart.instret r.log := by
    unfold looked
    split <;> rfl
  have cache : (if r.core.hart.instret &&& 0x2FFF = 0 then r.note .polled else r).cache = r.cache := by
    split <;> rfl
  generalize (if r.core.hart.instret &&& 0x2FFF = 0 then r.note .polled else r) = seen at log cache
  refine ⟨?_, fun slot => ?_⟩
  · change Worked _ _ c.hart.instret (.retired (c.hart.instret - r.core.hart.instret).toNat :: seen.log)
    rw [log]
    rcases tick_instret ticked with same | next
    · have none : (c.hart.instret - r.core.hart.instret).toNat = 0 := by simp [same]
      have ended : c.hart.instret = r.core.hart.instret + BitVec.ofNat 64 0 := by simp [same]
      rw [none, ended]
      exact .ticked 0 (by decide)
    · have one : (c.hart.instret - r.core.hart.instret).toNat = 1 := by
        rw [next]
        bv_omega
      rw [one, next]
      exact .ticked 1 (by decide)
  · change (seen.cache.slots slot).instrs.length ≤ _
    rw [cache]
    exact fits slot

theorem poll_instret (r : HartRun J) : r.poll.1.core.hart.instret = r.core.hart.instret := by
  change (if r.core.hart.ip &&& r.core.hart.ie ≠ 0 then r.core.hart.checkInts else r.core.hart).instret = _
  split
  · exact checkInts_instret ..
  · rfl

theorem pollAfter_works (small : n ≤ 0x3080) (fits : r'.Fits)
    (instret : r'.core.hart.instret = r.core.hart.instret + BitVec.ofNat 64 n) (log : r'.log = .retired n :: r.log) :
    Works r (r'.pollAfter r.core.hart.instret (BitVec.ofNat 64 n)).1 := by
  unfold pollAfter
  split
  case isTrue =>
    refine ⟨?_, fits⟩
    rw [poll_instret, instret, show r'.poll.1.log = .polled :: r'.log from rfl, log]
    exact .seen n small
  case isFalse early =>
    refine ⟨?_, fits⟩
    rw [instret, log]
    exact .unseen n small early

/-- A pass counts at most a chain of compiled code, and something if the loop goes on. -/
def Adds (total : Word) (t : Turn J) : Prop :=
  ∃ n ≤ 0x3080, t.total = total + BitVec.ofNat 64 n ∧ (t.more = true → n ≠ 0)

theorem Adds.nothing {total : Word} : Adds total ⟨r, total, false⟩ := ⟨0, by decide, (BitVec.add_zero _).symm, nofun⟩

theorem interpretAt_works {total phys : Word} {memoWay : Option Nat} {t : Turn J} (fits : r.Fits)
    (ok : r.interpretAt bus total phys memoWay = .ok t) : Works r t.run ∧ Adds total t := by
  unfold interpretAt at ok
  obtain ⟨⟨r₁, block⟩, selected, ok⟩ := bind_eq_ok.mp ok
  have quiet := selectBlock_uncounted selected
  have fits₁ := quiet.fits fits
  apply And.imp_left (Works.after quiet)
  dsimp only at ok
  cases block with
  | none =>
    obtain ⟨r₂, ticked, ok⟩ := bind_eq_ok.mp ok
    have works := tickOnce_works fits₁ ticked
    split at ok <;> cases ok
    · exact ⟨works, .nothing⟩
    · exact ⟨works, 1, by decide, rfl, fun _ => by decide⟩
  | some slot =>
    obtain ⟨ran, executed, ok⟩ := bind_eq_ok.mp ok
    obtain ⟨instret, short, moves⟩ := runInstrs_counts executed
    have kept : ran.core.hart.instret = r₁.core.hart.instret := instret
    have small : ran.executed ≤ 0x3080 := by
      have most := fits₁ slot
      have limit : blockMaxInsts = 16 := rfl
      omega
    split at ok
    case h_1 cause tval _ =>
      cases ok
      have ended : (({ r₁ with core := ran.core }.retire (BitVec.ofNat 64 ran.executed)).trap cause
          tval).core.hart.instret =
          r₁.core.hart.instret + BitVec.ofNat 64 ran.executed := (trap_instret ..).trans (congrArg (· + _) kept)
      refine ⟨⟨?_, fits₁⟩, _, small, rfl, nofun⟩
      change Worked _ _ (({ r₁ with core := ran.core }.retire (BitVec.ofNat 64 ran.executed)).trap cause
        tval).core.hart.instret
        (.faulted ran.executed :: r₁.log)
      rw [ended]
      exact .faulted ran.executed
    case h_2 whole =>
      let done := ({ r₁ with core := ran.core }.retire (BitVec.ofNat 64 ran.executed)).note (.retired ran.executed)
      have retired : done.core.hart.instret = r₁.core.hart.instret + BitVec.ofNat 64 ran.executed :=
        congrArg (· + _) kept
      have within : done.Fits := fits₁
      have works := pollAfter_works (r := r₁) small within retired rfl
      rw [← kept] at works
      generalize HartRun.pollAfter _ ran.core.hart.instret (BitVec.ofNat 64 ran.executed) = polled at ok works
      split at ok
      case isTrue =>
        cases ok
        exact ⟨works, _, small, rfl, nofun⟩
      case isFalse =>
        cases ok
        refine ⟨?_, _, small, rfl, fun _ => Nat.ne_of_gt (moves whole)⟩
        -- an empty cache has the same slots
        split
        · exact ⟨works.worked, works.fits⟩
        · exact works

theorem turn_works (lawful : E.Lawful) {maxInsts total : Word} {t : Turn J} (fits : r.Fits)
    (ok : r.turn E bus maxInsts total = .ok t) : Works r t.run ∧ Adds total t := by
  obtain ⟨d, dispatched, ok⟩ := bind_eq_ok.mp ok
  obtain ⟨counts, moves⟩ := dispatchCompiled_counts lawful dispatched
  cases d with
  | trapped r₁ =>
    cases ok
    have quiet : Uncounted r r₁ := counts
    refine ⟨⟨?_, quiet.fits fits⟩, .nothing⟩
    rw [quiet.instret, quiet.log]
    exact .trapped
  | executed r₁ prev n =>
    obtain ⟨rfl, instret, log, small, fits₁⟩ := counts
    cases ok
    have works := pollAfter_works small (fits₁ fits) (by rw [instret, BitVec.ofNat_toNat, BitVec.setWidth_eq]) log
    rw [BitVec.ofNat_toNat, BitVec.setWidth_eq] at works
    refine ⟨works, n.toNat, small, by rw [BitVec.ofNat_toNat, BitVec.setWidth_eq], fun _ none => ?_⟩
    exact moves _ _ (congrArg _ (BitVec.eq_of_toNat_eq none))
  | interpret r₁ phys memoWay =>
    have quiet : Uncounted r r₁ := counts
    cases phys with
    | some phys => exact (interpretAt_works (quiet.fits fits) ok).imp_left (.after quiet)
    | none =>
      obtain ⟨translated, translates, ok⟩ := bind_eq_ok.mp ok
      have instret := translate_instret translates
      have moved : Uncounted r₁ { r₁ with core := translated.core } := ⟨instret, rfl, id⟩
      split at ok
      case isTrue =>
        cases ok
        exact ⟨(quiet.trans moved).trapped fits .., .nothing⟩
      case isFalse => exact (interpretAt_works ((quiet.trans moved).fits fits) ok).imp_left (.after (quiet.trans moved))

theorem look_spec (fits : r.Fits) :
    let top := if r.core.hart.instret &&& 0x2FFF = 0 then r.poll else (r, false)
    top.1.core.hart.instret = r.core.hart.instret ∧ top.1.log = looked r.core.hart.instret r.log ∧ top.1.Fits := by
  unfold looked
  split
  · exact ⟨poll_instret r, rfl, fits⟩
  · exact ⟨rfl, rfl, fits⟩

/-- The loop stops, or there is still something to count. -/
def Proceeds (maxInsts total : Word) (t : Turn J) : Prop :=
  t.total = total ∧ t.more = false ∨ total < maxInsts ∧ Adds total t

/-- Every pass is one of the cadence. -/
theorem iteration_passed (lawful : E.Lawful) {maxInsts total : Word} {t : Turn J} (fits : r.Fits)
    (ok : r.iteration E bus maxInsts total = .ok t) :
    Passed r.core.hart.instret r.log t.run.core.hart.instret t.run.log ∧ t.run.Fits ∧ Proceeds maxInsts total t := by
  unfold iteration at ok
  split at ok
  case isTrue =>
    cases ok
    refine ⟨.inl ⟨?_, rfl⟩, fits, .inl ⟨rfl, rfl⟩⟩
    change (if r.core.hart.intLocalPending then { r.core.hart with wfi := false } else r.core.hart).instret = _
    split <;> rfl
  case isFalse =>
    split at ok
    case isTrue =>
      cases ok
      exact ⟨.inl ⟨rfl, rfl⟩, fits, .inl ⟨rfl, rfl⟩⟩
    case isFalse below =>
      obtain ⟨instret, log, fits₁⟩ := look_spec fits
      generalize (if r.core.hart.instret &&& 0x2FFF = 0 then r.poll else (r, false)) = top at ok instret log fits₁
      dsimp only at ok
      rw [Passed, ← log, ← instret]
      split at ok
      case isTrue =>
        cases ok
        exact ⟨.inr .trapped, fits₁, .inl ⟨rfl, rfl⟩⟩
      case isFalse =>
        obtain ⟨works, adds⟩ := turn_works lawful fits₁ ok
        exact ⟨.inr works.worked, works.fits, .inr ⟨Nat.lt_of_not_le below, adds⟩⟩

end Passes

/-! ## Runs -/

section Runs

variable {r r' : HartRun J} {start : Word}

/-- What has happened by the time of `r'`. -/
structure Follows (start : Word) (r r' : HartRun J) : Prop where
  fits : r'.Fits
  logged : r.log <:+ r'.log
  onTime : OnTime start r.core.hart.instret r.log → NoneFaultsAcross start r'.log →
    OnTime start r'.core.hart.instret r'.log

theorem Follows.trans {r'' : HartRun J} (first : Follows start r r') (second : Follows start r' r'') :
    Follows start r r'' where
  fits := second.fits
  logged := first.logged.trans second.logged
  onTime scheduled whole := second.onTime (first.onTime scheduled (whole.of_suffix second.logged)) whole

theorem iteration_follows (lawful : E.Lawful) {maxInsts total : Word} {t : Turn J} (fits : r.Fits)
    (ok : r.iteration E bus maxInsts total = .ok t) : Follows start r t.run := by
  obtain ⟨passed, fits', -⟩ := iteration_passed lawful fits ok
  exact ⟨fits', passed.suffix, fun scheduled whole => passed.onTime scheduled whole⟩

theorem loop_follows (lawful : E.Lawful) {total' : Word} {fuel : Nat} (fits : r.Fits)
    (ok : r.loop E bus maxInsts fuel total = .ok (some (r', total'))) : Follows start r r' := by
  induction fuel generalizing r total with
  | zero => cases ok
  | succ fuel ih =>
    obtain ⟨t, passed, ok⟩ := bind_eq_ok.mp ok
    have first : Follows start r t.run := iteration_follows lawful fits passed
    split at ok
    case isTrue => exact first.trans (ih first.fits ok)
    case isFalse =>
      cases ok
      exact first

theorem runBlocks_follows (lawful : E.Lawful) (fits : r.Fits)
    (ok : r.runBlocks E bus maxInsts = .ok (some (r', total))) : Follows start r r' := by
  unfold runBlocks at ok
  split at ok
  case isTrue asleep =>
    cases ok
    have woken : r.iteration E bus maxInsts 0 = .ok ⟨r.wake, 0, false⟩ := if_pos asleep
    exact iteration_follows lawful fits woken
  case isFalse => exact loop_follows lawful fits ok

/-- What happens to a hart. -/
inductive Action (J : Type) where
  | call (maxInsts : Word)
  /-- Between two calls devices and other harts may change anything but what this hart has counted. -/
  | world (core : Core) (jctx : Option J)
      (cache : { bc : BlockCache // ∀ slot, (bc.slots slot).instrs.length ≤ blockMaxInsts })

def act (E : JitEngine J) (bus : Bus) (r : HartRun J) : Action J → Option (HartRun J)
  | .call maxInsts =>
    match r.runBlocks E bus maxInsts with
    | .ok (some (r', _)) => some r'
    | _ => none
  | .world core jctx cache =>
    some { r with core := core.mapHart ({ · with instret := r.core.hart.instret }), jctx := jctx, cache := cache }

theorem act_follows (lawful : E.Lawful) {a : Action J} (fits : r.Fits) (taken : act E bus r a = some r') :
    Follows start r r' := by
  cases a with
  | call maxInsts =>
    unfold act at taken
    dsimp only at taken
    split at taken
    case h_1 r₁ total ran =>
      cases taken
      exact runBlocks_follows lawful fits ran
    case h_2 => cases taken
  | world core jctx cache =>
    cases taken
    exact ⟨cache.2, List.suffix_refl _, fun scheduled _ => scheduled⟩

theorem run_follows (lawful : E.Lawful) {actions : List (Action J)} (fits : r.Fits)
    (ran : run (act E bus) r actions = some r') : Follows start r r' := by
  induction actions generalizing r with
  | nil =>
    cases ran
    exact ⟨fits, List.suffix_refl _, fun scheduled _ => scheduled⟩
  | cons a rest ih =>
    obtain ⟨next, taken, later⟩ := run_cons_eq_some.mp ran
    have first : Follows start r next := act_follows lawful fits taken
    exact first.trans (ih first.fits later)

/-- A compiled loop of 128 instructions, the last of which jumps to the first. -/
def spinBlock : CompiledBlock where
  run r := (r.core, .tail 0 r.hctx.entryPc maxInstructions)
  instret _ := rfl
  counted _ := Nat.le_refl _
  advances left := by
    cases left
    decide

/-- An engine that has the loop at every address. -/
def spinEngine : JitEngine CodeCache := { JitEngine.absent with lookup := fun k _ _ _ => (⟨0x1000, 0x1000⟩, k) }

theorem spinEngine_compiles : spinEngine.Compiles where
  salvage found := by cases found
  compile compiled := by
    cases compiled
    rfl

def spinRun : HartRun CodeCache :=
  { (.fresh ⟨{ pc := 0x80000000 }, MemoryMap.empty, {}, [], {}, .nearest⟩ {} : HartRun CodeCache) with
    jctx := some ⟨fun fn => if fn = 0x1000 then some spinBlock else none, fun _ _ => ⟨0, 0, 0, 0⟩⟩ }

end Runs

/-! ## A hart that is never interrupted -/

section Starved

variable {r : HartRun J}

/-- `addi x1, x1, 1` twice, and `ecall`. -/
def faultingBlock (gen smc : Nat) : Block where
  startPhys := 0x80000000
  gen := gen
  smc := smc
  lastInst := 0x73
  instrs := [⟨some 15, .ofInst 0x00108093 immI, 4⟩, ⟨some 15, .ofInst 0x00108093 immI, 4⟩,
    ⟨some 49, .ofInst 0x73 none, 4⟩]

/-- The block is the trap handler itself, and `instret` is odd. -/
structure Starved (r : HartRun J) : Prop where
  awake : r.core.hart.wfi = false
  machine : r.core.hart.mode = .machine
  pc : r.core.hart.pc = 0x80000000
  vector : r.core.hart.csrs Csr.mtvec = 0x80000000
  odd : r.core.hart.instret.getLsbD 0 = true
  interpreted : r.jctx = none
  block : r.cache.slots 0 = faultingBlock r.cache.generation r.core.smc.smcEpoch

/-- One instruction of the block. -/
def counted (c : Core) : Core := ((c.setGpr 1 (c.gpr 1 + 1)).setPc (c.hart.pc + 4)).clearX0

theorem faultingBlock_runs (machine : c.hart.mode = .machine) (gen smc : Nat) :
    runBlock bus c (faultingBlock gen smc) = .ok ⟨counted (counted c.clearX0), 2, some (excEnvCallFromM, 0)⟩ := by
  have last : BlockInstr.exec bus (counted (counted c.clearX0)) ⟨some 49, .ofInst 0x73 none, 4⟩ =
      .ok ⟨⟨false, true, 0, excEnvCallFromM, 0⟩, counted (counted c.clearX0)⟩ := by
    have still : (counted (counted c.clearX0)).hart.mode = .machine := machine
    change execECALL bus (counted (counted c.clearX0)) (.ofInst 0x73 none) = _
    unfold execECALL
    rw [still]
  change (BlockInstr.exec bus (counted (counted c.clearX0)) ⟨some 49, .ofInst 0x73 none, 4⟩ >>= _) = _
  rw [last]
  rfl

theorem Starved.unlooked (starved : Starved r) : r.core.hart.instret &&& 0x2FFF ≠ 0 := by
  intro zero
  have bit := congrArg (BitVec.getLsbD · 0) zero
  have odd := starved.odd
  rw [BitVec.getLsbD_and, odd] at bit
  cases bit

/-- An exception in Machine mode, which goes back to the block. -/
theorem Starved.of_trap (machine : r.core.hart.mode = .machine)
    (vector : r.core.hart.csrs Csr.mtvec = 0x80000000) (odd : r.core.hart.instret.getLsbD 0 = true)
    (interpreted : r.jctx = none) (block : r.cache.slots 0 = faultingBlock r.cache.generation r.core.smc.smcEpoch) :
    Starved (r.trap excEnvCallFromM 0) := by
  have stays : ¬ r.core.hart.delegateToS excEnvCallFromM false = true := by simp [Hart.delegateToS, machine]
  have trapped : (r.trap excEnvCallFromM 0).core.hart = _ := if_neg stays
  refine ⟨?_, ?_, ?_, ?_, ?_, interpreted, block⟩
  all_goals rw [trapped]
  · rfl
  · rfl
  · change Hart.trapVector (r.core.hart.csrs Csr.mtvec) excEnvCallFromM false = _
    rw [vector]
    decide
  · rw [← vector]
    simp [Hart.trapToM, Hart.setCsr, Csr.mtvec, Csr.mepc, Csr.mcause, Csr.mtval]
  · exact odd

theorem Starved.interprets (starved : Starved r) (bus : Bus) :
    ∃ r', r.interpretAt bus 0 0x80000000 none = .ok ⟨r', 2, false⟩ ∧ Starved r' ∧ r'.log = .faulted 2 :: r.log := by
  have slot : BlockCache.lookupSlot 0x80000000 = 0 := by decide
  have found : r.cache.lookup r.core.smc.smcEpoch 0x80000000 = some 0 := by
    unfold BlockCache.lookup
    rw [slot, if_pos]
    refine ⟨?_, ?_, ?_⟩
    all_goals
      rw [starved.block]
      rfl
  have selected : r.selectBlock 0x80000000 none = .ok (r, some 0) := by
    unfold selectBlock
    dsimp only [Option.bind_none]
    rw [found]
    rfl
  let ended : HartRun J := ({ r with core := counted (counted r.core.clearX0) }.retire 2).note (.faulted 2)
  refine ⟨ended.trap excEnvCallFromM 0, ?_, ?_, rfl⟩
  · unfold interpretAt
    rw [selected]
    change (runBlock bus r.core (r.cache.slots 0) >>= _) = _
    rw [starved.block, faultingBlock_runs starved.machine]
    rfl
  · have odd : (r.core.hart.instret + 2).getLsbD 0 = true := by
      have bit := starved.odd
      rw [BitVec.getLsbD, Nat.testBit_zero, decide_eq_true_iff] at bit ⊢
      rw [BitVec.toNat_add]
      change (_ + 2) % 2 ^ 64 % 2 = 1
      omega
    exact .of_trap starved.machine starved.vector odd starved.interpreted starved.block

/-- A call runs the block, takes the exception and returns. -/
theorem Starved.call (starved : Starved r) (E : JitEngine J) (bus : Bus) :
    ∃ r', act E bus r (.call 0x4000) = some r' ∧ Starved r' ∧ r'.log = .faulted 2 :: r.log := by
  have dispatched : r.dispatchCompiled E = .ok (.interpret r none none) := by
    unfold dispatchCompiled
    rw [starved.interpreted]
  have mapped : identityMapped r.core.hart .exec = true := by
    have mode : r.core.hart.getEffectiveMode .exec = .machine := by
      unfold Hart.getEffectiveMode
      rw [if_neg (by simp)]
      exact starved.machine
    rw [identityMapped, mode]
    rfl
  have translated : translate r.core .exec r.core.hart.pc = .ok (translateIdentity r.core r.core.hart.pc) :=
    if_pos mapped
  let r₁ : HartRun J := { r with core := (translateIdentity r.core r.core.hart.pc).core }
  have starved₁ : Starved r₁ :=
    ⟨starved.awake, starved.machine, starved.pc, starved.vector, starved.odd, starved.interpreted, starved.block⟩
  obtain ⟨r', interpreted, starved', log⟩ := starved₁.interprets bus
  have turned : r.turn E bus 0x4000 0 = .ok ⟨r', 2, false⟩ := by
    unfold turn
    rw [dispatched]
    change (translate r.core .exec r.core.hart.pc >>= _) = _
    rw [translated]
    change r₁.interpretAt bus 0 r.core.hart.pc none = _
    rw [starved.pc]
    exact interpreted
  have awake : ¬ r.core.hart.wfi = true := by simp [starved.awake]
  have passed : r.iteration E bus 0x4000 0 = .ok ⟨r', 2, false⟩ := by
    unfold iteration
    rw [if_neg awake, if_neg (by decide), if_neg starved.unlooked]
    exact turned
  refine ⟨r', ?_, starved', log⟩
  have ran : r.runBlocks E bus 0x4000 = .ok (some (r', 2)) := by
    rw [runBlocks, if_neg awake]
    change (r.iteration E bus 0x4000 0 >>= _) = _
    rw [passed]
    rfl
  rw [act, ran]

theorem Starved.calls (starved : Starved r) (E : JitEngine J) (bus : Bus) (n : Nat) :
    ∃ r', run (act E bus) r (List.replicate n (.call 0x4000)) = some r' ∧
      r'.log = List.replicate n (.faulted 2) ++ r.log := by
  induction n generalizing r with
  | zero => exact ⟨r, rfl, rfl⟩
  | succ n ih =>
    obtain ⟨next, called, starved', log⟩ := starved.call E bus
    obtain ⟨r', ran, logged⟩ := ih starved'
    refine ⟨r', run_cons_eq_some.mpr ⟨next, called, ran⟩, ?_⟩
    rw [logged, log, List.replicate_succ', List.append_assoc]
    rfl

/-- One instruction after the start, with its handler at the start of RAM. -/
def starvedRun : HartRun CodeCache :=
  .fresh ⟨{ pc := 0x80000000, instret := 1, csrs := Function.update (fun _ => 0) Csr.mtvec 0x80000000 },
    MemoryMap.empty, {},
    [], {}, .nearest⟩ { slots := fun i => if i = 0 then faultingBlock 1 ({} : SelfMod).smcEpoch else {} }

theorem starvedRun_fits : starvedRun.Fits := by
  intro slot
  change (if slot = 0 then faultingBlock 1 _ else {}).instrs.length ≤ _
  split <;> decide

theorem starvedRun_starved : Starved starvedRun := ⟨rfl, rfl, rfl, by decide, by decide, rfl, rfl⟩

theorem retiredIn_faults (n : Nat) : retiredIn (List.replicate n (.faulted 2)) = n * 2 := by
  induction n with
  | zero => rfl
  | succ n ih =>
    change 2 + retiredIn (List.replicate n (.faulted 2)) = _
    rw [ih]
    omega

end Starved

end HartRun

end Rv64Vm
