import Rv64Vm.Exec.Polling

/-! # The work loop

`Machine::work` gives each hart a turn of `run_blocks` and ticks the devices once for every `0x1000`
instructions that the turns count. What is left over is kept in 16 bits, which is enough because a
turn runs over its limit by less than a chain of compiled code.
-/

namespace Rv64Vm

open Lib

variable {J : Type} {E : JitEngine J} {bus : Bus}

namespace HartRun

section Returns

variable {r : HartRun J} {maxInsts total : Word} {result : Option (HartRun J × Word)}
variable (lawful : E.Lawful) (fits : r.Fits) (room : maxInsts.toNat + 0x3080 < 2 ^ 64)
include lawful fits room

/-- The passes that the loop is given suffice, as every one but the last counts something. -/
theorem loop_returns {fuel : Nat} (positive : 0 < fuel) (enough : maxInsts.toNat < total.toNat + fuel)
    (within : total.toNat < maxInsts.toNat + 0x3080) (ok : r.loop E bus maxInsts fuel total = .ok result) :
    ∃ r' total', result = some (r', total') ∧ r'.Fits ∧ total'.toNat < maxInsts.toNat + 0x3080 := by
  induction fuel generalizing r total with
  | zero => cases positive
  | succ fuel ih =>
    obtain ⟨t, passed, ok⟩ := bind_eq_ok.mp ok
    obtain ⟨-, fits₁, ⟨same, stops⟩ | ⟨below, n, most, sum, moves⟩⟩ := iteration_passed lawful fits passed
    · rw [stops] at ok
      cases ok
      exact ⟨_, _, rfl, fits₁, same ▸ within⟩
    · have below : total.toNat < maxInsts.toNat := below
      have whole : t.total.toNat = total.toNat + n := by
        rw [sum, BitVec.toNat_add, BitVec.toNat_ofNat]
        omega
      split at ok
      case isTrue more =>
        have counts := moves more
        exact ih fits₁ (by omega) (by omega) (by omega) ok
      case isFalse =>
        cases ok
        exact ⟨_, _, rfl, fits₁, by omega⟩

theorem runBlocks_returns (ok : r.runBlocks E bus maxInsts = .ok result) :
    ∃ r' total, result = some (r', total) ∧ r'.Fits ∧ total.toNat < maxInsts.toNat + 0x3080 := by
  have start : (0 : Word).toNat < maxInsts.toNat + 0x3080 := Nat.add_pos_right _ (by decide)
  unfold runBlocks at ok
  split at ok
  case isTrue =>
    cases ok
    exact ⟨_, _, rfl, fits, start⟩
  case isFalse =>
    exact loop_returns lawful fits room (Nat.succ_pos _) (Nat.lt_add_left _ (Nat.lt_succ_self _)) start ok

end Returns

/-- The other hart sees what this one has left behind. -/
def share (r other : HartRun J) : HartRun J :=
  { other with
    core := { r.core with hart := other.core.hart }
    jctx := r.jctx
    cache := r.cache
    dhotTick := r.dhotTick }

end HartRun

/-- The harts and `dev_tick_time`; beside them how much has been counted, and how often the devices were ticked. -/
structure Machine (J : Type) where
  harts : List (HartRun J)
  devTickTime : BitVec 16 := 0
  counted : Nat := 0
  ticks : Nat := 0

namespace Machine

section Steps

variable (E : JitEngine J) (bus : Bus) (tickAll : Nat → HartRun J → Core)

/-- `while(dev_tick_time >= 0x1000)`, for at most `fuel` passes; `tickAll` is what each tick makes of a hart. -/
def drain : Nat → Machine J → Machine J
  | 0, m => m
  | fuel + 1, m =>
    if 0x1000 ≤ m.devTickTime then
      drain fuel
        { m with
          harts := m.harts.map fun r => { r with core := tickAll m.ticks r }
          devTickTime := m.devTickTime - 0x1000
          ticks := m.ticks + 1 }
    else m

/-- `dev_tick_time += count`, and the ticks that are due. -/
def advance (fuel : Nat) (count : Word) (m : Machine J) : Machine J :=
  drain tickAll fuel
    { m with devTickTime := m.devTickTime + count.setWidth 16, counted := m.counted + count.toNat }

/-- What `work` does over and over while the machine runs: `devices`, then `hart 0`, `hart 1` and so on. -/
inductive WorkStep where
  | devices
  | hart (i : Nat)

def work (m : Machine J) : WorkStep → Option (Machine J)
  | .devices => some (m.advance tickAll 1 256)
  | .hart i =>
    match m.harts[i]? with
    | none => some m
    | some r =>
      match r.runBlocks E bus 0x4000 with
      | .ok (some (r', total)) =>
        let m := { m with harts := (m.harts.map r'.share).set i r' }
        -- an idle hart does not starve the devices; 16 bits hold no more than 15 ticks
        some (m.advance tickAll 15 (if total = 0 then 256 else total))
      | _ => none

end Steps

/-- Nothing is lost: what has been counted has been ticked or is still to come. -/
structure Exact (m : Machine J) : Prop where
  fits : ∀ r ∈ m.harts, r.Fits
  sum : m.ticks * 0x1000 + m.devTickTime.toNat = m.counted

/-- It is less than a tick. -/
structure Settled (m : Machine J) : Prop extends m.Exact where
  rest : m.devTickTime.toNat < 0x1000

variable {tickAll : Nat → HartRun J → Core} {m m' : Machine J}

theorem toNat_sub_tick {time : BitVec 16} (due : 0x1000 ≤ time) : 0x1000 + (time - 0x1000).toNat = time.toNat := by
  bv_omega

theorem Exact.drain (account : m.Exact) {fuel : Nat} (enough : m.devTickTime.toNat < 0x1000 * (fuel + 1)) :
    (m.drain tickAll fuel).Settled := by
  induction fuel generalizing m with
  | zero => exact ⟨account, enough⟩
  | succ fuel ih =>
    unfold Machine.drain
    split
    case isTrue due =>
      have time := toNat_sub_tick due
      generalize m.devTickTime - 0x1000 = later at time ⊢
      refine ih ⟨fun r listed => ?_, ?_⟩ ?_
      · obtain ⟨q, old, rfl⟩ := List.mem_map.mp listed
        exact account.fits q old
      · change (m.ticks + 1) * 0x1000 + later.toNat = m.counted
        rw [Nat.add_one_mul, Nat.add_assoc, time, account.sum]
      · change later.toNat < _
        omega
    case isFalse early => exact ⟨account, Nat.lt_of_not_le early⟩

/-- The 16 bits do not overflow. -/
theorem Settled.advance (settled : m.Settled) {fuel : Nat} {count : Word} (small : count.toNat < 0x7080)
    (enough : count.toNat < 0x1000 * fuel) : (m.advance tickAll fuel count).Settled := by
  have rest := settled.rest
  have sum := settled.sum
  have time : (m.devTickTime + count.setWidth 16).toNat = m.devTickTime.toNat + count.toNat := by
    rw [BitVec.toNat_add, BitVec.toNat_setWidth]
    omega
  apply Exact.drain
  · refine ⟨settled.fits, ?_⟩
    dsimp only
    omega
  · dsimp only
    omega

theorem work_settled (lawful : E.Lawful) {step : WorkStep} (done : m.work E bus tickAll step = some m')
    (settled : m.Settled) : m'.Settled := by
  unfold work at done
  split at done
  case h_1 =>
    cases done
    exact settled.advance (by decide) (by decide)
  case h_2 i =>
    split at done
    case h_1 =>
      cases done
      exact settled
    case h_2 r found =>
      split at done
      case h_2 => cases done
      case h_1 r' total ran =>
        cases done
        obtain ⟨_, _, same, fits, within⟩ :=
          HartRun.runBlocks_returns lawful (settled.fits r (List.mem_of_getElem? found)) (by decide) ran
        cases same
        have shared : Settled { m with harts := (m.harts.map r'.share).set i r' } := by
          refine ⟨⟨fun q listed => ?_, settled.sum⟩, settled.rest⟩
          rcases List.mem_or_eq_of_mem_set listed with other | rfl
          · obtain ⟨_, _, rfl⟩ := List.mem_map.mp other
            exact fits
          · exact fits
        have small : (if total = 0 then 256 else total : Word).toNat < 0x7080 := by
          split
          · decide
          · exact within
        exact shared.advance small (small.trans (by decide))

/-- After any steps the devices have been ticked once for every `0x1000` instructions,
    and no turn can go on for ever. -/
theorem ticked_in_time (lawful : E.Lawful) (steps : List WorkStep) (settled : m.Settled)
    (ran : run (work E bus tickAll) m steps = some m') :
    m'.ticks = m'.counted / 0x1000 ∧ m'.devTickTime.toNat = m'.counted % 0x1000 ∧
      ∀ r ∈ m'.harts, r.runBlocks E bus 0x4000 ≠ .ok none := by
  have after : m'.Settled := run_invariant_of_step (fun _ _ _ => work_settled lawful) settled ran
  have rest := after.rest
  have sum := after.sum
  refine ⟨by omega, by omega, fun r listed stuck => ?_⟩
  obtain ⟨_, _, same, -⟩ := HartRun.runBlocks_returns lawful (after.fits r listed) (by decide) stuck
  cases same

/-- A hart in a compiled loop. -/
def spinning : Machine Jit.CodeCache where
  harts := [HartRun.spinRun]

/-- A pass over the devices, which counts 256, and a turn of `0x6100` instructions: six ticks. -/
theorem spinning_ticked : ∃ m', run (work HartRun.spinEngine.chained Bus.empty fun _ r => r.core) spinning
      [.devices, .hart 0] = some m' ∧
    m'.counted = 0x6200 ∧ m'.ticks = 6 ∧ m'.ticks = m'.counted / 0x1000 ∧ m'.devTickTime.toNat = 0x200 := by
  have counted : (run (work HartRun.spinEngine.chained Bus.empty fun _ r => r.core) spinning [.devices, .hart 0]).map
      (·.counted) = some 0x6200 := by decide +kernel
  obtain ⟨m', ran, counted⟩ := Option.map_eq_some_iff.mp counted
  have fits : ∀ r ∈ spinning.harts, r.Fits := by
    intro r listed slot
    cases List.mem_singleton.mp listed
    exact Nat.zero_le _
  obtain ⟨ticks, rest, -⟩ := ticked_in_time HartRun.spinEngine_compiles.chained _ ⟨⟨fits, rfl⟩, by decide⟩ ran
  exact ⟨m', ran, counted, by rw [ticks, counted], ticks, by rw [rest, counted]⟩

end Machine

end Rv64Vm
