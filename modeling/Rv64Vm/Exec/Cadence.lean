import Mathlib.Data.List.Infix
import Rv64Vm.Exec.RunBlocks

/-! # The interrupt cadence

The loop looks at the interrupts when `instret` says so: before a pass when the bits of `0x2FFF`
are zero, and after one that carries `instret` over a boundary. The bits leave out bit 12, but a
multiple of `0x4000` is never carried over unseen, except by a block that faults.
-/

namespace Rv64Vm

open Jit

/-! ## Logs -/

/-- The instructions that retire in an event. -/
def RunEvent.count : RunEvent → Nat
  | .polled => 0
  | .retired n | .faulted n => n

def retiredIn (log : List RunEvent) : Nat := (log.map RunEvent.count).sum

/-- The instructions that have retired since the interrupts were last looked at. -/
def gap : List RunEvent → Nat
  | [] => 0
  | .polled :: _ => 0
  | .retired n :: rest | .faulted n :: rest => n + gap rest

/-- Any `bound` instructions in a row include a look at the interrupts. -/
def PolledWithin (bound : Nat) (log : List RunEvent) : Prop :=
  ∀ window, window <:+: log → .polled ∉ window → retiredIn window < bound

/-- `0x4000 + CHAIN_CADENCE + 128` -/
def pollBound : Nat := 0x4000 + chainCadence.toNat + maxInstructions

section Logs

variable {bound : Nat} {log : List RunEvent} {e : RunEvent}

theorem retiredIn_le_gap {window : List RunEvent} (front : window <+: log) (unpolled : .polled ∉ window) :
    retiredIn window ≤ gap log := by
  induction window generalizing log with
  | nil => exact Nat.zero_le _
  | cons e rest ih =>
    obtain ⟨more, rfl⟩ := front
    have later := ih (List.prefix_append rest more) fun mem => unpolled (.tail _ mem)
    cases e with
    | polled => exact absurd List.mem_cons_self unpolled
    | retired n | faulted n => exact Nat.add_le_add_left later n

theorem PolledWithin.nil (positive : 0 < bound) : PolledWithin bound [] := by
  intro window within _
  rw [List.infix_nil.mp within]
  exact positive

theorem PolledWithin.cons (within : PolledWithin bound log) (small : gap (e :: log) < bound) :
    PolledWithin bound (e :: log) := by
  intro window part unpolled
  rcases List.infix_cons_iff.mp part with front | later
  · exact Nat.lt_of_le_of_lt (retiredIn_le_gap front unpolled) small
  · exact within window later unpolled

end Logs

/-! ## The mask -/

section Mask

variable {p : Word} {n : Nat}

theorem toNat_and_cadence (p : Word) : (p &&& 0x2FFF).toNat + (p &&& 0x1000).toNat = p.toNat % 0x4000 := by
  have apart : (p &&& 0x2FFF) &&& (p &&& 0x1000) = 0#64 :=
    calc (p &&& 0x2FFF) &&& (p &&& 0x1000) = p &&& p &&& (0x2FFF &&& 0x1000) := by ac_rfl
      _ = 0#64 := by simp
  have joined : (p &&& 0x2FFF) + (p &&& 0x1000) = p &&& 0x3FFF := by
    rw [BitVec.add_eq_or_of_and_eq_zero _ _ apart, ← BitVec.and_or_distrib_left]
    rfl
  have low : (p &&& 0x3FFF).toNat = p.toNat % 0x4000 := by
    rw [BitVec.toNat_and]
    exact Nat.and_two_pow_sub_one_eq_mod p.toNat 14
  have first : (p &&& 0x2FFF).toNat ≤ 0x2FFF := by
    rw [BitVec.toNat_and]
    exact Nat.and_le_right
  have second : (p &&& 0x1000).toNat ≤ 0x1000 := by
    rw [BitVec.toNat_and]
    exact Nat.and_le_right
  rw [← low, ← joined, BitVec.toNat_add, Nat.mod_eq_of_lt (by omega)]

/-- A multiple of `0x4000` is seen before the next pass. -/
theorem cadence_zero (boundary : p.toNat % 0x4000 = 0) : p &&& 0x2FFF = 0 := by
  have split := toNat_and_cadence p
  apply BitVec.eq_of_toNat_eq
  change _ = 0
  omega

/-- And one that is reached or carried over, after the pass. -/
theorem cadence_due (small : n ≤ 0x3080) (reached : 0x4000 ≤ p.toNat % 0x4000 + n) :
    (p &&& 0x2FFF) + BitVec.ofNat 64 n ≥ 0x3000 := by
  have split := toNat_and_cadence p
  have second : (p &&& 0x1000).toNat ≤ 0x1000 := by
    rw [BitVec.toNat_and]
    exact Nat.and_le_right
  have first : (p &&& 0x2FFF).toNat ≤ 0x2FFF := by
    rw [BitVec.toNat_and]
    exact Nat.and_le_right
  change 0x3000 ≤ ((p &&& 0x2FFF) + BitVec.ofNat 64 n).toNat
  rw [Lib.toNat_add_ofNat (by omega)]
  omega

end Mask

/-! ## Passes -/

/-- The look at the top of a pass. -/
def looked (p : Word) (log : List RunEvent) : List RunEvent := if p &&& 0x2FFF = 0 then .polled :: log else log

/-- What a pass does to `instret` and the log after that. -/
inductive Worked (p : Word) (log : List RunEvent) : Word → List RunEvent → Prop where
  /-- An interrupt is taken, or the fetch faults. -/
  | trapped : Worked p log p log
  | unseen (n : Nat) (small : n ≤ 0x3080) (early : ¬ (p &&& 0x2FFF) + BitVec.ofNat 64 n ≥ 0x3000) :
      Worked p log (p + BitVec.ofNat 64 n) (.retired n :: log)
  | seen (n : Nat) (small : n ≤ 0x3080) : Worked p log (p + BitVec.ofNat 64 n) (.polled :: .retired n :: log)
  /-- A single step looks again before it. -/
  | ticked (n : Nat) (one : n ≤ 1) : Worked p log (p + BitVec.ofNat 64 n) (.retired n :: looked p log)
  | faulted (n : Nat) : Worked p log (p + BitVec.ofNat 64 n) (.faulted n :: log)

/-- A pass: nothing happens, as the hart sleeps or the limit is reached, or it looks and works. -/
def Passed (p : Word) (log : List RunEvent) (p' : Word) (log' : List RunEvent) : Prop :=
  p' = p ∧ log' = log ∨ Worked p (looked p log) p' log'

/-- No block faults after it has carried `instret` over a multiple of `0x4000`. -/
def NoneFaultsAcross (start : Word) (log : List RunEvent) : Prop :=
  ∀ n before, .faulted n :: before <:+ log → (start.toNat + retiredIn before) % 0x4000 + n ≤ 0x4000

/-- What has retired since the last look has retired since the last multiple of `0x4000`. -/
def Recent (p : Word) (n : Nat) : Prop := n ≤ p.toNat % 0x4000 ∨ p.toNat % 0x4000 = 0 ∧ n ≤ 0x4000

structure OnTime (start p : Word) (log : List RunEvent) : Prop where
  counted : p = start + BitVec.ofNat 64 (retiredIn log)
  recent : Recent p (gap log)
  within : PolledWithin pollBound log

section Passes

variable {start p p' : Word} {log log' : List RunEvent} {n : Nat}

theorem looked_suffix (p : Word) (log : List RunEvent) : log <:+ looked p log := by
  unfold looked
  split
  · exact List.suffix_cons ..
  · exact List.suffix_refl _

theorem Passed.suffix (passed : Passed p log p' log') : log <:+ log' := by
  rcases passed with ⟨-, rfl⟩ | worked
  · exact List.suffix_refl _
  · apply (looked_suffix p log).trans
    cases worked with
    | trapped => exact List.suffix_refl _
    | unseen | faulted => exact List.suffix_cons ..
    | seen => exact (List.suffix_cons ..).trans (List.suffix_cons ..)
    | ticked => exact (looked_suffix ..).trans (List.suffix_cons ..)

theorem retiredIn_looked (p : Word) (log : List RunEvent) : retiredIn (looked p log) = retiredIn log := by
  unfold looked
  split
  · exact Nat.zero_add _
  · rfl

theorem gap_looked (recent : Recent p (gap log)) : gap (looked p log) ≤ p.toNat % 0x4000 := by
  unfold looked
  split
  case isTrue => exact Nat.zero_le _
  case isFalse late => exact recent.resolve_right fun boundary => late (cadence_zero boundary.1)

theorem PolledWithin.polled (within : PolledWithin pollBound log) : PolledWithin pollBound (.polled :: log) :=
  within.cons (show 0 < pollBound by decide)

theorem PolledWithin.looked (within : PolledWithin pollBound log) : PolledWithin pollBound (looked p log) := by
  unfold Rv64Vm.looked
  split
  · exact within.polled
  · exact within

theorem OnTime.looked (onTime : OnTime start p log) : OnTime start p (looked p log) where
  counted := by
    rw [retiredIn_looked]
    exact onTime.counted
  recent := .inl (gap_looked onTime.recent)
  within := onTime.within.looked

theorem toNat_add_mod (p : Word) (n : Nat) : (p + BitVec.ofNat 64 n).toNat % 0x4000 = (p.toNat + n) % 0x4000 := by
  rw [BitVec.toNat_add, BitVec.toNat_ofNat]
  omega

theorem Recent.add {g : Nat} (recent : g ≤ p.toNat % 0x4000) (below : p.toNat % 0x4000 + n ≤ 0x4000) :
    Recent (p + BitVec.ofNat 64 n) (n + g) := by
  rw [Recent, toNat_add_mod]
  omega

theorem counted_add {r : Nat} (counted : p = start + BitVec.ofNat 64 r) :
    p + BitVec.ofNat 64 n = start + BitVec.ofNat 64 (n + r) := by
  rw [counted, BitVec.add_assoc, ← BitVec.ofNat_add, Nat.add_comm]

theorem OnTime.retire {e : RunEvent} (onTime : OnTime start p log) (count : e.count = n)
    (gapped : gap (e :: log) = n + gap log)
    (recent : gap log ≤ p.toNat % 0x4000) (below : p.toNat % 0x4000 + n ≤ 0x4000) :
    OnTime start (p + BitVec.ofNat 64 n) (e :: log) where
  counted := by
    have total : retiredIn (e :: log) = n + retiredIn log := by rw [← count]; rfl
    rw [total]
    exact counted_add onTime.counted
  recent := by
    rw [gapped]
    exact .add recent below
  within := by
    have room : pollBound = 0x7080 := rfl
    exact onTime.within.cons (by omega)

/-- A pass keeps the schedule, if it does not fault across a boundary. -/
theorem Worked.onTime (worked : Worked p log p' log') (onTime : OnTime start p log)
    (recent : gap log ≤ p.toNat % 0x4000)
    (whole : NoneFaultsAcross start log') : OnTime start p' log' := by
  have most := Nat.mod_lt p.toNat (show 0 < 0x4000 by decide)
  cases worked with
  | trapped => exact onTime
  | unseen n small early =>
    have below : p.toNat % 0x4000 + n < 0x4000 := by
      by_contra reached
      exact early (cadence_due small (Nat.le_of_not_lt reached))
    exact onTime.retire rfl rfl recent (Nat.le_of_lt below)
  | seen n small =>
    have total : retiredIn (.polled :: .retired n :: log) = n + retiredIn log := Nat.zero_add _
    have room : pollBound = 0x7080 := rfl
    have gapped : gap (.retired n :: log) = n + gap log := rfl
    refine ⟨?_, .inl (Nat.zero_le _), (onTime.within.cons (by omega)).polled⟩
    rw [total]
    exact counted_add onTime.counted
  | ticked n one => exact onTime.looked.retire rfl rfl (gap_looked onTime.recent) (by omega)
  | faulted n =>
    have position : (start.toNat + retiredIn log) % 0x4000 = p.toNat % 0x4000 := by
      rw [← toNat_add_mod, ← onTime.counted]
    have below := whole n _ (List.suffix_refl _)
    rw [position] at below
    exact onTime.retire rfl rfl recent below

theorem Passed.onTime (passed : Passed p log p' log') (onTime : OnTime start p log)
    (whole : NoneFaultsAcross start log') :
    OnTime start p' log' := by
  rcases passed with ⟨rfl, rfl⟩ | worked
  · exact onTime
  · exact worked.onTime onTime.looked (gap_looked onTime.recent) whole

theorem NoneFaultsAcross.of_suffix (whole : NoneFaultsAcross start log') (part : log <:+ log') :
    NoneFaultsAcross start log :=
  fun n before here => whole n before (here.trans part)

end Passes

end Rv64Vm
