import Rv64Vm.Devices.PlicLines
import Rv64Vm.Lib.Results

/-! # The service of a source

From the claim that returns a source to the complete that names it, a gateway holds back
further requests of the source and does not forget them. This controller has no gateway
state beside the pending bit, and `complete_interrupt` clears that bit.
-/

namespace Rv64Vm

open Lib

namespace Plic

variable {p q : Plic} {s : BitVec 32} {op : Op}

/-- The source that an operation claims, 0 if it is no claim or finds none. -/
def claimed (p : Plic) : Op → Nat
  | .read addr size =>
    match p.register (addr - p.start).toNat with
    | .claimComplete ctx => if size = 4 then p.findHighestPendingEnabled ctx else 0
    | _ => 0
  | _ => 0

/-- The operation is a complete of the source. -/
def Completes (p : Plic) (s : BitVec 32) : Op → Prop
  | .write addr size value =>
    size = 4 ∧ (∃ ctx, p.register (addr - p.start).toNat = .claimComplete ctx) ∧ value.setWidth 32 = s
  | _ => False

/-- A claim that returns `s`, the operations `between` it and the complete of `s`. -/
structure Service (s : BitVec 32) (p p₁ : Plic) (between : List Op) (done : Plic) : Prop where
  claim : ∃ op, p.claimed op = s.toNat ∧ p.next op = some p₁
  source : s ≠ 0
  first : ∀ op ∈ between, ¬ p₁.Completes s op
  complete : ∃ p₂ op, run next p₁ between = some p₂ ∧ p₂.Completes s op ∧ p₂.next op = some done

/-- A device raises the source and does not lower it again. -/
def Standing (s : BitVec 32) (ops : List Op) : Prop :=
  ∃ before after, ops = before ++ .setPending s true :: after ∧ .setPending s false ∉ after

/-- The source will be delivered: a context that it may interrupt claims it, or
    another of at least its priority. -/
def Delivered (p : Plic) (s : Nat) : Prop :=
  p.Pending s ∧ ∀ ctx, p.Enabled ctx s → (p.contexts ctx).threshold.toNat < p.priority s →
    p.findHighestPendingEnabled ctx ≠ 0 ∧ p.priority s ≤ p.priority (p.findHighestPendingEnabled ctx)

/-- A request made during the service is delivered after it, and no claim during the service
    returns the source. -/
structure NothingLost (s : BitVec 32) (p₁ : Plic) (between : List Op) (done : Plic) : Prop where
  delivered : Standing s between → done.Delivered s.toNat
  held : ∀ before op after q, between = before ++ op :: after → run next p₁ before = some q → q.claimed op ≠ s.toNat

/-! ## The pending bit -/

theorem pending_withPending {id t : Nat} {b : Bool} :
    (p.withPending id b).Pending t ↔ if t = id then id / 32 < p.wordsCount ∧ b = true else p.Pending t := by
  have count : (p.withPending id b).wordsCount = p.wordsCount := rfl
  have word : (p.withPending id b).pendingWords (t / 32) =
      if t / 32 = id / 32 then putFlag (p.pendingWords (id / 32)) (id % 32) b else p.pendingWords (t / 32) :=
    Function.update_apply ..
  have small : t % 32 < 32 := Nat.mod_lt _ (by decide)
  rw [Pending, count, word]
  by_cases quotient : t / 32 = id / 32
  · rw [if_pos quotient, getLsbD_putFlag _ _ _ small]
    by_cases same : t = id
    · rw [if_pos same, if_pos (by rw [same]), same]
    · have remainder : t % 32 ≠ id % 32 := by omega
      rw [if_neg remainder, if_neg same, Pending, quotient]
  · have other : t ≠ id := by
      rintro rfl
      exact quotient rfl
    rw [if_neg quotient, if_neg other, Pending]

/-- Only the device's own request makes a source pending. -/
theorem pending_of_next (stepped : p.next op = some q) (pending : q.Pending s.toNat) :
    p.Pending s.toNat ∨ op = .setPending s true := by
  rw [next_eq_some, step_eq_effect] at stepped
  obtain ⟨⟨r, l⟩, done, rfl⟩ := map_eq_ok.mp stepped
  rw [(updates_same r l).pending_iff] at pending
  have lowered {id : Nat} (after : (p.withPending id false).Pending s.toNat) : p.Pending s.toNat := by
    rw [pending_withPending] at after
    by_cases same : s.toNat = id
    · rw [if_pos same] at after
      cases after.2
    · rwa [if_neg same] at after
  cases effect_change done with
  | none | priority | enables | threshold => exact .inl pending
  | lowered => exact .inl (lowered pending)
  | @request id level asked =>
    cases level with
    | false => exact .inl (lowered pending)
    | true =>
      rw [pending_withPending] at pending
      by_cases same : s.toNat = id.toNat
      · rw [BitVec.eq_of_toNat_eq same]
        exact .inr asked
      · rw [if_neg same] at pending
        exact .inl pending

theorem pending_of_run {ops : List Op} (silent : .setPending s true ∉ ops) (ran : run next p ops = some q)
    (pending : q.Pending s.toNat) : p.Pending s.toNat := by
  induction ops generalizing p with
  | nil =>
    cases ran
    exact pending
  | cons op ops ih =>
    obtain ⟨r, stepped, ran⟩ := run_cons_eq_some.mp ran
    rcases pending_of_next stepped (ih (fun later => silent (List.mem_cons_of_mem _ later)) ran) with before | raised
    · exact before
    · exact absurd (raised ▸ List.mem_cons_self) silent

/-- What is claimed was eligible in some context. -/
theorem eligible_of_claimed {t : Nat} (claim : p.claimed op = t) (source : t ≠ 0) : ∃ ctx, p.Eligible ctx t := by
  have found {ctx : Nat} (value : p.findHighestPendingEnabled ctx = t) : p.Eligible ctx t := by
    rcases p.findHighest_spec ctx with ⟨zero, -⟩ | ⟨eligible, -⟩
    · exact absurd (value.symm.trans zero) source
    · exact value ▸ eligible
  cases op with
  | read addr size =>
    simp only [claimed] at claim
    split at claim
    · split at claim
      · exact ⟨_, found claim⟩
      · exact absurd claim.symm source
    · exact absurd claim.symm source
  | setPending | write => exact absurd claim.symm source

/-- A claim takes the pending bit with it. -/
theorem not_pending_of_claim (claim : p.claimed op = s.toNat) (source : s ≠ 0) (stepped : p.next op = some q) :
    ¬ q.Pending s.toNat := by
  have positive : s.toNat ≠ 0 := fun zero => source (BitVec.eq_of_toNat_eq zero)
  rw [next_eq_some, step_eq_effect] at stepped
  obtain ⟨⟨r, l⟩, done, rfl⟩ := map_eq_ok.mp stepped
  rw [(updates_same r l).pending_iff]
  cases op with
  | read addr size =>
    simp only [claimed] at claim
    split at claim
    case h_1 ctx selected =>
      split at claim
      case isTrue word =>
        have found : p.findHighestPendingEnabled ctx ≠ 0 := claim ▸ positive
        simp only [effect, word, ne_eq, not_true_eq_false, if_false, selected, if_pos found] at done
        cases done
        rw [pending_withPending, claim, if_pos rfl]
        exact fun both => Bool.false_ne_true both.2
      case isFalse => exact absurd claim.symm positive
    case h_2 => exact absurd claim.symm positive
  | setPending | write => exact absurd claim.symm positive

theorem not_pending_of_complete (complete : p.Completes s op) (source : s ≠ 0) (inRange : s.toNat ≤ p.maxSources.toNat)
    (stepped : p.next op = some q) : ¬ q.Pending s.toNat := by
  have positive : s.toNat ≠ 0 := fun zero => source (BitVec.eq_of_toNat_eq zero)
  rw [next_eq_some, step_eq_effect] at stepped
  obtain ⟨⟨r, l⟩, done, rfl⟩ := map_eq_ok.mp stepped
  rw [(updates_same r l).pending_iff]
  cases op with
  | write addr size value =>
    obtain ⟨word, ⟨ctx, selected⟩, named⟩ := complete
    have valid : ¬ (s.toNat = 0 ∨ s.toNat > p.maxSources.toNat) := by omega
    simp only [effect, word, ne_eq, not_true_eq_false, if_false, selected, named, if_neg valid] at done
    split_ifs at done
    cases done
    rw [pending_withPending, if_pos rfl]
    exact fun both => Bool.false_ne_true both.2
  | setPending | read => exact complete.elim

theorem maxSources_of_next (stepped : p.next op = some q) : q.maxSources = p.maxSources := by
  rw [next_eq_some, step_eq_effect] at stepped
  obtain ⟨⟨r, l⟩, done, rfl⟩ := map_eq_ok.mp stepped
  rw [(updates_same r l).maxSources]
  exact (effect_touches done).maxSources

theorem maxSources_of_run {ops : List Op} (ran : run next p ops = some q) : q.maxSources = p.maxSources :=
  run_invariant_of_step (I := fun r => r.maxSources = p.maxSources)
    (fun _ _ _ stepped same => (maxSources_of_next stepped).trans same) rfl ran

/-- A service loses nothing if the source is quiet during it; a request that stands at its
    end is lost. -/
theorem service_loses_nothing (s : BitVec 32) (p p₁ done : Plic) (between : List Op)
    (service : Service s p p₁ between done) :
    (.setPending s true ∉ between → NothingLost s p₁ between done) ∧
      (NothingLost s p₁ between done → ¬ Standing s between) := by
  obtain ⟨⟨claim, returned, taken⟩, source, -, p₂, complete, ran, completes, finished⟩ := service
  have positive : s.toNat ≠ 0 := fun zero => source (BitVec.eq_of_toNat_eq zero)
  have cleared := not_pending_of_claim returned source taken
  constructor
  · intro silent
    refine ⟨?_, ?_⟩
    · rintro ⟨before, after, rfl, -⟩
      exact absurd (List.mem_append_right _ List.mem_cons_self) silent
    · rintro before op after q rfl reached again
      obtain ⟨ctx, eligible⟩ := eligible_of_claimed again positive
      exact cleared (pending_of_run (fun listed => silent (List.mem_append_left _ listed)) reached eligible.pending)
  · intro kept standing
    obtain ⟨ctx, eligible⟩ := eligible_of_claimed returned positive
    have inRange : s.toNat ≤ p₂.maxSources.toNat := by
      rw [maxSources_of_run ran, maxSources_of_next taken]
      exact eligible.inRange
    exact not_pending_of_complete completes source inRange finished (kept.delivered standing).1

theorem next_claim {addr : Word} {ctx : Nat} (selected : p.register (addr - p.start).toNat = .claimComplete ctx) :
    p.claimed (.read addr 4) = p.findHighestPendingEnabled ctx ∧
    p.next (.read addr 4) = some (p.claimInterrupt ctx).2 := by
  constructor
  · simp only [claimed, selected, if_true]
  · simp only [next, step, read, selected, ne_eq, not_true_eq_false, if_false]
    rfl

theorem next_complete {addr value : Word} {ctx : Nat}
    (selected : p.register (addr - p.start).toNat = .claimComplete ctx) :
    p.next (.write addr 4 value) = (p.completeInterrupt ctx (value.setWidth 32)).toOption := by
  simp only [next, step, write, selected, ne_eq, not_true_eq_false, if_false]

/-- The source of `oneSource`, enabled in the first context and pending. -/
def requested : Plic :=
  { oneSource with
    priorities := fun i => if i = 1 then 1 else 0
    pendingWords := fun i => if i = 0 then 2 else 0
    contexts := fun c => if c = 0 then { enables := fun i => if i = 0 then 2 else 0, interruptLine := true } else {}
    ip := fun _ => 0x800 }

/-- `requested` after the claim. -/
def inService : Plic := (requested.claimInterrupt 0).2

theorem requested_claim : requested.claimed (.read 0x0C200004#64 4) = 1 ∧
    requested.next (.read 0x0C200004#64 4) = some inService := by
  have selected : requested.register ((0x0C200004#64 : Word) - requested.start).toNat = .claimComplete 0 := by decide
  obtain ⟨returned, stepped⟩ := next_claim selected
  have found : requested.findHighestPendingEnabled 0 = 1 := by decide
  exact ⟨returned.trans found, stepped⟩

theorem service_of_run {between : List Op} {p₂ done : Plic}
    (first : ∀ op ∈ between, ¬ inService.Completes 1 op) (ran : run next inService between = some p₂)
    (selected : p₂.register ((0x0C200004#64 : Word) - p₂.start).toNat = .claimComplete 0)
    (finished : p₂.completeInterrupt 0 1 = .ok done) : Service 1 requested inService between done where
  claim := ⟨.read 0x0C200004#64 4, requested_claim⟩
  source := by decide
  first := first
  complete := ⟨p₂, .write 0x0C200004#64 4 1, ran, ⟨rfl, ⟨0, selected⟩, rfl⟩,
    (next_complete selected).trans (congrArg Except.toOption finished)⟩

/-- While its source is in service the device lowers the request and the hart claims again. -/
def secondClaim : List Op := [.setPending 1 false, .read 0x0C200004#64 4]

/-- `inService` after `secondClaim`. -/
def claimedTwice : Plic := ((inService.withPending 1 false).updateAllContexts.claimInterrupt 0).2

theorem service_with_second_claim :
    ∃ done, Service 1 requested inService secondClaim done ∧ NothingLost 1 inService secondClaim done := by
  have alone : ∀ op ∈ secondClaim, ¬ inService.Completes 1 op := by
    simp only [secondClaim, List.forall_mem_cons, Completes, not_false_eq_true, true_and]
    exact nofun
  have ran : run next inService secondClaim = some claimedTwice := rfl
  have service : Service 1 requested inService secondClaim ((claimedTwice.withPending 1 false).updateContext 0) :=
    service_of_run alone ran (by decide) rfl
  exact ⟨_, service, (service_loses_nothing 1 requested inService _ secondClaim service).1 (by decide)⟩

/-- `inService` after the device has asked again. -/
def askedAgain : Plic := (inService.withPending 1 true).updateAllContexts

/-- The device asks again while its source is in service; the complete forgets it. -/
theorem complete_loses_request :
    ∃ done, Service 1 requested inService [.setPending 1 true] done ∧ Standing 1 [.setPending 1 true] ∧
      ¬ done.Pending 1 ∧ ¬ NothingLost 1 inService [.setPending 1 true] done := by
  have ran : run next inService [.setPending 1 true] = some askedAgain := rfl
  have standing : Standing 1 [.setPending 1 true] := ⟨[], [], rfl, nofun⟩
  have alone : ∀ op ∈ [Op.setPending 1 true], ¬ inService.Completes 1 op := by
    intro op listed
    rw [List.mem_singleton.mp listed]
    exact id
  have service : Service 1 requested inService [.setPending 1 true]
      ((askedAgain.withPending 1 false).updateContext 0) :=
    service_of_run alone ran (by decide) rfl
  have idle : ¬ ((askedAgain.withPending 1 false).updateContext 0).Pending 1 := by
    rw [(updateContext_same ..).pending_iff, pending_withPending, if_pos rfl]
    exact fun both => Bool.false_ne_true both.2
  exact ⟨_, service, standing, idle, fun kept => idle (kept.delivered standing).1⟩

/-! ## How often a source is delivered -/

/-- The claims of a run that return the source, on whatever context. -/
def claimsOf (s : BitVec 32) : Plic → List Op → Nat
  | _, [] => 0
  | p, op :: rest =>
    (if p.claimed op = s.toNat then 1 else 0) + ((p.next op).map (claimsOf s · rest)).getD 0

/-- Along every interleaving of devices and contexts a source is claimed at most as often as its device has
    raised it, and once more if it was pending before: no request is served twice. -/
theorem claims_le_requests (s : BitVec 32) (source : s ≠ 0) (p : Plic) (ops : List Op) :
    claimsOf s p ops ≤ ops.count (.setPending s true) + 1 ∧
      (¬ p.Pending s.toNat → claimsOf s p ops ≤ ops.count (.setPending s true)) := by
  have positive : s.toNat ≠ 0 := fun zero => source (BitVec.eq_of_toNat_eq zero)
  induction ops generalizing p with
  | nil => exact ⟨Nat.zero_le _, fun _ => Nat.zero_le _⟩
  | cons op ops ih =>
    rw [claimsOf, List.count_cons]
    have taken (claim : p.claimed op = s.toNat) : p.Pending s.toNat := by
      obtain ⟨ctx, eligible⟩ := eligible_of_claimed claim positive
      exact eligible.pending
    cases stepped : p.next op with
    | none =>
      rw [Option.map_none, Option.getD_none]
      refine ⟨by split <;> omega, fun idle => ?_⟩
      rw [if_neg (mt taken idle)]
      exact Nat.zero_le _
    | some r =>
      obtain ⟨most, least⟩ := ih r
      rw [Option.map_some, Option.getD_some]
      by_cases claim : p.claimed op = s.toNat
      · -- the claim takes the pending bit with it
        have after := least (not_pending_of_claim claim source stepped)
        rw [if_pos claim]
        exact ⟨by omega, fun idle => absurd (taken claim) idle⟩
      · rw [if_neg claim, Nat.zero_add]
        by_cases raised : op = .setPending s true
        · rw [if_pos (beq_iff_eq.mpr raised)]
          exact ⟨by omega, fun _ => most⟩
        · rw [if_neg (mt beq_iff_eq.mp raised)]
          refine ⟨most, fun idle => least fun pending => ?_⟩
          exact (pending_of_next stepped pending).elim idle raised

/-- The source that is pending in `requested` is not claimed again before its device asks. -/
theorem claimed_once : claimsOf 1 requested [.read 0x0C200004#64 4, .read 0x0C201004#64 4] ≤ 1 :=
  (claims_le_requests 1 (by decide) requested _).1

end Plic

end Rv64Vm
