import Rv64Vm.Devices.Plic
import Rv64Vm.Lib.Arbiter
import Rv64Vm.Lib.Runs
import Mathlib.Data.Prod.Lex

/-! # Interrupt lines

What the controller is for: a context's line is up while some source is pending, enabled
in it and above its threshold. `find_highest_pending_enabled` decides exactly that, but
a claim and a complete change the pending bits of all contexts and recompute one.
-/

namespace Rv64Vm

open Lib

namespace Plic

variable {p q : Plic} {c ctx s : Nat}

/-- The pending bit of a source. -/
def Pending (p : Plic) (s : Nat) : Prop :=
  s / 32 < p.wordsCount ∧ (p.pendingWords (s / 32)).getLsbD (s % 32) = true

def Enabled (p : Plic) (ctx s : Nat) : Prop := ((p.contexts ctx).enables (s / 32)).getLsbD (s % 32) = true

def priority (p : Plic) (s : Nat) : Nat := (p.priorities s).toNat

/-- The source may interrupt the context. -/
structure Eligible (p : Plic) (ctx s : Nat) : Prop where
  positive : s ≠ 0
  inRange : s ≤ p.maxSources.toNat
  pending : p.Pending s
  enabled : p.Enabled ctx s
  above : (p.contexts ctx).threshold.toNat < p.priority s

def HasEligible (p : Plic) (ctx : Nat) : Prop := ∃ s, p.Eligible ctx s

/-! ## The scan -/

/-- The sources whose bits the scan finds set, in its order. -/
def active (p : Plic) (ctx : Nat) : List Nat :=
  (List.range p.wordsCount).flatMap fun word =>
    ((List.range 32).filter (p.pendingWords word &&& (p.contexts ctx).enables word).getLsbD).map (word * 32 + ·)

theorem mem_active : s ∈ p.active ctx ↔ p.Pending s ∧ p.Enabled ctx s := by
  simp only [active, List.mem_flatMap, List.mem_range, List.mem_map, List.mem_filter, BitVec.getLsbD_and,
    Bool.and_eq_true, Pending, Enabled]
  constructor
  · rintro ⟨word, inside, bit, ⟨small, pending, enabled⟩, rfl⟩
    have quotient : (word * 32 + bit) / 32 = word := by omega
    have remainder : (word * 32 + bit) % 32 = bit := by omega
    rw [quotient, remainder]
    exact ⟨⟨inside, pending⟩, enabled⟩
  · rintro ⟨⟨inside, pending⟩, enabled⟩
    exact ⟨s / 32, inside, s % 32, ⟨Nat.mod_lt _ (by decide), pending, enabled⟩, by omega⟩

theorem findHighest_eq_scan (p : Plic) (ctx : Nat) :
    p.findHighestPendingEnabled ctx = ((p.active ctx).foldl (p.candidate ctx) (0, 0)).1 := by
  simp only [findHighestPendingEnabled, active, List.foldl_flatMap, List.foldl_map, forSetBits_eq_foldl]

/-- A source that beats the threshold. -/
def Contends (p : Plic) (ctx s : Nat) : Prop :=
  (s ≠ 0 ∧ s ≤ p.maxSources.toNat) ∧ (p.contexts ctx).threshold.toNat < p.priority s

instance (p : Plic) (ctx : Nat) : DecidablePred (p.Contends ctx) := fun s => by
  unfold Contends
  exact instDecidableAnd

/-- Priority, and the smaller number among equals. -/
def rank (p : Plic) (s : Nat) : Nat ×ₗ Natᵒᵈ := toLex (p.priority s, OrderDual.toDual s)

/-- The holder of a scan with its rank. -/
def holder (best : Nat × Nat) : Nat × (Nat ×ₗ Natᵒᵈ) := (best.1, toLex (best.2, OrderDual.toDual best.1))

theorem holder_lt_rank {best : Nat × Nat} :
    (holder best).2 < p.rank s ↔ best.2 < p.priority s ∨ (best.2 = p.priority s ∧ s < best.1) :=
  Prod.Lex.toLex_lt_toLex

theorem rank_le_iff {t : Nat} :
    p.rank t ≤ p.rank s ↔ p.priority t < p.priority s ∨ (p.priority t = p.priority s ∧ s ≤ t) :=
  Prod.Lex.toLex_le_toLex

/-- The comparison of `find_highest_pending_enabled` is that of the ranks. -/
theorem candidate_eq_challenge (p : Plic) (ctx : Nat) (best : Nat × Nat) (s : Nat) :
    holder (p.candidate ctx best s) = challenge (p.Contends ctx) p.rank (holder best) s := by
  have order := @holder_lt_rank p s best
  have taken : holder (s, p.priority s) = (s, p.rank s) := rfl
  unfold candidate challenge Contends
  simp only [order]
  unfold priority at taken ⊢
  split_ifs <;> first | rfl | exact taken | grind

theorem scan_eq_challenges (p : Plic) (ctx : Nat) (l : List Nat) (best : Nat × Nat) :
    holder (l.foldl (p.candidate ctx) best) = l.foldl (challenge (p.Contends ctx) p.rank) (holder best) := by
  induction l generalizing best with
  | nil => rfl
  | cons s l ih => rw [List.foldl_cons, List.foldl_cons, ih, candidate_eq_challenge]

/-- The scan finds the eligible source of the highest rank, or there is none. -/
theorem findHighest_rank (p : Plic) (ctx : Nat) :
    (p.findHighestPendingEnabled ctx = 0 ∧ ¬ p.HasEligible ctx) ∨
      (p.Eligible ctx (p.findHighestPendingEnabled ctx) ∧
        ∀ s, p.Eligible ctx s → p.rank s ≤ p.rank (p.findHighestPendingEnabled ctx)) := by
  have floor (s : Nat) (contends : p.Contends ctx s) : (holder (0, 0)).2 < p.rank s :=
    holder_lt_rank.mpr (.inl (Nat.zero_lt_of_lt contends.2))
  have scanned := Arbitrated.scan (challenge_rules (p.Contends ctx) p.rank) floor (p.active ctx)
  have listed {s : Nat} (eligible : p.Eligible ctx s) : s ∈ p.active ctx :=
    mem_active.mpr ⟨eligible.pending, eligible.enabled⟩
  have contends {s : Nat} (eligible : p.Eligible ctx s) : p.Contends ctx s :=
    ⟨⟨eligible.positive, eligible.inRange⟩, eligible.above⟩
  rw [← scan_eq_challenges] at scanned
  rw [findHighest_eq_scan]
  generalize (p.active ctx).foldl (p.candidate ctx) (0, 0) = best at scanned
  rcases scanned with ⟨same, none⟩ | ⟨mem, enters, value, top⟩
  · exact .inl ⟨congrArg Prod.fst same, fun ⟨s, eligible⟩ => none s (listed eligible) (contends eligible)⟩
  · obtain ⟨pending, enabled⟩ := mem_active.mp mem
    refine .inr ⟨⟨enters.1.1, enters.1.2, pending, enabled, enters.2⟩, fun s eligible => ?_⟩
    rw [value] at top
    exact top s (listed eligible) (contends eligible)

theorem priority_le_of_rank_le {t : Nat} (le : p.rank t ≤ p.rank s) : p.priority t ≤ p.priority s := by
  rcases rank_le_iff.mp le with less | ⟨equal, -⟩
  · exact less.le
  · exact equal.le

/-- The scan finds an eligible source that no other exceeds, or there is none. -/
theorem findHighest_spec (p : Plic) (ctx : Nat) :
    (p.findHighestPendingEnabled ctx = 0 ∧ ¬ p.HasEligible ctx) ∨
      (p.Eligible ctx (p.findHighestPendingEnabled ctx) ∧
        ∀ s, p.Eligible ctx s → p.priority s ≤ p.priority (p.findHighestPendingEnabled ctx)) := by
  rcases p.findHighest_rank ctx with none | ⟨eligible, top⟩
  · exact .inl none
  · exact .inr ⟨eligible, fun s other => priority_le_of_rank_le (top s other)⟩

theorem findHighest_ne_zero_iff : p.findHighestPendingEnabled ctx ≠ 0 ↔ p.HasEligible ctx := by
  rcases p.findHighest_spec ctx with ⟨zero, none⟩ | ⟨eligible, -⟩
  · exact ⟨fun found => absurd zero found, fun has => absurd has none⟩
  · exact ⟨fun _ => ⟨_, eligible⟩, fun _ => eligible.positive⟩

/-! ## Recomputing contexts -/

/-- Everything but the lines and the harts' `ip` is the same. -/
structure SameRegisters (p q : Plic) : Prop where
  start : q.start = p.start
  numHarts : q.numHarts = p.numHarts
  maxSources : q.maxSources = p.maxSources
  priorities : q.priorities = p.priorities
  pendingWords : q.pendingWords = p.pendingWords
  threshold : ∀ c, (q.contexts c).threshold = (p.contexts c).threshold
  enables : ∀ c, (q.contexts c).enables = (p.contexts c).enables

namespace SameRegisters

theorem refl (p : Plic) : SameRegisters p p := ⟨rfl, rfl, rfl, rfl, rfl, fun _ => rfl, fun _ => rfl⟩

theorem trans {p q r : Plic} (first : SameRegisters p q) (second : SameRegisters q r) : SameRegisters p r where
  start := second.start.trans first.start
  numHarts := second.numHarts.trans first.numHarts
  maxSources := second.maxSources.trans first.maxSources
  priorities := second.priorities.trans first.priorities
  pendingWords := second.pendingWords.trans first.pendingWords
  threshold c := (second.threshold c).trans (first.threshold c)
  enables c := (second.enables c).trans (first.enables c)

theorem pending_iff (same : SameRegisters p q) : q.Pending s ↔ p.Pending s := by
  unfold Pending wordsCount
  rw [same.maxSources, same.pendingWords]

theorem eligible_iff (same : SameRegisters p q) : q.Eligible c s ↔ p.Eligible c s := by
  have enabled : q.Enabled c s ↔ p.Enabled c s := by
    unfold Enabled
    rw [same.enables]
  have above : (q.contexts c).threshold.toNat < q.priority s ↔ (p.contexts c).threshold.toNat < p.priority s := by
    unfold priority
    rw [same.threshold, same.priorities]
  have inRange : s ≤ q.maxSources.toNat ↔ s ≤ p.maxSources.toNat := by rw [same.maxSources]
  constructor
  · intro e
    exact ⟨e.positive, inRange.mp e.inRange, same.pending_iff.mp e.pending, enabled.mp e.enabled, above.mp e.above⟩
  · intro e
    exact ⟨e.positive, inRange.mpr e.inRange, same.pending_iff.mpr e.pending, enabled.mpr e.enabled,
      above.mpr e.above⟩

theorem hasEligible_iff (same : SameRegisters p q) (c : Nat) : q.HasEligible c ↔ p.HasEligible c :=
  exists_congr fun _ => same.eligible_iff

theorem numContexts (same : SameRegisters p q) : q.numContexts = p.numContexts := by
  unfold Plic.numContexts
  rw [same.numHarts]

end SameRegisters

def line (p : Plic) (c : Nat) : Bool := (p.contexts c).interruptLine

/-- The bit of the hart that the context drives. -/
def wire (p : Plic) (c : Nat) : Bool := (p.ip (hartId c)).getLsbD (ipBit c)

/-- The line says whether some source may interrupt the context. -/
def Lined (p : Plic) (c : Nat) : Prop := p.line c = true ↔ p.HasEligible c

theorem getLsbD_putFlag {w : Nat} (x : BitVec w) (i : Nat) (b : Bool) {j : Nat} (inside : j < w) :
    (putFlag x i b).getLsbD j = if j = i then b else x.getLsbD j := by
  have bit : (1#w <<< i).getLsbD j = decide (j = i) := by
    rw [BitVec.getLsbD_shiftLeft, BitVec.getLsbD_one]
    grind
  cases b <;> simp only [putFlag, Bool.false_eq_true, if_false, if_true, BitVec.getLsbD_and, BitVec.getLsbD_or,
    BitVec.getLsbD_not, inside, bit, decide_true, Bool.true_and] <;> grind

/-- Contexts of one hart drive different bits. -/
theorem ipBit_ne (other : c ≠ ctx) (hart : hartId c = hartId ctx) : ipBit c ≠ ipBit ctx := by
  unfold hartId at hart
  unfold ipBit supervisorMode
  grind

theorem ipBit_lt (c : Nat) : ipBit c < 16 := by
  unfold ipBit
  split <;> decide

/-- What the new line of a context is. -/
def raise (p : Plic) (ctx : Nat) : Bool := p.findHighestPendingEnabled ctx ≠ 0

theorem raise_iff : p.raise ctx = true ↔ p.HasEligible ctx := by
  rw [raise, decide_eq_true_eq]
  exact findHighest_ne_zero_iff

section Signal

variable (p : Plic) (ctx : Nat) (level : Bool) (c : Nat)

theorem signal_wire :
    (p.signalCpuInterrupt ctx level).wire c = if c = ctx ∧ hartId ctx < 64 then level else p.wire c := by
  unfold signalCpuInterrupt
  by_cases far : 64 ≤ hartId ctx
  · have near : ¬ (c = ctx ∧ hartId ctx < 64) := by omega
    rw [if_pos far, if_neg near]
  · rw [if_neg far]
    unfold wire
    dsimp only
    by_cases hart : hartId c = hartId ctx
    · rw [hart, Function.update_self, getLsbD_putFlag _ _ _ (ipBit_lt c)]
      by_cases same : c = ctx
      · rw [if_pos (by rw [same]), if_pos ⟨same, by omega⟩]
      · rw [if_neg (ipBit_ne same hart), if_neg fun both => same both.1]
    · rw [Function.update_of_ne hart, if_neg]
      rintro ⟨rfl, -⟩
      exact hart rfl

theorem signal_same : SameRegisters p (p.signalCpuInterrupt ctx level) := by
  unfold signalCpuInterrupt
  split
  · exact .refl p
  · exact ⟨rfl, rfl, rfl, rfl, rfl, fun _ => rfl, fun _ => rfl⟩

theorem signal_line : (p.signalCpuInterrupt ctx level).line c = p.line c := by
  unfold signalCpuInterrupt
  split <;> rfl

/-- The state with the line of a context rewritten. -/
def withLine : Plic :=
  { p with contexts := Function.update p.contexts ctx { p.contexts ctx with interruptLine := level } }

theorem updateContext_eq : p.updateContext ctx =
    if p.raise ctx != p.line ctx then (p.withLine ctx (p.raise ctx)).signalCpuInterrupt ctx (p.raise ctx) else p := rfl

theorem withLine_contexts : (p.withLine ctx level).contexts c =
    if c = ctx then { p.contexts ctx with interruptLine := level } else p.contexts c := Function.update_apply ..

theorem withLine_same : SameRegisters p (p.withLine ctx level) := by
  refine ⟨rfl, rfl, rfl, rfl, rfl, fun c => ?_, fun c => ?_⟩
  all_goals
    rw [withLine_contexts]
    split
    · subst c
      rfl
    · rfl

theorem withLine_line : (p.withLine ctx level).line c = if c = ctx then level else p.line c := by
  rw [line, withLine_contexts]
  split <;> rfl

theorem updateContext_same : SameRegisters p (p.updateContext ctx) := by
  rw [updateContext_eq]
  split
  · exact (withLine_same ..).trans (signal_same ..)
  · exact .refl p

theorem updateContext_line : (p.updateContext ctx).line c = if c = ctx then p.raise ctx else p.line c := by
  rw [updateContext_eq]
  split
  case isTrue => rw [signal_line, withLine_line]
  case isFalse unchanged =>
    split
    case isTrue here =>
      rw [here]
      simpa using (not_not.mp (mt bne_iff_ne.mpr unchanged)).symm
    case isFalse => rfl

end Signal

/-- A wire that follows its line still does so after an update, unless the line of a
    hart beyond the 64th changes. -/
theorem updateContext_wire (wired : p.wire ctx = p.line ctx) (c : Nat) :
    (p.updateContext ctx).wire c = if c = ctx ∧ hartId ctx < 64 then p.raise ctx else p.wire c := by
  rw [updateContext_eq]
  split
  case isTrue =>
    rw [signal_wire]
    rfl
  case isFalse unchanged =>
    have same : p.raise ctx = p.line ctx := not_not.mp (mt bne_iff_ne.mpr unchanged)
    split
    case isTrue here => rw [here.1, same, wired]
    case isFalse => rfl

theorem SameRegisters.raise (same : SameRegisters p q) (c : Nat) : q.raise c = p.raise c := by
  rw [Bool.eq_iff_iff, raise_iff, raise_iff, same.hasEligible_iff]

theorem updates_same (p : Plic) (l : List Nat) : SameRegisters p (l.foldl updateContext p) := by
  induction l generalizing p with
  | nil => exact .refl p
  | cons ctx l ih => exact (updateContext_same p ctx).trans (ih _)

theorem updates_line (p : Plic) (l : List Nat) (c : Nat) :
    (l.foldl updateContext p).line c = if c ∈ l then p.raise c else p.line c := by
  induction l generalizing p with
  | nil => simp
  | cons ctx l ih =>
    rw [List.foldl_cons, ih, (updateContext_same p ctx).raise, updateContext_line]
    by_cases here : c = ctx
    · simp [here]
    · simp [here]

/-- Recomputing a list of contexts sets their lines and the wires of those among the
    first 64 harts. -/
theorem updates_effect (p : Plic) {l : List Nat} (distinct : l.Nodup) (wired : ∀ c ∈ l, p.wire c = p.line c) (c : Nat) :
    (l.foldl updateContext p).line c = (if c ∈ l then p.raise c else p.line c) ∧
      (l.foldl updateContext p).wire c = if c ∈ l ∧ hartId c < 64 then p.raise c else p.wire c := by
  refine ⟨updates_line p l c, ?_⟩
  induction l generalizing p with
  | nil => simp
  | cons ctx l ih =>
    obtain ⟨fresh, distinct⟩ := List.nodup_cons.mp distinct
    have wire := updateContext_wire (wired ctx List.mem_cons_self)
    have later : ∀ c ∈ l, (p.updateContext ctx).wire c = (p.updateContext ctx).line c := by
      intro c listed
      have other : c ≠ ctx := fun same => fresh (same ▸ listed)
      rw [updateContext_line, wire, if_neg other, if_neg fun both => other both.1]
      exact wired c (List.mem_cons_of_mem _ listed)
    rw [List.foldl_cons, ih (p.updateContext ctx) distinct later, (updateContext_same p ctx).raise, wire]
    by_cases here : c = ctx
    · subst here
      simp [fresh]
    · simp [here]

/-! ## Operations -/

/-- What an operation does to the registers, and which contexts it recomputes. -/
def effect (p : Plic) : Op → Except HostError (Plic × List Nat)
  | .setPending sourceId pending =>
    let id := sourceId.toNat
    if id = 0 ∨ id > p.maxSources.toNat then .ok (p, [])
    else if id / 32 < p.wordsCount then .ok (p.withPending id pending, List.range p.numContexts)
    else .error .undefinedBehaviour
  | .read addr size =>
    if size ≠ 4 then .ok (p, [])
    else
      match p.register (addr - p.start).toNat with
      | .priority idx => if idx < p.prioritiesSize then .ok (p, []) else .error .undefinedBehaviour
      | .claimComplete ctx =>
        let id := p.findHighestPendingEnabled ctx
        if id ≠ 0 then .ok (p.withPending id false, [ctx]) else .ok (p, [])
      | _ => .ok (p, [])
  | .write addr size value =>
    if size ≠ 4 then .ok (p, [])
    else
      match p.register (addr - p.start).toNat with
      | .priority idx =>
        if idx < p.prioritiesSize then
          .ok (p.withPriority idx (value.setWidth 32 &&& 0x7FFFFFFF), List.range p.numContexts)
        else .error .undefinedBehaviour
      | .enables ctx word => .ok (p.withEnables ctx word (value.setWidth 32), [ctx])
      | .threshold ctx => .ok (p.withThreshold ctx (value.setWidth 32 &&& 0x7FFFFFFF), [ctx])
      | .claimComplete ctx =>
        let id := (value.setWidth 32 : BitVec 32).toNat
        if id = 0 ∨ id > p.maxSources.toNat then .ok (p, [])
        else if id / 32 < p.wordsCount then .ok (p.withPending id false, [ctx])
        else .error .undefinedBehaviour
      | _ => .ok (p, [])

theorem step_eq_effect (p : Plic) (op : Op) : p.step op = (p.effect op).map fun e => e.2.foldl updateContext e.1 := by
  cases op with
  | setPending sourceId pending =>
    simp only [step, setPending, effect]
    split_ifs <;> rfl
  | read addr size =>
    simp only [step, read, effect]
    by_cases word : size = 4
    · rw [if_neg (not_not.mpr word), if_neg (not_not.mpr word)]
      cases p.register (addr - p.start).toNat with
      | priority idx =>
        dsimp only
        split_ifs <;> rfl
      | claimComplete ctx =>
        simp only [claimInterrupt]
        split_ifs <;> rfl
      | pending | enables | threshold | reserved => rfl
    · rw [if_pos word, if_pos word]
      rfl
  | write addr size value =>
    simp only [step, write, effect]
    by_cases word : size = 4
    · rw [if_neg (not_not.mpr word), if_neg (not_not.mpr word)]
      cases p.register (addr - p.start).toNat with
      | priority idx =>
        dsimp only
        split_ifs <;> rfl
      | claimComplete ctx =>
        simp only [completeInterrupt]
        split_ifs <;> rfl
      | pending | enables | threshold | reserved => rfl
    · rw [if_pos word, if_pos word]
      rfl

/-- The register change of an operation leaves the lines to the updates that follow. -/
structure Touches (p q : Plic) (l : List Nat) : Prop where
  line : ∀ c, q.line c = p.line c
  ip : q.ip = p.ip
  numHarts : q.numHarts = p.numHarts
  maxSources : q.maxSources = p.maxSources
  distinct : l.Nodup
  valid : ∀ c ∈ l, c < p.numContexts

namespace Touches

theorem none (p : Plic) : Touches p p [] := ⟨fun _ => rfl, rfl, rfl, rfl, List.nodup_nil, nofun⟩

theorem one (inside : ctx < p.numContexts) (line : ∀ c, q.line c = p.line c) (ip : q.ip = p.ip)
    (numHarts : q.numHarts = p.numHarts) (maxSources : q.maxSources = p.maxSources) : Touches p q [ctx] :=
  ⟨line, ip, numHarts, maxSources, List.nodup_cons.mpr ⟨nofun, List.nodup_nil⟩,
    fun _ listed => List.mem_singleton.mp listed ▸ inside⟩

theorem all (line : ∀ c, q.line c = p.line c) (ip : q.ip = p.ip) (numHarts : q.numHarts = p.numHarts)
    (maxSources : q.maxSources = p.maxSources) : Touches p q (List.range p.numContexts) :=
  ⟨line, ip, numHarts, maxSources, List.nodup_range, fun _ => List.mem_range.mp⟩

end Touches

theorem line_update (p : Plic) (ctx : Nat) {context : PlicContext}
    (kept : context.interruptLine = (p.contexts ctx).interruptLine) (c : Nat) :
    (Function.update p.contexts ctx context c).interruptLine = p.line c := by
  rw [Function.update_apply]
  split
  case isTrue here => rw [kept, line, here]
  case isFalse => rfl

/-- The context that a register belongs to exists. -/
def Register.Valid (p : Plic) : Register → Prop
  | .enables ctx _ | .threshold ctx | .claimComplete ctx => ctx < p.numContexts
  | .priority _ | .pending _ | .reserved => True

theorem valid_ite {P : Prop} [Decidable P] {r r' : Register} (yes : P → r.Valid p) (no : r'.Valid p) :
    (if P then r else r').Valid p := by
  split
  case isTrue holds => exact yes holds
  case isFalse => exact no

theorem register_valid (p : Plic) (offset : Nat) : (p.register offset).Valid p := by
  have context (inside : 0x200000 ≤ offset ∧ offset < 0x200000 + p.numContexts * 0x1000) :
      (offset - 0x200000) / 0x1000 < p.numContexts := by omega
  have last : Register.reserved.Valid p := trivial
  apply valid_ite
  · exact fun _ => valid_ite (fun _ => trivial) last
  apply valid_ite
  · exact fun _ => valid_ite (fun _ => trivial) last
  apply valid_ite
  · exact fun _ => valid_ite (fun both => both.1) last
  apply valid_ite
  · intro inside
    have valid := context inside
    generalize (offset - 0x200000) / 0x1000 = ctx at valid
    generalize (offset - 0x200000) % 0x1000 = sub
    exact valid_ite (fun _ => valid) (valid_ite (fun _ => valid) last)
  exact last

theorem register_enables_lt {offset word : Nat} (selected : p.register offset = .enables ctx word) : word < 32 := by
  simp only [register] at selected
  split_ifs at selected
  cases selected
  omega

/-- What an operation may do to the registers, and which contexts it then recomputes. -/
inductive Change (p : Plic) (op : Op) : Plic → List Nat → Prop
  | none : Change p op p []
  | request {id : BitVec 32} {level : Bool} (asked : op = .setPending id level) :
      Change p op (p.withPending id.toNat level) (List.range p.numContexts)
  | lowered {ctx : Nat} (id : Nat) (valid : ctx < p.numContexts) : Change p op (p.withPending id false) [ctx]
  | priority (idx : Nat) (value : BitVec 32) : Change p op (p.withPriority idx value) (List.range p.numContexts)
  | enables {ctx word : Nat} (value : BitVec 32) (valid : ctx < p.numContexts) (small : word < 32) :
      Change p op (p.withEnables ctx word value) [ctx]
  | threshold {ctx : Nat} (value : BitVec 32) (valid : ctx < p.numContexts) :
      Change p op (p.withThreshold ctx value) [ctx]

theorem effect_change {op : Op} {l : List Nat} (done : p.effect op = .ok (q, l)) : Change p op q l := by
  cases op with
  | setPending sourceId pending =>
    simp only [effect] at done
    split_ifs at done <;> cases done
    · exact .none
    · exact .request rfl
  | read addr size =>
    simp only [effect] at done
    have valid := p.register_valid (addr - p.start).toNat
    by_cases word : size = 4
    · rw [if_neg (not_not.mpr word)] at done
      cases selected : p.register (addr - p.start).toNat with
      | priority idx =>
        simp only [selected] at done
        split_ifs at done
        cases done
        exact .none
      | claimComplete ctx =>
        simp only [selected, Register.Valid] at done valid
        split_ifs at done <;> cases done
        · exact .lowered _ valid
        · exact .none
      | pending | enables | threshold | reserved =>
        simp only [selected, Except.ok.injEq, Prod.mk.injEq] at done
        obtain ⟨rfl, rfl⟩ := done
        exact .none
    · rw [if_pos word] at done
      cases done
      exact .none
  | write addr size value =>
    simp only [effect] at done
    have valid := p.register_valid (addr - p.start).toNat
    by_cases word : size = 4
    · rw [if_neg (not_not.mpr word)] at done
      cases selected : p.register (addr - p.start).toNat with
      | priority idx =>
        simp only [selected] at done
        split_ifs at done
        cases done
        exact .priority _ _
      | enables ctx w =>
        have small := register_enables_lt selected
        simp only [selected, Register.Valid, Except.ok.injEq, Prod.mk.injEq] at done valid
        obtain ⟨rfl, rfl⟩ := done
        exact .enables _ valid small
      | threshold ctx =>
        simp only [selected, Register.Valid, Except.ok.injEq, Prod.mk.injEq] at done valid
        obtain ⟨rfl, rfl⟩ := done
        exact .threshold _ valid
      | claimComplete ctx =>
        simp only [selected, Register.Valid] at done valid
        split_ifs at done <;> cases done
        · exact .none
        · exact .lowered _ valid
      | pending | reserved =>
        simp only [selected, Except.ok.injEq, Prod.mk.injEq] at done
        obtain ⟨rfl, rfl⟩ := done
        exact .none
    · rw [if_pos word] at done
      cases done
      exact .none

theorem effect_touches {op : Op} {l : List Nat} (done : p.effect op = .ok (q, l)) : Touches p q l := by
  cases effect_change done with
  | none => exact .none p
  | request | priority => exact .all (fun _ => rfl) rfl rfl rfl
  | lowered _ valid => exact .one valid (fun _ => rfl) rfl rfl rfl
  | enables _ valid | threshold _ valid => exact .one valid (line_update p _ rfl) rfl rfl rfl

/-! ## The invariant -/

/-- Every line says whether a source may interrupt its context, and every wire follows its line. -/
def LinesOk (p : Plic) : Prop := ∀ c < p.numContexts, p.Lined c ∧ p.wire c = p.line c

/-- The operation stays inside the vectors, and no context that it does not recompute, or
    whose hart is beyond the 64th, gains its first eligible source or loses its last. -/
def Covered (p : Plic) (op : Op) : Prop :=
  ∃ q l, p.effect op = .ok (q, l) ∧
    ∀ c < p.numContexts, c ∉ l ∨ 64 ≤ hartId c → (q.HasEligible c ↔ p.HasEligible c)

theorem bool_eq_iff {a b : Bool} {P Q : Prop} (first : a = true ↔ P) (second : b = true ↔ Q) : a = b ↔ (P ↔ Q) := by
  rw [Bool.eq_iff_iff, first, second]

/-- One operation keeps the lines exactly if it covers what it changes. -/
theorem step_linesOk_iff (op : Op) (ok : p.LinesOk) : (∃ p', p.step op = .ok p' ∧ p'.LinesOk) ↔ p.Covered op := by
  rw [step_eq_effect]
  cases done : p.effect op with
  | error e =>
    constructor
    · rintro ⟨p', stepped, -⟩
      cases stepped
    · rintro ⟨q, l, done', -⟩
      rw [done] at done'
      cases done'
  | ok e =>
    obtain ⟨q, l⟩ := e
    have touches := effect_touches done
    have contexts : q.numContexts = p.numContexts := by rw [numContexts, numContexts, touches.numHarts]
    have wire (c : Nat) : q.wire c = p.wire c := by rw [wire, wire, touches.ip]
    have wired (c : Nat) (listed : c ∈ l) : q.wire c = q.line c := by
      rw [wire, touches.line]
      exact (ok c (touches.valid c listed)).2
    have same := updates_same q l
    -- what has to hold for one context
    have each (c : Nat) (inside : c < p.numContexts) :
        ((l.foldl updateContext q).Lined c ∧ (l.foldl updateContext q).wire c = (l.foldl updateContext q).line c) ↔
          (c ∉ l ∨ 64 ≤ hartId c → (q.HasEligible c ↔ p.HasEligible c)) := by
      obtain ⟨lined, follows⟩ := ok c inside
      obtain ⟨lineAfter, wireAfter⟩ := updates_effect q touches.distinct wired c
      rw [Lined, same.hasEligible_iff, lineAfter, wireAfter, wire, touches.line, follows]
      by_cases listed : c ∈ l
      · by_cases near : hartId c < 64
        · have excluded : ¬ (c ∉ l ∨ 64 ≤ hartId c) := by
            rintro (out | far)
            · exact out listed
            · omega
          rw [if_pos listed, if_pos ⟨listed, near⟩]
          exact iff_of_true ⟨raise_iff, rfl⟩ fun bad => absurd bad excluded
        · have far : 64 ≤ hartId c := by omega
          simp only [listed, near, and_false, if_true, if_false, raise_iff, true_and, far, or_true,
            forall_const]
          rw [bool_eq_iff lined raise_iff]
          exact Iff.comm
      · simp only [listed, false_and, if_false, and_true, not_false_eq_true, true_or, forall_const]
        rw [show p.line c = true ↔ p.HasEligible c from lined]
        exact Iff.comm
    constructor
    · rintro ⟨p', stepped, ok'⟩
      cases stepped
      refine ⟨q, l, done, fun c inside => (each c inside).mp (ok' c ?_)⟩
      rw [same.numContexts, contexts]
      exact inside
    · rintro ⟨q', l', done', covered⟩
      rw [done] at done'
      cases done'
      refine ⟨_, rfl, fun c inside => ?_⟩
      rw [same.numContexts, contexts] at inside
      exact (each c inside).mpr (covered c inside)

theorem linesOk_initial (initial : p.Initial) : p.LinesOk := by
  obtain ⟨-, pending, contexts, bits⟩ := initial
  intro c inside
  have low : p.line c = false := (contexts c).2.2
  refine ⟨?_, (bits c inside).trans low.symm⟩
  rw [Lined, low]
  refine ⟨nofun, fun ⟨s, eligible⟩ => ?_⟩
  have bit := eligible.pending.2
  rw [pending] at bit
  exact absurd bit (by simp)

/-- `step` where leaving the vectors has no successor. -/
def next (p : Plic) (op : Op) : Option Plic := (p.step op).toOption

theorem next_eq_some {op : Op} : p.next op = some q ↔ p.step op = .ok q := by
  rw [next]
  cases p.step op <;> simp [Except.toOption]

/-- Along a run from the constructor, every line and wire is right in every state exactly if
    every operation covers the contexts it changes. -/
theorem lines_ok_iff (p : Plic) (ops : List Op) (initial : p.Initial) :
    Holds next LinesOk p ops ↔ Along next Covered p ops := by
  apply holds_iff_along _ ops (linesOk_initial initial)
  intro s op ok
  rw [← step_linesOk_iff op ok]
  exact exists_congr fun _ => and_congr_left' next_eq_some

/-- One hart and one source. -/
def oneSource : Plic where
  start := 0x0C000000#64
  numHarts := 1
  maxSources := 1
  ip _ := 0

theorem oneSource_initial : oneSource.Initial :=
  ⟨fun _ => rfl, fun _ => rfl, fun _ => ⟨rfl, fun _ => rfl, rfl⟩, fun _ _ => BitVec.getLsbD_zero⟩

theorem not_pending {p : Plic} (words : p.wordsCount = 1) (word : p.pendingWords 0 = 0#32) (s : Nat) :
    ¬ p.Pending s := by
  rintro ⟨inside, bit⟩
  obtain first : s / 32 = 0 := by omega
  rw [first, word, BitVec.getLsbD_zero] at bit
  cases bit

/-- The source gets a priority, is enabled in the first context and raised. -/
def raiseEnabled : List Op := [.write 0x0C000004#64 4 1, .write 0x0C002000#64 4 2, .setPending 1 true]

theorem lines_ok_raised :
    oneSource.Initial ∧ Holds next LinesOk oneSource raiseEnabled ∧
      ∃ p, run next oneSource raiseEnabled = some p ∧ p.line 0 = true ∧ p.wire 0 = true := by
  refine ⟨oneSource_initial, (lines_ok_iff oneSource raiseEnabled oneSource_initial).mpr ?_, _, rfl, rfl, rfl⟩
  have every {c : Nat} (inside : c < 2) : ¬ (c ∉ [0, 1] ∨ 64 ≤ hartId c) := by
    obtain rfl | rfl : c = 0 ∨ c = 1 := by omega
    · decide
    · decide
  have idle {p : Plic} {c : Nat} (words : p.wordsCount = 1) (word : p.pendingWords 0 = 0) : ¬ p.HasEligible c := by
    rintro ⟨s, eligible⟩
    exact not_pending words word s eligible.pending
  refine ⟨⟨_, _, rfl, fun c inside out => absurd out (every inside)⟩, fun p₁ stepped => ?_⟩
  obtain rfl := Option.some.inj stepped
  -- the write recomputes one context only, and nothing is pending for the other
  refine ⟨⟨_, _, rfl, fun c inside out => iff_of_false (idle rfl rfl) (idle rfl rfl)⟩, fun p₂ stepped => ?_⟩
  obtain rfl := Option.some.inj stepped
  exact ⟨⟨_, _, rfl, fun c inside out => absurd out (every inside)⟩, fun _ _ => trivial⟩

/-- The source is enabled in both contexts of the hart; the first claims it. -/
def claimShared : List Op :=
  [.write 0x0C000004#64 4 1, .write 0x0C002000#64 4 2, .write 0x0C002080#64 4 2, .setPending 1 true,
    .read 0x0C200004#64 4]

/-- After the claim nothing is pending, and the other context still interrupts its hart. -/
theorem claim_leaves_line_up :
    oneSource.Initial ∧ ∃ p, run next oneSource claimShared = some p ∧ p.line 1 = true ∧ p.wire 1 = true ∧
      (∀ s, ¬ p.Pending s) ∧ ¬ p.LinesOk := by
  obtain ⟨p, ran, line, wire, words, word, contexts⟩ : ∃ p, run next oneSource claimShared = some p ∧
      p.line 1 = true ∧ p.wire 1 = true ∧ p.wordsCount = 1 ∧ p.pendingWords 0 = 0#32 ∧ p.numContexts = 2 :=
    ⟨_, rfl, rfl, rfl, rfl, rfl, rfl⟩
  refine ⟨oneSource_initial, p, ran, line, wire, not_pending words word, fun ok => ?_⟩
  obtain ⟨s, eligible⟩ := (ok 1 (by omega)).1.mp line
  exact not_pending words word s eligible.pending

end Plic

end Rv64Vm
