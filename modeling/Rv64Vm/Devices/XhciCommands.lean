import Mathlib.Data.Finite.Prod
import Rv64Vm.Devices.XhciWrites

/-! # The walk of the command ring

Commands write the device contexts, whose addresses stand in an array of guest memory, and every command
ends with an event. While nothing of this lands on a TRB or on an entry of the array that the walk has
still to read, the walker follows the ring as it was before the call, so it returns exactly if that
walk stops.
-/

namespace Rv64Vm.Xhci

open Lib

/-- The ring of commands as it lies in memory: the position after `(address, cycle state)`. -/
def commandNext (m : Dma) : Word × Bool → Option (Word × Bool)
  | (addr, pcs) =>
    let trb := m.readTrb addr
    if trb.cycle ≠ pcs then none
    else if trb.getType = .link then some (trb.parameter &&& ~~~0xF#64, if trb.ent then !pcs else pcs)
    else some (addr + trbSize, pcs)

namespace Controller

/-- The entry of a slot in the device context array. -/
def entryRange (dcbaap : Word) (slotId : BitVec 8) : Range := (dcbaap + BitVec.ofNat 64 (slotId.toNat * 8), 8)

/-- The command looks for the device context of its slot. -/
def usesContext (trb : Trb) : Bool :=
  match trb.getType with
  | .addressDevice | .configEndpoint | .evalContext => true
  | .setTrDequeue => commandEp trb != 0
  | _ => false

/-- What the command may write of the device context. -/
def contextWrite (m : Dma) (dcbaap : Word) (trb : Trb) (w : Range) : Prop :=
  let entry := m.read 64 (entryRange dcbaap trb.getSlotId).1 8
  let outCtx := entry &&& ~~~0xF#64
  match trb.getType with
  | .addressDevice => outCtx ≠ 0 ∧ w = (outCtx + BitVec.ofNat 64 ctxSize, ctxSize)
  | .configEndpoint | .evalContext => outCtx ≠ 0 ∧ w = (outCtx + BitVec.ofNat 64 ctxSize, 15 * ctxSize)
  | .setTrDequeue => entry ≠ 0 ∧ w = (epContextDeq entry ((commandEp trb).toNat - 1), 8)
  | _ => False

/-- The number of events; `STOP_ENDPOINT` has one more for a TRB in flight. -/
def Pushes (trb : Trb) (k : Nat) : Prop := k = 1 ∨ (trb.getType = .stopEndpoint ∧ k = 2)

/-- The slots after the command. -/
def slotsAfter (trb : Trb) (slots : BitVec 8 → Bool) : BitVec 8 → Bool :=
  match trb.getType with
  | .enableSlot => Function.update slots 1 true
  | .disableSlot => Function.update slots trb.getSlotId false
  | _ => slots

/-- What the commands so far have changed. -/
structure Commands where
  events : EventSlots
  slots : BitVec 8 → Bool

/-- The command at the position looks up an entry of the array. -/
def Looks (m : Dma) (dcbaap : Word) (p : Word × Bool) (x : Commands) : Prop :=
  (m.readTrb p.1).cycle = p.2 ∧ dcbaap ≠ 0 ∧ x.slots (m.readTrb p.1).getSlotId = true ∧
    usesContext (m.readTrb p.1) = true

/-- What each command of the ring reads and may write. -/
def commandPlan (m : Dma) (dcbaap : Word) : Plan (Word × Bool) Commands Range where
  next := commandNext m
  step p x y :=
    let trb := m.readTrb p.1
    if trb.getType = .link then y = x
    else y.slots = slotsAfter trb x.slots ∧ ∃ k, Pushes trb k ∧ y.events = x.events.drop k
  reads p x r := r = (p.1, 16) ∨ (Looks m dcbaap p x ∧ r = entryRange dcbaap (m.readTrb p.1).getSlotId)
  writes p x w := (Looks m dcbaap p x ∧ contextWrite m dcbaap (m.readTrb p.1) w) ∨
    ((m.readTrb p.1).getType ≠ .link ∧ ∃ k, Pushes (m.readTrb p.1) k ∧ x.events.first k w)
  -- the entry is looked up again for each endpoint
  needs p x := Looks m dcbaap p x →
    Off (contextWrite m dcbaap (m.readTrb p.1)) (entryRange dcbaap (m.readTrb p.1).getSlotId)

section Commands

variable {δ : Type} {c c' : Controller δ} {W : Range → Prop} {slotId : BitVec 8} {i : Nat}

theorem readBytes_length (m : Dma) (addr : Word) (n : Nat) : (m.readBytes addr n).length = n := by
  rw [Dma.readBytes, List.length_map, List.length_range]

theorem Agrees.readAll {m m' : Dma} {a : Word} (same : Agrees m m' a 8) : m'.read 64 a 8 = m.read 64 a 8 := by
  have read := same.read 64 0 8 (by omega)
  rwa [show a + BitVec.ofNat 64 0 = a from BitVec.add_zero a] at read

/-- The ranges `W` contain a context of the slot, and are off the entry that leads there. -/
structure Context (W : Range → Prop) (c : Controller δ) (slotId : BitVec 8) (i : Nat) : Prop where
  entry : Off W (entryRange c.dcbaap slotId)
  inside : c.present slotId = true → c.dcbaap ≠ 0 → c.dcbaaEntry slotId &&& ~~~0xF#64 ≠ 0 → ∀ r, Off W r →
    Range.Clear ((c.dcbaaEntry slotId &&& ~~~0xF#64) + BitVec.ofNat 64 (i * ctxSize), ctxSize) r

theorem Writes.entry (writes : Writes W 0 c c') (off : Off W (entryRange c.dcbaap slotId)) :
    c'.dcbaaEntry slotId = c.dcbaaEntry slotId := by
  rw [dcbaaEntry, dcbaaEntry, writes.dcbaap]
  refine Agrees.readAll (writes.dma _ off ?_)
  rintro w ⟨-, k, inside, -⟩
  cases inside

theorem Context.of_writes (ctx : Context W c slotId i) (writes : Writes W 0 c c') : Context W c' slotId i := by
  constructor
  · rw [writes.dcbaap]
    exact ctx.entry
  · rw [writes.present, writes.dcbaap, writes.entry ctx.entry]
    exact ctx.inside

theorem setEpStateRunning_writes (ctx : Context W c slotId i) (there : c.present slotId = true) :
    Writes W 0 c (c.setEpStateRunning slotId i) := by
  unfold setEpStateRunning
  dsimp only
  split
  case isTrue => exact .refl c
  case isFalse on =>
    obtain ⟨on, found⟩ := not_or.mp on
    refine .writeDma fun r off => ?_
    have part := apart_part 0 4 (ctx.inside there on found r off)
      (show 0 + 4 ≤ ctxSize by decide) (by decide)
    rwa [show ∀ a : Word, a + BitVec.ofNat 64 0 = a from BitVec.add_zero, ← bytesOf_length _ 4] at part

theorem saveEpCtx_writes (input : Word) (ctx : i < 16 → Context W c slotId i) :
    Writes W 0 c (c.saveEpCtxFromInput slotId i input) := by
  unfold saveEpCtxFromInput
  split
  case isTrue => exact .refl c
  case isFalse on =>
    obtain ⟨on, later⟩ := not_or.mp on
    obtain ⟨small, there⟩ := not_or.mp later
    have there : c.present slotId = true := Option.isSome_iff_ne_none.mpr there
    dsimp only
    generalize marked : (if 2 ≤ i then c.mapSlot slotId _ else c) = c₁
    have first : Writes W 0 c c₁ := by
      rw [← marked]
      split
      · exact .mapSlot ..
      · exact .refl c
    have ctx₁ := (ctx (Nat.lt_of_not_le small)).of_writes first
    have there₁ : c₁.present slotId = true := first.present ▸ there
    split
    case isTrue => exact first
    case isFalse found =>
      have saved : Writes W 0 c₁ (c₁.writeDma ((c₁.dcbaaEntry slotId &&& ~~~0xF#64) + BitVec.ofNat 64 (i * ctxSize))
          (c₁.dma.readBytes (input + BitVec.ofNat 64 ((i + 1) * ctxSize)) ctxSize)) := by
        refine .writeDma fun r off => ?_
        rw [readBytes_length]
        exact ctx₁.inside there₁ (first.dcbaap ▸ on) found r off
      exact (first.trans saved).trans (setEpStateRunning_writes (ctx₁.of_writes saved) (saved.present ▸ there₁))

theorem addressDevice_writes (input : Word) (ctx : Context W c slotId 1) :
    Writes W 0 c (c.addressDevice slotId input) := by
  unfold addressDevice
  cases c.slots slotId with
  | none => exact .refl c
  | some _ =>
    dsimp only
    generalize mapped : c.mapSlot slotId _ = c₁
    have first : Writes W 0 c c₁ := mapped ▸ .mapSlot ..
    exact first.trans (saveEpCtx_writes input fun _ => ctx.of_writes first)

theorem configEndpoints_writes (input : Word) (config : Bool) (ctx : ∀ i, 0 < i → i < 16 → Context W c slotId i) :
    Writes W 0 c (c.configEndpoints slotId input config) := by
  unfold configEndpoints
  dsimp only
  have positive : ∀ i ∈ ((List.range 31).map (· + 1)).filter fun i => (c.dma.read 32 (input + 4) 4).getLsbD i,
      0 < i := by
    intro i listed
    obtain ⟨j, -, rfl⟩ := List.mem_map.mp (List.mem_filter.mp listed).1
    exact Nat.succ_pos j
  generalize List.filter _ _ = flagged at positive ⊢
  induction flagged generalizing c with
  | nil => exact .refl c
  | cons i rest ih =>
    have saved := saveEpCtx_writes input (ctx i (positive i List.mem_cons_self))
    have first : Writes W 0 c (configEndpoint slotId input config c i) := by
      unfold configEndpoint
      cases config with
      | false => exact saved
      | true => exact saved.trans (.mapSlot ..)
    exact first.trans (ih (fun i pos small => (ctx i pos small).of_writes first) fun i listed =>
      positive i (List.mem_cons_of_mem _ listed))

theorem setTrDequeue_writes {epId : BitVec 32} (parameter : Word) (entry : Off W (entryRange c.dcbaap slotId))
    (inside : c.present slotId = true → c.dcbaap ≠ 0 → c.dcbaaEntry slotId ≠ 0 → ∀ r, Off W r →
      Range.Clear (epContextDeq (c.dcbaaEntry slotId) (epId.toNat - 1), 8) r) :
    Writes W 0 c (c.setTrDequeue slotId epId parameter) := by
  unfold setTrDequeue
  cases found : c.slots slotId with
  | none => exact .refl c
  | some _ =>
    have there : c.present slotId = true := congrArg Option.isSome found
    dsimp only
    have mapped : Writes W 0 c (c.setEpRing slotId (epId.toNat - 1) parameter) := .mapSlot ..
    rw [mapped.entry entry, mapped.dcbaap]
    split
    case isFalse => exact mapped
    case isTrue on =>
      refine mapped.trans (.writeDma fun r off => ?_)
      rw [bytesOf_length]
      exact inside there on.1 on.2 r off

theorem stopEndpoint_writes (c : Controller δ) (slotId : BitVec 8) (epId : BitVec 32) :
    Writes W 0 c (c.stopEndpoint slotId epId) ∨ Writes W 1 c (c.stopEndpoint slotId epId) := by
  unfold stopEndpoint
  cases c.slots slotId with
  | none => exact .inl (.refl c)
  | some slot =>
    dsimp only
    split
    · exact .inr (.pushEvent ..)
    · exact .inl (.refl c)

/-- What the command may write, in the state it is executed in. -/
def writesOf (c : Controller δ) (trb : Trb) (w : Range) : Prop :=
  c.dcbaap ≠ 0 ∧ c.present trb.getSlotId = true ∧ usesContext trb = true ∧ contextWrite c.dma c.dcbaap trb w

theorem context_inside {trb : Trb} {n : Nat} (entry : Off (c.writesOf trb) (entryRange c.dcbaap trb.getSlotId))
    (uses : usesContext trb = true) (positive : 0 < i) (small : i ≤ n)
    (whole : ∀ w, contextWrite c.dma c.dcbaap trb w ↔ c.dcbaaEntry trb.getSlotId &&& ~~~0xF#64 ≠ 0 ∧
      w = ((c.dcbaaEntry trb.getSlotId &&& ~~~0xF#64) + BitVec.ofNat 64 ctxSize, n * ctxSize)) :
    Context (c.writesOf trb) c trb.getSlotId i := by
  refine ⟨entry, fun there on found r off => ?_⟩
  have all := off _ ⟨on, there, uses, (whole _).mpr ⟨found, rfl⟩⟩
  have part := apart_part ((i - 1) * ctxSize) ctxSize all (by unfold ctxSize; omega) (by decide)
  rwa [BitVec.add_assoc, ← BitVec.ofNat_add,
    show ctxSize + (i - 1) * ctxSize = i * ctxSize by unfold ctxSize; omega] at part

theorem present_update (c : Controller δ) (slotId : BitVec 8) (slot : Option Slot) :
    present { c with slots := Function.update c.slots slotId slot } = Function.update c.present slotId slot.isSome :=
  Function.comp_update Option.isSome c.slots slotId slot

/-- What a command does to memory, to the event ring and to the slots. -/
theorem command_spec (c : Controller δ) (trb : Trb) (entry : Off (c.writesOf trb) (entryRange c.dcbaap trb.getSlotId)) :
    ∃ k slots, Pushes trb k ∧ Writes (c.writesOf trb) k { c with slots := slots } (c.command trb) ∧
      present { c with slots := slots } = slotsAfter trb c.present := by
  have same (other : slotsAfter trb c.present = c.present) :
      present { c with slots := c.slots } = slotsAfter trb c.present :=
    other.symm
  have done {c' : Controller δ} {k : Nat} (writes : Writes (c.writesOf trb) k c c') (evt : Trb) :
      Writes (c.writesOf trb) (k + 1) c (c'.pushEvent evt) := writes.trans (.pushEvent c' evt)
  have one : Pushes trb 1 := .inl rfl
  unfold command
  dsimp only
  split
  case h_2 type =>
    have after : slotsAfter trb c.present = Function.update c.present 1 true := by rw [slotsAfter, type]
    cases found : c.slots 1 with
    | none =>
      refine ⟨1, _, one, ?_, (present_update c 1 (some { attachedDevice := c.ports 0 })).trans after.symm⟩
      rw [enableSlot, found]
      exact .pushEvent ..
    | some slot =>
      have there : c.present 1 = true := congrArg Option.isSome found
      refine ⟨1, c.slots, one, ?_, same ?_⟩
      · rw [enableSlot, found]
        exact .pushEvent ..
      · rw [after, ← there, Function.update_eq_self]
  case h_3 type =>
    have after : slotsAfter trb c.present = Function.update c.present trb.getSlotId false := by rw [slotsAfter, type]
    exact ⟨1, _, one, .pushEvent .., (present_update c _ none).trans after.symm⟩
  case h_4 type =>
    refine ⟨1, c.slots, one, done (addressDevice_writes _ ?_) _, same (by rw [slotsAfter, type])⟩
    exact context_inside entry (by rw [usesContext, type]) (n := 1) Nat.one_pos (Nat.le_refl 1) fun w => by
      rw [contextWrite, type]
      rfl
  case h_5 type | h_6 type =>
    refine ⟨1, c.slots, one, done (configEndpoints_writes _ _ fun i positive small => ?_) _,
      same (by rw [slotsAfter, type])⟩
    exact context_inside entry (by rw [usesContext, type]) (n := 15) positive (Nat.le_of_lt_succ small) fun w => by
      rw [contextWrite, type]
      rfl
  case h_7 type =>
    have kept := same (by rw [slotsAfter, type])
    split
    case isFalse => exact ⟨1, c.slots, one, .pushEvent .., kept⟩
    case isTrue =>
      rcases stopEndpoint_writes c trb.getSlotId (commandEp trb) with idle | flying
      · exact ⟨1, c.slots, one, done idle _, kept⟩
      · exact ⟨2, c.slots, .inr ⟨type, rfl⟩, done flying _, kept⟩
  case h_9 type =>
    refine ⟨1, c.slots, one, done ?_ _, same (by rw [slotsAfter, type])⟩
    split
    case isFalse => exact .refl c
    case isTrue named =>
      refine setTrDequeue_writes _ entry fun there on found r off => off _ ⟨on, there, ?_, ?_⟩
      · rw [usesContext, type]
        exact bne_iff_ne.mpr named
      · rw [contextWrite, type]
        exact ⟨found, rfl⟩
  case h_11 noEnable noDisable _ _ _ _ _ _ _ =>
    refine ⟨1, c.slots, one, .pushEvent .., same ?_⟩
    unfold slotsAfter
    split
    · exact absurd ‹_› noEnable
    · exact absurd ‹_› noDisable
    · rfl
  all_goals
    rename_i type
    exact ⟨1, c.slots, one, .pushEvent .., same (by rw [slotsAfter, type])⟩

/-- The position of the walker, and what its commands have changed. -/
def commandAt (c : Controller δ) : Word × Bool := (c.crcrDequeue, c.pcs)

def commandsMet (c : Controller δ) : Commands := ⟨eventsFrom c.intr, c.present⟩

/-- The loop follows the plan for the memory before the call. -/
theorem commandPass_follows (m : Dma) (dcbaap : Word) :
    (commandPlan m dcbaap).Follows Range.Clear SameAt m
      (fun c : Controller δ => c.dcbaap = dcbaap) commandAt commandsMet
      (·.dma) commandPass := by
  intro c good reads needs
  have trb : c.dma.readTrb c.crcrDequeue = m.readTrb c.crcrDequeue := (reads _ (.inl rfl)).readTrb
  unfold commandPass commandPlan commandNext commandAt
  dsimp only
  rw [trb]
  by_cases cycle : (m.readTrb c.crcrDequeue).cycle ≠ c.pcs
  · rw [if_pos cycle, if_pos cycle]
  rw [if_neg cycle, if_neg cycle]
  by_cases link : (m.readTrb c.crcrDequeue).getType = .link
  · rw [if_pos link, if_pos link]
    exact ⟨good, rfl, if_pos link ▸ rfl, fun _ _ => Agrees.refl _ _ _⟩
  rw [if_neg link, if_neg link]
  -- what the command may write is what the plan says, as its entry is as it was
  have same (w : Range) (writes : c.writesOf (m.readTrb c.crcrDequeue) w) :
      Looks m dcbaap c.commandAt c.commandsMet ∧ contextWrite m dcbaap (m.readTrb c.crcrDequeue) w := by
    obtain ⟨on, there, uses, inside⟩ := writes
    have looks : Looks m dcbaap c.commandAt c.commandsMet := ⟨not_not.mp cycle, good ▸ on, there, uses⟩
    have entry : c.dma.read 64 (entryRange dcbaap (m.readTrb c.crcrDequeue).getSlotId).1 8 = m.read 64 _ 8 :=
      Agrees.readAll (reads _ (.inr ⟨looks, rfl⟩))
    refine ⟨looks, ?_⟩
    unfold contextWrite at inside ⊢
    rwa [good, entry] at inside
  obtain ⟨k, slots, pushes, writes, present⟩ := command_spec c (m.readTrb c.crcrDequeue) fun w inside => by
    obtain ⟨looks, inside⟩ := same w inside
    rw [good]
    exact needs looks w inside
  refine ⟨writes.dcbaap.trans good, ?_, ?_, fun part off => ?_⟩
  · dsimp only
    rw [writes.crcrDequeue, writes.pcs]
  · rw [if_neg link]
    exact ⟨writes.present.trans present, k, pushes, writes.events⟩
  · exact writes.dma part (fun w inside => off w (.inl (same w inside))) fun w inside =>
      off w (.inr ⟨link, k, pushes, inside⟩)

instance finite_position : Finite (Word × Bool) := by
  have words : Finite Word := .of_injective BitVec.toFin fun _ _ => BitVec.eq_of_toFin_eq
  infer_instance

/-- No command writes a TRB or an entry of the array that the walk has still to read. -/
def CommandsApart (c : Controller δ) : Prop :=
  (commandPlan c.dma c.dcbaap).Undisturbed Range.Clear c.commandAt c.commandsMet

theorem processCommandRing_returns (apart : CommandsApart c) :
    (∃ bound, (processCommandRing bound c).isSome = true) ↔ NeverTwice (commandNext c.dma) (c.crcrDequeue, c.pcs) :=
  ((commandPass_follows c.dma c.dcbaap).returns_iff Agrees.trans rfl (fun _ => Agrees.refl _ _ _) apart).trans
    (stops_iff_neverTwice _)

end Commands

end Controller

end Rv64Vm.Xhci
