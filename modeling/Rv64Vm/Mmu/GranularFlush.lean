import Rv64Vm.Mmu.TlbSound

/-! # The granular flushes

`SFENCE.VMA` with an address or an ASID invalidates slots in place. A superpage
leaf may have filled many slots, one for each of its 4 KiB pages that was
accessed, and `flush_addr` looks at one of them, whatever it holds. Beside the
machine goes a record of the addresses that each slot's leaf mapped when the
slot was filled; the flushes do what they should exactly if that record is
about the one slot.
-/

namespace Rv64Vm

open Lib

namespace Tlb

/-- The slot holds an entry of the current generation. -/
def Current (t : Tlb) (i : Nat) : Prop := (t.entries i).generation = t.generation

/-- The entry belongs to one address space, that of `asid`. -/
def Private (t : Tlb) (asid : BitVec 16) (i : Nat) : Prop := (t.entries i).global = false ∧ (t.entries i).asid = asid

/-- From `t` to `t'` the lookups through the slots of `S` are lost, and no others. -/
def Drops (t t' : Tlb) (S : Nat → Prop) : Prop :=
  ∀ va type asid mode mxr sum,
    (S (index va) → t'.lookup va type asid mode mxr sum = none) ∧
    (¬ S (index va) → t'.lookup va type asid mode mxr sum = t.lookup va type asid mode mxr sum)

/-- The slots of `K` are cleared, and no others. -/
structure Clears (t t' : Tlb) (K : Nat → Prop) : Prop where
  generation : t'.generation = t.generation
  cleared : ∀ i, K i → t'.entries i = { t.entries i with generation := 0 }
  kept : ∀ i, ¬ K i → t'.entries i = t.entries i

/-- Every current entry can be hit. -/
def Hittable (t : Tlb) : Prop :=
  ∀ i, t.Current i → ∃ va, index va = i ∧ va &&& ~~~(pageMask (t.entries i).pageBits) = (t.entries i).vpageBase ∧
    permits (t.entries i).perm .load .machine true true = true

section Clears

variable {t t' : Tlb} {K S : Nat → Prop}

theorem lookup_stale {va : Word} (stale : ¬ t.Current (index va)) (type : AccessType) (asid : BitVec 16)
    (mode : PrivilegeMode) (mxr sum : Bool) : t.lookup va type asid mode mxr sum = none := if_pos stale

theorem lookup_same {va : Word} (generation : t'.generation = t.generation)
    (same : t'.entries (index va) = t.entries (index va)) (type : AccessType) (asid : BitVec 16)
    (mode : PrivilegeMode) (mxr sum : Bool) :
    t'.lookup va type asid mode mxr sum = t.lookup va type asid mode mxr sum := by
  unfold lookup
  rw [same, generation]

theorem Clears.stale (clears : Clears t t' K) (positive : 0 < t.generation) {i : Nat} (mem : K i) : ¬ t'.Current i := by
  intro current
  rw [Current, clears.cleared i mem, clears.generation] at current
  exact Nat.ne_of_lt positive current

theorem Clears.stays (clears : Clears t t' K) {i : Nat} (out : ¬ K i) : t'.Current i ↔ t.Current i := by
  rw [Current, clears.kept i out, clears.generation, Current]

theorem Hittable.hit (hittable : t.Hittable) {i : Nat} (current : t.Current i) :
    ∃ va pa, index va = i ∧ t.lookup va .load (t.entries i).asid .machine true true = some pa := by
  obtain ⟨va, rfl, inside, permitted⟩ := hittable i current
  exact ⟨va, _, rfl, lookup_eq_some_iff.mpr ⟨current, inside, .inr rfl, permitted, rfl⟩⟩

/-- Clearing the slots of `K` loses the lookups through `S` exactly if the two agree on what is current. -/
theorem Clears.drops_iff (clears : Clears t t' K) (positive : 0 < t.generation) (hittable : t.Hittable) :
    Drops t t' S ↔ ∀ i, t.Current i → (S i ↔ K i) := by
  constructor
  · intro drops i current
    obtain ⟨va, pa, rfl, hit⟩ := hittable.hit current
    obtain ⟨lost, kept⟩ := drops va .load (t.entries (index va)).asid .machine true true
    constructor
    · intro member
      by_contra out
      have after := lookup_same clears.generation (clears.kept _ out) .load (t.entries (index va)).asid .machine true
        true
      rw [lost member, hit] at after
      cases after
    · intro member
      by_contra out
      have after := lookup_stale (clears.stale positive member) .load (t.entries (index va)).asid .machine true true
      rw [kept out, hit] at after
      cases after
  · intro agree va type asid mode mxr sum
    by_cases current : t.Current (index va)
    · have here := agree _ current
      constructor
      · intro member
        exact lookup_stale (clears.stale positive (here.mp member)) ..
      · intro out
        exact lookup_same clears.generation (clears.kept _ fun member => out (here.mpr member)) ..
    · have before := lookup_stale current type asid mode mxr sum
      have stale : ¬ t'.Current (index va) := by
        by_cases member : K (index va)
        · exact clears.stale positive member
        · rwa [clears.stays member]
      rw [before]
      exact ⟨fun _ => lookup_stale stale .., fun _ => lookup_stale stale ..⟩

end Clears

/-! ## Which slots each flush clears -/

section Flushes

variable (t : Tlb) (va : Word) (asid : BitVec 16)

theorem evict_clears (i : Nat) : Clears t (t.evict i) (· = i) where
  generation := by simp [evict]
  cleared k here := by
    subst here
    simp [evict]
  kept k elsewhere := by simp [evict, elsewhere]

theorem evict_if_clears (i : Nat) (p : Prop) [Decidable p] :
    Clears t (if p then t.evict i else t) (fun k => k = i ∧ p) := by
  split
  case isTrue holds =>
    have clears := t.evict_clears i
    exact ⟨clears.generation, fun k here => clears.cleared k here.1,
      fun k out => clears.kept k fun here => out ⟨here, holds⟩⟩
  case isFalse fails => exact ⟨rfl, fun k here => absurd here.2 fails, fun _ _ => rfl⟩

theorem flushAddr_clears : Clears t (t.flushAddr va) (fun k => k = index va ∧ t.Current (index va)) :=
  t.evict_if_clears (index va) _

theorem flushAddrAsid_clears :
    Clears t (t.flushAddrAsid va asid) (fun k => k = index va ∧ t.ownedBy (index va) asid = true) :=
  t.evict_if_clears (index va) _

variable {t asid}

theorem ownedBy_iff {i : Nat} : t.ownedBy i asid = true ↔ t.Current i ∧ t.Private asid i := by
  simp only [ownedBy, Bool.and_eq_true, beq_iff_eq, Bool.not_eq_true', Current, Private, and_assoc]

/-- The loop of `flush_asid` over any slots. -/
theorem flushSlots_clears (positive : 0 < t.generation) (slots : List Nat) :
    Clears t (slots.foldl (fun t i => if t.ownedBy i asid then t.evict i else t) t)
      (fun k => k ∈ slots ∧ t.ownedBy k asid = true) := by
  induction slots generalizing t with
  | nil => exact ⟨rfl, fun k here => absurd here.1 List.not_mem_nil, fun _ _ => rfl⟩
  | cons i rest ih =>
    have first := t.evict_if_clears i (t.ownedBy i asid = true)
    rw [List.foldl_cons]
    generalize (if t.ownedBy i asid = true then t.evict i else t) = mid at first ⊢
    have later := ih (t := mid) (first.generation ▸ positive)
    -- a slot that was cleared is not owned any more
    have owned {k : Nat} (out : ¬ (k = i ∧ t.ownedBy i asid = true)) : mid.ownedBy k asid = t.ownedBy k asid := by
      rw [ownedBy, ownedBy, first.kept k out, first.generation]
    have gone {k : Nat} (here : k = i ∧ t.ownedBy i asid = true) : mid.ownedBy k asid = false := by
      apply Bool.eq_false_iff.mpr
      intro still
      exact first.stale positive here (ownedBy_iff.mp still).1
    refine ⟨later.generation.trans first.generation, fun k listed => ?_, fun k out => ?_⟩
    · by_cases here : k = i ∧ t.ownedBy i asid = true
      · rw [later.kept k fun again => by rw [gone here] at again; exact Bool.false_ne_true again.2,
          first.cleared k here]
      · have behind : k ∈ rest := by
          rcases List.mem_cons.mp listed.1 with rfl | mem
          · exact absurd ⟨rfl, listed.2⟩ here
          · exact mem
        rw [later.cleared k ⟨behind, owned here ▸ listed.2⟩, first.kept k here]
    · have here : ¬ (k = i ∧ t.ownedBy i asid = true) := by
        rintro ⟨rfl, holds⟩
        exact out ⟨List.mem_cons_self, holds⟩
      rw [later.kept k fun again => out ⟨List.mem_cons_of_mem _ again.1, owned here ▸ again.2⟩, first.kept k here]

theorem index_lt_size (va : Word) : index va < size := by
  rw [index, BitVec.toNat_and]
  exact Nat.lt_of_le_of_lt Nat.and_le_right (by decide)

theorem flushAsid_drops (positive : 0 < t.generation) (hittable : t.Hittable) :
    Drops t (t.flushAsid asid) (t.Private asid) := by
  refine ((flushSlots_clears positive (List.range size)).drops_iff positive hittable).mpr fun i current => ?_
  obtain ⟨va, here, -⟩ := hittable i current
  have small : i < size := here ▸ index_lt_size va
  rw [ownedBy_iff]
  exact ⟨fun owned => ⟨List.mem_range.mpr small, current, owned⟩, fun owned => owned.2.2⟩

end Flushes

end Tlb

/-! ## Where entries come from -/

/-- The address of the leaf entry that maps `va`. -/
def leafFor (c : Core) (va : Word) : Option Word :=
  if VirtualAddress.isValid va then
    match walkLoop c.mmap va 2 (rootTable (Satp.ppn c.hart.satp)) with
    | .ok ⟨_, .leaf addr pte level⟩ => if misaligned pte level then none else some addr
    | _ => none
  else none

/-- For each slot, the addresses that the leaf it was filled from mapped at that time. -/
abbrev Origins := Nat → Word → Prop

/-- A translation fills a slot from the leaf of its walk; the identity branch maps a single page. -/
def Origins.translate (o : Origins) (c : Core) (type : AccessType) (va : Word) : Origins :=
  if identityMapped c.hart type then Function.update o (Tlb.index va) fun v => v >>> 12 = va >>> 12
  else if (probe c.hart type va).isSome then o
  else
    match translateImpl c type va with
    | .error _ => o
    | .ok t => if t.ret.isSuccess then Function.update o (Tlb.index va) fun v => leafFor c v = leafFor c va else o

/-- A machine with the record of its TLB's slots. -/
structure Traced where
  core : Core
  origins : Origins := fun _ _ => False

def Traced.step (s : Traced) (op : MmuOp) : Option Traced :=
  (mmuStep s.core op).map fun c => ⟨c,
    match op with
    | .translate type va => s.origins.translate s.core type va
    | _ => s.origins⟩

/-- Every 4 KiB page of the identity branch, and every leaf, can be read or executed. -/
theorem permits_load_machine {perm : BitVec 8} (readable : (hasPerm perm permR || hasPerm perm permX) = true) :
    Tlb.permits perm .load .machine true true = true := by
  simpa [Tlb.permits] using readable

theorem MmuEffect.hittable {c next : Core} {op : MmuOp} (effect : MmuEffect c next op) (ok : c.hart.tlb.GenOk)
    (hittable : c.hart.tlb.Hittable) : next.hart.tlb.Hittable := by
  have stripped {b : Bool} {perm : BitVec 8} (readable : (hasPerm perm permR || hasPerm perm permX) = true) :
      (hasPerm (if b then stripWrite perm else perm) permR || hasPerm (if b then stripWrite perm else perm) permX) =
        true := by
    cases b with
    | false => exact readable
    | true => simpa using readable
  have inserted {va pa : Word} {bits : Nat} {perm : BitVec 8} {asid : BitVec 16} {global : Bool} {host : Word}
      (readable : (hasPerm perm permR || hasPerm perm permX) = true) :
      (c.hart.tlb.insert c.smc va pa bits perm asid global host).Hittable := by
    intro i current
    rw [Tlb.Current, Tlb.insert_entries, Tlb.insert_generation] at current
    rw [Tlb.insert_entries]
    by_cases here : i = Tlb.index va
    · subst here
      rw [Function.update_self]
      exact ⟨va, rfl, rfl, permits_load_machine (stripped readable)⟩
    · rw [Function.update_of_ne here] at current ⊢
      exact hittable i current
  cases effect with
  | evicts tlb _ =>
    intro i current
    rcases tlb.2 i with same | cleared
    · rw [Tlb.Current, same, tlb.1] at current
      rw [same]
      exact hittable i current
    · rw [Tlb.Current, cleared, tlb.1] at current
      exact absurd current (Nat.ne_of_lt ok.positive)
  | flushes tlb _ =>
    rw [tlb]
    intro i current
    exact absurd current (ok.flushAll_stale i)
  | pokes same => rwa [same]
  | identity _ same =>
    rw [same, translateIdentity_tlb]
    exact inserted (stripped (by decide))
  | @walk type va _ reads addr pte level m _ found _ _ same =>
    rw [same, walked_tlb]
    have leaf := (walkLoop_found found).readable
    have updated := SamePte.updatedPte pte type
    refine inserted (stripped ?_)
    rw [hasPerm_permOfPte_r, hasPerm_permOfPte_x, updated.r_eq, updated.x]
    exact leaf

theorem Traced.step_effect {s next : Traced} {op : MmuOp} (taken : s.step op = some next) :
    MmuEffect s.core next.core op := by
  obtain ⟨c, stepped, rfl⟩ := Option.map_eq_some_iff.mp taken
  exact mmuStep_effect stepped

/-- After every history each current entry can be hit. -/
theorem Traced.hittable_of_run {s final : Traced} {ops : List MmuOp} (fresh : s.core.hart.tlb = {})
    (ran : run Traced.step s ops = some final) : final.core.hart.tlb.GenOk ∧ final.core.hart.tlb.Hittable := by
  refine run_invariant_of_step (I := fun s => s.core.hart.tlb.GenOk ∧ s.core.hart.tlb.Hittable) ?_ ?_ ran
  · rintro s op next taken ⟨ok, hittable⟩
    have effect := Traced.step_effect taken
    exact ⟨effect.genOk ok, effect.hittable ok hittable⟩
  · rw [fresh]
    refine ⟨Tlb.genOk_initial, fun i current => ?_⟩
    exact absurd current Nat.zero_ne_one

/-- After every history, `flush_addr` loses the lookups through the entries of the leaf that maps `va`, and no others,
    exactly if the slot of `va` is the only one such an entry is in, and has no other entry. The same of
    `flush_addr_asid`, among the private entries of the address space; `flush_asid` always loses just those. -/
theorem granular_flush_iff (init : Core) (ops : List MmuOp) (s : Traced) (fresh : init.hart.tlb = {})
    (ran : run Traced.step { core := init } ops = some s) (va : Word) (asid : BitVec 16) :
    (Tlb.Drops s.core.hart.tlb (s.core.hart.tlb.flushAddr va) (fun i => s.origins i va) ↔
      ∀ i, s.core.hart.tlb.Current i → (s.origins i va ↔ i = Tlb.index va)) ∧
    (Tlb.Drops s.core.hart.tlb (s.core.hart.tlb.flushAddrAsid va asid)
        (fun i => s.origins i va ∧ s.core.hart.tlb.Private asid i) ↔
      ∀ i, s.core.hart.tlb.Current i → s.core.hart.tlb.Private asid i → (s.origins i va ↔ i = Tlb.index va)) ∧
    Tlb.Drops s.core.hart.tlb (s.core.hart.tlb.flushAsid asid) (s.core.hart.tlb.Private asid) := by
  obtain ⟨ok, hittable⟩ := Traced.hittable_of_run fresh ran
  generalize s.core.hart.tlb = t at ok hittable ⊢
  refine ⟨?_, ?_, Tlb.flushAsid_drops ok.positive hittable⟩
  · rw [(t.flushAddr_clears va).drops_iff ok.positive hittable]
    refine forall₂_congr fun i current => ?_
    rw [and_iff_left_of_imp fun here => here ▸ current]
  · rw [(t.flushAddrAsid_clears va asid).drops_iff ok.positive hittable]
    refine forall₂_congr fun i current => ?_
    rw [Tlb.ownedBy_iff]
    constructor
    · intro agree owned
      constructor
      · exact fun mapped => (agree.mp ⟨mapped, owned⟩).1
      · exact fun here => (agree.mpr ⟨here, here ▸ ⟨current, owned⟩⟩).1
    · intro agree
      constructor
      · rintro ⟨mapped, owned⟩
        have here := (agree owned).mp mapped
        exact ⟨here, here ▸ ⟨current, owned⟩⟩
      · rintro ⟨here, -, owned⟩
        exact ⟨(agree (here ▸ owned)).mpr here, here ▸ owned⟩

/-- A first translation makes at most its own slot current. -/
theorem Traced.current_of_translate {s next : Traced} {type : AccessType} {va : Word} {i : Nat}
    (fresh : s.core.hart.tlb = {}) (taken : s.step (.translate type va) = some next)
    (current : next.core.hart.tlb.Current i) : i = Tlb.index va := by
  by_contra elsewhere
  have empty : ¬ s.core.hart.tlb.Current i := by
    rw [fresh]
    exact Nat.zero_ne_one
  have effect := Traced.step_effect taken
  cases effect with
  | evicts tlb _ =>
    rcases tlb.2 i with same | cleared
    · rw [Tlb.Current, same, tlb.1] at current
      exact empty current
    · rw [Tlb.Current, cleared, tlb.1, fresh] at current
      exact Nat.zero_ne_one current
  | flushes tlb _ =>
    rw [Tlb.Current, tlb, fresh] at current
    cases current
  | identity _ same =>
    rw [Tlb.Current, same, translateIdentity_tlb, identityFill, Tlb.insert_entries, Tlb.insert_generation,
      Function.update_of_ne elsewhere] at current
    exact empty current
  | walk _ _ _ _ _ same =>
    rw [Tlb.Current, same, walked_tlb, fillTlb_entries, fillTlb_generation, Function.update_of_ne elsewhere] at current
    exact empty current

/-- One page of the gigapage has been accessed. -/
theorem granular_flush_one_page :
    ∃ s, run Traced.step { core := gigapageCore } [.translate .load 0x80000123#64] = some s ∧
      Tlb.Drops s.core.hart.tlb (s.core.hart.tlb.flushAddr 0x80000000#64) (fun i => s.origins i 0x80000000#64) := by
  obtain ⟨s, ran⟩ : ∃ s, run Traced.step { core := gigapageCore } [.translate .load 0x80000123#64] = some s := ⟨_, rfl⟩
  refine ⟨s, ran, (granular_flush_iff gigapageCore _ s rfl ran 0x80000000#64 0).1.mpr fun i current => ?_⟩
  obtain ⟨next, taken, same⟩ := run_cons_eq_some.mp ran
  cases same
  obtain rfl : i = Tlb.index 0x80000123#64 := Traced.current_of_translate rfl taken current
  obtain ⟨c, -, rfl⟩ := Option.map_eq_some_iff.mp taken
  refine iff_of_true ?_ (by decide)
  have filled : Origins.translate (fun _ _ => False) gigapageCore .load 0x80000123#64 =
      Function.update (fun _ _ => False) (Tlb.index 0x80000123#64)
        fun v => leafFor gigapageCore v = leafFor gigapageCore 0x80000123#64 := rfl
  dsimp only
  rw [filled, Function.update_self]
  rfl

/-- Two pages of it have: the flush of the first leaves the entry of the second. -/
theorem superpage_survives_flush :
    ∃ s, run Traced.step { core := gigapageCore }
        [.translate .load 0x80000123#64, .translate .load 0x80001000#64] = some s ∧
      s.origins (Tlb.index 0x80001000#64) 0x80000123#64 ∧
      (s.core.hart.tlb.flushAddr 0x80000123#64).lookup 0x80001000#64 .load 0 .supervisor false false =
        some 0x80001000#64 :=
  ⟨_, rfl, rfl, by decide +kernel⟩

end Rv64Vm
