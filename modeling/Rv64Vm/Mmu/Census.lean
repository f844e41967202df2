import Rv64Vm.Lib.Runs
import Rv64Vm.Lib.Tally
import Rv64Vm.Mmu.TlbLemmas

/-! # The census of writable pages

`w_writable` counts the resident writable entries of a physical page in eight bits that stick at
255, and `note_exec` relies on it to find the writable aliases of a page that starts to host code.
The number shown is a `tally`; an entry wider than 2 MiB is not counted at all, and while one is
around `note_exec` does nothing.
-/

namespace Rv64Vm.Tlb

open Lib

/-! ## What is counted -/

/-- The entry maps the 4 KiB page `p`. -/
def covers (e : TlbEntry) (p : Nat) : Bool := pageOf e.ppageBase ≤ p && p < pageOf e.ppageBase + entryPages e

/-- Larger than 2 MiB. -/
def wide (e : TlbEntry) : Bool := wCreditCapPages < entryPages e

/-- A current-generation entry with `PERM_W`. -/
def writable (t : Tlb) (e : TlbEntry) : Bool := decide (e.generation = t.generation) && hasPerm e.perm permW

def credits (t : Tlb) (e : TlbEntry) (p : Nat) : Bool := t.writable e && !wide e && covers e p

/-- How many resident writable entries of up to 2 MiB cover page `p`. -/
def aliases (t : Tlb) (p : Nat) : Nat := ∑ i ∈ Finset.range size, (t.credits (t.entries i) p).toNat

/-- `w_writable[p]`. -/
def credited (t : Tlb) (p : Nat) : Nat := (t.wWritable.get? p).getD 0

section Credited

variable (t : Tlb) (e : TlbEntry) (p : Nat)

theorem credited_eq : t.credited p = if p < t.wWritable.size then t.wWritable.cell p else 0 := by
  unfold credited GrowVec.get?
  split <;> rfl

theorem covers_page_iff {e : TlbEntry} {p : Nat} :
    covers e p = true ↔ pageOf e.ppageBase ≤ p ∧ p < pageOf e.ppageBase + entryPages e := by
  rw [covers, Bool.and_eq_true, decide_eq_true_iff, decide_eq_true_iff]

/-- A loop that rewrites the cells of the pages of `e`, seen at one page. -/
theorem credited_mapIdx {f : Nat → Nat} {P : Nat → Prop} [DecidablePred P]
    (inside : covers e p = true → P 0 → p < t.wWritable.size) :
    ({ t with wWritable := t.wWritable.mapIdx fun p n =>
        if pageOf e.ppageBase ≤ p ∧ p < pageOf e.ppageBase + entryPages e ∧ P n then f n else n } : Tlb).credited p =
      if covers e p = true ∧ P (t.credited p) then f (t.credited p) else t.credited p := by
  simp only [credited_eq, GrowVec.mapIdx, covers_page_iff, and_assoc]
  by_cases here : p < t.wWritable.size
  · simp only [if_pos here]
  · simp only [if_neg here]
    exact (if_neg fun all => here (inside (covers_page_iff.mpr ⟨all.1, all.2.1⟩) all.2.2)).symm

theorem credited_dropWritable : (t.dropWritable e).credited p = t.credited p - (t.credits e p).toNat := by
  have live : (e.generation ≠ t.generation || !hasPerm e.perm permW) = !t.writable e := by
    simp [writable, Bool.not_and]
  unfold dropWritable credits
  dsimp only
  rw [live]
  cases t.writable e with
  | false => rfl
  | true =>
    by_cases big : entryPages e > wCreditCapPages
    · rw [if_neg nofun, if_pos big, wide, decide_eq_true big]
      rfl
    · rw [if_neg nofun, if_neg big, wide, decide_eq_false big]
      refine (credited_mapIdx t e p (f := (· - 1)) (P := (· ≠ 0)) (fun _ no => absurd rfl no)).trans ?_
      cases covers e p with
      | false => rfl
      | true => split <;> simp_all

/-- Growing the vector shows no new credits. -/
theorem credited_growTo (n : Nat) :
    ({ t with wWritable := t.wWritable.growTo n 0 } : Tlb).credited p = t.credited p := by
  simp only [credited_eq, GrowVec.growTo]
  split
  · rfl
  · dsimp only
    split <;> split <;> first | rfl | omega

theorem credited_addWritable (current : e.generation = t.generation) :
    (t.addWritable e).credited p =
      if t.credits e p = true ∧ t.credited p ≠ 255 then t.credited p + 1 else t.credited p := by
  have live : (!hasPerm e.perm permW) = !t.writable e := by simp [writable, current]
  unfold addWritable credits
  dsimp only
  rw [live]
  cases t.writable e with
  | false => rfl
  | true =>
    by_cases big : entryPages e > wCreditCapPages
    · rw [if_neg nofun, if_pos big, wide, decide_eq_true big]
      rfl
    · rw [if_neg nofun, if_neg big, wide, decide_eq_false big]
      let grown := if pageOf e.ppageBase + entryPages e > t.wWritable.size
        then t.wWritable.growTo (pageOf e.ppageBase + entryPages e + 8192) 0 else t.wWritable
      let u : Tlb := { t with wWritable := grown }
      have same : u.credited p = t.credited p := by
        by_cases short : pageOf e.ppageBase + entryPages e > t.wWritable.size
        · simp only [u, grown, if_pos short, credited_growTo]
        · simp only [u, grown, if_neg short]
      have room : covers e p = true → 0 ≠ 255 → p < u.wWritable.size := by
        intro here _
        have under := (covers_page_iff.mp here).2
        by_cases short : pageOf e.ppageBase + entryPages e > t.wWritable.size
        · simp only [u, grown, if_pos short, GrowVec.growTo]
          split
          · omega
          · exact Nat.lt_add_right 8192 under
        · simp only [u, grown, if_neg short]
          omega
      refine (credited_mapIdx u e p (f := (· + 1)) (P := (· ≠ 255)) room).trans ?_
      rw [same]
      rfl

end Credited

/-! ## The slots -/

theorem index_lt (va : Word) : index va < size := by
  have small : (0x1FFFF#64).toNat < size := by decide
  rw [index, BitVec.toNat_and]
  exact Nat.lt_of_le_of_lt Nat.and_le_right small

/-- Put an entry into a slot and count it. -/
def place (t : Tlb) (i : Nat) (e : TlbEntry) : Tlb :=
  { t with entries := Function.update t.entries i e }.addWritable e

theorem insert_eq_place (t : Tlb) (smc : SelfMod) (va pa : Word) (bits : Nat) (perm : BitVec 8) (asid : BitVec 16)
    (global : Bool) (host : Word) :
    t.insert smc va pa bits perm asid global host =
      (t.evict (index va)).place (index va) (t.newEntry smc va pa bits perm asid global host) := by
  rw [place, evict, Function.update_idem]
  rfl

section Slots

variable {t t' : Tlb} {i : Nat} {e : TlbEntry} (inside : i < size) (p : Nat)
include inside

/-- One slot is written. -/
theorem aliases_update (gen : t'.generation = t.generation) (put : t'.entries = Function.update t.entries i e) :
    t'.aliases p + (t.credits (t.entries i) p).toNat = t.aliases p + (t.credits e p).toNat := by
  have same (e : TlbEntry) : t'.credits e p = t.credits e p := by rw [credits, credits, writable, writable, gen]
  have rest : ∀ k, k ≠ i → (t'.credits (t'.entries k) p).toNat = (t.credits (t.entries k) p).toNat := by
    intro k other
    rw [same, put, Function.update_of_ne other]
  have here : (t'.credits (t'.entries i) p).toNat = (t.credits e p).toNat := by
    rw [same, put, Function.update_self]
  rw [aliases, sum_replace inside rest, here, ← aliases]

theorem aliases_evict (ok : GenOk t) : (t.evict i).aliases p + (t.credits (t.entries i) p).toNat = t.aliases p := by
  have moved := aliases_update inside p (evict_onlyEvicts t i).1 rfl
  have stale : t.credits { t.entries i with generation := 0 } p = false := by
    rw [credits, writable, decide_eq_false (Nat.ne_of_lt ok.positive)]
    rfl
  rw [moved, stale, Bool.toNat_false, Nat.add_zero]

omit inside in
theorem credited_evict : (t.evict i).credited p = t.credited p - (t.credits (t.entries i) p).toNat :=
  credited_dropWritable t (t.entries i) p

/-- Evicting keeps the census right about what is left. -/
theorem tally_evict (ok : GenOk t) {peak : Nat} (right : t.credited p = tally 255 peak (t.aliases p)) :
    (t.evict i).credited p = tally 255 peak ((t.evict i).aliases p) := by
  have fewer := aliases_evict inside p ok
  rw [credited_evict, right]
  cases here : t.credits (t.entries i) p with
  | false =>
    rw [here, Bool.toNat_false, Nat.add_zero] at fewer
    rw [fewer, Bool.toNat_false, Nat.sub_zero]
  | true =>
    rw [here, Bool.toNat_true] at fewer
    rw [Bool.toNat_true, tally_pred, ← fewer, Nat.add_sub_cancel]

/-- So does filling a slot that held nothing, while the census has not lost track. -/
theorem tally_place {peak : Nat} (current : e.generation = t.generation)
    (free : t.credits (t.entries i) p = false) (within : peak - 255 ≤ t.aliases p) (below : t.aliases p ≤ peak)
    (right : t.credited p = tally 255 peak (t.aliases p)) :
    (t.place i e).credited p = tally 255 (max peak ((t.place i e).aliases p)) ((t.place i e).aliases p) := by
  have more := @aliases_update t (t.place i e) i e inside p (addWritable_generation ..) (addWritable_entries ..)
  rw [free, Bool.toNat_false, Nat.add_zero] at more
  have shown : (t.place i e).credited p =
      if t.credits e p = true ∧ t.credited p ≠ 255 then t.credited p + 1 else t.credited p :=
    credited_addWritable { t with entries := Function.update t.entries i e } e p current
  rw [shown, more, right]
  cases t.credits e p with
  | false =>
    rw [if_neg fun both => absurd both.1 nofun, Bool.toNat_false, Nat.add_zero]
    exact (tally_max_of_le below).symm
  | true =>
    simp only [true_and, Bool.toNat_true]
    exact tally_succ within below

end Slots

/-! ## Operations -/

inductive Op where
  | insert (smc : SelfMod) (va pa : Word) (bits : Nat) (perm : BitVec 8) (asid : BitVec 16) (global : Bool)
      (host : Word)
  | flushAll
  | flushAddr (va : Word)
  | flushAsid (asid : BitVec 16)
  | flushAddrAsid (va : Word) (asid : BitVec 16)
  | noteExec (phys : Word)

def Op.apply (t : Tlb) : Op → Tlb
  | .insert smc va pa bits perm asid global host => t.insert smc va pa bits perm asid global host
  | .flushAll => t.flushAll
  | .flushAddr va => t.flushAddr va
  | .flushAsid asid => t.flushAsid asid
  | .flushAddrAsid va asid => t.flushAddrAsid va asid
  | .noteExec phys => t.noteExec phys

/-- The operation fills a writable entry wider than 2 MiB. -/
def Op.widens (t : Tlb) : Op → Bool
  | .insert smc va pa bits perm asid global host =>
    let e := t.newEntry smc va pa bits perm asid global host
    hasPerm e.perm permW && wide e
  | _ => false

/-- A run of operations, with the most aliases that each page has had since it last had none. -/
structure Watched where
  tlb : Tlb := {}
  peak : Nat → Nat := fun _ => 0

def watch (s : Watched) (op : Op) : Option Watched :=
  let t := op.apply s.tlb
  some ⟨t, fun p => if t.aliases p = 0 then 0 else max (s.peak p) (t.aliases p)⟩

/-- The census is sound: a page under a writable entry is counted, and where an entry is too wide to be counted the
    flag is up and `note_exec` removes every writable entry of the page. -/
structure Sound (t : Tlb) : Prop where
  counted : ∀ i < size, ∀ p, t.credits (t.entries i) p = true → t.credited p ≠ 0
  oversized : ∀ i < size, t.writable (t.entries i) = true → wide (t.entries i) = true →
    t.wWritableOversized = true ∧ ∀ phys, ∀ j < size,
      (t.noteExec phys).writable ((t.noteExec phys).entries j) = true →
        covers ((t.noteExec phys).entries j) (pageOf phys) = false

/-- No entry is too wide to be counted. -/
def Narrow (t : Tlb) : Prop := ∀ i < size, t.writable (t.entries i) = true → wide (t.entries i) = false

/-- What the census means as long as it has not lost track of a page. -/
structure Tracked (s : Watched) : Prop where
  gen : GenOk s.tlb
  right : ∀ p, s.tlb.credited p = tally 255 (s.peak p) (s.tlb.aliases p)
  below : ∀ p, s.tlb.aliases p ≤ s.peak p
  within : ∀ p, s.peak p - 255 ≤ s.tlb.aliases p - 1
  narrow : s.tlb.Narrow

/-- The operation leaves the census showing what its history makes of the aliases that are left. -/
def Follows (s : Watched) (t : Tlb) : Prop :=
  ∀ p, t.credited p = tally 255 (max (s.peak p) (t.aliases p)) (t.aliases p)

variable {s : Watched} {t : Tlb}

theorem Tracked.follows_self (ok : Tracked s) : Follows s s.tlb := by
  intro p
  rw [tally_max_of_le (ok.below p)]
  exact ok.right p

theorem aliases_flushAll (ok : GenOk t) (p : Nat) : t.flushAll.aliases p = 0 := by
  apply Finset.sum_eq_zero
  intro i _
  rw [credits, writable, decide_eq_false (ok.flushAll_stale i)]
  rfl

theorem credited_flushAll (t : Tlb) (p : Nat) : t.flushAll.credited p = 0 := by
  rw [credited_eq]
  exact ite_self 0

theorem Tracked.follows_flushAll (ok : Tracked s) : Follows s s.tlb.flushAll := by
  intro p
  rw [credited_flushAll, aliases_flushAll ok.gen, tally_zero]

/-- What evictions keep. -/
structure Evicted (s : Watched) (t : Tlb) : Prop where
  gen : GenOk t
  right : ∀ p, t.credited p = tally 255 (s.peak p) (t.aliases p)
  below : ∀ p, t.aliases p ≤ s.peak p

theorem Evicted.evict (ok : Evicted s t) {i : Nat} (inside : i < size) : Evicted s (t.evict i) where
  gen := ok.gen.onlyEvicts (evict_onlyEvicts t i)
  right p := tally_evict inside p ok.gen (ok.right p)
  below p := Nat.le_trans (Nat.le_of_add_right_le (aliases_evict inside p ok.gen).le) (ok.below p)

theorem Evicted.evict_if (ok : Evicted s t) {i : Nat} (inside : i < size) (cond : Prop)
    [Decidable cond] : Evicted s (if cond then t.evict i else t) := by
  split
  · exact ok.evict inside
  · exact ok

theorem Evicted.flushAsid (ok : Evicted s t) (asid : BitVec 16) : Evicted s (t.flushAsid asid) := by
  unfold Tlb.flushAsid
  have inside : ∀ i ∈ List.range size, i < size := fun i mem => List.mem_range.mp mem
  generalize List.range size = slots at inside
  induction slots generalizing t with
  | nil => exact ok
  | cons i rest ih =>
    have here : i < size := inside i List.mem_cons_self
    exact ih (ok.evict_if here _) fun k mem => inside k (List.mem_cons_of_mem _ mem)

theorem Evicted.follows (ok : Evicted s t) : Follows s t := by
  intro p
  rw [tally_max_of_le (ok.below p)]
  exact ok.right p

theorem Tracked.evicted (ok : Tracked s) : Evicted s s.tlb := ⟨ok.gen, ok.right, ok.below⟩

theorem Tracked.follows_insert (ok : Tracked s) (smc : SelfMod) (va pa : Word) (bits : Nat)
    (perm : BitVec 8) (asid : BitVec 16) (global : Bool) (host : Word) :
    Follows s (s.tlb.insert smc va pa bits perm asid global host) := by
  intro p
  have inside := index_lt va
  have left := ok.evicted.evict inside
  have fewer := aliases_evict inside p ok.gen
  have within := ok.within p
  have small : (s.tlb.credits (s.tlb.entries (index va)) p).toNat ≤ 1 := Bool.toNat_le _
  have gen : (s.tlb.evict (index va)).generation = s.tlb.generation := (evict_onlyEvicts ..).1
  have free : (s.tlb.evict (index va)).credits ((s.tlb.evict (index va)).entries (index va)) p = false := by
    have stale : ((s.tlb.evict (index va)).entries (index va)).generation = 0 := by
      dsimp only [evict]
      rw [Function.update_self]
    rw [credits, writable, stale, gen, decide_eq_false (Nat.ne_of_lt ok.gen.positive)]
    rfl
  rw [insert_eq_place]
  exact tally_place inside p gen.symm free (by omega) (left.below p) (left.right p)

theorem Tracked.follows (ok : Tracked s) (op : Op) : Follows s (op.apply s.tlb) := by
  cases op with
  | insert smc va pa bits perm asid global host => exact ok.follows_insert smc va pa bits perm asid global host
  | flushAll => exact ok.follows_flushAll
  | flushAddr va => exact (ok.evicted.evict_if (index_lt va) _).follows
  | flushAsid asid => exact (ok.evicted.flushAsid asid).follows
  | flushAddrAsid va asid => exact (ok.evicted.evict_if (index_lt va) _).follows
  | noteExec phys =>
    rcases noteExec_cases s.tlb phys with same | flushed
    · rw [Op.apply, same]
      exact ok.follows_self
    · rw [Op.apply, flushed]
      exact ok.follows_flushAll

/-! ## Entries that are not counted -/

theorem aliases_pos_iff {p : Nat} : 0 < t.aliases p ↔ ∃ i < size, t.credits (t.entries i) p = true := by
  rw [Nat.pos_iff_ne_zero, aliases, Ne, Finset.sum_eq_zero_iff]
  simp

/-- While an entry is too wide to be counted, `note_exec` does nothing, and the entry stays. -/
theorem Sound.narrow (sound : Sound t) : t.Narrow := by
  intro i inside live
  cases big : wide (t.entries i) with
  | false => rfl
  | true =>
    obtain ⟨raised, removes⟩ := sound.oversized i inside live big
    have idle : t.noteExec (t.entries i).ppageBase = t := by
      unfold noteExec
      rw [raised]
      split <;> rfl
    have own : covers (t.entries i) (pageOf (t.entries i).ppageBase) = true :=
      covers_page_iff.mpr ⟨Nat.le_refl _, Nat.lt_add_of_pos_right (Nat.two_pow_pos _)⟩
    have gone := removes (t.entries i).ppageBase i inside
    rw [idle] at gone
    exact absurd (own.symm.trans (gone live)) nofun

theorem sound_iff : Sound t ↔ (∀ p, 0 < t.aliases p → t.credited p ≠ 0) ∧ t.Narrow := by
  constructor
  · intro sound
    refine ⟨fun p positive => ?_, sound.narrow⟩
    obtain ⟨i, inside, here⟩ := aliases_pos_iff.mp positive
    exact sound.counted i inside p here
  · rintro ⟨shown, narrow⟩
    refine ⟨fun i inside p here => shown p (aliases_pos_iff.mpr ⟨i, inside, here⟩), fun i inside live big => ?_⟩
    exact absurd (big.symm.trans (narrow i inside live)) nofun

theorem Narrow.onlyEvicts {t t' : Tlb} (narrow : t.Narrow) (ok : GenOk t) (evicts : OnlyEvicts t t') : t'.Narrow := by
  intro i inside live
  rcases evicts.2 i with same | cleared
  · rw [same] at live ⊢
    rw [writable, evicts.1] at live
    exact narrow i inside live
  · rw [cleared, writable, evicts.1, decide_eq_false (Nat.ne_of_lt ok.positive)] at live
    cases live

theorem GenOk.flushAll_narrow (ok : GenOk t) : t.flushAll.Narrow := by
  intro i _ live
  rw [writable, decide_eq_false (ok.flushAll_stale i)] at live
  cases live

theorem narrow_insert_iff (narrow : t.Narrow) (smc : SelfMod) (va pa : Word) (bits : Nat)
    (perm : BitVec 8) (asid : BitVec 16) (global : Bool) (host : Word) :
    (t.insert smc va pa bits perm asid global host).Narrow ↔
      Op.widens t (.insert smc va pa bits perm asid global host) = false := by
  have gen (e : TlbEntry) : (t.insert smc va pa bits perm asid global host).writable e = t.writable e := by
    rw [writable, insert_generation, ← writable]
  have here : t.writable (t.newEntry smc va pa bits perm asid global host) =
      hasPerm (t.newEntry smc va pa bits perm asid global host).perm permW := by
    rw [writable, newEntry, decide_eq_true rfl, Bool.true_and]
  rw [Op.widens, ← here]
  unfold Narrow
  rw [insert_entries]
  constructor
  · intro all
    have new := all (index va) (index_lt va)
    rw [Function.update_self, gen] at new
    cases live : t.writable (t.newEntry smc va pa bits perm asid global host) with
    | false => rfl
    | true => exact new live
  · intro fine i inside live
    rw [gen] at live
    by_cases same : i = index va
    · subst same
      rw [Function.update_self] at live ⊢
      rwa [live, Bool.true_and] at fine
    · rw [Function.update_of_ne same] at live ⊢
      exact narrow i inside live

theorem narrow_apply_iff (ok : GenOk t) (narrow : t.Narrow) (op : Op) :
    (op.apply t).Narrow ↔ op.widens t = false := by
  cases op with
  | insert smc va pa bits perm asid global host => exact narrow_insert_iff narrow smc va pa bits perm asid global host
  | flushAll => exact iff_of_true ok.flushAll_narrow rfl
  | flushAddr va => exact iff_of_true (narrow.onlyEvicts ok (flushAddr_onlyEvicts t va)) rfl
  | flushAsid asid => exact iff_of_true (narrow.onlyEvicts ok (flushAsid_onlyEvicts t asid)) rfl
  | flushAddrAsid va asid => exact iff_of_true (narrow.onlyEvicts ok (flushAddrAsid_onlyEvicts t va asid)) rfl
  | noteExec phys =>
    refine iff_of_true ?_ rfl
    rcases noteExec_cases t phys with same | flushed
    · rwa [Op.apply, same]
    · rw [Op.apply, flushed]
      exact ok.flushAll_narrow

theorem GenOk.apply (ok : GenOk t) (op : Op) : GenOk (op.apply t) := by
  cases op with
  | insert => exact ok.insert ..
  | flushAll => exact ok.flushAll
  | flushAddr va => exact ok.onlyEvicts (flushAddr_onlyEvicts t va)
  | flushAsid asid => exact ok.onlyEvicts (flushAsid_onlyEvicts t asid)
  | flushAddrAsid va asid => exact ok.onlyEvicts (flushAddrAsid_onlyEvicts t va asid)
  | noteExec phys =>
    rcases noteExec_cases t phys with same | flushed
    · rwa [Op.apply, same]
    · rw [Op.apply, flushed]
      exact ok.flushAll

/-! ## Runs -/

/-- The operation fills no writable entry wider than 2 MiB, and no page that keeps a writable alias has lost as many
    as 255 of those that it had at one time. -/
def Kept (s : Watched) (op : Op) : Prop :=
  op.widens s.tlb = false ∧ ∀ p, 0 < (op.apply s.tlb).aliases p → s.peak p < (op.apply s.tlb).aliases p + 255

theorem Tracked.sound_iff (ok : Tracked s) (op : Op) : Sound (op.apply s.tlb) ↔ Kept s op := by
  rw [Tlb.sound_iff, narrow_apply_iff ok.gen ok.narrow, Kept, and_comm]
  refine and_congr_right fun _ => forall_congr' fun p => imp_congr_right fun positive => ?_
  rw [ok.follows op p]
  exact tally_max_ne_zero_iff (by decide) positive

theorem Tracked.watch {s next : Watched} {op : Op} (ok : Tracked s) (kept : Kept s op)
    (taken : watch s op = some next) : Tracked next := by
  obtain rfl := Option.some.inj taken
  refine ⟨ok.gen.apply op, fun p => ?_, fun p => ?_, fun p => ?_, (narrow_apply_iff ok.gen ok.narrow op).mpr kept.1⟩
  all_goals
    have most := kept.2 p
    by_cases gone : (op.apply s.tlb).aliases p = 0
    · simp only [gone, if_pos, ok.follows op p, tally_zero, Nat.le_refl, Nat.zero_sub]
    · simp only [gone, if_neg, not_false_eq_true, ok.follows op p, le_max_right]
      try omega

theorem aliases_initial (p : Nat) : ({} : Tlb).aliases p = 0 := Finset.sum_eq_zero fun _ _ => rfl

theorem tracked_initial : Tracked {} := by
  refine ⟨genOk_initial, fun p => ?_, fun p => ?_, fun p => ?_, fun i _ live => ?_⟩
  · rw [aliases_initial, tally_zero, credited, GrowVec.get?_empty]
    rfl
  · rw [aliases_initial]
  · rw [aliases_initial]
    exact Nat.le_of_eq (Nat.zero_sub 255)
  · cases live

/-- The census is sound throughout a run exactly if no page loses 255 of its writable aliases while it keeps one, and
    no writable entry is wider than 2 MiB. -/
theorem census_sound_iff (ops : List Op) : Holds watch (fun s => Sound s.tlb) {} ops ↔ Along watch Kept {} ops := by
  have start : Sound {} :=
    sound_iff.mpr ⟨fun p positive => absurd (aliases_initial p) (Nat.ne_of_gt positive), tracked_initial.narrow⟩
  refine holds_iff_along_tracked (fun s op ok => ?_) (fun s op next ok kept taken => ok.watch kept taken) ops start
    tracked_initial
  rw [← ok.sound_iff op]
  constructor
  · rintro ⟨next, taken, sound⟩
    obtain rfl := Option.some.inj taken
    exact sound
  · exact fun sound => ⟨_, rfl, sound⟩

/-- The operation that maps one writable gigapage. -/
def gigapage : Op := .insert {} 0 0 30 permW 0 false 0

/-- The entry of a writable gigapage stays after `note_exec` of a page in it. -/
theorem gigapage_unsound : ¬ Holds watch (fun s => Sound s.tlb) {} [gigapage] := by
  rintro ⟨-, next, taken, sound⟩
  obtain rfl := Option.some.inj taken
  have narrow := (narrow_apply_iff genOk_initial tracked_initial.narrow gigapage).mp (Sound.narrow sound)
  have widens : gigapage.widens {} = true := by decide
  exact absurd (widens.symm.trans narrow) nofun

end Rv64Vm.Tlb
