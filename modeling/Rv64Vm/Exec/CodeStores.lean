import Rv64Vm.Exec.BlockRetrieval
import Rv64Vm.Exec.Reservations

/-! # Stores to code

A block is retrievable while the epoch it was built in is the current one. A store to RAM advances the epoch if it
begins on a page that is marked as executed and whose compiled code is of the current epoch. Only the JIT marks
that; `compile_block` does not, and `cbo.zero` does not look at the page at all.
-/

namespace Rv64Vm

open Lib

/-! ## Retrievable blocks -/

deriving instance DecidableEq for Jit.Policy

/-- `CachedBlock`, as far as `JIT_Context::lookup` looks at it, with the size of its text. -/
structure CachedBlock where
  startPhys : Word := 0
  smcEpoch : Nat := 0
  policy : Jit.Policy := ⟨0, false, false⟩
  guestBytes : Nat := 0
  valid : Bool := false

def cacheWays : Nat := 8

def jitCacheSize : Word := 0x40000#64

def indexOf (physPc : Word) : Nat :=
  let h := physPc >>> 1
  let h := (h ^^^ (h >>> 17)) * 0x9E3779B97F4A7C15#64
  ((h >>> 20) &&& (jitCacheSize - 1)).toNat

/-- `JIT_Context::lookup` -/
def lookupCompiled (cache : Nat → CachedBlock) (epoch : Nat) (physPc : Word) (policy : Jit.Policy) : Option Nat :=
  ((List.range cacheWays).map (indexOf physPc * cacheWays + ·)).find? fun k =>
    (cache k).valid && (cache k).startPhys = physPc && (cache k).smcEpoch = epoch && (cache k).policy = policy

/-- The two caches. A block of the interpreter does not keep what it was built from, `text` does. -/
structure BuiltCode where
  blocks : BlockCache
  text : Nat → List PhysRange
  compiled : Nat → CachedBlock

/-- A block of the interpreter by its slot, or a compiled one by its way. -/
inductive Built where
  | block (slot : Nat)
  | compiled (way : Nat)

namespace BuiltCode

def Retrievable (b : BuiltCode) (epoch : Nat) : Built → Prop
  | .block slot => ∃ p, b.blocks.lookup epoch p = some slot
  | .compiled k => ∃ p policy, lookupCompiled b.compiled epoch p policy = some k

/-- The bytes that it was built from. -/
def source (b : BuiltCode) : Built → List PhysRange
  | .block slot => b.text slot
  | .compiled k => [⟨(b.compiled k).startPhys, (b.compiled k).guestBytes⟩]

def epochOf (b : BuiltCode) : Built → Nat
  | .block slot => (b.blocks.slots slot).smc
  | .compiled k => (b.compiled k).smcEpoch

theorem Retrievable.epoch {b : BuiltCode} {epoch : Nat} {x : Built} (found : b.Retrievable epoch x) :
    b.epochOf x = epoch := by
  cases x with
  | block slot =>
    obtain ⟨p, found⟩ := found
    unfold BlockCache.lookup at found
    split at found
    case isTrue valid =>
      obtain rfl := Option.some.inj found
      exact valid.2.2
    case isFalse => cases found
  | compiled k =>
    obtain ⟨p, policy, found⟩ := found
    have hit := List.find?_some found
    simp only [Bool.and_eq_true, decide_eq_true_eq] at hit
    exact hit.1.2

end BuiltCode

/-! ## Stores -/

namespace SelfMod

/-- The page hosts code that was compiled in the current epoch. -/
def LiveCode (s : SelfMod) (pa : Word) : Prop :=
  s.executedPages.get? (pageOf pa) = some true ∧ s.codePageGen.get? (pageOf pa) = some s.smcEpoch

/-- `smc_store_hit` for the pieces of a store that go to RAM. -/
def storeHits (s : SelfMod) (memsize : Word) (stored : List PhysRange) : SelfMod :=
  stored.foldl (fun s g => if inDram memsize g.start g.size then s.smcStoreHit g.start else s) s

variable {s : SelfMod}

theorem smcStoreHit_le (pa : Word) : s.smcEpoch ≤ (s.smcStoreHit pa).smcEpoch := by
  unfold smcStoreHit
  split
  · split
    · exact Nat.le_succ _
    · exact Nat.le_refl _
  · exact Nat.le_refl _

theorem storeHits_le (memsize : Word) (stored : List PhysRange) :
    s.smcEpoch ≤ (s.storeHits memsize stored).smcEpoch := by
  induction stored generalizing s with
  | nil => exact Nat.le_refl _
  | cons g rest ih =>
    refine Nat.le_trans ?_ ih
    dsimp only
    split
    · exact smcStoreHit_le _
    · exact Nat.le_refl _

/-- A piece that does not hit leaves every page with live code as it is. -/
theorem smcStoreHit_miss {pa : Word} (miss : ¬ s.LiveCode pa) :
    (s.smcStoreHit pa).smcEpoch = s.smcEpoch ∧ ∀ q, (s.smcStoreHit pa).LiveCode q ↔ s.LiveCode q := by
  unfold smcStoreHit
  split
  case isTrue executed =>
    have stale : ¬ s.codePageGen.get? (pageOf pa) = some s.smcEpoch := fun current => miss ⟨executed, current⟩
    rw [if_neg stale]
    refine ⟨rfl, fun q => ?_⟩
    unfold LiveCode
    by_cases same : pageOf q = pageOf pa
    · rw [same]
      exact iff_of_false (fun live => stale live.2) fun live => stale live.2
    · have kept : (s.executedPages.set (pageOf pa) false).get? (pageOf q) = s.executedPages.get? (pageOf q) := by
        unfold GrowVec.set GrowVec.get?
        dsimp only
        rw [Function.update_of_ne same]
      dsimp only
      rw [kept]
  case isFalse => exact ⟨rfl, fun q => .rfl⟩

/-- The epoch moves exactly if a piece begins on a page with live code. -/
theorem storeHits_epoch_iff (memsize : Word) (stored : List PhysRange) :
    (s.storeHits memsize stored).smcEpoch ≠ s.smcEpoch ↔
      ∃ g ∈ stored, inDram memsize g.start g.size = true ∧ s.LiveCode g.start := by
  induction stored generalizing s with
  | nil => simp [storeHits]
  | cons g rest ih =>
    rw [List.exists_mem_cons_iff]
    change ((if _ then _ else s : SelfMod).storeHits memsize rest).smcEpoch ≠ _ ↔ _
    split
    case isTrue inside =>
      by_cases hit : s.LiveCode g.start
      · have bumped : (s.smcStoreHit g.start).smcEpoch = s.smcEpoch + 1 := by
          rw [smcStoreHit, if_pos hit.1, if_pos hit.2]
        have later := storeHits_le (s := s.smcStoreHit g.start) memsize rest
        exact iff_of_true (by omega) (.inl ⟨inside, hit⟩)
      · obtain ⟨epoch, live⟩ := smcStoreHit_miss hit
        rw [← epoch, ih]
        simp only [live, hit, and_false, false_or]
    case isFalse outside =>
      rw [ih]
      simp only [outside, Bool.false_eq_true, false_and, false_or]

end SelfMod

/-- A store of the guest: `MMIO::write` at a virtual or a physical address, or a `cbo.zero`. -/
inductive GuestStore where
  | write (va : Word) (n : Nat) (val : Word)
  | writeAt (pa : Word) (n : Nat) (val : Word)
  | cboZero (i : InstructionData)

namespace GuestStore

variable {bus : Bus} {c c' after : Core} {pa va val : Word} {n : Nat}

def exec (bus : Bus) (c : Core) : GuestStore → Except HostError Core
  | .write va n val => (mmioWrite bus c va n val).map (·.core)
  | .writeAt pa n val => (mmioWriteAt bus c pa n val).map (·.core)
  | .cboZero i => (execCboZero bus c i).map (·.core)

/-- The pieces that are checked. -/
def checked (bus : Bus) (c : Core) : GuestStore → List PhysRange
  | .write va n _ => storeRanges bus c va n
  | .writeAt pa n _ => claimedRange bus c.hart.memsize pa n
  | .cboZero _ => []

theorem writePhys_smc (wrote : writePhys bus c pa n val = .ok (some c')) :
    c'.smc = if inDram c.hart.memsize pa n then c.smc.smcStoreHit pa else c.smc := by
  unfold writePhys at wrote
  dsimp only at wrote
  split at wrote
  case isTrue inside =>
    obtain ⟨c'', fast, same⟩ := map_eq_ok.mp wrote
    obtain rfl := Option.some.inj same
    rw [if_pos inside, (writeDramFast_frame fast).2]
  case isFalse outside =>
    simp only [Except.ok.injEq, Option.map_eq_some_iff] at wrote
    obtain ⟨dev, -, rfl⟩ := wrote
    rw [if_neg outside, (bus.writeServed ..).smc]
    rfl

theorem exec_smc {store : GuestStore} (ok : store.exec bus c = .ok after) :
    after.smc = c.smc.storeHits c.hart.memsize (store.checked bus c) := by
  cases store with
  | write va n val =>
    obtain ⟨a, wrote, rfl⟩ := map_eq_ok.mp ok
    have folded := mmioWrite_fold (f := fun c => (c.smc, c.hart.memsize))
      (g := fun p r => (if inDram p.2 r.start r.size then p.1.smcStoreHit r.start else p.1, p.2))
      (fun ok => Prod.ext (translate_translated ok).smc (translate_translated ok).held.2)
      (fun wrote => Prod.ext (writePhys_smc wrote) (writePhys_reservation wrote).2) wrote
    -- the size of memory stays
    have first (stored : List PhysRange) (s : SelfMod) :
        (stored.foldl (fun (p : SelfMod × Word) r =>
          (if inDram p.2 r.start r.size then p.1.smcStoreHit r.start else p.1, p.2)) (s, c.hart.memsize)).1 =
          s.storeHits c.hart.memsize stored := by
      induction stored generalizing s with
      | nil => rfl
      | cons g rest ih => exact ih _
    exact (congrArg Prod.fst folded).trans (first _ _)
  | writeAt pa n val =>
    obtain ⟨a, wrote, rfl⟩ := map_eq_ok.mp ok
    unfold mmioWriteAt at wrote
    obtain ⟨o, wrote, ok⟩ := bind_eq_ok.mp wrote
    cases o with
    | none =>
      rw [checked, claimedRange, unclaimed_of_writePhys wrote, ← pure_eq_ok.mp ok]
      rfl
    | some c' =>
      rw [checked, claimedRange, claimed_of_writePhys wrote, ← pure_eq_ok.mp ok]
      exact writePhys_smc wrote
  | cboZero i =>
    obtain ⟨e, ran, rfl⟩ := map_eq_ok.mp ok
    exact (execCboZero_frame ran).2

/-- The store begins a piece on a page with live code. -/
def Bumps (bus : Bus) (c : Core) (store : GuestStore) : Prop :=
  ∃ g ∈ store.checked bus c, inDram c.hart.memsize g.start g.size = true ∧ c.smc.LiveCode g.start

end GuestStore

/-- A byte of the range is not what it was. -/
def ChangedIn (c after : Core) (g : PhysRange) : Prop :=
  ∃ k < g.size, after.mmap.ramByte (g.start + BitVec.ofNat 64 k) ≠ c.mmap.ramByte (g.start + BitVec.ofNat 64 k)

/-- A retrievable block that was built from a byte that has changed. -/
def BuiltCode.Outdated (b : BuiltCode) (c after : Core) (x : Built) : Prop :=
  b.Retrievable c.smc.smcEpoch x ∧ ∃ g ∈ b.source x, ChangedIn c after g

/-- A store retires the blocks that it changes exactly if, when there are any, it begins a piece on a page whose
    compiled code is of the current epoch. -/
theorem store_retires_iff (bus : Bus) (b : BuiltCode) (c : Core) (store : GuestStore) :
    (∀ after, store.exec bus c = .ok after → ∀ x, b.Outdated c after x → ¬ b.Retrievable after.smc.smcEpoch x) ↔
      ∀ after, store.exec bus c = .ok after → (∃ x, b.Outdated c after x) → store.Bumps bus c := by
  refine forall_congr' fun after => forall_congr' fun ok => ?_
  have moves : after.smc.smcEpoch ≠ c.smc.smcEpoch ↔ store.Bumps bus c := by
    rw [GuestStore.exec_smc ok]
    exact SelfMod.storeHits_epoch_iff ..
  rw [← moves]
  constructor
  · rintro retires ⟨x, outdated⟩ same
    exact retires x outdated (same ▸ outdated.1)
  · intro moved x outdated found
    exact moved ⟨x, outdated⟩ (found.epoch.symm.trans outdated.1.epoch)

/-- The block of the `SRET` at the start of RAM, built from its four bytes. -/
def sretBuilt (cache : BlockCache) : BuiltCode := ⟨cache, fun _ => [⟨0x80000000, 4⟩], fun _ => {}⟩

/-- A store over the only instruction of a block that `compile_block` has built: the block is still found. -/
theorem overwritten_still_found :
    ∃ built after, compileBlock (sretAt 0) {} 0x80000000 = .ok built ∧
      (GuestStore.write 0x80000000 4 0).exec .empty built.core = .ok after ∧
      (sretBuilt built.cache).Outdated built.core after (.block 0) ∧
      (sretBuilt built.cache).Retrievable after.smc.smcEpoch (.block 0) := by
  obtain ⟨built, ok, formed, decoder, core⟩ := @compileBlock_single (sretAt 0) {} 0x80000000 _ DecodeCache.good_empty
    rfl rfl (by decide) rfl
  have slot : BlockCache.buildSlot 0x80000000 = 0 := by decide
  rw [slot] at formed
  have found : built.cache.lookup built.core.smc.smcEpoch 0x80000000 = some 0 :=
    (lookup_compiled_iff ok formed rfl rfl).mpr (by decide)
  have size : built.core.hart.memsize = 0x1000 := by rw [core]; rfl
  have bare : built.core.hart.satp = 0 := by rw [core]; rfl
  have memory : built.core.mmap = (sretAt 0).mmap := by rw [core]; rfl
  have unmarked : built.core.smc.codePageGen = .empty 0 := by rw [core]; rfl
  obtain ⟨region, ram⟩ : ∃ region, RamAt (sretAt 0).mmap 0x1000 0 region := ⟨_, rfl, rfl, rfl, rfl, by decide⟩
  rw [← memory, ← size] at ram
  have whole : crossPage built.core.hart 0x80000000 4 = false := by rw [crossPage, bare]; decide
  have mapped : identityMapped built.core.hart .store = true := by
    rw [identityMapped, bare]
    exact Bool.or_eq_true_iff.mpr (.inr (by decide))
  have inside : inDram built.core.hart.memsize 0x80000000 4 = true := by rw [size]; decide
  have translated := translate_of_identity 0x80000000 mapped
  generalize moved : translateIdentity built.core 0x80000000 = t at translated
  obtain ⟨success, place, kept⟩ : t.ret.isSuccess = true ∧ t.pa = 0x80000000 ∧ t.core.smc = built.core.smc ∧
      RamAt t.core.mmap t.core.hart.memsize 0 region ∧ t.core.hart.memsize = built.core.hart.memsize := by
    rw [← moved]
    exact ⟨rfl, rfl, rfl, ram, rfl⟩
  have wrote : writePhys .empty t.core 0x80000000 4 0 = _ := writePhys_dram kept.2.1 (by decide) (kept.2.2 ▸ inside)
  refine ⟨built, dramWritten (checked t.core 0x80000000) 0 region 0x80000000 4 0, ok, ?_, ⟨⟨_, found⟩, _,
    List.mem_singleton_self _, 0, by decide, ?_⟩, 0x80000000, ?_⟩
  · simp only [GuestStore.exec, mmioWrite, writePieces, whole, translated, success, place, wrote, bind, Except.bind,
      Bool.not_false,
      Bool.not_true, Bool.false_eq_true, if_true, if_false]
    rfl
  · rw [memory, dramWritten_ramByte (c := checked t.core 0x80000000) 0 kept.2.1 (by decide) (kept.2.2 ▸ inside)
      (by decide), if_pos (by decide)]
    decide
  · have missed : ¬ built.core.smc.LiveCode 0x80000000 := fun live => absurd live.2 (by rw [unmarked]; simp)
    change built.cache.lookup (t.core.smc.smcStoreHit 0x80000000).smcEpoch _ = _
    rw [kept.1, (SelfMod.smcStoreHit_miss missed).1]
    exact found

end Rv64Vm
