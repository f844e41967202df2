import Rv64Vm.Exec.Events
import Rv64Vm.Jit.Exits

/-! # Compiled chains

What a call of compiled code does between its entry and its return: the code hops from block to block,
through the private link slots of a block or through the chain dispatcher, until a block misses, no
successor is known or the chain budget is used up. What the instructions of a block do is left to the
block; how it is left, and what that costs, is the code of `emit_chain_tail` and `emit_miss_stubs`.
-/

namespace Rv64Vm.Jit

open Lib X86

/-! ## The chain dispatcher -/

/-- Log of the number of slots: `USE_JCHAIN`. -/
def useJchain : Nat := 18

def chainCacheIndex (pc modeKey : Word) : Nat :=
  let a := ((pc >>> 1) * 0x9E3779B97F4A7C15#64) >>> (64 - useJchain)
  let b := (modeKey * 0xD1B54A32D192ED03#64) >>> (64 - useJchain)
  ((a ^^^ b) &&& BitVec.ofNat 64 (2 ^ useJchain - 1)).toNat

/-- A slot of `chain_cache`. -/
structure ChainEntry where
  chainFn : Word
  pc : Word
  epoch : Word
  mode : Word
  deriving DecidableEq, Repr

/-- The four comparisons before a hop, of a tail and of the dispatcher. -/
def ChainEntry.current (e : ChainEntry) (ctx : HartContext) : Bool :=
  e.chainFn ≠ 0 && e.pc = ctx.exitPc && e.epoch = ctx.chainEpoch && e.mode = ctx.chainMode

/-! ## Blocks -/

/-- A hart with its context. -/
structure Runner where
  core : Core
  hctx : HartContext

/-- How a block is left: through the tail of an exit, or through a miss stub. -/
inductive Leave where
  | tail (exit : Nat) (pc : Word) (count : Nat)
  | miss (pc : Word) (count : Nat)

def Leave.count : Leave → Nat
  | .tail _ _ count | .miss _ count => count

/-- A block of compiled code. Its loop in `compile` ends at `RVJIT_MAX_INSTRUCTIONS`, a tail counts the instruction
    that leaves, and nothing that is emitted reaches `instret`. -/
structure CompiledBlock where
  run : Runner → Core × Leave
  instret : ∀ r, (run r).1.hart.instret = r.core.hart.instret
  counted : ∀ r, (run r).2.count ≤ maxInstructions
  advances : ∀ {r c exit pc count}, run r = (c, .tail exit pc count) → 0 < count

/-- The blocks in executable memory, by their `chain_fn`, and the link slots of their exits. -/
structure CodeCache where
  blocks : Word → Option CompiledBlock
  links : Word → Nat → ChainEntry

/-- The next block: by the link slot of the exit, or by the dispatcher, which stamps the slot. -/
def CodeCache.hop (k : CodeCache) (cache : Nat → ChainEntry) (fn : Word) (exit : Nat) (ctx : HartContext) :
    Option (Word × CodeCache) :=
  if (k.links fn exit).current ctx then some ((k.links fn exit).chainFn, k)
  else
    let e := cache (chainCacheIndex ctx.exitPc ctx.chainMode)
    if e.current ctx then
      some (e.chainFn, { k with links := Function.update k.links fn (Function.update (k.links fn) exit e) })
    else none

/-! ## Calls -/

def modeKey (h : Hart) : Word :=
  BitVec.ofNat 64 (h.getEffectiveMode .store).toNat ||| (if Status.mxr h.status then 0x100#64 else 0) |||
    (if Status.sum h.status then 0x200#64 else 0)

def chainCadence : Word := 0x3000

theorem toNat_sub_lt {x : Word} {count : Nat} (positive : 0 < count) (small : count ≤ maxInstructions)
    (left : (x - BitVec.ofNat 64 count).msb = false) : (x - BitVec.ofNat 64 count).toNat < x.toNat := by
  have amount : (BitVec.ofNat 64 count).toNat = count :=
      toNat_ofNat_of_lt (Nat.lt_of_le_of_lt small (by decide))
  have low := (BitVec.msb_eq_false_iff_two_mul_lt).mp left
  have bound : count ≤ 128 := small
  rw [BitVec.toNat_sub, amount] at low ⊢
  omega

/-- The chain from the block at `fn` on. -/
def runChain (cache : Nat → ChainEntry) (k : CodeCache) (fn : Word) (r : Runner) :
    Except HostError (CodeCache × Runner) :=
  match k.blocks fn with
  | none => .error .undefinedBehaviour
  | some block =>
    match _left : block.run r with
    | (c, .miss pc count) =>
      .ok (k, ⟨c, { r.hctx with exitPc := pc, chainBudget := r.hctx.chainBudget - BitVec.ofNat 64 count }⟩)
    | (c, .tail exit pc count) =>
      let ctx := r.hctx.left pc count
      if _ : ctx.chainBudget.msb = true then .ok (k, ⟨c, ctx⟩)
      else
        match k.hop cache fn exit ctx with
        | none => .ok (k, ⟨c, ctx⟩)
        | some (next, k) => runChain cache k next ⟨c, ctx⟩
termination_by r.hctx.chainBudget.toNat
decreasing_by
  exact toNat_sub_lt (block.advances _left) (by have bound := block.counted r; rwa [_left] at bound)
    (Bool.eq_false_iff.mpr ‹_›)

/-- A chain leaves `instret` alone, and costs at most one block more than the budget that it had. -/
theorem runChain_accounts {cache : Nat → ChainEntry} {k k' : CodeCache} {fn : Word} {r after : Runner}
    (ran : runChain cache k fn r = .ok (k', after)) :
    after.core.hart.instret = r.core.hart.instret ∧ (r.hctx.chainBudget.toNat ≤ chainCadence.toNat →
      (chainCadence - after.hctx.chainBudget).toNat ≤ chainCadence.toNat + maxInstructions) := by
  have charged {r : Runner} {count : Nat} (small : count ≤ maxInstructions)
      (within : r.hctx.chainBudget.toNat ≤ chainCadence.toNat) :
      (chainCadence - (r.hctx.chainBudget - BitVec.ofNat 64 count)).toNat ≤ chainCadence.toNat + maxInstructions := by
    have amount : (BitVec.ofNat 64 count).toNat = count :=
      toNat_ofNat_of_lt (Nat.lt_of_le_of_lt small (by decide))
    have cadence : chainCadence.toNat = 0x3000 := rfl
    have bound : count ≤ 128 := small
    rw [BitVec.toNat_sub, BitVec.toNat_sub, amount]
    simp only [cadence, maxInstructions] at within ⊢
    omega
  have leaves {block : CompiledBlock} {r : Runner} {c : Core} {leave : Leave} (left : block.run r = (c, leave)) :
      c.hart.instret = r.core.hart.instret ∧ leave.count ≤ maxInstructions := by
    have kept := block.instret r
    have small := block.counted r
    rw [left] at kept small
    exact ⟨kept, small⟩
  fun_induction runChain cache k fn r with
  | case1 => cases ran
  | case2 k fn r block found c pc count left =>
    cases ran
    exact ⟨(leaves left).1, charged (leaves left).2⟩
  | case3 k fn r block found c exit pc count left ctx spent =>
    cases ran
    exact ⟨(leaves left).1, charged (leaves left).2⟩
  | case4 k fn r block found c exit pc count left ctx more alone =>
    cases ran
    exact ⟨(leaves left).1, charged (leaves left).2⟩
  | case5 k fn r block found c exit pc count left ctx more next k' hops ih =>
    have less := toNat_sub_lt (block.advances left) (leaves left).2 (Bool.eq_false_iff.mpr more)
    obtain ⟨kept, bounded⟩ := ih ran
    exact ⟨kept.trans (leaves left).1, fun within => bounded (Nat.le_trans less.le within)⟩

end Rv64Vm.Jit
