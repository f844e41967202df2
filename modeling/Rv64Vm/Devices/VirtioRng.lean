import Rv64Vm.Devices.Virtqueue

/-! # The VirtIO entropy device

Every writable descriptor of a chain is filled from a 32-bit permuted congruential generator.
-/

namespace Rv64Vm

open Lib

/-- `virtio_pcg32_ctx_t` -/
structure Rng where
  state : Word
  inc : Word
  deriving DecidableEq, Repr

namespace Rng

def multiplier : Word := 6364136223846793005#64

/-- `virtio_rng_seed` -/
def seed (initState initSeq : Word) : Rng :=
  let inc := (initSeq <<< 1) ||| 1#64
  let state := 0#64 * multiplier + inc + initState
  ⟨state * multiplier + inc, inc⟩

/-- `virtio_rng_next32` -/
def next32 (rng : Rng) : BitVec 32 × Rng :=
  let old := rng.state
  let xorshifted : BitVec 32 := (((old >>> 18) ^^^ old) >>> 27).setWidth 32
  let rot : BitVec 32 := (old >>> 59).setWidth 32
  let value := (xorshifted >>> rot) ||| (xorshifted <<< (-rot &&& 31#32))
  (value, { rng with state := old * multiplier + rng.inc })

/-- The first loop of `virtio_rng_fill_buffer`: whole numbers, four bytes each. -/
def fillWords : Nat → Rng → List Byte × Rng
  | 0, rng => ([], rng)
  | words + 1, rng =>
    let (value, rng) := rng.next32
    let (rest, rng) := fillWords words rng
    ((List.range 4).map (byteAt value) ++ rest, rng)

/-- `virtio_rng_fill_buffer`; what is left comes from one more number. -/
def fillBuffer (rng : Rng) (len : Nat) : List Byte × Rng :=
  let (front, rng) := fillWords (len / 4) rng
  if len % 4 = 0 then (front, rng)
  else
    let (value, rng) := rng.next32
    (front ++ (List.range (len % 4)).map (byteAt value), rng)

/-- The loop over the descriptors; `written` is the sum of the lengths in `uint32_t`. -/
def fill : List VirtqDesc → BitVec 32 → GuestMemory → Rng → Except HostError (GuestMemory × Rng × BitVec 32)
  | [], written, mem, rng => .ok (mem, rng, written)
  | d :: rest, written, mem, rng => do
      if d.writable then
        let (buf, rng) := rng.fillBuffer d.len.toNat
        let mem ← mem.copyToDram d.addr buf
        fill rest (written + d.len) mem rng
      else fill rest written mem rng

theorem fill_stored {chain : List VirtqDesc} {written len : BitVec 32} {mem mem' : GuestMemory} {rng rng' : Rng}
    (ran : fill chain written mem rng = .ok (mem', rng', len)) :
    ∃ new, mem.Stored mem' new ∧ ∀ r ∈ new, r.purpose = .data := by
  induction chain generalizing written mem rng with
  | nil =>
    obtain ⟨rfl, -⟩ := Prod.mk.inj (Except.ok.inj ran)
    exact ⟨[], .refl mem, nofun⟩
  | cons d rest ih =>
    rw [fill] at ran
    split at ran
    · obtain ⟨next, copied, ran⟩ := bind_eq_ok.mp ran
      obtain ⟨new, stored, data⟩ := ih ran
      refine ⟨_, (GuestMemory.copyToDram_stored copied).trans stored, ?_⟩
      exact List.forall_mem_append.mpr ⟨fun r listed => (GuestMemory.of_mem_copyLog listed).1, data⟩
    · exact ih ran

/-- One chain of the entropy queue; none is refused. -/
def serve : Serve Rng := fun mem rng chain => do
  return some (← fill chain 0#32 mem rng)

end Rng

abbrev VirtioRng := Virtio Rng

def VirtioRng.processQueue (s : VirtioRng) (qsel : BitVec 32) : Except HostError VirtioRng :=
  Virtio.processQueue Rng.serve s qsel

end Rv64Vm
