import Rv64Vm.Devices.PlicLines

/-! # The core-local interruptor

`CLINT`: a software interrupt register and a timer comparison a hart, the timer they share,
and the recomputation of the harts' interrupt bits. `read` and `write` decode the offset by
shifts alone: neither looks at the size of the access, nor at the number of harts. What
the registers are for is a map of little-endian memory, stated here beside the code.
-/

namespace Rv64Vm

open Plic (putFlag getLsbD_putFlag)

/-- `timer_clocksource`: ticks of a frequency, from the nanoseconds of the host's clock. -/
def timerClocksource (freq ns : Word) : Word :=
  (ns / 1000000000) * freq + (ns % 1000000000) * freq / 1000000000

/-- `timer_st` -/
structure Timer where
  begin : Word
  freq : Word

/-- `timer_get` at a moment of the host's clock. -/
def Timer.get (t : Timer) (ns : Word) : Word := timerClocksource t.freq ns - t.begin

/-- `timer_set` -/
def Timer.set (t : Timer) (ns time : Word) : Timer := { t with begin := timerClocksource t.freq ns - time }

/-- The part of a hart that the interruptor sees. -/
structure ClintHart where
  ip : BitVec 16 := 0
  ctime : Word := 0
  stimecmp : Word := BitVec.allOnes 64

/-- The loop body of `update_mip`. -/
def ClintHart.poll (h : ClintHart) (now : Word) (msip : BitVec 32) (mtimecmp : Word) : ClintHart :=
  let ip := putFlag h.ip 3 (msip &&& 1 != 0)
  let ip := putFlag ip 7 (now ≥ mtimecmp)
  { h with ctime := now, ip := putFlag ip 5 (now ≥ h.stimecmp && h.stimecmp != BitVec.allOnes 64) }

structure Clint where
  start : Word
  numHarts : BitVec 8
  msip : Nat → BitVec 32 := fun _ => 0
  mtimecmp : Nat → Word := fun _ => BitVec.allOnes 64
  mtime : Timer
  harts : Nat → ClintHart := fun _ => {}

namespace Clint

variable (c : Clint)

/-- `update_mip`; the hart at index `i` has the number `i`. -/
def updateMip (ns : Word) : Clint :=
  let now := c.mtime.get ns
  (List.range c.numHarts.toNat).foldl (fun c i =>
    { c with harts := Function.update c.harts i ((c.harts i).poll now (c.msip i) (c.mtimecmp i)) }) c

def readMswi (offset : Nat) : Except HostError Word :=
  let hartId := offset / 4
  if hartId < c.numHarts.toNat then .ok ((c.msip hartId).setWidth 64) else .error .undefinedBehaviour

def readMtimer (offset : Nat) (ns : Word) : Except HostError Word :=
  let hartId := offset / 8
  if offset = 0x7FF8 then .ok (c.mtime.get ns)
  else if hartId < c.numHarts.toNat then .ok (c.mtimecmp hartId) else .error .undefinedBehaviour

def writeMswi (offset : Nat) (value ns : Word) : Except HostError Clint :=
  let hartId := offset / 4
  if hartId < c.numHarts.toNat then
    .ok ({ c with msip := Function.update c.msip hartId (value.setWidth 32) }.updateMip ns)
  else .error .undefinedBehaviour

/-- `write_mtimer`; the clock is read at the setting of the timer and again at the update. -/
def writeMtimer (offset : Nat) (value ns ns' : Word) : Except HostError Clint :=
  let hartId := offset / 8
  if offset = 0x7FF8 then .ok ({ c with mtime := c.mtime.set ns value }.updateMip ns')
  else if hartId < c.numHarts.toNat then
    .ok ({ c with mtimecmp := Function.update c.mtimecmp hartId value }.updateMip ns')
  else .error .undefinedBehaviour

/-- `CLINT::read` of any size. -/
def read (addr ns : Word) : Except HostError Word :=
  let off := (addr - c.start).toNat
  if off < 0x4000 then c.readMswi off
  else if off < 0xC000 then c.readMtimer (off - 0x4000) ns
  else .ok 0

/-- `CLINT::write` of any size. -/
def write (addr value ns ns' : Word) : Except HostError Clint :=
  let off := (addr - c.start).toNat
  if off < 0x4000 then c.writeMswi off value ns'
  else if off < 0xC000 then c.writeMtimer (off - 0x4000) value ns ns'
  else .ok c

/-! ## The register map -/

/-- The register that an offset belongs to. -/
inductive Field where
  | msip (hart : Nat)
  | mtimecmp (hart : Nat)
  | mtime
  | reserved
  deriving DecidableEq, Repr

def field (off : Nat) : Field :=
  if off < 0x4000 then if off / 4 < c.numHarts.toNat then .msip (off / 4) else .reserved
  else if off < 0xBFF8 then
    if (off - 0x4000) / 8 < c.numHarts.toNat then .mtimecmp ((off - 0x4000) / 8) else .reserved
  else if off < 0xC000 then .mtime
  else .reserved

/-- The `bytes` bytes of a register from byte `start` on. -/
def part (x : Word) (start bytes : Nat) : Word := (x.extractLsb' (8 * start) (8 * bytes)).setWidth 64

/-- A register with `bytes` of its bytes replaced, from byte `start` on. -/
def patch (x value : Word) (start bytes : Nat) : Word :=
  let mask : Word := (BitVec.allOnes (8 * bytes)).setWidth 64 <<< (8 * start)
  (x &&& ~~~mask) ||| (value <<< (8 * start) &&& mask)

/-- What a guest should read. -/
def expected (off bytes : Nat) (ns : Word) : Word :=
  match c.field off with
  | .msip i => (c.msip i).setWidth 64
  | .mtimecmp i => part (c.mtimecmp i) (off % 8) bytes
  | .mtime => part (c.mtime.get ns) (off % 8) bytes
  | .reserved => 0

/-- The registers that a guest's write should leave. -/
def written (off bytes : Nat) (value ns : Word) : Clint :=
  match c.field off with
  | .msip i => { c with msip := Function.update c.msip i (value.setWidth 32) }
  | .mtimecmp i =>
    { c with mtimecmp := Function.update c.mtimecmp i (patch (c.mtimecmp i) value (off % 8) bytes) }
  | .mtime => { c with mtime := c.mtime.set ns (patch (c.mtime.get ns) value (off % 8) bytes) }
  | .reserved => c

/-- The software and timer bits of every hart say what the registers say at a time. -/
def Polled (now : Word) : Prop :=
  ∀ i < c.numHarts.toNat, (c.harts i).ip.getLsbD 3 = (c.msip i).getLsbD 0 ∧
    (c.harts i).ip.getLsbD 7 = decide (now ≥ c.mtimecmp i)

/-- A guest's access, with the readings of the host's clock that it makes. -/
inductive Access where
  | read (addr : Word) (bytes : Nat) (ns : Word)
  | write (addr : Word) (bytes : Nat) (value ns ns' : Word)

namespace Access

def addr : Access → Word
  | .read addr .. | .write addr .. => addr

def bytes : Access → Nat
  | .read _ bytes .. | .write _ bytes .. => bytes

end Access

/-- Four or eight bytes at a multiple of their number. -/
def Aligned (a : Access) : Prop := (a.bytes = 4 ∨ a.bytes = 8) ∧ (a.addr - c.start).toNat % a.bytes = 0

/-- The access does what the register map says. `MMIO` keeps the low bytes of what is read;
    a write that is not ignored samples the timer and recomputes the interrupt bits. -/
def Maps : Access → Prop
  | .read addr bytes ns =>
    ∃ value, c.read addr ns = .ok value ∧
      part value 0 bytes = part (c.expected (addr - c.start).toNat bytes ns) 0 bytes
  | .write addr bytes value ns ns' =>
    let off := (addr - c.start).toNat
    ∃ c', c.write addr value ns ns' = .ok c' ∧ c'.msip = (c.written off bytes value ns).msip ∧
      c'.mtimecmp = (c.written off bytes value ns).mtimecmp ∧ c'.mtime = (c.written off bytes value ns).mtime ∧
      if c.field off = .reserved then c' = c else c'.Polled (c'.mtime.get ns')

def low (x : Word) : BitVec 32 := x.extractLsb' 0 32

def high (x : Word) : BitVec 32 := x.extractLsb' 32 32

/-- When the register written with the whole value is the one with some bytes replaced. -/
def Whole (x value : Word) (start bytes : Nat) : Prop :=
  bytes = 8 ∨ (start = 0 ∧ high value = high x) ∨ (start = 4 ∧ low value = low x ∧ high value = low value)

/-- The accesses that are decoded right. -/
def Fits : Access → Prop
  | .read addr _ _ =>
    let off := (addr - c.start).toNat
    match c.field off with
    | .msip _ => True
    | .mtimecmp i => off % 8 = 0 ∨ low (c.mtimecmp i) = high (c.mtimecmp i)
    | .mtime => off % 8 = 0
    | .reserved => 0xC000 ≤ off
  | .write addr bytes value ns _ =>
    let off := (addr - c.start).toNat
    match c.field off with
    | .msip _ => True
    | .mtimecmp i => Whole (c.mtimecmp i) value (off % 8) bytes
    | .mtime => off % 8 = 0 ∧ Whole (c.mtime.get ns) value 0 bytes
    | .reserved => 0xC000 ≤ off

/-! ## Bytes of a register -/

variable {c} {x value : Word} {start bytes off : Nat}

theorem getLsbD_patch {k : Nat} (inside : k < 64) : (patch x value start bytes).getLsbD k =
    if 8 * start ≤ k ∧ k < 8 * start + 8 * bytes then value.getLsbD (k - 8 * start) else x.getLsbD k := by
  simp only [patch, BitVec.getLsbD_or, BitVec.getLsbD_and, BitVec.getLsbD_not, BitVec.getLsbD_shiftLeft,
    BitVec.getLsbD_setWidth, BitVec.getLsbD_allOnes, inside, decide_true, Bool.true_and]
  grind

theorem eq_high_iff {y : Word} : high value = high y ↔ ∀ k, 32 ≤ k → k < 64 → value.getLsbD k = y.getLsbD k := by
  constructor
  · intro same k above inside
    have bit := congrArg (·.getLsbD (k - 32)) same
    simp only [high, BitVec.getLsbD_extractLsb'] at bit
    grind
  · intro bits
    apply BitVec.eq_of_getLsbD_eq
    intro k inside
    simp only [high, BitVec.getLsbD_extractLsb']
    grind

theorem eq_low_iff {y : Word} : low value = low y ↔ ∀ k, k < 32 → value.getLsbD k = y.getLsbD k := by
  constructor
  · intro same k inside
    have bit := congrArg (·.getLsbD k) same
    simp only [low, BitVec.getLsbD_extractLsb'] at bit
    grind
  · intro bits
    apply BitVec.eq_of_getLsbD_eq
    intro k inside
    simp only [low, BitVec.getLsbD_extractLsb']
    grind

theorem high_eq_low_iff {y : Word} : high value = low y ↔ ∀ k, k < 32 → value.getLsbD (k + 32) = y.getLsbD k := by
  constructor
  · intro same k inside
    have bit := congrArg (·.getLsbD k) same
    simp only [high, low, BitVec.getLsbD_extractLsb'] at bit
    grind
  · intro bits
    apply BitVec.eq_of_getLsbD_eq
    intro k inside
    simp only [high, low, BitVec.getLsbD_extractLsb']
    grind

theorem eq_patch_iff : value = patch x value start bytes ↔
    ∀ k, k < 64 → value.getLsbD k =
      if 8 * start ≤ k ∧ k < 8 * start + 8 * bytes then value.getLsbD (k - 8 * start) else x.getLsbD k := by
  constructor
  · intro same k inside
    rw [← getLsbD_patch inside, ← same]
  · intro bits
    apply BitVec.eq_of_getLsbD_eq
    intro k inside
    rw [getLsbD_patch inside]
    exact bits k inside

/-- Storing the whole value is right exactly if the bytes that should stay are in it already. -/
theorem eq_patch_iff_whole (size : bytes = 4 ∨ bytes = 8) (place : start < 8) (aligned : start % bytes = 0) :
    value = patch x value start bytes ↔ Whole x value start bytes := by
  rw [eq_patch_iff, Whole]
  rcases size with rfl | rfl
  · obtain rfl | rfl : start = 0 ∨ start = 4 := by omega
    · rw [eq_high_iff]
      grind
    · rw [eq_low_iff, high_eq_low_iff]
      grind
  · obtain rfl : start = 0 := by omega
    grind

theorem getLsbD_part {k : Nat} :
    (part x start bytes).getLsbD k = (decide (k < 64) && (decide (k < 8 * bytes) && x.getLsbD (8 * start + k))) := by
  rw [part, BitVec.getLsbD_setWidth, BitVec.getLsbD_extractLsb']

theorem part_part : part (part x start bytes) 0 bytes = part x start bytes := by
  apply BitVec.eq_of_getLsbD_eq
  intro k inside
  simp only [getLsbD_part]
  grind

theorem part_eq_upper_iff : part x 0 4 = part x 4 4 ↔ low x = high x := by
  rw [@eq_comm _ (low x), high_eq_low_iff]
  constructor
  · intro same k inside
    have bit := congrArg (·.getLsbD k) same
    simp only [getLsbD_part] at bit
    grind
  · intro bits
    apply BitVec.eq_of_getLsbD_eq
    intro k inside
    simp only [getLsbD_part]
    grind

/-! ## Interrupt bits -/

theorem poll_msip (h : ClintHart) (now : Word) (msip : BitVec 32) (mtimecmp : Word) :
    (h.poll now msip mtimecmp).ip.getLsbD 3 = msip.getLsbD 0 := by
  have bit : (msip &&& 1 != 0) = msip.getLsbD 0 := by
    have one : (1 : BitVec 32) = 1#32 := rfl
    rw [one, BitVec.and_one_eq_setWidth_ofBool_getLsbD]
    cases msip.getLsbD 0 with
    | false => rfl
    | true => rfl
  simp only [ClintHart.poll]
  rw [getLsbD_putFlag _ _ _ (by decide), if_neg (by decide), getLsbD_putFlag _ _ _ (by decide), if_neg (by decide),
    getLsbD_putFlag _ _ _ (by decide), if_pos rfl, bit]

theorem poll_mtimecmp (h : ClintHart) (now : Word) (msip : BitVec 32) (mtimecmp : Word) :
    (h.poll now msip mtimecmp).ip.getLsbD 7 = decide (now ≥ mtimecmp) := by
  simp only [ClintHart.poll]
  rw [getLsbD_putFlag _ _ _ (by decide), if_neg (by decide), getLsbD_putFlag _ _ _ (by decide), if_pos rfl]

/-- `update_mip` changes nothing but the harts. -/
structure Refreshed (c c' : Clint) (now : Word) (l : List Nat) : Prop where
  numHarts : c'.numHarts = c.numHarts
  msip : c'.msip = c.msip
  mtimecmp : c'.mtimecmp = c.mtimecmp
  mtime : c'.mtime = c.mtime
  harts : ∀ i ∈ l, ∃ h : ClintHart, c'.harts i = h.poll now (c.msip i) (c.mtimecmp i)

theorem refreshed (c : Clint) (now : Word) (l : List Nat) : Refreshed c (l.foldl (fun c i =>
    { c with harts := Function.update c.harts i ((c.harts i).poll now (c.msip i) (c.mtimecmp i)) }) c) now l := by
  -- on the harts polled so far
  induction l using List.reverseRecOn with
  | nil => exact ⟨rfl, rfl, rfl, rfl, fun i listed => absurd listed List.not_mem_nil⟩
  | append_singleton l j ih =>
    rw [List.foldl_append]
    refine ⟨ih.numHarts, ih.msip, ih.mtimecmp, ih.mtime, fun i listed => ?_⟩
    rw [List.foldl_cons, List.foldl_nil, ih.msip, ih.mtimecmp]
    by_cases same : i = j
    · subst same
      exact ⟨_, Function.update_self ..⟩
    · have earlier : i ∈ l := by
        rcases List.mem_append.mp listed with before | last
        · exact before
        · exact absurd (List.mem_singleton.mp last) same
      dsimp only
      rw [Function.update_of_ne same]
      exact ih.harts i earlier

theorem updateMip_refreshed (c : Clint) (ns : Word) :
    Refreshed c (c.updateMip ns) (c.mtime.get ns) (List.range c.numHarts.toNat) := refreshed ..

theorem updateMip_polled (c : Clint) (ns : Word) : (c.updateMip ns).Polled ((c.updateMip ns).mtime.get ns) := by
  have after := c.updateMip_refreshed ns
  intro i inside
  rw [after.numHarts] at inside
  obtain ⟨h, polled⟩ := after.harts i (List.mem_range.mpr inside)
  rw [polled, after.msip, after.mtimecmp, after.mtime]
  exact ⟨poll_msip .., poll_mtimecmp ..⟩

/-! ## What the code decodes -/

/-- What an access does by the register that is meant; `outside` for an index beyond the harts. -/
def Field.select {α : Type} (off : Nat) (msip mtimecmp : Nat → α) (mtime outside none : α) : Field → α
  | .msip i => msip i
  | .mtimecmp i => mtimecmp i
  | .mtime => if off = 0xBFF8 then mtime else outside
  | .reserved => if off < 0xC000 then outside else none

/-- The decoding that `read` and `write` share, by the register that is meant. The upper half
    of the timer is taken for the comparison of hart 4095. -/
theorem decoded {α : Type} (c : Clint) (off : Nat) (msip mtimecmp : Nat → α) (mtime outside none : α) :
    (if off < 0x4000 then if off / 4 < c.numHarts.toNat then msip (off / 4) else outside
      else if off < 0xC000 then
        if off - 0x4000 = 0x7FF8 then mtime
        else if (off - 0x4000) / 8 < c.numHarts.toNat then mtimecmp ((off - 0x4000) / 8) else outside
      else none) = (c.field off).select off msip mtimecmp mtime outside none := by
  have harts := c.numHarts.isLt
  unfold field Field.select
  by_cases mswi : off < 0x4000
  · by_cases present : off / 4 < c.numHarts.toNat
    · simp only [mswi, present, if_true]
    · have window : off < 0xC000 := by omega
      simp only [mswi, present, window, if_true, if_false]
  · by_cases mtimer : off < 0xC000
    · by_cases timecmp : off < 0xBFF8
      · have other : off - 0x4000 ≠ 0x7FF8 := by omega
        by_cases present : (off - 0x4000) / 8 < c.numHarts.toNat
        · simp only [mswi, mtimer, timecmp, other, present, if_true, if_false]
        · simp only [mswi, mtimer, timecmp, other, present, if_true, if_false]
      · by_cases lower : off = 0xBFF8
        · simp only [lower]
          rfl
        · have other : off - 0x4000 ≠ 0x7FF8 := by omega
          have beyond : ¬ (off - 0x4000) / 8 < c.numHarts.toNat := by omega
          simp only [mswi, mtimer, timecmp, lower, other, beyond, if_true, if_false]
    · have timecmp : ¬ off < 0xBFF8 := by omega
      simp only [mswi, mtimer, timecmp, if_false]

theorem read_eq (c : Clint) (addr ns : Word) : c.read addr ns =
    (c.field (addr - c.start).toNat).select (addr - c.start).toNat (fun i => .ok ((c.msip i).setWidth 64))
      (fun i => .ok (c.mtimecmp i)) (.ok (c.mtime.get ns)) (.error .undefinedBehaviour) (.ok 0) := by
  unfold read readMswi readMtimer
  generalize (addr - c.start).toNat = off
  rw [← decoded]

theorem write_eq (c : Clint) (addr value ns ns' : Word) : c.write addr value ns ns' =
    (c.field (addr - c.start).toNat).select (addr - c.start).toNat
      (fun i => .ok ({ c with msip := Function.update c.msip i (value.setWidth 32) }.updateMip ns'))
      (fun i => .ok ({ c with mtimecmp := Function.update c.mtimecmp i value }.updateMip ns'))
      (.ok ({ c with mtime := c.mtime.set ns value }.updateMip ns')) (.error .undefinedBehaviour) (.ok c) := by
  unfold write writeMswi writeMtimer
  generalize (addr - c.start).toNat = off
  rw [← decoded]

theorem field_mtime (meant : c.field off = .mtime) : 0xBFF8 ≤ off ∧ off < 0xC000 := by
  unfold field at meant
  split_ifs at meant
  omega

/-! ## Agreement with the map -/

theorem read_maps_iff (addr ns : Word) (aligned : c.Aligned (.read addr bytes ns)) :
    c.Maps (.read addr bytes ns) ↔ c.Fits (.read addr bytes ns) := by
  obtain ⟨size, multiple⟩ := aligned
  simp only [Access.bytes, Access.addr] at size multiple
  simp only [Maps, Fits, expected, read_eq, Field.select]
  generalize (addr - c.start).toNat = off at multiple
  cases meant : c.field off with
  | msip i => simp
  | mtimecmp i =>
    simp only [Except.ok.injEq, exists_eq_left', part_part]
    rcases size with rfl | rfl
    · obtain lower | upper : off % 8 = 0 ∨ off % 8 = 4 := by omega
      · simp [lower]
      · rw [upper, part_eq_upper_iff]
        simp
    · simp [multiple]
  | mtime =>
    have range := field_mtime meant
    simp only [part_part]
    by_cases lower : off = 0xBFF8
    · simp [lower]
    · have upper : off % 8 ≠ 0 := by omega
      simp [lower, upper]
  | reserved =>
    by_cases window : off < 0xC000
    · simp [window]
    · simpa [window] using not_lt.mp window

theorem updated_maps_iff {ns' : Word} {msip : Nat → BitVec 32} {mtimecmp : Nat → Word} {mtime : Timer} :
    ((c.updateMip ns').msip = msip ∧ (c.updateMip ns').mtimecmp = mtimecmp ∧ (c.updateMip ns').mtime = mtime ∧
      (c.updateMip ns').Polled ((c.updateMip ns').mtime.get ns')) ↔
      c.msip = msip ∧ c.mtimecmp = mtimecmp ∧ c.mtime = mtime := by
  have after := c.updateMip_refreshed ns'
  rw [after.msip, after.mtimecmp, after.mtime]
  have polled := c.updateMip_polled ns'
  rw [after.mtime] at polled
  simp only [polled, and_true]

theorem set_inj (t : Timer) (ns a b : Word) : t.set ns a = t.set ns b ↔ a = b := by
  simp only [Timer.set, Timer.mk.injEq, and_true]
  constructor
  · intro same
    bv_omega
  · intro same
    rw [same]

theorem write_maps_iff (addr value ns ns' : Word) (aligned : c.Aligned (.write addr bytes value ns ns')) :
    c.Maps (.write addr bytes value ns ns') ↔ c.Fits (.write addr bytes value ns ns') := by
  obtain ⟨size, multiple⟩ := aligned
  simp only [Access.bytes, Access.addr] at size multiple
  simp only [Maps, Fits, written, write_eq, Field.select]
  generalize (addr - c.start).toNat = off at multiple
  have place : off % 8 < 8 := Nat.mod_lt _ (by decide)
  have divides : off % 8 % bytes = 0 := by
    rcases size with rfl | rfl
    · omega
    · omega
  cases meant : c.field off with
  | msip i =>
    simp only [Except.ok.injEq, exists_eq_left', reduceCtorEq, if_false]
    rw [updated_maps_iff]
    simp
  | mtimecmp i =>
    simp only [Except.ok.injEq, exists_eq_left', reduceCtorEq, if_false]
    rw [updated_maps_iff, ← eq_patch_iff_whole size place divides]
    simp only [(Function.update_injective c.mtimecmp i).eq_iff, true_and, and_true]
  | mtime =>
    have range := field_mtime meant
    by_cases lower : off = 0xBFF8
    · subst lower
      simp only [if_true, Except.ok.injEq, exists_eq_left', reduceCtorEq, if_false]
      rw [updated_maps_iff]
      simp only [true_and, set_inj]
      exact eq_patch_iff_whole size place divides
    · have upper : off % 8 ≠ 0 := by omega
      simp [lower, upper]
  | reserved =>
    by_cases window : off < 0xC000
    · simp [window]
    · simpa [window] using not_lt.mp window

/-- An aligned access of four or eight bytes follows the register map exactly if its register
    is decoded and its size does not matter. -/
theorem register_map_iff (c : Clint) (a : Access) (aligned : c.Aligned a) : c.Maps a ↔ c.Fits a := by
  cases a with
  | read addr bytes ns => exact read_maps_iff addr ns aligned
  | write addr bytes value ns ns' => exact write_maps_iff addr value ns ns' aligned

/-- One hart whose timer fires after `2 ^ 32` ticks. -/
def armed : Clint where
  start := 0x02000000#64
  numHarts := 1
  mtimecmp _ := 0x100000002#64
  mtime := ⟨0, 1000000⟩

/-- The whole comparison is read, and written. -/
theorem register_map_armed : armed.Maps (.read 0x02004000#64 8 0) ∧ armed.Maps (.write 0x02004000#64 8 5 0 0) :=
  ⟨(register_map_iff armed _ ⟨.inr rfl, by decide⟩).mpr (.inl rfl),
    (register_map_iff armed _ ⟨.inr rfl, by decide⟩).mpr (.inl rfl)⟩

/-- Rewriting the lower word of a comparison clears the upper one, and reading the upper word
    gives the lower. -/
theorem word_access_breaks :
    armed.Aligned (.write 0x02004000#64 4 5 0 0) ∧ ¬ armed.Maps (.write 0x02004000#64 4 5 0 0) ∧
      armed.Aligned (.read 0x02004004#64 4 0) ∧ ¬ armed.Maps (.read 0x02004004#64 4 0) := by
  have write : armed.Aligned (.write 0x02004000#64 4 5 0 0) := ⟨.inl rfl, by decide⟩
  have read : armed.Aligned (.read 0x02004004#64 4 0) := ⟨.inl rfl, by decide⟩
  refine ⟨write, fun maps => ?_, read, fun maps => ?_⟩
  · have fits : Whole 0x100000002#64 5 0 4 := (write_maps_iff _ _ _ _ write).mp maps
    revert fits
    unfold Whole
    decide
  · have fits : (4 = 0) ∨ low 0x100000002#64 = high 0x100000002#64 := (read_maps_iff _ _ read).mp maps
    revert fits
    decide

end Clint

end Rv64Vm
