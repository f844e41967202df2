import Rv64Vm.Mmio.FailedStore
import Rv64Vm.Mmu.Repeat

/-! # The access law of virtual memory

A store followed by a load, byte by byte. An access that crosses a page is made
of two pieces; a piece of 3, 5, 6 or 7 bytes is neither written nor read, and
the law holds for it only when its bytes and the memory behind them are zero.
-/

namespace Rv64Vm

open Lib

variable {pa val bits va v : Word} {n k i : Nat} {c c' c'' : Core} {bus : Bus} {m m' : MemoryMap}
  {t₁ t₂ : Translation}

/-! ## Pieces in RAM -/

/-- A window of RAM bytes is a window of RAM. -/
theorem inDram_of_bytes {memsize : Word} (fits : dramBase.toNat + memsize.toNat < 2 ^ 64)
    (positive : 0 < n) (small : n ≤ 8)
    (bytes : ∀ i < n, inDram memsize (pa + BitVec.ofNat 64 i) 1 = true) : inDram memsize pa n = true := by
  have base : dramBase.toNat = 0x80000000 := rfl
  have first := (inDram_iff fits (by decide)).mp (bytes 0 positive)
  have last := (inDram_iff fits (by decide)).mp (bytes (n - 1) (by omega))
  have step : (BitVec.ofNat 64 (n - 1)).toNat = n - 1 := toNat_ofNat_of_lt (by omega)
  rw [BitVec.add_zero] at first
  rw [BitVec.toNat_add, step] at last
  have bound := pa.isLt
  exact (inDram_iff fits small).mpr (by omega)

theorem writePhys_bytes (bus : Bus) (val : Word) (ram : RamOk c)
    (small : n ≤ 8) (inside : inDram c.hart.memsize pa n = true) : ∃ c', writePhys bus c pa n val = .ok (some c') ∧
      c'.hart = { c.hart with reservation := c'.hart.reservation } ∧
      ∀ p, c'.mmap.ramByte p =
        if n ∈ dramSizes ∧ (p - pa).toNat < n then byteAt val (p - pa).toNat else c.mmap.ramByte p := by
  obtain ⟨i, r, dram⟩ := ram
  refine ⟨_, writePhys_dram dram small inside, amoCheckReservation_frame c.hart pa, fun p => ?_⟩
  by_cases known : n ∈ dramSizes
  · have dram' : RamAt (checked c pa).mmap c.hart.memsize i r := dram
    simp only [dramWritten_ramByte val dram' small inside known, known, true_and]
    rfl
  · simp only [dramWritten, known, if_false, false_and]
    rfl

theorem readPhys_bytes (ram : RamOk c) (small : n ≤ 8) (inside : inDram c.hart.memsize pa n = true) :
    readPhys bus c pa n = .ok (some (if n ∈ dramSizes then
      loadLE 64 (fun k => c.mmap.ramByte (pa + BitVec.ofNat 64 k)) n else 0, c)) := by
  obtain ⟨i, r, dram⟩ := ram
  simp only [readPhys, inside, if_true, readDramFast_eq dram small inside, Except.map]

theorem sameView_of_reservation (va : Word)
    (frame : c'.hart = { c.hart with reservation := c'.hart.reservation }) : SameView c c' va :=
  ⟨by rw [frame], by rw [frame], by rw [frame], by rw [frame], by rw [frame]⟩

theorem RamOk.of_writePhys (ram : RamOk c)
    (small : n ≤ 8) (wrote : writePhys bus c pa n val = .ok (some c')) : RamOk c' :=
  (writePhys_ramOk ram small wrote).1

/-! ## Write-backs and zero bytes -/

theorem byteAt_or {w : Nat} (x y : BitVec w) (k : Nat) : byteAt (x ||| y) k = byteAt x k ||| byteAt y k :=
  BitVec.extractLsb'_or

/-- A and D bits are in the low byte of an entry. -/
theorem byteAt_of_onlyAd (only : bits &&& ~~~0xC0#64 = 0#64) (high : k ≠ 0) : byteAt bits k = 0 := by
  have same : bits = bits &&& 0xC0#64 := by
    have whole := and_not_or_and bits 0xC0#64
    rw [only, BitVec.zero_or] at whole
    exact whole.symm
  have clear : byteAt 0xC0#64 k = 0 := by
    apply BitVec.eq_of_getLsbD_eq
    intro b hb
    have far : 8 ≤ 8 * k + b := by omega
    rw [byteAt, BitVec.getLsbD_extractLsb', BitVec.getLsbD, BitVec.toNat_ofNat,
      Nat.testBit_lt_two_pow (Nat.lt_of_lt_of_le (by decide : 192 % 2 ^ 64 < 2 ^ 8)
        (Nat.pow_le_pow_right (by decide) far))]
    simp
  rw [same, byteAt, BitVec.extractLsb'_and]
  change byteAt bits k &&& byteAt 0xC0#64 k = 0
  rw [clear]
  exact BitVec.and_zero

/-- Setting A and D bits of a valid entry changes no zero byte and makes none. -/
theorem byteAt_setAd_eq_zero {pte : Word} (valid : Pte.v pte = true)
    (only : bits &&& ~~~0xC0#64 = 0#64) (k : Nat) : byteAt (pte ||| bits) k = 0 ↔ byteAt pte k = 0 := by
  cases k with
  | succ k =>
    rw [byteAt_or, byteAt_of_onlyAd only (Nat.succ_ne_zero k), show (0 : Byte) = 0#8 from rfl, BitVec.or_zero]
  | zero =>
    -- the V bit is there before and after
    have set : ∀ {x : Word}, x.getLsbD 0 = true → byteAt x 0 ≠ 0 := by
      intro x bit zero
      have low := congrArg (fun z => z.getLsbD 0) zero
      have here : (byteAt x 0).getLsbD 0 = x.getLsbD 0 := by
        rw [byteAt, BitVec.getLsbD_extractLsb']
        rfl
      simp only [here, bit] at low
      cases low
    have bit : pte.getLsbD 0 = true := valid
    exact iff_of_false (set (by rw [BitVec.getLsbD_or, bit, Bool.true_or])) (set bit)

/-- A write-back leaves a byte of RAM, or it is one of the entry. -/
theorem AdWrite.ramByte (write : AdWrite m m') (p : Word) :
    m'.ramByte p = m.ramByte p ∨ ∃ (pte bits : Word) (k : Nat), Pte.v pte = true ∧ bits &&& ~~~0xC0#64 = 0#64 ∧
      m.ramByte p = byteAt pte k ∧ m'.ramByte p = byteAt (pte ||| bits) k := by
  obtain @⟨addr, pte, bits, loaded, -, valid, only, stored⟩ := write
  rw [storePte_eq_place] at stored
  obtain ⟨⟨i, r, off⟩, placed, rfl⟩ := map_eq_ok.mp stored
  have entry : loadLE 64 (fun k => r.data (off + k)) pteSize = pte := by
    rw [loadPte_eq_place, placed] at loaded
    exact Except.ok.inj loaded
  have region := (ptePlace_sound placed).region
  rw [MemoryMap.ramByte, MemoryMap.ramByte, MemoryMap.setData_getRamDirect]
  cases direct : m.getRamDirect with
  | none => exact .inl rfl
  | some ram =>
    obtain ⟨k, position, region'⟩ := MemoryMap.getRamDirect_eq_some.mp direct
    simp only [Option.map_some, Option.getD_some, position, Option.some.injEq]
    split
    case isFalse => exact .inl rfl
    case isTrue here =>
      rw [here, region, Option.some.injEq] at region'
      subst region'
      simp only [storeLE]
      split
      case isFalse => exact .inl rfl
      case isTrue window =>
        have back : off + ((p - dramBase).toNat - off) = (p - dramBase).toNat := by omega
        have old : byteAt pte ((p - dramBase).toNat - off) = r.data (p - dramBase).toNat := by
          rw [← entry, byteAt_loadLE _ (by omega) (by decide), back]
        exact .inr ⟨pte, bits, _, valid, only, old.symm, rfl⟩

/-- So it keeps zero bytes of RAM zero and makes none. -/
theorem AdWrite.ramByte_eq_zero (write : AdWrite m m') (p : Word) : m'.ramByte p = 0 ↔ m.ramByte p = 0 := by
  rcases write.ramByte p with same | ⟨pte, bits, k, valid, only, old, new⟩
  · rw [same]
  · rw [old, new, byteAt_setAd_eq_zero valid only]

theorem OnlyAd.ramByte_eq_zero (only : OnlyAd m m') (p : Word) : m'.ramByte p = 0 ↔ m.ramByte p = 0 := by
  induction only with
  | refl => rfl
  | tail _ write ih => exact (write.ramByte_eq_zero p).trans ih

/-! ## The two pages of an access -/

theorem pageOffset (va : Word) : (va &&& 0xFFF#64).toNat = va.toNat % 2 ^ 12 :=
  toNat_and_lowMask (w := 64) (b := 12) (by decide) va

theorem firstSize_eq (va : Word) : firstSize va = 2 ^ 12 - va.toNat % 2 ^ 12 := by
  rw [firstSize, pageOffset]
  rfl

theorem crossPage_iff {h : Hart} (small : n ≤ 8) :
    crossPage h va n = true ↔ Satp.mode h.satp ≠ 0 ∧ 2 ^ 12 < va.toNat % 2 ^ 12 + n := by
  have size : (BitVec.ofNat 64 n).toNat = n := toNat_ofNat_of_lt (by omega)
  have page : (0x1000#64).toNat = 2 ^ 12 := rfl
  have offset : va.toNat % 2 ^ 12 < 2 ^ 12 := Nat.mod_lt _ (by decide)
  simp only [crossPage, Bool.and_eq_true, bne_iff_ne, decide_eq_true_eq, GT.gt, BitVec.lt_def,
    BitVec.toNat_add, pageOffset, size, page]
  rw [Nat.mod_eq_of_lt (by omega)]

/-- The second page starts where the first ends. -/
theorem secondAddr_offset (va : Word) : (secondAddr va).toNat % 2 ^ 12 = 0 := by
  have size := firstSize_eq va
  have step : (BitVec.ofNat 64 (firstSize va)).toNat = firstSize va := toNat_ofNat_of_lt (by omega)
  rw [secondAddr, BitVec.toNat_add, step]
  omega

theorem index_secondAddr (va : Word) : Tlb.index (secondAddr va) ≠ Tlb.index va := by
  have slot : ∀ x : Word, Tlb.index x = x.toNat / 2 ^ 12 % 2 ^ 17 := by
    intro x
    rw [Tlb.index, show (0x1FFFF#64 : Word) = lowMask 64 17 from by decide, toNat_and_lowMask (by decide),
      BitVec.toNat_ushiftRight, Nat.shiftRight_eq_div_pow]
  have size := firstSize_eq va
  have step : (BitVec.ofNat 64 (firstSize va)).toNat = firstSize va := toNat_ofNat_of_lt (by omega)
  have bound := va.isLt
  rw [slot, slot, secondAddr, BitVec.toNat_add, step]
  omega

/-! ## The law -/

/-- Every byte of the access at `va` translates, for a store, to a RAM byte of its
    own. Nothing is asked of loads: after the store they translate alike. -/
structure ByteMap (c : Core) (va : Word) (n : Nat) (pa : Nat → Word) : Prop where
  store : ∀ i < n, ∃ t, translate c .store (va + BitVec.ofNat 64 i) = .ok t ∧ t.ret.isSuccess = true ∧
    t.pa = pa i
  ram : ∀ i < n, inDram c.hart.memsize (pa i) 1 = true
  distinct : ∀ i < n, ∀ j < n, pa i = pa j → i = j

/-- After the store the bytes of the value are where they belong, the rest of RAM
    is as before up to A and D bits, and a load returns the value. -/
structure AccessHolds (bus : Bus) (c : Core) (va : Word) (n : Nat) (v : Word) (pa : Nat → Word)
    (after : Core) : Prop where
  written : ∀ i < n, after.mmap.ramByte (pa i) = byteAt v i
  others : ∃ m, OnlyAd c.mmap m ∧ ∀ p, (∀ i < n, p ≠ pa i) → after.mmap.ramByte p = m.ramByte p
  readBack : ∃ r, mmioRead bus after va n = .ok r ∧ r.ret.isSuccess = true ∧
    r.val.setWidth (8 * n) = v.setWidth (8 * n)

def AccessLaw (bus : Bus) (c : Core) (va : Word) (n : Nat) (v : Word) (pa : Nat → Word) : Prop :=
  ∀ a, mmioWrite bus c va n v = .ok a → a.ret.isSuccess = true → AccessHolds bus c va n v pa a.core

/-- The size of the piece that byte `i` of the access is in. -/
def pieceSize (h : Hart) (va : Word) (n i : Nat) : Nat :=
  if crossPage h va n then if i < firstSize va then firstSize va else n - firstSize va else n

/-- What the store and the load after it do to each byte. -/
structure AccessBytes (bus : Bus) (c : Core) (va : Word) (n : Nat) (v : Word) (pa : Nat → Word)
    (m : MemoryMap) (after : Core) : Prop where
  wrote : mmioWrite bus c va n v = .ok { ret := {}, core := after }
  onlyAd : OnlyAd c.mmap m
  bytes : ∀ i < n, after.mmap.ramByte (pa i) =
    if pieceSize c.hart va n i ∈ dramSizes then byteAt v i else m.ramByte (pa i)
  others : ∀ p, (∀ i < n, p ≠ pa i) → after.mmap.ramByte p = m.ramByte p
  read : ∃ r, mmioRead bus after va n = .ok r ∧ r.ret.isSuccess = true ∧ ∀ i < n, byteAt r.val i =
    if pieceSize c.hart va n i ∈ dramSizes then after.mmap.ramByte (pa i) else 0

/-! ## Pieces of an access -/

/-- The piece of `k` bytes from byte `lo` on starts at `base`. -/
structure Piece (c : Core) (n : Nat) (pa : Nat → Word) (lo k : Nat) (base : Word) : Prop where
  positive : 0 < k
  fits : lo + k ≤ n
  place : ∀ j < k, pa (lo + j) = base + BitVec.ofNat 64 j
  ram : ∀ i < n, inDram c.hart.memsize (pa i) 1 = true
  distinct : ∀ i < n, ∀ j < n, pa i = pa j → i = j

namespace Piece

variable {c c' : Core} {n lo k : Nat} {pa : Nat → Word} {base : Word}

section Bounds

variable (piece : Piece c n pa lo k base)

include piece

theorem of_memsize (same : c'.hart.memsize = c.hart.memsize) :
    Piece c' n pa lo k base := { piece with ram := same ▸ piece.ram }

theorem inDram (ram : RamOk c) (small : n ≤ 8) : inDram c.hart.memsize base k = true := by
  obtain ⟨i, r, dram⟩ := ram
  have fits := piece.fits
  refine inDram_of_bytes dram.fits piece.positive (by omega) fun j hj => ?_
  rw [← piece.place j hj]
  exact piece.ram _ (by omega)

theorem distance (small : n ≤ 8) (ge : lo ≤ i) (lt : i < lo + k) : (pa i - base).toNat = i - lo := by
  have fits := piece.fits
  have there := piece.place (i - lo) (by omega)
  rw [Nat.add_sub_cancel' ge] at there
  rw [there, toNat_add_ofNat_sub base (by omega)]

/-- The window of the piece holds exactly its bytes. -/
theorem window (small : n ≤ 8) (hi : i < n) : (pa i - base).toNat < k ↔ lo ≤ i ∧ i < lo + k := by
  have fits := piece.fits
  constructor
  · intro inside
    have there : pa i = pa (lo + (pa i - base).toNat) := by
      rw [piece.place _ inside, BitVec.ofNat_toNat, BitVec.setWidth_eq, BitVec.add_comm, BitVec.sub_add_cancel]
    have same := piece.distinct i hi _ (by omega) there
    omega
  · rintro ⟨ge, lt⟩
    rw [piece.distance small ge lt]
    omega

theorem write (bus : Bus) (ram : RamOk c) (small : n ≤ 8)
    (bytes : ∀ j < k, byteAt val j = byteAt v (lo + j)) : ∃ c', writePhys bus c base k val = .ok (some c') ∧
      c'.hart = { c.hart with reservation := c'.hart.reservation } ∧
      (∀ i < n, c'.mmap.ramByte (pa i) =
        if k ∈ dramSizes ∧ lo ≤ i ∧ i < lo + k then byteAt v i else c.mmap.ramByte (pa i)) ∧
      ∀ p, (∀ i < n, p ≠ pa i) → c'.mmap.ramByte p = c.mmap.ramByte p := by
  have fits := piece.fits
  obtain ⟨c', wrote, frame, after⟩ := writePhys_bytes bus val ram (by omega) (piece.inDram ram small)
  refine ⟨c', wrote, frame, fun i hi => ?_, fun p other => ?_⟩
  · rw [after]
    simp only [piece.window small hi]
    split
    case isTrue inside =>
      rw [piece.distance small inside.2.1 inside.2.2, bytes _ (by omega), Nat.add_sub_cancel' inside.2.1]
    case isFalse => rfl
  · rw [after, if_neg]
    rintro ⟨-, inside⟩
    apply other (lo + (p - base).toNat) (by omega)
    rw [piece.place _ inside, BitVec.ofNat_toNat, BitVec.setWidth_eq, BitVec.add_comm, BitVec.sub_add_cancel]

theorem read (bus : Bus) (ram : RamOk c) (small : n ≤ 8) :
    ∃ x, readPhys bus c base k = .ok (some (x, c)) ∧
      ∀ j, byteAt x j = if k ∈ dramSizes ∧ j < k then c.mmap.ramByte (pa (lo + j)) else 0 := by
  have fits := piece.fits
  refine ⟨_, readPhys_bytes ram (by omega) (piece.inDram ram small), fun j => ?_⟩
  by_cases known : k ∈ dramSizes
  · simp only [known, if_true, true_and]
    split
    case isTrue lt => rw [byteAt_loadLE _ lt (by omega), piece.place j lt]
    case isFalse ge => exact byteAt_loadLE_of_ge _ (by omega)
  · simp only [known, if_false, false_and]
    exact byteAt_zero 64 j

end Bounds

end Piece

variable {pa : Nat → Word}

/-- Inside one page the byte map is contiguous. -/
theorem ByteMap.place {x : Word} {lo : Nat} {t : Translation}
    (map : ByteMap c va n pa) (shapes : ShapeOk c) (fits : lo + k ≤ n)
    (start : va + BitVec.ofNat 64 lo = x) (near : ∀ j < k, identityMapped c.hart .store = true ∨ SamePage x j)
    (ok : translate c .store x = .ok t) (success : t.ret.isSuccess = true) :
    ∀ j < k, pa (lo + j) = t.pa + BitVec.ofNat 64 j := by
  intro j hj
  obtain ⟨t', ok', -, pa'⟩ := map.store (lo + j) (by omega)
  have address : va + BitVec.ofNat 64 (lo + j) = x + BitVec.ofNat 64 j := by
    rw [BitVec.ofNat_add, ← BitVec.add_assoc, start]
  rw [address] at ok'
  rw [← pa']
  rcases near j hj with mapped | page
  · rw [pa_of_identity mapped ok, pa_of_identity mapped ok']
  · obtain ⟨t'', ok'', -, pa''⟩ := translate_add shapes page ok success
    rw [ok', Except.ok.injEq] at ok''
    rw [ok'', pa'']

theorem crossPage_sameView (same : SameView c c' va) (n : Nat) : crossPage c'.hart va n = crossPage c.hart va n := by
  rw [crossPage, crossPage, same.satp]

theorem ByteMap.first (map : ByteMap c va n pa)
    (positive : 0 < n) : ∃ t, translate c .store va = .ok t ∧ t.ret.isSuccess = true := by
  obtain ⟨t, ok, success, -⟩ := map.store 0 positive
  rw [BitVec.add_zero] at ok
  exact ⟨t, ok, success⟩

theorem accessBytes_whole (bus : Bus) (v : Word)
    (shapes : ShapeOk c) (readable : WritableReadable c.hart.tlb) (ram : RamOk c) (size : n ∈ dramSizes)
    (positive : 0 < n) (small : n ≤ 8) (map : ByteMap c va n pa) (whole : crossPage c.hart va n = false) :
    ∃ m after, AccessBytes bus c va n v pa m after := by
  obtain ⟨t, ok, success⟩ := map.first positive
  have frame := translate_translated ok
  have near : ∀ j < n, identityMapped c.hart .store = true ∨ SamePage va j := by
    intro j hj
    by_cases bare : Satp.mode c.hart.satp = 0
    · exact .inl (by rw [identityMapped, bare]; exact Bool.or_true _)
    · refine .inr ?_
      have page : ¬ 2 ^ 12 < va.toNat % 2 ^ 12 + n := by
        intro past
        rw [(crossPage_iff small).mpr ⟨bare, past⟩] at whole
        cases whole
      rw [SamePage]
      omega
  have place := map.place shapes (Nat.zero_add n).le (BitVec.add_zero va) near ok success
  have piece : Piece c n pa 0 n t.pa := ⟨positive, (Nat.zero_add n).le, place, map.ram, map.distinct⟩
  obtain ⟨after, wrote, frame', bytes, others⟩ := (piece.of_memsize frame.memsize).write (v := v) bus
    (frame.ramOk ram) small (fun j _ => by rw [Nat.zero_add])
  have same : SameView t.core after va := sameView_of_reservation va frame'
  obtain ⟨r, ok', success', pa', mmap'⟩ := translate_load_of_store ok success readable same
  have frame'' := translate_translated ok'
  have memsize : r.core.hart.memsize = c.hart.memsize := by
    rw [frame''.memsize, frame', ← frame.memsize]
  obtain ⟨x, read, value⟩ := (piece.of_memsize memsize).read bus
    (frame''.ramOk ((frame.ramOk ram).of_writePhys small wrote)) small
  have piece_eq : ∀ i, pieceSize c.hart va n i = n := fun i => by simp [pieceSize, whole]
  have whole' : crossPage after.hart va n = false := by
    rw [crossPage_sameView same, crossPage, frame.hart]
    exact whole
  refine ⟨t.core.mmap, after, ?_, frame.ram, fun i hi => ?_, others,
    ⟨{ ret := {}, val := x, core := r.core }, ?_, rfl, fun i hi => ?_⟩⟩
  · simp [mmioWrite, writePieces, whole, ok, success, wrote, bind, Except.bind, pure, Except.pure]
  · rw [bytes i hi, piece_eq]
    simp [size, hi]
  · simp [mmioRead, readPieces, whole', ok', success', pa', read, bind, Except.bind, pure, Except.pure]
  · rw [value, piece_eq, mmap', Nat.zero_add]
    simp [size, hi]

theorem byteAt_firstVal {j : Nat} (small : firstSize va < 8) (hj : j < firstSize va) :
    byteAt (firstVal va v) j = byteAt v j := by
  apply BitVec.eq_of_getLsbD_eq
  intro b hb
  have low : 8 * j + b < firstSize va * 8 := by omega
  simp [firstVal, byteAt, hb, getLsbD_lowMask (w := 64) (b := firstSize va * 8) (by omega), low]

theorem byteAt_secondVal (va v : Word) (j : Nat) : byteAt (secondVal va v) j = byteAt v (firstSize va + j) := by
  rw [secondVal, Nat.mul_comm, byteAt_ushiftRight]

theorem accessBytes_split (bus : Bus) (v : Word)
    (reachable : MmuReachable c) (ram : RamOk c) (small : n ≤ 8) (map : ByteMap c va n pa)
    (split : crossPage c.hart va n = true) : ∃ m after, AccessBytes bus c va n v pa m after := by
  have shapes := reachable.shapeOk
  have readable := reachable.writableReadable
  have first := firstSize_lt small split
  have apart := index_secondAddr va
  obtain ⟨t₁, ok₁, success₁⟩ := map.first (by omega)
  obtain ⟨s, okS, successS, -⟩ := map.store (firstSize va) first.2
  change translate c .store (secondAddr va) = .ok s at okS
  obtain ⟨t₂, ok₂, success₂, pa₂⟩ := translate_after_other ok₁ apart okS successS
  have frame := (translate_translated ok₁).trans (translate_translated ok₂)
  -- the two pieces
  have place₁ : ∀ j < firstSize va, pa (0 + j) = t₁.pa + BitVec.ofNat 64 j := by
    refine map.place shapes (by omega) (BitVec.add_zero va) (fun j hj => .inr ?_) ok₁ success₁
    have size := firstSize_eq va
    rw [SamePage]
    omega
  have place₂ : ∀ j < n - firstSize va, pa (firstSize va + j) = t₂.pa + BitVec.ofNat 64 j := by
    rw [pa₂]
    refine map.place (x := secondAddr va) shapes (by omega) rfl (fun j hj => .inr ?_) okS successS
    rw [SamePage, secondAddr_offset]
    omega
  have piece₁ : Piece c n pa 0 (firstSize va) t₁.pa := ⟨first.1, by omega, place₁, map.ram, map.distinct⟩
  have piece₂ : Piece c n pa (firstSize va) (n - firstSize va) t₂.pa :=
    ⟨by omega, by omega, place₂, map.ram, map.distinct⟩
  -- the two writes
  obtain ⟨c₁, wrote₁, frame₁, bytes₁, others₁⟩ := (piece₁.of_memsize frame.memsize).write (v := v) bus
    (frame.ramOk ram) small (fun j hj => by rw [Nat.zero_add, byteAt_firstVal (by omega) hj])
  have ram₁ := (frame.ramOk ram).of_writePhys (by omega) wrote₁
  have memsize₁ : c₁.hart.memsize = c.hart.memsize := by rw [frame₁, ← frame.memsize]
  obtain ⟨c₂, wrote₂, frame₂, bytes₂, others₂⟩ := (piece₂.of_memsize memsize₁).write (v := v) bus
    ram₁ small (fun j _ => byteAt_secondVal va v j)
  have ram₂ := ram₁.of_writePhys (by omega) wrote₂
  have memsize₂ : c₂.hart.memsize = c.hart.memsize := by rw [frame₂, ← memsize₁]
  have writes : ∀ x, SameView t₂.core c₂ x := fun x =>
    (sameView_of_reservation x frame₁).trans (sameView_of_reservation x frame₂)
  -- the two reads
  obtain ⟨r₁, okR₁, successR₁, paR₁, mmapR₁⟩ := translate_load_of_store ok₁ success₁ readable
    ((translate_sameView ok₂ apart.symm).trans (writes va))
  have readable₁ : WritableReadable t₁.core.hart.tlb :=
    (translate_effect ok₁).writableReadable reachable.genOk readable
  obtain ⟨r₂, okR₂, successR₂, paR₂, mmapR₂⟩ := translate_load_of_store ok₂ success₂ readable₁
    ((writes _).trans (translate_sameView okR₁ apart))
  have frameR := (translate_translated okR₁).trans (translate_translated okR₂)
  have ramR := frameR.ramOk ram₂
  have memsizeR : r₂.core.hart.memsize = c.hart.memsize := by rw [frameR.memsize, memsize₂]
  have mmapR : r₂.core.mmap = c₂.mmap := mmapR₂.trans mmapR₁
  obtain ⟨low, read₁, value₁⟩ := (piece₁.of_memsize memsizeR).read bus ramR small
  obtain ⟨high, read₂, value₂⟩ := (piece₂.of_memsize memsizeR).read bus ramR small
  rw [← paR₁] at read₁
  rw [← paR₂] at read₂
  have split' : crossPage c₂.hart va n = true := by
    rw [crossPage_sameView (writes va), crossPage, frame.hart]
    exact split
  have stores : Split c .store va n t₁ t₂ := ⟨split, ok₁, success₁, ok₂, success₂⟩
  have loads : Split c₂ .load va n r₁ r₂ := ⟨split', okR₁, successR₁, okR₂, successR₂⟩
  refine ⟨t₂.core.mmap, c₂, ?_, frame.ram, fun i hi => ?_, fun p other => (others₂ p other).trans (others₁ p other),
    ⟨{ ret := {}, val := low ||| (high <<< (firstSize va * 8)), core := r₂.core }, ?_, rfl, fun i hi => ?_⟩⟩
  · rw [mmioWrite, stores.write, wrote₁]
    simp only [Except.bind, wrote₂, Except.map]
  · rw [bytes₂ i hi, bytes₁ i hi, pieceSize, if_pos split]
    by_cases lt : i < firstSize va
    · have notSecond : ¬ firstSize va ≤ i := by omega
      simp [lt, notSecond]
    · have second : firstSize va ≤ i ∧ i < firstSize va + (n - firstSize va) := by omega
      simp [lt, second]
  · rw [mmioRead, loads.read, read₁]
    simp only [Except.bind, read₂, Except.map]
  · have clear : ∀ j, firstSize va ≤ j → byteAt low j = 0 := by
      intro j ge
      rw [value₁, if_neg]
      omega
    rw [Nat.mul_comm, byteAt_or_shiftLeft (by omega) clear, pieceSize, if_pos split, value₁, value₂, mmapR]
    by_cases lt : i < firstSize va
    · simp [lt]
    · have second : i - firstSize va < n - firstSize va := by omega
      have back : firstSize va + (i - firstSize va) = i := by omega
      simp [lt, second, back]

/-- The law holds exactly when each piece of the access has one of the four sizes,
    or stores zeroes over zeroes. -/
theorem access_law_iff (bus : Bus) (c : Core) (va : Word) (n : Nat) (v : Word) (pa : Nat → Word)
    (reachable : MmuReachable c) (ram : RamOk c) (size : n ∈ dramSizes) (map : ByteMap c va n pa) :
    AccessLaw bus c va n v pa ↔ ∀ i < n, pieceSize c.hart va n i ∈ dramSizes ∨
      (byteAt v i = 0 ∧ c.mmap.ramByte (pa i) = 0) := by
  have bounds := small_of_dramSizes size
  obtain ⟨m, after, access⟩ : ∃ m after, AccessBytes bus c va n v pa m after := by
    cases split : crossPage c.hart va n with
    | true => exact accessBytes_split bus v reachable ram bounds.2 map split
    | false =>
      exact accessBytes_whole bus v reachable.shapeOk reachable.writableReadable ram size bounds.1 bounds.2
        map split
  obtain ⟨r, read, success, value⟩ := access.read
  constructor
  · intro law i hi
    have holds := law _ access.wrote rfl
    by_cases known : pieceSize c.hart va n i ∈ dramSizes
    · exact .inl known
    · -- the piece reads as zero, and memory still holds what it held
      right
      obtain ⟨r', read', -, same⟩ := holds.readBack
      rw [read, Except.ok.injEq] at read'
      subst read'
      have zero := setWidth_eq_iff_bytes.mp same i hi
      rw [value i hi, if_neg known] at zero
      have held := holds.written i hi
      rw [access.bytes i hi, if_neg known, ← zero] at held
      exact ⟨zero.symm, (access.onlyAd.ramByte_eq_zero _).mp held⟩
  · intro condition a wrote _
    rw [access.wrote, Except.ok.injEq] at wrote
    subst wrote
    have written : ∀ i < n, after.mmap.ramByte (pa i) = byteAt v i := by
      intro i hi
      rw [access.bytes i hi]
      split
      case isTrue => rfl
      case isFalse unknown =>
        obtain ⟨zero, held⟩ := (condition i hi).resolve_left unknown
        rw [(access.onlyAd.ramByte_eq_zero _).mpr held, zero]
    refine ⟨written, ⟨m, access.onlyAd, access.others⟩, r, read, success, setWidth_eq_iff_bytes.mpr ?_⟩
    intro i hi
    rw [value i hi]
    split
    case isTrue => exact written i hi
    case isFalse unknown => exact ((condition i hi).resolve_left unknown).1.symm

/-- Machine mode over two pages of zeroed RAM, with paging selected for the lower modes. -/
def twoPageCore : Core where
  hart := { satp := 0x8000000000080000#64, memsize := 0x2000#64 }
  mmap := MemoryMap.empty.addRegion 0x80000000#64 0x2000#64 0x700000000000#64
  smc := {}

theorem twoPageCore_reachable : MmuReachable twoPageCore := ⟨twoPageCore, [], rfl, rfl⟩

theorem twoPageCore_ramOk : RamOk twoPageCore := ⟨0, _, rfl, rfl, rfl, rfl, by decide⟩

theorem twoPageCore_byteMap (off : BitVec 12) :
    ByteMap twoPageCore (0x80000000#64 + off.setWidth 64) 8
      (fun i => 0x80000000#64 + off.setWidth 64 + BitVec.ofNat 64 i) where
  store i _ := ⟨_, translate_of_identity _ (by decide), rfl, rfl⟩
  ram i hi := by
    have small : (off.setWidth 64).toNat = off.toNat := BitVec.toNat_setWidth_of_le (by decide)
    have step : (BitVec.ofNat 64 i).toNat = i := toNat_ofNat_of_lt (by omega)
    have bound := off.isLt
    apply (inDram_iff (by decide) (by decide)).mpr
    rw [BitVec.toNat_add, BitVec.toNat_add, small, step]
    simp only [twoPageCore, dramBase, BitVec.toNat_ofNat]
    omega
  distinct i hi j hj same := by
    have cancelled := congrArg BitVec.toNat ((BitVec.add_right_inj _).mp same)
    simp only [BitVec.toNat_ofNat] at cancelled
    omega

theorem access_law_at_half_split :
    MmuReachable twoPageCore ∧ RamOk twoPageCore ∧ 8 ∈ dramSizes ∧
      AccessLaw Bus.empty twoPageCore (0x80000000#64 + (0xFFC#12).setWidth 64) 8 0x1122334455667788#64
        (fun i => 0x80000000#64 + (0xFFC#12).setWidth 64 + BitVec.ofNat 64 i) :=
  ⟨twoPageCore_reachable, twoPageCore_ramOk, by decide,
    (access_law_iff _ _ _ _ _ _ twoPageCore_reachable twoPageCore_ramOk (by decide)
      (twoPageCore_byteMap 0xFFC#12)).mpr (by decide)⟩

/-- A doubleword store that leaves three bytes in its first page succeeds and
    writes nothing. -/
theorem split_store_writes_nothing :
    ByteMap twoPageCore (0x80000000#64 + (0xFFD#12).setWidth 64) 8
      (fun i => 0x80000000#64 + (0xFFD#12).setWidth 64 + BitVec.ofNat 64 i) ∧
    (∃ a, mmioWrite Bus.empty twoPageCore 0x80000FFD#64 8 0x1122334455667788#64 = .ok a ∧
      a.ret.isSuccess = true ∧ a.core.mmap.ramByte 0x80000FFD#64 = 0x00#8 ∧
      a.core.mmap.ramByte 0x80001000#64 = 0x00#8) ∧
    ¬ AccessLaw Bus.empty twoPageCore (0x80000000#64 + (0xFFD#12).setWidth 64) 8 0x1122334455667788#64
      (fun i => 0x80000000#64 + (0xFFD#12).setWidth 64 + BitVec.ofNat 64 i) := by
  refine ⟨twoPageCore_byteMap 0xFFD#12, ⟨_, rfl, rfl, rfl, rfl⟩, fun law => ?_⟩
  have holds := law _ rfl rfl
  have written : (0x00#8 : Byte) = 0x88#8 := holds.written 0 (by decide)
  cases written

end Rv64Vm
