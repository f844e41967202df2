import Rv64Vm.Mmio.Write

/-! # Failed stores

`MMIO::write` translates both pages of a split store before it writes, but it
looks for the owner of the second fragment only after the first is written. The
store that fails there is the only one that leaves a trace.
-/

namespace Rv64Vm

open Lib

variable {addr pa val : Word} {n : Nat} {c c' : Core} {bus : Bus}

/-- The machine after the translations of a store; they may set A and D bits. -/
def storeTranslated (c : Core) (addr : Word) (n : Nat) : Except HostError Core := do
  let t₁ ← translate c .store addr
  if crossPage c.hart addr n && t₁.ret.isSuccess then
    return (← translate t₁.core .store (secondAddr addr)).core
  else return t₁.core

/-- A store that fails leaves RAM as its translations left it, and every device
    and the reservation as they were. -/
def FailedStoreClean (bus : Bus) (c : Core) (addr : Word) (n : Nat) (val : Word) : Prop :=
  ∀ a, mmioWrite bus c addr n val = .ok a → a.ret.isSuccess = false →
    ∃ u, storeTranslated c addr n = .ok u ∧ OnlyAd c.mmap u.mmap ∧ a.core.mmap = u.mmap ∧
      a.core.io = c.io ∧ a.core.hart.reservation = c.hart.reservation

/-- Writing the fragment shows: it goes to a device, or it clears the reservation,
    or it has one of the four sizes and RAM holds other bytes. -/
def FragmentShows (c : Core) (pa : Word) (n : Nat) (val : Word) : Prop :=
  inDram c.hart.memsize pa n = true →
    hitsReservation c.hart.reservation pa = true ∨
      (n ∈ dramSizes ∧ ∃ pa', (pa' - pa).toNat < n ∧ c.mmap.ramByte pa' ≠ byteAt val (pa' - pa).toNat)

/-- The store is split, both pages translate, the first fragment is written and
    shows, and nobody claims the second. -/
def Torn (bus : Bus) (c : Core) (addr : Word) (n : Nat) (val : Word) : Prop :=
  crossPage c.hart addr n = true ∧ ∃ t₁ t₂, translate c .store addr = .ok t₁ ∧ t₁.ret.isSuccess = true ∧
    translate t₁.core .store (secondAddr addr) = .ok t₂ ∧ t₂.ret.isSuccess = true ∧
    claimed bus c.hart.memsize t₁.pa (firstSize addr) = true ∧
    claimed bus c.hart.memsize t₂.pa (n - firstSize addr) = false ∧
    FragmentShows t₂.core t₁.pa (firstSize addr) (firstVal addr val)

/-- The first part of a split access is shorter than the access. -/
theorem firstSize_lt {h : Hart} (small : n ≤ 8)
    (split : crossPage h addr n = true) : 0 < firstSize addr ∧ firstSize addr < n := by
  have size : (BitVec.ofNat 64 n).toNat = n := toNat_ofNat_of_lt (by omega)
  have offset : (addr &&& 0xFFF#64).toNat < 0x1000 := by
    rw [BitVec.toNat_and]
    exact Nat.lt_succ_of_le Nat.and_le_right
  simp only [crossPage, Bool.and_eq_true, decide_eq_true_eq, GT.gt, BitVec.lt_def, BitVec.toNat_add,
    size] at split
  have page : (0x1000#64).toNat = 0x1000 := rfl
  have past := split.2
  rw [page, Nat.mod_eq_of_lt (by omega)] at past
  simp only [firstSize]
  omega

/-- A DRAM fragment that shows nothing leaves memory and the reservation alone. -/
theorem dramWritten_of_hidden {i : Nat} {ram : MemoryRegion}
    (dram : RamAt c.mmap c.hart.memsize i ram) (small : n ≤ 8) (inside : inDram c.hart.memsize pa n = true)
    (hidden : ¬ FragmentShows c pa n val) : (dramWritten (checked c pa) i ram pa n val).mmap = c.mmap ∧
      (dramWritten (checked c pa) i ram pa n val).hart.reservation = c.hart.reservation := by
  simp only [FragmentShows, inside, forall_const, not_or, not_and, not_exists, Decidable.not_not] at hidden
  obtain ⟨untouched, bytes⟩ := hidden
  refine ⟨?_, ?_⟩
  · by_cases known : n ∈ dramSizes
    · -- every byte of the window already holds its value
      have same : storeLE ram.data (pa - dramBase).toNat n val = ram.data := by
        funext k
        simp only [storeLE]
        split
        case isFalse => rfl
        case isTrue window =>
          obtain ⟨j, rfl⟩ := Nat.exists_eq_add_of_le window.1
          have lt : j < n := by omega
          have byte := bytes known (pa + BitVec.ofNat 64 j)
          rw [toNat_add_ofNat_sub pa (by omega), dram.ramByte_add small inside lt] at byte
          rw [Nat.add_sub_cancel_left]
          exact (byte lt).symm
      simp only [dramWritten, known, if_true, same]
      exact MemoryMap.setData_self dram.region
    · simp only [dramWritten, known, if_false]
      rfl
  · simp only [dramWritten, checked, amoCheckReservation_reservation, untouched, Bool.false_eq_true, if_false]

theorem Translated.ramOk (translated : Translated c c') (ram : RamOk c) : RamOk c' := by
  obtain ⟨i, r, dram⟩ := ram
  obtain ⟨r', dram'⟩ := dram.sameLayout translated.ram.sameLayout
  exact ⟨i, r', by rw [translated.hart]; exact dram'⟩

theorem Translated.memsize (translated : Translated c c') : c'.hart.memsize = c.hart.memsize := by rw [translated.hart]

theorem Translated.reservation (translated : Translated c c') :
    c'.hart.reservation = c.hart.reservation := by rw [translated.hart]

theorem writePhys_shows (ram : RamOk c) (small : n ≤ 8)
    (wrote : writePhys bus c pa n val = .ok (some c')) (shows : FragmentShows c pa n val) :
    c'.mmap ≠ c.mmap ∨ c'.io ≠ c.io ∨ c'.hart.reservation ≠ c.hart.reservation := by
  obtain ⟨i, r, dram⟩ := ram
  cases inside : inDram c.hart.memsize pa n with
  | true =>
    rw [writePhys_dram dram small inside, Except.ok.injEq, Option.some.injEq] at wrote
    subst wrote
    rcases shows inside with hit | ⟨known, pa', window, other⟩
    · refine .inr (.inr fun same => ?_)
      have valid : c.hart.reservation.valid = true := by
        simp only [hitsReservation, Bool.and_eq_true] at hit
        exact hit.1.1
      have cleared : (dramWritten (checked c pa) i r pa n val).hart.reservation =
          { c.hart.reservation with valid := false } := by
        simp only [dramWritten, checked, amoCheckReservation_reservation, hit, if_true]
      rw [← same, cleared] at valid
      cases valid
    · refine .inl fun same => ?_
      have dram' : RamAt (checked c pa).mmap c.hart.memsize i r := dram
      have byte := dramWritten_ramByte val dram' small inside known pa'
      rw [if_pos window, same] at byte
      exact other byte
  | false =>
    cases found : bus.find pa n with
    | none =>
      rw [writePhys_unclaimed (by simp [claimed, inside, found])] at wrote
      cases wrote
    | some dev =>
      rw [writePhys_device inside found, Except.ok.injEq, Option.some.injEq] at wrote
      subst wrote
      refine .inr (.inl ?_)
      rw [(bus.writeServed ..).io]
      simp [Core.record, checked]

theorem writePhys_hidden (ram : RamOk c) (small : n ≤ 8)
    (wrote : writePhys bus c pa n val = .ok (some c')) (hidden : ¬ FragmentShows c pa n val) :
    c'.mmap = c.mmap ∧ c'.io = c.io ∧ c'.hart.reservation = c.hart.reservation := by
  obtain ⟨i, r, dram⟩ := ram
  have inside : inDram c.hart.memsize pa n = true := by
    cases inside : inDram c.hart.memsize pa n with
    | true => rfl
    | false => exact absurd (fun yes => by simp [inside] at yes) hidden
  rw [writePhys_dram dram small inside, Except.ok.injEq, Option.some.injEq] at wrote
  subst wrote
  obtain ⟨mmap, reservation⟩ := dramWritten_of_hidden dram small inside hidden
  exact ⟨mmap, rfl, reservation⟩

/-- One translation, or both, before a store that fails. -/
theorem storeTranslated_first {t : Translation} (first : translate c .store addr = .ok t)
    (alone : (crossPage c.hart addr n && t.ret.isSuccess) = false) : storeTranslated c addr n = .ok t.core := by
  simp only [storeTranslated, first, alone, bind, Except.bind, Bool.false_eq_true, if_false]
  rfl

theorem storeTranslated_second {t₁ t₂ : Translation} (crosses : crossPage c.hart addr n = true)
    (first : translate c .store addr = .ok t₁) (firstOk : t₁.ret.isSuccess = true)
    (second : translate t₁.core .store (secondAddr addr) = .ok t₂) : storeTranslated c addr n = .ok t₂.core := by
  simp only [storeTranslated, first, crosses, firstOk, second, bind, Except.bind, Bool.and_self, if_true]
  rfl

/-- A failed store has no effect exactly when it is not torn. -/
theorem failed_store_clean_iff (bus : Bus) (c : Core) (addr : Word) (n : Nat) (val : Word) (ram : RamOk c)
    (size : n ∈ dramSizes) : FailedStoreClean bus c addr n val ↔ ¬ Torn bus c addr n val := by
  have small := (small_of_dramSizes size).2
  have untouched {u : Core} {a : Access} (after : storeTranslated c addr n = .ok u) (frame : Translated c u)
      (same : a.core = u) : ∃ u, storeTranslated c addr n = .ok u ∧ OnlyAd c.mmap u.mmap ∧ a.core.mmap = u.mmap ∧
        a.core.io = c.io ∧ a.core.hart.reservation = c.hart.reservation :=
    ⟨u, after, frame.ram, by rw [same], by rw [same, frame.io], by rw [same, frame.reservation]⟩
  constructor
  · rintro clean ⟨crosses, t₁, t₂, first, firstOk, second, secondOk, taken, nobody, shows⟩
    have split : Split c .store addr n t₁ t₂ := ⟨crosses, first, firstOk, second, secondOk⟩
    have frame := split.translated
    have lt := firstSize_lt small crosses
    have ram₂ := frame.ramOk ram
    obtain ⟨c', wrote⟩ : ∃ c', writePhys bus t₂.core t₁.pa (firstSize addr) (firstVal addr val) = .ok (some c') := by
      rcases writePhys_cases bus t₁.pa (firstVal addr val) ram₂ (by omega : firstSize addr ≤ 8) with none | wrote
      · have nobody := unclaimed_of_writePhys none
        rw [frame.memsize, taken] at nobody
        cases nobody
      · exact wrote
    have memsize' := (writePhys_ramOk ram₂ (by omega) wrote).2.trans frame.memsize
    have unclaimed : writePhys bus c' t₂.pa (n - firstSize addr) (secondVal addr val) = .ok none :=
      writePhys_unclaimed (by rw [memsize']; exact nobody)
    have ends : mmioWrite bus c addr n val =
        .ok { ret := ⟨false, excStoreAccessFault, secondAddr addr⟩, core := c' } := by
      rw [mmioWrite, split.write, wrote]
      simp only [Except.bind, unclaimed, Except.map]
    obtain ⟨u, after, -, mmap, io, reservation⟩ := clean _ ends rfl
    obtain rfl := Except.ok.inj ((storeTranslated_second crosses first firstOk second).symm.trans after)
    rcases writePhys_shows ram₂ (by omega) wrote shows with other | other | other
    · exact other mmap
    · exact other (io.trans frame.io.symm)
    · exact other (reservation.trans frame.reservation.symm)
  · intro notTorn a ok failed
    cases mmioWrite_ends ok with
    | fault first fails same =>
      exact untouched (storeTranslated_first first (by rw [fails, Bool.and_false])) (translate_translated first)
        (by rw [same])
    | secondFault crosses first firstOk second _ same =>
      exact untouched (storeTranslated_second crosses first firstOk second)
        ((translate_translated first).trans (translate_translated second)) (by rw [same])
    | unclaimed page nobody same =>
      exact untouched (storeTranslated_first page.first (by rw [page.whole, Bool.false_and]))
        (translate_translated page.first) (by rw [same])
    | stored _ _ same | storedBoth _ _ _ same =>
      subst same
      cases failed
    | firstUnclaimed split nobody same =>
      exact untouched (storeTranslated_second split.crosses split.first split.firstOk split.second) split.translated
        (by rw [same])
    | @secondUnclaimed t₁ t₂ c' split wrote nobody same =>
      subst same
      have frame := split.translated
      have lt := firstSize_lt small split.crosses
      have ram₂ := frame.ramOk ram
      obtain ⟨ram', memsize'⟩ := writePhys_ramOk ram₂ (by omega) wrote
      have taken := claimed_of_writePhys wrote
      have left := unclaimed_of_writePhys nobody
      rw [memsize', frame.memsize] at left
      rw [frame.memsize] at taken
      have hidden : ¬ FragmentShows t₂.core t₁.pa (firstSize addr) (firstVal addr val) := fun shows =>
        notTorn ⟨split.crosses, t₁, t₂, split.first, split.firstOk, split.second, split.secondOk, taken, left, shows⟩
      obtain ⟨mmap, io, reservation⟩ := writePhys_hidden ram₂ (by omega) wrote hidden
      exact ⟨t₂.core, storeTranslated_second split.crosses split.first split.firstOk split.second, frame.ram, mmap,
        io.trans frame.io, reservation.trans frame.reservation⟩

/-- Machine mode over one page of zeroed RAM, with paging selected for the lower modes. -/
def onePageCore : Core where
  hart := { satp := 0x8000000000080000#64, memsize := 0x1000#64 }
  mmap := MemoryMap.empty.addRegion 0x80000000#64 0x1000#64 0x700000000000#64
  smc := {}

theorem onePageCore_ramOk : RamOk onePageCore := ⟨0, _, rfl, rfl, rfl, rfl, by decide⟩

/-- A word store between two pages beyond RAM. -/
theorem failed_store_clean_beyond_ram :
    (∃ a, mmioWrite Bus.empty onePageCore 0x80001FFE#64 4 0xAABBCCDD#64 = .ok a ∧ a.ret.isSuccess = false) ∧
      FailedStoreClean Bus.empty onePageCore 0x80001FFE#64 4 0xAABBCCDD#64 := by
  refine ⟨⟨_, rfl, rfl⟩, (failed_store_clean_iff _ _ _ _ _ onePageCore_ramOk (by decide)).mpr ?_⟩
  rintro ⟨-, t₁, t₂, first, -, -, -, taken, -⟩
  obtain rfl := Except.ok.inj ((show translate onePageCore .store 0x80001FFE#64 = .ok _ from rfl).symm.trans first)
  exact absurd taken (by decide)

/-- A word store across the end of RAM faults and leaves its first half in RAM. -/
theorem split_store_faults_half_written :
    (∃ a, mmioWrite Bus.empty onePageCore 0x80000FFE#64 4 0xAABBCCDD#64 = .ok a ∧
      a.ret = ⟨false, excStoreAccessFault, 0x80001000#64⟩ ∧
      onePageCore.mmap.ramByte 0x80000FFE#64 = 0x00#8 ∧ a.core.mmap.ramByte 0x80000FFE#64 = 0xDD#8) ∧
    ¬ FailedStoreClean Bus.empty onePageCore 0x80000FFE#64 4 0xAABBCCDD#64 := by
  refine ⟨⟨_, rfl, rfl, rfl, rfl⟩, fun clean => ?_⟩
  obtain ⟨u, after, -, mmap, -⟩ := clean _ rfl rfl
  cases after
  have byte := congrArg (fun m => m.ramByte 0x80000FFE#64) mmap
  have written : (0xDD#8 : Byte) = 0x00#8 := byte
  cases written

end Rv64Vm
