import Rv64Vm.Mmio.Physical

/-! # The ways an access ends

An access is one fragment, or two on two pages. One inversion lemma for `MMIO::write`: it stops at a
failed translation or at a fragment nobody claims, or it has written every fragment.
-/

namespace Rv64Vm

open Lib

variable {bus : Bus} {c c' : Core} {type : AccessType} {addr val pa : Word} {n : Nat} {t₁ t₂ : Translation}

/-- Some part of the machine takes the fragment: RAM or a device. -/
def claimed (bus : Bus) (memsize pa : Word) (n : Nat) : Bool :=
  inDram memsize pa n || (bus.find pa n).isSome

/-- The second page of a split access. -/
def secondAddr (addr : Word) : Word := addr + BitVec.ofNat 64 (firstSize addr)

/-- The part of the value in the first page. -/
def firstVal (addr val : Word) : Word := val &&& lowMask 64 (firstSize addr * 8)

/-- The part of the value in the second page. -/
def secondVal (addr val : Word) : Word := val >>> (firstSize addr * 8)

/-! ## The pages of an access -/

/-- An access within one page that is translated. -/
structure OnePage (c : Core) (type : AccessType) (addr : Word) (n : Nat) (t : Translation) : Prop where
  whole : crossPage c.hart addr n = false
  first : translate c type addr = .ok t
  firstOk : t.ret.isSuccess = true

/-- A split access: both of its pages are translated. -/
structure Split (c : Core) (type : AccessType) (addr : Word) (n : Nat) (t₁ t₂ : Translation) : Prop where
  crosses : crossPage c.hart addr n = true
  first : translate c type addr = .ok t₁
  firstOk : t₁.ret.isSuccess = true
  second : translate t₁.core type (secondAddr addr) = .ok t₂
  secondOk : t₂.ret.isSuccess = true

theorem Split.translated (split : Split c type addr n t₁ t₂) : Translated c t₂.core :=
  (translate_translated split.first).trans (translate_translated split.second)

theorem OnePage.read {t : Translation} (page : OnePage c .load addr n t) (p : ReadPiece) :
    readPieces p c addr n = (p t.core t.pa n).map fun
      | some (v, c) => { ret := {}, val := v, core := c }
      | none => { ret := ⟨false, excLoadAccessFault, addr⟩, core := t.core } := by
  simp only [readPieces, page.whole, page.first, page.firstOk, bind, Except.bind, Bool.not_false, if_true,
    Bool.not_true,
    Bool.false_eq_true, if_false]
  cases p t.core t.pa n with
  | error e => rfl
  | ok r => cases r <;> rfl

theorem OnePage.write {t : Translation} (page : OnePage c .store addr n t) (p : WritePiece) :
    writePieces p c addr n val = (p t.core t.pa n val).map fun
      | some c => { ret := {}, core := c }
      | none => { ret := ⟨false, excStoreAccessFault, addr⟩, core := t.core } := by
  simp only [writePieces, page.whole, page.first, page.firstOk, bind, Except.bind, Bool.not_false, if_true,
    Bool.not_true,
    Bool.false_eq_true, if_false]
  cases p t.core t.pa n val with
  | error e => rfl
  | ok r => cases r <;> rfl

theorem Split.read (split : Split c .load addr n t₁ t₂) (p : ReadPiece) :
    readPieces p c addr n = (p t₂.core t₁.pa (firstSize addr)).bind fun
      | none => .ok { ret := ⟨false, excLoadAccessFault, addr⟩, core := t₂.core }
      | some (low, c) => (p c t₂.pa (n - firstSize addr)).map fun
        | none => { ret := ⟨false, excLoadAccessFault, secondAddr addr⟩, core := c }
        | some (high, c) => { ret := {}, val := low ||| (high <<< (firstSize addr * 8)), core := c } := by
  have second := split.second
  rw [secondAddr] at second
  simp only [readPieces, split.crosses, split.first, split.firstOk, second, split.secondOk, bind, Except.bind,
    Bool.not_true, Bool.false_eq_true, if_false]
  cases p t₂.core t₁.pa (firstSize addr) with
  | error e => rfl
  | ok r =>
    cases r with
    | none => rfl
    | some read =>
      dsimp only
      cases p read.2 t₂.pa (n - firstSize addr) with
      | error e => rfl
      | ok r => cases r <;> rfl

theorem Split.write (split : Split c .store addr n t₁ t₂) (p : WritePiece) :
    writePieces p c addr n val = (p t₂.core t₁.pa (firstSize addr) (firstVal addr val)).bind fun
      | none => .ok { ret := ⟨false, excStoreAccessFault, addr⟩, core := t₂.core }
      | some c => (p c t₂.pa (n - firstSize addr) (secondVal addr val)).map fun
        | none => { ret := ⟨false, excStoreAccessFault, secondAddr addr⟩, core := c }
        | some c => { ret := {}, core := c } := by
  have second := split.second
  rw [secondAddr] at second
  simp only [writePieces, split.crosses, split.first, split.firstOk, second, split.secondOk, bind, Except.bind,
    Bool.not_true, Bool.false_eq_true, if_false]
  rw [firstVal, secondVal]
  cases p t₂.core t₁.pa (firstSize addr) (val &&& lowMask 64 (firstSize addr * 8)) with
  | error e => rfl
  | ok r =>
    cases r with
    | none => rfl
    | some d =>
      dsimp only
      cases p d t₂.pa (n - firstSize addr) (val >>> (firstSize addr * 8)) with
      | error e => rfl
      | ok r => cases r <;> rfl

/-- How `mmioWrite` returns. -/
inductive WriteEnds (bus : Bus) (c : Core) (addr : Word) (n : Nat) (val : Word) (a : Access) : Prop
  | fault {t : Translation} (first : translate c .store addr = .ok t) (failed : t.ret.isSuccess = false)
      (same : a = { ret := t.ret, core := t.core })
  | secondFault {t₁ t₂ : Translation} (crosses : crossPage c.hart addr n = true)
      (first : translate c .store addr = .ok t₁) (firstOk : t₁.ret.isSuccess = true)
      (second : translate t₁.core .store (secondAddr addr) = .ok t₂)
      (failed : t₂.ret.isSuccess = false) (same : a = { ret := t₂.ret, core := t₂.core })
  | unclaimed {t : Translation} (page : OnePage c .store addr n t) (nobody : writePhys bus t.core t.pa n val = .ok none)
      (same : a = { ret := ⟨false, excStoreAccessFault, addr⟩, core := t.core })
  | stored {t : Translation} {c' : Core} (page : OnePage c .store addr n t)
      (wrote : writePhys bus t.core t.pa n val = .ok (some c')) (same : a = { ret := {}, core := c' })
  | firstUnclaimed {t₁ t₂ : Translation} (split : Split c .store addr n t₁ t₂)
      (nobody : writePhys bus t₂.core t₁.pa (firstSize addr) (firstVal addr val) = .ok none)
      (same : a = { ret := ⟨false, excStoreAccessFault, addr⟩, core := t₂.core })
  | secondUnclaimed {t₁ t₂ : Translation} {c' : Core} (split : Split c .store addr n t₁ t₂)
      (wrote : writePhys bus t₂.core t₁.pa (firstSize addr) (firstVal addr val) = .ok (some c'))
      (nobody : writePhys bus c' t₂.pa (n - firstSize addr) (secondVal addr val) = .ok none)
      (same : a = { ret := ⟨false, excStoreAccessFault, secondAddr addr⟩, core := c' })
  | storedBoth {t₁ t₂ : Translation} {c' c'' : Core} (split : Split c .store addr n t₁ t₂)
      (wrote : writePhys bus t₂.core t₁.pa (firstSize addr) (firstVal addr val) = .ok (some c'))
      (wrote₂ : writePhys bus c' t₂.pa (n - firstSize addr) (secondVal addr val) = .ok (some c''))
      (same : a = { ret := {}, core := c'' })

theorem mmioWrite_ends {a : Access} (ok : mmioWrite bus c addr n val = .ok a) : WriteEnds bus c addr n val a := by
  unfold mmioWrite writePieces at ok
  cases crosses : crossPage c.hart addr n with
  | false =>
    simp only [crosses, Bool.not_false, if_true] at ok
    obtain ⟨t, first, ⟨failed, same⟩ | ⟨firstOk, ok⟩⟩ := bind_guard_eq_ok.mp ok
    · exact .fault first failed same.symm
    · obtain ⟨o, wrote, ok⟩ := bind_eq_ok.mp ok
      cases o with
      | none => exact .unclaimed ⟨crosses, first, firstOk⟩ wrote (pure_eq_ok.mp ok).symm
      | some c' => exact .stored ⟨crosses, first, firstOk⟩ wrote (pure_eq_ok.mp ok).symm
  | true =>
    simp only [crosses, Bool.not_true, Bool.false_eq_true, if_false] at ok
    obtain ⟨t₁, first, ⟨failed, same⟩ | ⟨firstOk, ok⟩⟩ := bind_guard_eq_ok.mp ok
    · exact .fault first failed same.symm
    obtain ⟨t₂, second, ⟨failed, same⟩ | ⟨secondOk, ok⟩⟩ := bind_guard_eq_ok.mp ok
    · exact .secondFault crosses first firstOk second failed same.symm
    have split : Split c .store addr n t₁ t₂ := ⟨crosses, first, firstOk, second, secondOk⟩
    obtain ⟨o, wrote, ok⟩ := bind_eq_ok.mp ok
    cases o with
    | none => exact .firstUnclaimed split wrote (pure_eq_ok.mp ok).symm
    | some c' =>
      obtain ⟨o, wrote₂, ok⟩ := bind_eq_ok.mp ok
      cases o with
      | none => exact .secondUnclaimed split wrote wrote₂ (pure_eq_ok.mp ok).symm
      | some c'' => exact .storedBoth split wrote wrote₂ (pure_eq_ok.mp ok).symm

/-! ## One fragment -/

/-- The fragment clears the reservation. -/
def hitsReservation (r : Reservation) (pa : Word) : Bool :=
  r.valid && pa ≤ r.paddr && pa ≤ r.paddr + BitVec.ofNat 64 r.size

theorem amoCheckReservation_reservation (h : Hart) (pa : Word) :
    (h.amoCheckReservation pa).reservation =
      if hitsReservation h.reservation pa then { h.reservation with valid := false } else h.reservation := by
  unfold Hart.amoCheckReservation hitsReservation
  dsimp only
  split <;> rfl

theorem amoCheckReservation_frame (h : Hart) (pa : Word) :
    h.amoCheckReservation pa = { h with reservation := (h.amoCheckReservation pa).reservation } := by
  unfold Hart.amoCheckReservation
  dsimp only
  split <;> rfl

/-- The core that a fragment's `amo_check_reservation` leaves. -/
def checked (c : Core) (pa : Word) : Core := { c with hart := c.hart.amoCheckReservation pa }

theorem writePhys_dram {i : Nat} {ram : MemoryRegion}
    (dram : RamAt c.mmap c.hart.memsize i ram) (small : n ≤ 8) (inside : inDram c.hart.memsize pa n = true) :
    writePhys bus c pa n val = .ok (some (dramWritten (checked c pa) i ram pa n val)) := by
  have dram' : RamAt (checked c pa).mmap c.hart.memsize i ram := dram
  simp only [writePhys, inside, if_true]
  rw [show writeDramFast { c with hart := c.hart.amoCheckReservation pa } pa n val = _ from
    writeDramFast_eq val dram' small inside]
  rfl

theorem writePhys_device {dev : Nat} (outside : inDram c.hart.memsize pa n = false) (found : bus.find pa n = some dev) :
    writePhys bus c pa n val = .ok (some (bus.write dev pa n val ((checked c pa).record ⟨dev, pa, n, some val⟩))) := by
  simp only [writePhys, outside, Bool.false_eq_true, if_false, found, Option.map_some]
  rfl

theorem writePhys_unclaimed
    (nobody : claimed bus c.hart.memsize pa n = false) : writePhys bus c pa n val = .ok none := by
  simp only [claimed, Bool.or_eq_false_iff, Option.isSome_eq_false_iff, Option.isNone_iff_eq_none] at nobody
  simp only [writePhys, nobody.1, nobody.2, Bool.false_eq_true, if_false, Option.map_none]

theorem claimed_of_writePhys
    (wrote : writePhys bus c pa n val = .ok (some c')) : claimed bus c.hart.memsize pa n = true := by
  cases nobody : claimed bus c.hart.memsize pa n with
  | true => rfl
  | false => simp [writePhys_unclaimed nobody] at wrote

theorem writePhys_cases (bus : Bus) (pa val : Word) (ram : RamOk c) (small : n ≤ 8) :
    writePhys bus c pa n val = .ok none ∨ ∃ c', writePhys bus c pa n val = .ok (some c') := by
  cases inside : inDram c.hart.memsize pa n with
  | true =>
    obtain ⟨i, r, ramAt⟩ := ram
    exact .inr ⟨_, writePhys_dram ramAt small inside⟩
  | false =>
    cases found : bus.find pa n with
    | none => exact .inl (writePhys_unclaimed (by rw [claimed, inside, found]; rfl))
    | some dev => exact .inr ⟨_, writePhys_device inside found⟩

theorem unclaimed_of_writePhys (nobody : writePhys bus c pa n val = .ok none) :
    claimed bus c.hart.memsize pa n = false := by
  unfold writePhys at nobody
  dsimp only at nobody
  split at nobody
  case isTrue =>
    obtain ⟨c'', -, same⟩ := map_eq_ok.mp nobody
    cases same
  case isFalse outside =>
    simp only [Except.ok.injEq, Option.map_eq_none_iff] at nobody
    simp [claimed, outside, nobody]

/-- No fragment changes the size of RAM or where it is. -/
theorem writePhys_ramOk (ram : RamOk c) (small : n ≤ 8) (wrote : writePhys bus c pa n val = .ok (some c')) :
    RamOk c' ∧ c'.hart.memsize = c.hart.memsize := by
  obtain ⟨i, r, dram⟩ := ram
  have memsize : (checked c pa).hart.memsize = c.hart.memsize := by
    simp only [checked]
    rw [amoCheckReservation_frame]
  cases inside : inDram c.hart.memsize pa n with
  | true =>
    rw [writePhys_dram dram small inside, Except.ok.injEq, Option.some.injEq] at wrote
    subst wrote
    refine ⟨?_, memsize⟩
    by_cases known : n ∈ dramSizes
    · refine ⟨i, { r with data := storeLE r.data (pa - dramBase).toNat n val }, ?_⟩
      simp only [dramWritten, known, if_true, memsize]
      exact dram.setData _
    · refine ⟨i, r, ?_⟩
      simp only [dramWritten, known, if_false, memsize]
      exact dram
  | false =>
    cases found : bus.find pa n with
    | none =>
      rw [writePhys_unclaimed (by simp [claimed, inside, found])] at wrote
      cases wrote
    | some dev =>
      rw [writePhys_device inside found, Except.ok.injEq, Option.some.injEq] at wrote
      subst wrote
      have served := bus.writeServed dev pa n val ((checked c pa).record ⟨dev, pa, n, some val⟩)
      have memsize' : (bus.write dev pa n val ((checked c pa).record ⟨dev, pa, n, some val⟩)).hart.memsize =
          c.hart.memsize := by
        rw [served.hart]
        exact memsize
      obtain ⟨r', dram'⟩ := dram.sameLayout served.layout
      exact ⟨⟨i, r', memsize'.symm ▸ dram'⟩, memsize'⟩

end Rv64Vm
