import Rv64Vm.Isa.Table
import Rv64Vm.Mmio.FailedStore
import Rv64Vm.Mmu.TlbEntries

/-! # What an access may change

`Unwritten` is the trace of an access that wrote nothing: the TLB, accessed and
dirty bits, and what a device publishes when it is read. `Accessed` is that of any
access, and `UserFrame` that of an unprivileged instruction. All three are preorders,
so the effect of a handler is read off its parts.
-/

namespace Rv64Vm

open Lib

variable {c c' a b : Core} {type : AccessType} {va : Word} {t : Translation}

/-- Pending interrupts change only with a device access. -/
structure DevicesOnly (c c' : Core) : Prop where
  io : c.io <+: c'.io
  ip : c'.io = c.io → c'.hart.ip = c.hart.ip

namespace DevicesOnly

theorem refl (c : Core) : DevicesOnly c c := ⟨List.prefix_rfl, fun _ => rfl⟩

theorem of_eq (io : c'.io = c.io) (ip : c'.hart.ip = c.hart.ip) : DevicesOnly c c' :=
  ⟨io ▸ List.prefix_rfl, fun _ => ip⟩

theorem trans (first : DevicesOnly a b) (second : DevicesOnly b c) : DevicesOnly a c := by
  refine ⟨first.io.trans second.io, fun same => ?_⟩
  -- the list of accesses only grows, so it did not grow in between either
  have middle : b.io = a.io := by
    apply (first.io.eq_of_length_le _).symm
    rw [← same]
    exact second.io.length_le
  rw [second.ip (same.trans middle.symm), first.ip middle]

theorem of_grown {access : DeviceAccess} (io : c'.io = c.io ++ [access]) : DevicesOnly c c' := by
  refine ⟨io ▸ List.prefix_append .., fun same => ?_⟩
  have impossible := congrArg List.length (io.symm.trans same)
  simp at impossible

end DevicesOnly

structure Unwritten (c c' : Core) : Prop where
  hart : c'.hart = { c.hart with tlb := c'.hart.tlb, ip := c'.hart.ip, ctime := c'.hart.ctime }
  devices : DevicesOnly c c'
  ram : OnlyAd c.mmap c'.mmap
  smc : c'.smc = c.smc
  decoder : c'.decoder = c.decoder
  rounding : c'.rounding = c.rounding
  generation : c'.hart.tlb.generation = c.hart.tlb.generation

namespace Unwritten

theorem refl (c : Core) : Unwritten c c := ⟨rfl, .refl c, .refl _, rfl, rfl, rfl, rfl⟩

theorem trans (first : Unwritten a b) (second : Unwritten b c) : Unwritten a c where
  hart := by rw [second.hart, first.hart]
  devices := first.devices.trans second.devices
  ram := first.ram.trans second.ram
  smc := second.smc.trans first.smc
  decoder := second.decoder.trans first.decoder
  rounding := second.rounding.trans first.rounding
  generation := second.generation.trans first.generation

end Unwritten

/-- Translations fill the TLB within its generation. -/
theorem translate_generation
    (ok : translate c type va = .ok t) : t.core.hart.tlb.generation = c.hart.tlb.generation := by
  rcases translate_cases ok with ⟨-, rfl⟩ | ⟨-, pa, -, rfl⟩ | ⟨-, -, -, impl⟩
  · exact Tlb.insert_generation ..
  · rfl
  · rcases translateImpl_cases impl with ⟨reads, rfl⟩ | ⟨reads, addr, pte, level, m, -, -, -, -, rfl⟩
    · rfl
    · exact fillTlb_generation ..

theorem translate_unwritten (ok : translate c type va = .ok t) : Unwritten c t.core where
  hart := by rw [(translate_translated ok).hart]
  devices := .of_eq (translate_translated ok).io (by rw [(translate_translated ok).hart])
  ram := (translate_translated ok).ram
  smc := (translate_translated ok).smc
  decoder := (translate_translated ok).decoder
  rounding := (translate_translated ok).rounding
  generation := translate_generation ok

structure Accessed (c c' : Core) : Prop where
  hart : c'.hart = { c.hart with
    ip := c'.hart.ip
    ctime := c'.hart.ctime
    reservation := c'.hart.reservation
    tlb := c'.hart.tlb }
  devices : DevicesOnly c c'
  layout : c.mmap.SameLayout c'.mmap
  generation : c'.hart.tlb.generation = c.hart.tlb.generation

namespace Accessed

theorem refl (c : Core) : Accessed c c := ⟨rfl, .refl c, .refl _, rfl⟩

theorem trans (first : Accessed a b) (second : Accessed b c) : Accessed a c where
  hart := by rw [second.hart, first.hart]
  devices := first.devices.trans second.devices
  layout := first.layout.trans second.layout
  generation := second.generation.trans first.generation

theorem pc (accessed : Accessed c c') : c'.hart.pc = c.hart.pc := by rw [accessed.hart]

theorem reserve (c : Core) (r : Reservation) :
    Accessed c (c.mapHart fun h => { h with reservation := r }) := ⟨rfl, .of_eq rfl rfl, .refl _, rfl⟩

theorem unreserve (c : Core) : Accessed c c.unreserve := ⟨rfl, .of_eq rfl rfl, .refl _, rfl⟩

end Accessed

theorem Unwritten.accessed (same : Unwritten c c') : Accessed c c' where
  hart := by rw [same.hart]
  devices := same.devices
  layout := same.ram.sameLayout
  generation := same.generation

/-- What an instruction may change without looking at the privilege mode. -/
structure UserFrame (c c' : Core) : Prop where
  hart : c'.hart = { c.hart with
    gpr := c'.hart.gpr
    fpr := c'.hart.fpr
    pc := c'.hart.pc
    fcsr := c'.hart.fcsr
    ip := c'.hart.ip
    ctime := c'.hart.ctime
    reservation := c'.hart.reservation
    tlb := c'.hart.tlb }
  devices : DevicesOnly c c'
  layout : c.mmap.SameLayout c'.mmap

namespace UserFrame

theorem refl (c : Core) : UserFrame c c := ⟨rfl, .refl c, .refl _⟩

theorem trans (first : UserFrame a b) (second : UserFrame b c) : UserFrame a c where
  hart := by rw [second.hart, first.hart]
  devices := first.devices.trans second.devices
  layout := first.layout.trans second.layout

theorem setPc (c : Core) (pc : Word) : UserFrame c (c.setPc pc) := ⟨rfl, .of_eq rfl rfl, .refl _⟩

theorem setGpr (c : Core) (r : BitVec 5) (v : Word) : UserFrame c (c.setGpr r v) :=
  ⟨rfl, .of_eq rfl rfl, .refl _⟩

end UserFrame

/-- The same with `pc` left to the caller and no flush. -/
structure Straight (c c' : Core) : Prop extends UserFrame c c' where
  pc : c'.hart.pc = c.hart.pc
  generation : c'.hart.tlb.generation = c.hart.tlb.generation

namespace Straight

theorem refl (c : Core) : Straight c c := ⟨.refl c, rfl, rfl⟩

theorem trans (first : Straight a b) (second : Straight b c) : Straight a c :=
  ⟨first.toUserFrame.trans second.toUserFrame, second.pc.trans first.pc, second.generation.trans first.generation⟩

theorem of_regs (hart : c'.hart = { c.hart with
      gpr := c'.hart.gpr
      fpr := c'.hart.fpr
      fcsr := c'.hart.fcsr })
    (io : c'.io = c.io) (layout : c.mmap.SameLayout c'.mmap) : Straight c c' :=
  ⟨⟨by rw [hart], .of_eq io (by rw [hart]), layout⟩, by rw [hart], by rw [hart]⟩

theorem setGpr (c : Core) (r : BitVec 5) (v : Word) : Straight c (c.setGpr r v) := of_regs rfl rfl (.refl _)
theorem setFpr (c : Core) (r : BitVec 5) (v : Word) : Straight c (c.setFpr r v) := of_regs rfl rfl (.refl _)
theorem raise (c : Core) (raised : Raised) : Straight c (c.raise raised) := of_regs rfl rfl (.refl _)
theorem raiseInvalid (c : Core) : Straight c c.raiseInvalid := of_regs rfl rfl (.refl _)
theorem round (c : Core) (mode : Rounding) : Straight c { c with rounding := mode } := of_regs rfl rfl (.refl _)

theorem setData (c : Core) (k : Nat) (data : Nat → Byte) : Straight c { c with mmap := c.mmap.setData k data } :=
  of_regs rfl rfl (.setData ..)

end Straight

theorem Accessed.straight (accessed : Accessed c c') : Straight c c' :=
  ⟨⟨by rw [accessed.hart], accessed.devices, accessed.layout⟩, accessed.pc, accessed.generation⟩

/-! ## Accesses -/

section Accesses

variable {bus : Bus} {c c' : Core} {addr pa val : Word} {n : Nat} {a : Access}

theorem Served.devicesOnly {dev : Nat} {written : Option Word}
    (served : Served (c.record ⟨dev, pa, n, written⟩) c') : DevicesOnly c c' :=
  .of_grown served.io

theorem readPhys_unwritten {v : Word} (read : readPhys bus c pa n = .ok (some (v, c'))) : Unwritten c c' := by
  unfold readPhys at read
  cases inside : inDram c.hart.memsize pa n with
  | true =>
    simp only [inside, if_true] at read
    obtain ⟨v', -, same⟩ := map_eq_ok.mp read
    obtain ⟨-, rfl⟩ := Prod.mk.inj (Option.some.inj same)
    exact .refl c
  | false =>
    simp only [inside, Bool.false_eq_true, if_false, Except.ok.injEq, Option.map_eq_some_iff] at read
    obtain ⟨dev, -, same⟩ := read
    have served := bus.readServed dev pa n (c.record ⟨dev, pa, n, none⟩)
    have memory := bus.readMemory dev pa n (c.record ⟨dev, pa, n, none⟩)
    rw [same] at served memory
    exact ⟨by rw [served.hart]; rfl, served.devicesOnly, memory ▸ .refl _, served.smc, served.decoder,
      served.rounding, by rw [served.hart]; rfl⟩

theorem writePhys_accessed (wrote : writePhys bus c pa n val = .ok (some c')) : Accessed c c' := by
  unfold writePhys at wrote
  have reservation : Accessed c (checked c pa) :=
    ⟨by rw [checked, amoCheckReservation_frame], .of_eq rfl (by rw [checked, amoCheckReservation_frame]), .refl _,
      by rw [checked, amoCheckReservation_frame]⟩
  cases inside : inDram c.hart.memsize pa n with
  | true =>
    simp only [inside, if_true] at wrote
    obtain ⟨c'', wrote, same⟩ := map_eq_ok.mp wrote
    obtain rfl := Option.some.inj same
    apply reservation.trans
    unfold writeDramFast at wrote
    split at wrote
    case h_1 =>
      dsimp only at wrote
      split at wrote
      case isTrue =>
        split at wrote
        case isTrue => cases wrote; exact ⟨rfl, .of_eq rfl rfl, .setData .., rfl⟩
        case isFalse => cases wrote
      case isFalse => cases wrote; exact ⟨rfl, .of_eq rfl rfl, .refl _, rfl⟩
    case h_2 => cases wrote
  | false =>
    simp only [inside, Bool.false_eq_true, if_false, Except.ok.injEq, Option.map_eq_some_iff] at wrote
    obtain ⟨dev, -, rfl⟩ := wrote
    have served := bus.writeServed dev pa n val ((checked c pa).record ⟨dev, pa, n, some val⟩)
    apply reservation.trans
    exact ⟨by rw [checked] at served; rw [served.hart]; rfl, served.devicesOnly,
      served.layout, by rw [checked] at served; rw [served.hart]; rfl⟩

/-- A read writes nothing, whether it succeeds or not. -/
theorem mmioRead_unwritten (ok : mmioRead bus c addr n = .ok a) : Unwritten c a.core := by
  unfold mmioRead readPieces at ok
  cases split : crossPage c.hart addr n with
  | false =>
    simp only [split, Bool.not_false, if_true] at ok
    obtain ⟨t, translated, ⟨-, rfl⟩ | ⟨-, ok⟩⟩ := bind_guard_eq_ok.mp ok
    · exact translate_unwritten translated
    · obtain ⟨o, read, ok⟩ := bind_eq_ok.mp ok
      have begun := translate_unwritten translated
      cases o with
      | none => exact pure_eq_ok.mp ok ▸ begun
      | some found => exact pure_eq_ok.mp ok ▸ begun.trans (readPhys_unwritten read)
  | true =>
    simp only [split, Bool.not_true, Bool.false_eq_true, if_false] at ok
    obtain ⟨t₁, translated, ⟨-, rfl⟩ | ⟨-, ok⟩⟩ := bind_guard_eq_ok.mp ok
    · exact translate_unwritten translated
    obtain ⟨t₂, translated₂, stop⟩ := bind_guard_eq_ok.mp ok
    have both := (translate_unwritten translated).trans (translate_unwritten translated₂)
    rcases stop with ⟨-, rfl⟩ | ⟨-, ok⟩
    · exact both
    obtain ⟨o, read, ok⟩ := bind_eq_ok.mp ok
    cases o with
    | none => exact pure_eq_ok.mp ok ▸ both
    | some low =>
      have half := both.trans (readPhys_unwritten read)
      obtain ⟨o, read₂, ok⟩ := bind_eq_ok.mp ok
      cases o with
      | none => exact pure_eq_ok.mp ok ▸ half
      | some high => exact pure_eq_ok.mp ok ▸ half.trans (readPhys_unwritten read₂)

theorem mmioReadAt_unwritten (ok : mmioReadAt bus c pa n = .ok a) : Unwritten c a.core := by
  unfold mmioReadAt at ok
  obtain ⟨o, read, ok⟩ := bind_eq_ok.mp ok
  cases o with
  | none => exact pure_eq_ok.mp ok ▸ .refl c
  | some found => exact pure_eq_ok.mp ok ▸ readPhys_unwritten read

theorem mmioWrite_accessed (ok : mmioWrite bus c addr n val = .ok a) : Accessed c a.core := by
  have translated {c : Core} {t : Translation} {va : Word} (ok : translate c .store va = .ok t) :
      Accessed c t.core := (translate_unwritten ok).accessed
  have both {t₁ t₂ : Translation} (split : Split c .store addr n t₁ t₂) : Accessed c t₂.core :=
    (translated split.first).trans (translated split.second)
  cases mmioWrite_ends ok with
  | fault first _ same => exact same ▸ translated first
  | secondFault _ first _ second _ same => exact same ▸ (translated first).trans (translated second)
  | unclaimed page _ same => exact same ▸ translated page.first
  | stored page wrote same => exact same ▸ (translated page.first).trans (writePhys_accessed wrote)
  | firstUnclaimed split _ same => exact same ▸ both split
  | secondUnclaimed split wrote _ same => exact same ▸ (both split).trans (writePhys_accessed wrote)
  | storedBoth split wrote wrote₂ same =>
    exact same ▸ ((both split).trans (writePhys_accessed wrote)).trans (writePhys_accessed wrote₂)

theorem mmioWriteAt_accessed (ok : mmioWriteAt bus c pa n val = .ok a) : Accessed c a.core := by
  unfold mmioWriteAt at ok
  obtain ⟨o, wrote, ok⟩ := bind_eq_ok.mp ok
  cases o with
  | none => exact pure_eq_ok.mp ok ▸ .refl c
  | some c' => exact pure_eq_ok.mp ok ▸ writePhys_accessed wrote

/-- A refused physical write has written nothing. -/
theorem mmioWriteAt_failed (ok : mmioWriteAt bus c pa n val = .ok a) (failed : a.ret.isSuccess = false) :
    a.core = c := by
  unfold mmioWriteAt at ok
  obtain ⟨o, wrote, ok⟩ := bind_eq_ok.mp ok
  cases o with
  | none => exact (congrArg Access.core (pure_eq_ok.mp ok)).symm
  | some c' =>
    rw [← pure_eq_ok.mp ok] at failed
    cases failed

end Accesses

end Rv64Vm
