import Rv64Vm.Exec.Effects

/-! # What a failed access reports

A failed translation reports the page fault of its kind at its address. A failed load or
store reports that, or the access fault of its kind, at its address or at the
first address of its second page.
-/

namespace Rv64Vm

open Lib

variable {bus : Bus} {c : Core} {addr va val : Word} {n : Nat} {a : Access} {type : AccessType}

/-- The access fault of a load or store. -/
def accessFault : AccessType → Nat
  | .load => excLoadAccessFault
  | .store => excStoreAccessFault
  | .exec => excInstAccessFault

structure AddressFault (type : AccessType) (h : Hart) (addr : Word) (n : Nat) (ret : MemoryReturn) : Prop where
  cause : ret.excCode = accessTypeToFault type ∨ ret.excCode = accessFault type
  tval : ret.tval = addr ∨ (crossPage h addr n = true ∧ ret.tval = addr + BitVec.ofNat 64 (firstSize addr))

namespace AddressFault

variable {h : Hart} {t : Translation}

theorem of_translate (ok : translate c type addr = .ok t) (failed : t.ret.isSuccess = false) :
    AddressFault type h addr n t.ret := by
  rw [translate_fault ok failed]
  exact ⟨.inl rfl, .inl rfl⟩

theorem of_translate_second (split : crossPage h addr n = true)
    (ok : translate c type (addr + BitVec.ofNat 64 (firstSize addr)) = .ok t) (failed : t.ret.isSuccess = false) :
    AddressFault type h addr n t.ret := by
  rw [translate_fault ok failed]
  exact ⟨.inl rfl, .inr ⟨split, rfl⟩⟩

theorem here : AddressFault type h addr n ⟨false, accessFault type, addr⟩ := ⟨.inr rfl, .inl rfl⟩

theorem second (split : crossPage h addr n = true) :
    AddressFault type h addr n ⟨false, accessFault type, addr + BitVec.ofNat 64 (firstSize addr)⟩ :=
  ⟨.inr rfl, .inr ⟨split, rfl⟩⟩

end AddressFault

theorem mmioRead_fault (ok : mmioRead bus c addr n = .ok a) (failed : a.ret.isSuccess = false) :
    AddressFault .load c.hart addr n a.ret := by
  unfold mmioRead readPieces at ok
  cases split : crossPage c.hart addr n with
  | false =>
    simp only [split, Bool.not_false, if_true] at ok
    obtain ⟨t, translated, ⟨success, rfl⟩ | ⟨-, ok⟩⟩ := bind_guard_eq_ok.mp ok
    · exact .of_translate translated success
    · obtain ⟨o, read, ok⟩ := bind_eq_ok.mp ok
      cases o with
      | none => exact pure_eq_ok.mp ok ▸ .here
      | some found => exact absurd failed (pure_eq_ok.mp ok ▸ nofun)
  | true =>
    simp only [split, Bool.not_true, Bool.false_eq_true, if_false] at ok
    obtain ⟨t₁, translated, ⟨success, rfl⟩ | ⟨-, ok⟩⟩ := bind_guard_eq_ok.mp ok
    · exact .of_translate translated success
    obtain ⟨t₂, translated₂, ⟨success₂, rfl⟩ | ⟨-, ok⟩⟩ := bind_guard_eq_ok.mp ok
    · exact .of_translate_second split translated₂ success₂
    obtain ⟨o, read, ok⟩ := bind_eq_ok.mp ok
    cases o with
    | none => exact pure_eq_ok.mp ok ▸ .here
    | some low =>
      obtain ⟨o, read₂, ok⟩ := bind_eq_ok.mp ok
      cases o with
      | none => exact pure_eq_ok.mp ok ▸ .second split
      | some high => exact absurd failed (pure_eq_ok.mp ok ▸ nofun)

theorem mmioWrite_fault (ok : mmioWrite bus c addr n val = .ok a) (failed : a.ret.isSuccess = false) :
    AddressFault .store c.hart addr n a.ret := by
  cases mmioWrite_ends ok with
  | fault first failed same => exact same ▸ .of_translate first failed
  | secondFault crosses _ _ second failed same => exact same ▸ .of_translate_second crosses second failed
  | unclaimed _ _ same | firstUnclaimed _ _ same => exact same ▸ .here
  | secondUnclaimed split _ _ same => exact same ▸ .second split.crosses
  | stored _ _ same | storedBoth _ _ _ same => exact absurd failed (same ▸ nofun)

end Rv64Vm
