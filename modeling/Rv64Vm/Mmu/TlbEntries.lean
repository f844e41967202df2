import Rv64Vm.Mmu.SameWalk
import Rv64Vm.Mmu.TlbLemmas

/-! # What a walk writes into the TLB

The entry that a successful walk inserts, field by field, and the permission
test on it: whatever the TLB permits, the leaf it was filled from allows.
-/

namespace Rv64Vm

open Lib

variable {type : AccessType} {mode : PrivilegeMode} {mxr sum : Bool} {pte : Word} {level : Nat}

/-! ## Permissions -/

section Perm

variable (pte : Word)

private theorem permOfPte_bits : ∀ r w x u a d : Bool,
    let perm := (if r then permR else 0) ||| (if w then permW else 0) ||| (if x then permX else 0) |||
      (if u then permU else 0) ||| (if a then permA else 0) ||| (if d then permD else 0)
    hasPerm perm permR = r ∧ hasPerm perm permW = w ∧ hasPerm perm permX = x ∧
      hasPerm perm permU = u ∧ hasPerm perm permD = d := by
  decide

@[simp] theorem hasPerm_permOfPte_r : hasPerm (permOfPte pte) permR = Pte.r pte :=
  (permOfPte_bits _ _ _ _ _ _).1
@[simp] theorem hasPerm_permOfPte_w : hasPerm (permOfPte pte) permW = Pte.w pte :=
  (permOfPte_bits _ _ _ _ _ _).2.1
@[simp] theorem hasPerm_permOfPte_x : hasPerm (permOfPte pte) permX = Pte.x pte :=
  (permOfPte_bits _ _ _ _ _ _).2.2.1
@[simp] theorem hasPerm_permOfPte_u : hasPerm (permOfPte pte) permU = Pte.u pte :=
  (permOfPte_bits _ _ _ _ _ _).2.2.2.1
@[simp] theorem hasPerm_permOfPte_d : hasPerm (permOfPte pte) permD = Pte.d pte :=
  (permOfPte_bits _ _ _ _ _ _).2.2.2.2

end Perm

private theorem stripWrite_bits : ∀ perm : BitVec 8,
    hasPerm (stripWrite perm) permR = hasPerm perm permR ∧
    hasPerm (stripWrite perm) permW = false ∧
    hasPerm (stripWrite perm) permX = hasPerm perm permX ∧
    hasPerm (stripWrite perm) permU = hasPerm perm permU := by
  decide

@[simp] theorem hasPerm_stripWrite_r (perm : BitVec 8) :
    hasPerm (stripWrite perm) permR = hasPerm perm permR := (stripWrite_bits perm).1
@[simp] theorem hasPerm_stripWrite_w (perm : BitVec 8) :
    hasPerm (stripWrite perm) permW = false := (stripWrite_bits perm).2.1
@[simp] theorem hasPerm_stripWrite_x (perm : BitVec 8) :
    hasPerm (stripWrite perm) permX = hasPerm perm permX := (stripWrite_bits perm).2.2.1
@[simp] theorem hasPerm_stripWrite_u (perm : BitVec 8) :
    hasPerm (stripWrite perm) permU = hasPerm perm permU := (stripWrite_bits perm).2.2.2

/-- Stripping W and D only takes permissions away. -/
theorem permits_of_stripWrite {perm : BitVec 8} (ok : Tlb.permits (stripWrite perm) type mode mxr sum = true) :
    Tlb.permits perm type mode mxr sum = true := by
  cases type with
  | load => simpa [Tlb.permits] using ok
  | store => simp [Tlb.permits] at ok
  | exec => simpa [Tlb.permits] using ok

/-- The TLB permits no access that the leaf does not allow. -/
theorem leafAllowed_of_permits (ok : Tlb.permits (permOfPte pte) type mode mxr sum = true) :
    leafAllowed pte type mode mxr sum = true := by
  simp only [Tlb.permits, leafAllowed, hasPerm_permOfPte_r, hasPerm_permOfPte_w,
    hasPerm_permOfPte_x, hasPerm_permOfPte_u, hasPerm_permOfPte_d] at ok ⊢
  cases type <;> cases mode <;> cases hu : Pte.u pte <;> simp_all

/-! ## The inserted entry -/

/-- The physical base of an aligned leaf has no offset bits. -/
theorem leafBase_aligned (le : level ≤ 2) (aligned : misaligned pte level = false) :
    (Pte.getSolidPpn pte <<< 12) &&& pageMask (leafBits level) = 0#64 := by
  have small : leafBits level < 64 := by simp only [leafBits]; omega
  have page : (Pte.getSolidPpn pte).toNat < 2 ^ 44 := by
    rw [Pte.getSolidPpn, BitVec.toNat_and]
    exact Nat.and_lt_two_pow _ (by decide)
  have low : (Pte.getSolidPpn pte).toNat % 2 ^ (level * 9) = 0 := by
    by_cases zero : level = 0
    · subst zero
      exact Nat.mod_one _
    · have positive : 0 < level := Nat.pos_of_ne_zero zero
      simp only [misaligned, positive, decide_true, Bool.true_and, bne_eq_false_iff_eq] at aligned
      have value := congrArg BitVec.toNat aligned
      rwa [toNat_and_lowMask (by omega)] at value
  have shifted : (Pte.getSolidPpn pte <<< 12).toNat = (Pte.getSolidPpn pte).toNat * 2 ^ 12 := by
    rw [BitVec.toNat_shiftLeft, Nat.shiftLeft_eq, Nat.mod_eq_of_lt (by omega)]
  have split : 2 ^ leafBits level = 2 ^ (level * 9) * 2 ^ 12 := by
    rw [leafBits, Nat.add_comm, Nat.pow_add]
  rw [← BitVec.toNat_inj, toNat_and_lowMask small, shifted, split, Nat.mul_mod_mul_right, low]
  rfl

theorem leafPa_and_not {va : Word} (le : level ≤ 2) (aligned : misaligned pte level = false) :
    leafPa va pte level &&& ~~~(pageMask (leafBits level)) = Pte.getSolidPpn pte <<< 12 :=
  or_and_not_of_aligned (leafBase_aligned le aligned)

/-- The entry a walk inserts, given the leaf with its A/D bits set. -/
def leafEntry (c : Core) (m : MemoryMap) (type : AccessType) (va pte : Word) (level : Nat) : TlbEntry :=
  let pa := leafPa va pte level
  let paAligned := pa &&& ~~~(pageMask (leafBits level))
  c.hart.tlb.newEntry c.smc va paAligned (leafBits level) (leafPerm c.smc type pa pte)
    (Satp.asid c.hart.satp) (Pte.g pte) (hostPage m paAligned (leafBits level))

theorem fillTlb_entries (c : Core) (m : MemoryMap) (type : AccessType) (va pte : Word) (level : Nat) :
    (fillTlb c m type va pte level).entries =
      Function.update c.hart.tlb.entries (Tlb.index va) (leafEntry c m type va pte level) :=
  Tlb.insert_entries ..

theorem fillTlb_generation (c : Core) (m : MemoryMap) (type : AccessType) (va pte : Word)
    (level : Nat) : (fillTlb c m type va pte level).generation = c.hart.tlb.generation :=
  Tlb.insert_generation ..

section LeafEntry

variable (c : Core) (m : MemoryMap) (type : AccessType) (va pte : Word) (level : Nat)

@[simp] theorem leafEntry_global : (leafEntry c m type va pte level).global = Pte.g pte := rfl

theorem leafEntry_ppageBase (le : level ≤ 2) (aligned : misaligned pte level = false) :
    (leafEntry c m type va pte level).ppageBase = Pte.getSolidPpn pte <<< 12 := by
  have clear : ∀ x y : Word, x &&& ~~~y &&& ~~~y = x &&& ~~~y := by
    intro x y
    rw [BitVec.and_assoc, BitVec.and_self]
  have twice : (leafEntry c m type va pte level).ppageBase =
      leafPa va pte level &&& ~~~(pageMask (leafBits level)) &&& ~~~(pageMask (leafBits level)) := rfl
  rw [twice, clear, leafPa_and_not le aligned]

theorem leafEntry_perm {type' : AccessType}
    (ok : Tlb.permits (leafEntry c m type va pte level).perm type' mode mxr sum = true) :
    leafAllowed pte type' mode mxr sum = true := by
  have stripped : ∀ {p : BitVec 8} {b : Bool},
      Tlb.permits (if b then stripWrite p else p) type' mode mxr sum = true →
        Tlb.permits p type' mode mxr sum = true := by
    intro p b ok
    cases b with
    | false => exact ok
    | true => exact permits_of_stripWrite ok
  exact leafAllowed_of_permits (stripped (stripped ok))

end LeafEntry

end Rv64Vm
