import Rv64Vm.Mmu.Walk

/-! # Walks that agree up to accessed and dirty bits

Translation rewrites the A and D bits of the entries it uses. Two entries are
the same for every later walk if they agree everywhere else; two memories are,
if all their page-table entries are. Walks of such memories take the same path
to the same leaf.
-/

namespace Rv64Vm

open Lib

/-- Equal up to the A and D bits. -/
def SamePte (p q : Word) : Prop := p &&& ~~~0xC0#64 = q &&& ~~~0xC0#64

namespace SamePte

variable {p q r : Word}

theorem refl (p : Word) : SamePte p p := rfl

theorem symm (same : SamePte p q) : SamePte q p := Eq.symm same

theorem trans (first : SamePte p q) (second : SamePte q r) : SamePte p r := Eq.trans first second

section Fields

variable (same : SamePte p q)

include same

theorem bit {k : Nat} (kept : (~~~0xC0#64).getLsbD k = true) : p.getLsbD k = q.getLsbD k := by
  have both := congrArg (fun z => z.getLsbD k) same
  simpa only [BitVec.getLsbD_and, kept, Bool.and_true] using both

theorem v : Pte.v p = Pte.v q := same.bit (by decide)
theorem r_eq : Pte.r p = Pte.r q := same.bit (by decide)
theorem w : Pte.w p = Pte.w q := same.bit (by decide)
theorem x : Pte.x p = Pte.x q := same.bit (by decide)
theorem u : Pte.u p = Pte.u q := same.bit (by decide)
theorem g : Pte.g p = Pte.g q := same.bit (by decide)

theorem solidPpn : Pte.getSolidPpn p = Pte.getSolidPpn q := by
  have high : ∀ z : Word, (z &&& ~~~0xC0#64) >>> 10 = z >>> 10 := by
    intro z
    rw [BitVec.ushiftRight_and_distrib, show (~~~0xC0#64 : Word) >>> 10 = BitVec.allOnes 64 >>> 10 from
      by decide, ← BitVec.ushiftRight_and_distrib, BitVec.and_allOnes]
  rw [Pte.getSolidPpn, Pte.getSolidPpn, ← high p, ← high q, same]

theorem misaligned (level : Nat) : misaligned p level = misaligned q level := by
  simp only [Rv64Vm.misaligned, same.solidPpn]

theorem leafPa (va : Word) (level : Nat) : leafPa va p level = leafPa va q level := by
  simp only [Rv64Vm.leafPa, same.solidPpn]

theorem leafUsable (h : Hart) (type : AccessType) (level : Nat) :
    leafUsable h type p level = leafUsable h type q level := by
  simp only [Rv64Vm.leafUsable, leafAllowed, same.misaligned level, same.u, same.r_eq, same.w, same.x]

end Fields

theorem or_of_clear {bits : Word} (clear : bits &&& ~~~0xC0#64 = 0#64) (p : Word) : SamePte (p ||| bits) p := by
  rw [SamePte, BitVec.and_comm, BitVec.and_or_distrib_left, BitVec.and_comm _ bits, clear,
    BitVec.or_zero, BitVec.and_comm]

theorem updatedPte (p : Word) (type : AccessType) : SamePte (updatedPte p type) p := by
  unfold Rv64Vm.updatedPte Pte.setD Pte.setA
  split
  · split
    · exact (or_of_clear (by decide) _).trans (or_of_clear (by decide) _)
    · exact or_of_clear (by decide) _
  · rfl

end SamePte

/-- Two reads of an entry that no walk can tell apart. -/
inductive SameRead : Except HostError Word → Except HostError Word → Prop
  | error (e : HostError) : SameRead (.error e) (.error e)
  | ok {p q : Word} (same : SamePte p q) : SameRead (.ok p) (.ok q)

theorem SameRead.refl : (x : Except HostError Word) → SameRead x x
  | .error e => .error e
  | .ok p => .ok (.refl p)

/-- Every aligned page-table entry is the same in both memories. -/
def SameTables (m m' : MemoryMap) : Prop :=
  ∀ addr : Word, addr.toNat % 8 = 0 → SameRead (loadPte m addr) (loadPte m' addr)

/-- Two walks with the same path, error and leaf. -/
inductive SameWalk : Except HostError Walk → Except HostError Walk → Prop
  | error (e : HostError) : SameWalk (.error e) (.error e)
  | fault (reads : List Word) : SameWalk (.ok ⟨reads, .fault⟩) (.ok ⟨reads, .fault⟩)
  | leaf {reads : List Word} {addr p q : Word} {level : Nat} (same : SamePte p q) :
      SameWalk (.ok ⟨reads, .leaf addr p level⟩) (.ok ⟨reads, .leaf addr q level⟩)

namespace SameWalk

theorem refl : (x : Except HostError Walk) → SameWalk x x
  | .error e => .error e
  | .ok ⟨reads, .fault⟩ => .fault reads
  | .ok ⟨_, .leaf _ _ _⟩ => .leaf (.refl _)

theorem trans {x y z : Except HostError Walk} (first : SameWalk x y) (second : SameWalk y z) : SameWalk x z := by
  cases first with
  | error e => exact second
  | fault reads => exact second
  | leaf same =>
    cases second with
    | leaf same' => exact .leaf (same.trans same')

theorem cons {x y : Except HostError Walk} (addr : Word) (same : SameWalk x y) :
    SameWalk (x.map (fun rest => ⟨addr :: rest.reads, rest.ending⟩))
      (y.map (fun rest => ⟨addr :: rest.reads, rest.ending⟩)) := by
  cases same with
  | error e => exact .error e
  | fault reads => exact .fault _
  | leaf same => exact .leaf same

end SameWalk

theorem walkLoop_of_error {m : MemoryMap} {va a : Word} {i : Nat} {e : HostError}
    (failed : loadPte m (a + VirtualAddress.getVpn va i * 8#64) = .error e) :
    walkLoop m va i a = .error e := by
  rw [walkLoop]
  simp [failed, bind, Except.bind]

/-- Walks of memories with the same tables are the same. -/
theorem walkLoop_same {m m' : MemoryMap} (tables : SameTables m m') (va : Word) (i : Nat) (a : Word)
    (aligned : a.toNat % 8 = 0) : SameWalk (walkLoop m va i a) (walkLoop m' va i a) := by
  induction i using Nat.strongRecOn generalizing a with
  | ind i ih =>
    have aligned' := pteAddr_aligned va a i aligned
    have read := tables _ aligned'
    generalize before : loadPte m (a + VirtualAddress.getVpn va i * 8#64) = x at read
    generalize after : loadPte m' (a + VirtualAddress.getVpn va i * 8#64) = y at read
    cases read with
    | error e =>
      rw [walkLoop_of_error before, walkLoop_of_error after]
      exact .error e
    | @ok p q same =>
      rw [walkLoop_of_load rfl before, walkLoop_of_load rfl after, same.v, same.r_eq, same.w, same.x]
      split
      · exact .fault _
      · split
        · exact .leaf same
        · cases i with
          | zero => exact .fault _
          | succ j =>
            rw [walkBelow, walkBelow, same.solidPpn]
            exact (ih j (Nat.lt_succ_self j) _ (tableBase_aligned _)).cons _

/-- The A/D update of a leaf leaves all tables the same. -/
theorem updateLeaf_sameTables {m m' : MemoryMap} {addr pte : Word} {type : AccessType}
    (loaded : loadPte m addr = .ok pte) (aligned : addr.toNat % 8 = 0)
    (updated : updateLeaf m addr pte type = .ok m') : SameTables m m' := by
  intro addr' aligned'
  unfold updateLeaf at updated
  split at updated
  · rw [loadPte_storePte addr' updated aligned aligned']
    by_cases here : addr' = addr
    · subst here
      rw [loaded, if_pos rfl]
      exact .ok (SamePte.updatedPte pte type).symm
    · rw [if_neg here]
      exact .refl _
  · cases updated
    exact .refl _

/-- The update of a leaf that was read always goes through. -/
theorem updateLeaf_of_loadPte {m : MemoryMap} {addr pte : Word} (type : AccessType)
    (loaded : loadPte m addr = .ok pte) : ∃ m', updateLeaf m addr pte type = .ok m' := by
  unfold updateLeaf
  split
  · exact storePte_of_loadPte _ loaded
  · exact ⟨m, rfl⟩

/-! ## Virtual addresses in one page -/

theorem getVpn_congr {va va' : Word} {level i : Nat} (le : level ≤ i)
    (same : va >>> leafBits level = va' >>> leafBits level) :
    VirtualAddress.getVpn va i = VirtualAddress.getVpn va' i := by
  rw [VirtualAddress.getVpn, VirtualAddress.getVpn,
    ushiftRight_eq_of_le (k := 12 + 9 * i) (by simp only [leafBits]; omega) same]

/-- Addresses inside one leaf's page walk to that leaf. -/
theorem walkLoop_va_congr {m : MemoryMap} {va va' a addr pte : Word} {i level : Nat} {reads : List Word}
    (same : va >>> leafBits level = va' >>> leafBits level)
    (walked : walkLoop m va i a = .ok ⟨reads, .leaf addr pte level⟩) :
    walkLoop m va' i a = .ok ⟨reads, .leaf addr pte level⟩ := by
  induction i using Nat.strongRecOn generalizing a reads with
  | ind i ih =>
    have vpn : level ≤ i → VirtualAddress.getVpn va i = VirtualAddress.getVpn va' i :=
      fun le => getVpn_congr le same
    cases loaded : loadPte m (a + VirtualAddress.getVpn va i * 8#64) with
    | error e =>
      rw [walkLoop_of_error loaded] at walked
      cases walked
    | ok p =>
      have entry := walkLoop_of_load rfl loaded
      rw [entry] at walked
      split at walked
      · cases walked
      · split at walked
        · cases walked
          rw [vpn (Nat.le_refl _)] at loaded ⊢
          rw [walkLoop_of_load rfl loaded]
          simp [*]
        · cases i with
          | zero => cases walked
          | succ j =>
            rw [walkBelow] at walked
            cases deeper : walkLoop m va j (Pte.getSolidPpn p * pageSize) with
            | error e => simp [deeper, Except.map] at walked
            | ok rest =>
              obtain ⟨reads', ending⟩ := rest
              simp only [deeper, Except.map, Except.ok.injEq, Walk.mk.injEq] at walked
              obtain ⟨rfl, rfl⟩ := walked
              have below := ih j (Nat.lt_succ_self j) deeper
              have le : level ≤ j + 1 :=
                Nat.le_succ_of_le (walkLoop_leaf (tableBase_aligned _) deeper).2.2
              rw [vpn le] at loaded ⊢
              rw [walkLoop_of_load rfl loaded, walkBelow, below]
              simp [*, Except.map]

theorem isValid_congr {va va' : Word} {b : Nat} (le : b ≤ 38) (same : va >>> b = va' >>> b) :
    VirtualAddress.isValid va = VirtualAddress.isValid va' := by
  have high : ∀ k, b ≤ k → va.getLsbD k = va'.getLsbD k := by
    intro k hk
    have bit := congrArg (fun z => z.getLsbD (k - b)) same
    have back : b + (k - b) = k := by omega
    simpa only [BitVec.getLsbD_ushiftRight, back] using bit
  have shifted : va.sshiftRight 38 = va'.sshiftRight 38 := by
    apply BitVec.eq_of_getLsbD_eq
    intro k hk
    rw [BitVec.getLsbD_sshiftRight, BitVec.getLsbD_sshiftRight, BitVec.msb_eq_getLsbD_last,
      BitVec.msb_eq_getLsbD_last, high (38 + k) (by omega), high (64 - 1) (by omega)]
  simp only [VirtualAddress.isValid, shifted]

end Rv64Vm
