import Rv64Vm.Jit.TlbCheck
import Rv64Vm.Mmu.EntryShape
import Rv64Vm.Mmu.WalkCorrect

/-! # Inline hits against the MMU

On an inline hit the host access goes to the RAM byte of the entry's physical
page. Under paging that is where `translate` sends the access, because its lookup
hits the same entry. Where translation is the identity the two agree only if the
entry is an identity entry.
-/

namespace Rv64Vm.Jit

open Lib X86

variable {va base mask : Word} {em : Emitter} {store : Bool} {width i : Nat} {e : TlbEntry}

/-- `host` is the host address of the RAM byte at physical address `pa`. -/
def RamByte (m : MemoryMap) (pa host : Word) : Prop :=
  ∃ ram, m.getRamDirect = some ram ∧ ram.baseAddr ≤ pa ∧ (pa - ram.baseAddr).toNat < ram.size.toNat ∧
    host = ram.host + (pa - ram.baseAddr)

/-- The context fields as `run_blocks` refreshes them before an entry. -/
structure Dispatched (L : Layout) (m : HostMem) : Prop where
  entries : m.ctx.tlbEntries = L.tlb
  gen : m.ctx.tlbGen = BitVec.ofNat 64 m.core.hart.tlb.generation
  asid : m.ctx.satpAsid = Satp.asid m.core.hart.satp

/-- The policy baked into the block is the hart's current one. -/
structure Emitter.Matches (em : Emitter) (h : Hart) : Prop where
  mode : em.effMode = (h.getEffectiveMode .store).toNat
  mxr : em.mxr = Status.mxr h.status
  sum : em.sum = Status.sum h.status

def accessOf (store : Bool) : AccessType := if store then .store else .load

theorem getEffectiveMode_accessOf (h : Hart) (store : Bool) :
    h.getEffectiveMode (accessOf store) = h.getEffectiveMode .store := by
  cases store <;> simp [accessOf, Hart.getEffectiveMode]

/-! ## The checks and the lookup -/

theorem contained_iff {inv : Word} (maskInv : inv = ~~~mask) (aligned : base &&& mask = 0#64) :
    (va ^^^ base) &&& inv = 0#64 ↔ va &&& ~~~mask = base := by
  have whole : base &&& ~~~mask = base := by
    have parts := and_not_or_and base mask
    rwa [aligned, BitVec.or_zero] at parts
  have split : (va ^^^ base) &&& ~~~mask = (va &&& ~~~mask) ^^^ base := by
    conv_rhs => rw [← whole]
    apply BitVec.eq_of_getLsbD_eq
    intro i _
    simp only [BitVec.getLsbD_and, BitVec.getLsbD_xor, BitVec.getLsbD_not]
    cases va.getLsbD i <;> cases base.getLsbD i <;> simp
  rw [maskInv, split, BitVec.xor_eq_zero_iff]

private theorem permits_of_masks (mode : PrivilegeMode) : ∀ (store mxr sum : Bool) (perm : BitVec 8),
    let byType := if store then permW ||| permD else if mxr then permR ||| permX else permR
    let must := if mode.toNat = 0 then byType ||| permU else byType
    let forb := if mode.toNat = 1 ∧ sum = false then permU else 0
    perm &&& (must ||| forb) = must → Tlb.permits perm (accessOf store) mode mxr sum = true := by
  cases mode <;> decide +kernel

/-- The baked masks are at least as strict as the permission test of the lookup. -/
theorem Emitter.Matches.permits {h : Hart} (policy : em.Matches h) {perm : BitVec 8}
    (masked : perm &&& (em.mustPerm store ||| em.forbPerm) = em.mustPerm store) :
    Tlb.permits perm (accessOf store) (h.getEffectiveMode (accessOf store)) (Status.mxr h.status)
      (Status.sum h.status) = true := by
  rw [getEffectiveMode_accessOf]
  apply permits_of_masks
  rw [← policy.mode, ← policy.mxr, ← policy.sum]
  exact masked

/-! ## Addresses of an access -/

/-- An aligned access stays in its 4 KiB page. -/
theorem aligned_same_page (size : width ∈ [1, 2, 4, 8])
    (aligned : 1 < width → va &&& BitVec.ofNat 64 (width - 1) = 0#64) (inside : i < width) :
    (va + BitVec.ofNat 64 i) >>> 12 = va >>> 12 := by
  have multiple : va.toNat % width = 0 := by
    have low : ∀ k : Nat, k < 64 → va &&& lowMask 64 k = 0#64 → va.toNat % 2 ^ k = 0 := by
      intro k small zero
      rw [← toNat_and_lowMask small, zero]
      rfl
    simp only [List.mem_cons, List.not_mem_nil, or_false] at size
    rcases size with rfl | rfl | rfl | rfl
    · exact Nat.mod_one _
    · exact low 1 (by decide) (aligned (by decide))
    · exact low 2 (by decide) (aligned (by decide))
    · exact low 3 (by decide) (aligned (by decide))
  have bound := va.isLt
  apply BitVec.eq_of_toNat_eq
  simp only [List.mem_cons, List.not_mem_nil, or_false] at size
  simp only [BitVec.toNat_ushiftRight, BitVec.toNat_add, BitVec.toNat_ofNat, Nat.shiftRight_eq_div_pow]
  rcases size with rfl | rfl | rfl | rfl <;> omega

/-- The part of an address above the mask and the part below it. -/
theorem split_at_mask (contained : va &&& ~~~mask = base) : va = base + (va &&& mask) := by
  rw [← contained, BitVec.add_eq_or_of_and_eq_zero _ _ ?_, and_not_or_and]
  rw [BitVec.and_comm va mask, ← BitVec.and_assoc, and_not_and]
  exact BitVec.zero_and

/-- In the page of a well-formed entry with a host pointer, adding the pointer
    leads to the byte of the entry's physical page. -/
theorem ramByte_of_shape {m : MemoryMap} (shape : EntryShape m e)
    (contained : va &&& ~~~(pageMask e.pageBits) = e.vpageBase) (host : e.hostPtr ≠ 0#64) :
    RamByte m (e.ppageBase ||| (va &&& pageMask e.pageBits)) (va + e.hostPtr) := by
  obtain ⟨ram, direct, above, inside, address⟩ := shape.host host
  have small : e.pageBits < 64 := by have := shape.most; omega
  generalize off : va &&& pageMask e.pageBits = o
  have offset : o.toNat < 2 ^ e.pageBits := by
    rw [← off, toNat_and_lowMask small]
    exact Nat.mod_lt _ (Nat.two_pow_pos _)
  have joined : e.ppageBase ||| o = e.ppageBase + o := by
    rw [BitVec.add_eq_or_of_and_eq_zero]
    rw [← off, BitVec.and_comm va, ← BitVec.and_assoc, shape.pbase]
    exact BitVec.zero_and
  have distance : e.ppageBase + o - ram.baseAddr = e.ppageBase - ram.baseAddr + o := by
    rw [BitVec.add_sub_comm]
  have size := ram.size.isLt
  have low : (e.ppageBase - ram.baseAddr).toNat = e.ppageBase.toNat - ram.baseAddr.toNat :=
    BitVec.toNat_sub_of_le above
  have above' : ram.baseAddr.toNat ≤ e.ppageBase.toNat := above
  have value : (e.ppageBase - ram.baseAddr + o).toNat = (e.ppageBase - ram.baseAddr).toNat + o.toNat := by
    rw [BitVec.toNat_add, Nat.mod_eq_of_lt (by omega)]
  refine ⟨ram, direct, ?_, ?_, ?_⟩
  · exact Nat.le_trans above' (by rw [BitVec.toNat_or]; exact Nat.left_le_or)
  · rw [joined, distance, value]
    omega
  · rw [joined, distance, ← BitVec.add_assoc, ← address]
    conv_lhs => rw [split_at_mask contained, off]
    rw [BitVec.add_comm e.hostPtr, BitVec.add_assoc, BitVec.add_assoc, BitVec.add_comm o]

/-! ## Hits -/

/-- What holds of the slot of `va` on an inline hit in a reachable state. -/
structure HitEntry (c : Core) (store : Bool) (width : Nat) (va : Word) (e : TlbEntry) : Prop where
  entry : e = c.hart.tlb.entries (Tlb.index va)
  current : e.generation = c.hart.tlb.generation
  shape : EntryShape c.mmap e
  contained : va &&& ~~~(pageMask e.pageBits) = e.vpageBase
  owned : e.global = true ∨ e.asid = Satp.asid c.hart.satp
  permitted : Tlb.permits e.perm (accessOf store) (c.hart.getEffectiveMode (accessOf store))
    (Status.mxr c.hart.status) (Status.sum c.hart.status) = true
  aligned : 1 < width → va &&& BitVec.ofNat 64 (width - 1) = 0#64
  host : e.hostPtr ≠ 0#64

theorem InlineHit.entry {L : Layout} {m : HostMem} (gen : m.core.hart.tlb.GenOk) (shapes : ShapeOk m.core)
    (counted : m.core.hart.tlb.generation < 2 ^ 64) (dispatched : Dispatched L m) (policy : em.Matches m.core.hart)
    (hit : InlineHit m (em.mustPerm store) em.forbPerm width va) :
    HitEntry m.core store width va (m.core.hart.tlb.entries (Tlb.index va)) := by
  obtain ⟨sameGen, inside, owned, masked, aligned, host⟩ := hit
  have current : (m.core.hart.tlb.entries (Tlb.index va)).generation = m.core.hart.tlb.generation := by
    have bounded := gen.bounded (Tlb.index va)
    rw [dispatched.gen] at sameGen
    have values := congrArg BitVec.toNat sameGen
    simp only [BitVec.toNat_ofNat] at values
    rwa [Nat.mod_eq_of_lt (by omega), Nat.mod_eq_of_lt counted] at values
  have shape := shapes _ current
  refine ⟨rfl, current, shape, (contained_iff shape.maskInv shape.vbase).mp inside, ?_,
    policy.permits masked, aligned, host⟩
  rw [dispatched.asid] at owned
  exact owned.symm

section HitEntry

variable {c : Core} {store : Bool} {width : Nat} {va : Word} {e : TlbEntry}

/-- Byte `i` of the access, as the entry maps it. -/
def entryPa (e : TlbEntry) (va : Word) : Word := e.ppageBase ||| (va &&& pageMask e.pageBits)

section Contained

variable (hit : HitEntry c store width va e) (size : width ∈ [1, 2, 4, 8])

include hit size

theorem HitEntry.contained_byte (inside : i < width) :
    (va + BitVec.ofNat 64 i) &&& ~~~(pageMask e.pageBits) = e.vpageBase := by
  have small : e.pageBits < 64 := Nat.lt_of_le_of_lt hit.shape.most (by decide)
  have page := aligned_same_page size hit.aligned inside
  rw [← hit.contained, and_not_lowMask_eq_iff small]
  exact ushiftRight_eq_of_le hit.shape.least page

theorem HitEntry.ramByte (inside : i < width) :
    RamByte c.mmap (entryPa e (va + BitVec.ofNat 64 i)) (va + e.hostPtr + BitVec.ofNat 64 i) := by
  have byte := ramByte_of_shape hit.shape (hit.contained_byte size inside) hit.host
  rwa [BitVec.add_assoc, BitVec.add_comm (BitVec.ofNat 64 i), ← BitVec.add_assoc] at byte

theorem HitEntry.probe (inside : i < width) :
    probe c.hart (accessOf store) (va + BitVec.ofNat 64 i) = some (entryPa e (va + BitVec.ofNat 64 i)) := by
  have slot := Tlb.index_congr (aligned_same_page size hit.aligned inside)
  have owned : ¬((!e.global && decide (e.asid ≠ Satp.asid c.hart.satp)) = true) := by
    rcases hit.owned with global | asid
    · simp [global]
    · simp [asid]
  simp only [Rv64Vm.probe, Tlb.lookup, slot, ← hit.entry, hit.current, hit.contained_byte size inside,
    hit.permitted, entryPa]
  simpa using owned

theorem HitEntry.translate_paged (paged : identityMapped c.hart (accessOf store) = false) (inside : i < width) :
    translate c (accessOf store) (va + BitVec.ofNat 64 i) =
      .ok ⟨⟨true, 0, 0⟩, entryPa e (va + BitVec.ofNat 64 i), c, []⟩ := by
  have probed := hit.probe size inside
  rw [Rv64Vm.probe] at probed
  simp only [translate, paged, Bool.false_eq_true, if_false, probed]

end Contained

theorem translate_identity (mapped : identityMapped c.hart (accessOf store) = true) (va : Word) :
    translate c (accessOf store) va = .ok (translateIdentity c va) := by
  simp only [translate, mapped, if_true]

end HitEntry

/-- At every byte, `translate` succeeds and its physical address is the RAM byte
    that the host access reaches. -/
def AccessRefines (c : Core) (type : AccessType) (width : Nat) (va host : Word) : Prop :=
  ∀ i < width, ∃ t, translate c type (va + BitVec.ofNat 64 i) = .ok t ∧ t.ret.isSuccess = true ∧
    RamByte c.mmap t.pa (host + BitVec.ofNat 64 i)

/-- Where translation is the identity, byte `i` is at its own address. -/
theorem HitEntry.identity_iff {c : Core} (hit : HitEntry c store width va e) (size : width ∈ [1, 2, 4, 8])
    (mapped : identityMapped c.hart (accessOf store) = true) :
    AccessRefines c (accessOf store) width va (va + e.hostPtr) ↔ e.ppageBase = e.vpageBase := by
  have positive : 0 < width := by
    simp only [List.mem_cons, List.not_mem_nil, or_false] at size
    omega
  constructor
  · intro refines
    obtain ⟨t, ok, -, ram, direct, -, -, host⟩ := refines 0 positive
    rw [translate_identity mapped] at ok
    cases ok
    obtain ⟨ram', direct', -, -, address⟩ := hit.shape.host hit.host
    rw [direct] at direct'
    cases direct'
    simp only [translateIdentity, BitVec.ofNat_eq_ofNat, BitVec.add_zero] at host
    -- `va + hostPtr = host + (va - base)` and `hostPtr + vbase = host + (pbase - base)`
    grind
  · intro same i inside
    refine ⟨_, translate_identity mapped _, rfl, ?_⟩
    have byte := hit.ramByte size inside
    have here := hit.contained_byte size inside
    have address : entryPa e (va + BitVec.ofNat 64 i) = va + BitVec.ofNat 64 i := by
      rw [entryPa, same, ← here, and_not_or_and]
    rwa [address] at byte

/-- What `emitTlbChecks` appends to the block. -/
def Emitter.tlbChecks (em : Emitter) (H : Reg) (width : Nat) (store : Bool) (instr : Nat) : List Instr :=
  (em.emitTlbChecks H width store instr).code.drop em.code.length

/-- In every reachable state: when the emitted check passes, the access agrees with
    `translate` at every byte exactly if translation is on, or the slot holds an
    identity entry. -/
theorem inline_hit_refines_mmu (L : Layout) (em : Emitter) (s t : State HostMem) (H : HostSlot)
    (width instr : Nat) (store : Bool) (reachable : MmuReachable s.mem.core)
    (counted : s.mem.core.hart.tlb.generation < 2 ^ 64) (layout : L.Ok s.mem.core.mmap)
    (ctx : s.regs regCtx = L.ctx) (dispatched : Dispatched L s.mem)
    (policy : em.Matches s.mem.core.hart) (size : width ∈ [1, 2, 4, 8])
    (passed : exec L.env (em.tlbChecks (hostPool H) width store instr) ⟨.running, s⟩ = ⟨.running, t⟩) :
    let c := s.mem.core
    let va := s.regs (hostPool H)
    let e := c.hart.tlb.entries (Tlb.index va)
    AccessRefines c (accessOf store) width va (t.regs (hostPool H)) ↔
      identityMapped c.hart (accessOf store) = false ∨ e.ppageBase = e.vpageBase := by
  intro c va e
  have code : em.tlbChecks (hostPool H) width store instr =
      tlbCode (hostPool H) width (em.mustPerm store) em.forbPerm em.sites := by
    rw [Emitter.tlbChecks, Emitter.emitTlbChecks_code, List.drop_left]
  rw [code] at passed
  have guards := tlbCode_guards layout ctx dispatched.entries H width (em.mustPerm store) em.forbPerm
    em.sites
  by_cases inlineHit : InlineHit s.mem (em.mustPerm store) em.forbPerm width va
  · obtain ⟨t', passes, -, address⟩ := guards.pass inlineHit
    have same : t' = t := by
      rw [X86.Passes, passed] at passes
      cases passes
      rfl
    rw [same] at address
    rw [address]
    have hit := inlineHit.entry reachable.genOk reachable.shapeOk counted dispatched policy
    cases mapped : identityMapped c.hart (accessOf store) with
    | true =>
      simp only [Bool.true_eq_false, false_or]
      exact hit.identity_iff size mapped
    | false =>
      simp only [true_or, iff_true]
      intro i inside
      exact ⟨_, hit.translate_paged size mapped inside, rfl, hit.ramByte size inside⟩
  · obtain ⟨l, -, u, escapes, -⟩ := guards.miss inlineHit
    rw [Escapes, passed] at escapes
    cases escapes

/-! ## A concrete block entry -/

/-- RAM of one gigabyte; entry 1 of the root table at its start maps the gigabyte
    at `0x40000000` to it. -/
def aliasMap : MemoryMap :=
  (MemoryMap.empty.addRegion 0x80000000#64 0x40000000#64 0x700000000000#64).setData 0
    (storeLE (fun _ => 0) 8 pteSize 0x200000CF#64)

/-- A supervisor hart running on that root table. -/
def aliasCore : Core where
  hart := { mode := .supervisor, satp := 0x8000000000080000#64 }
  mmap := aliasMap
  smc := {}

def sampleLayout : Layout := ⟨0x10000000000#64, 0x10000001000#64, 0x10010000000#64, 0x10000002000#64⟩

/-- A block at a load whose address is in RSI. -/
def atLoad (c : Core) (va : Word) : State HostMem where
  regs r := if r = regCtx then sampleLayout.ctx else if r = .rsi then va else 0
  flags := none
  stack := []
  mem :=
    { ctx :=
        { regs := sampleLayout.gpr, entryPc := 0, exitPc := 0, tlbEntries := sampleLayout.tlb
          tlbGen := BitVec.ofNat 64 c.hart.tlb.generation, satpAsid := Satp.asid c.hart.satp
          chainEpoch := 0, chainBudget := 0, chainMode := 0 }
      core := c
      slots := fun _ => 0 }

/-- In Supervisor mode the compiled load hits, and both sides read the start of RAM. -/
theorem supervisor_hit_refines_mmu :
    ∃ c, run mmuStep aliasCore [.translate .load 0x40000000#64] = some c ∧
      let code := Emitter.tlbChecks { effMode := 1 } .rsi 8 false 0
      let final := exec sampleLayout.env code ⟨.running, atLoad c 0x40000000#64⟩
      final.mode = .running ∧
        AccessRefines c .load 8 0x40000000#64 (final.state.regs .rsi) := by
  refine ⟨_, rfl, by decide +kernel, ?_⟩
  refine (inline_hit_refines_mmu sampleLayout { effMode := 1 } (atLoad _ 0x40000000#64) _ 0 8 0 false
    ⟨aliasCore, [.translate .load 0x40000000#64], rfl, rfl⟩ (by decide +kernel)
    ⟨by decide +kernel, by decide +kernel⟩ rfl ⟨rfl, rfl, rfl⟩ ⟨rfl, rfl, rfl⟩ (by decide)
    (Config.eq_of_mode (by decide +kernel))).mpr (.inl ?_)
  decide +kernel

/-- After a switch to Machine mode the compiled load still hits the entry and reads
    the start of RAM, where `translate` gives `0x40000000`. -/
theorem machine_mode_hits_stale_entry :
    ∃ c, run mmuStep aliasCore [.translate .load 0x40000000#64, .setPrivilege .machine 0#64] = some c ∧
      let code := Emitter.tlbChecks { effMode := 3 } .rsi 8 false 0
      let final := exec sampleLayout.env code ⟨.running, atLoad c 0x40000000#64⟩
      final.mode = .running ∧ final.state.regs .rsi = 0x700000000000#64 ∧
        ¬AccessRefines c .load 8 0x40000000#64 (final.state.regs .rsi) := by
  refine ⟨_, rfl, ?_, ?_, ?_⟩
  · decide +kernel
  · decide +kernel
  · intro refines
    obtain ⟨t, ok, -, ram, direct, above, -, -⟩ := refines 0 (by decide)
    cases ok
    cases direct
    revert above
    decide +kernel

end Rv64Vm.Jit
