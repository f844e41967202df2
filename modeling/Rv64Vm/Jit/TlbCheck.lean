import Rv64Vm.Jit.Emitter

/-! # The inline TLB check

`emit_tlb_checks` as it is emitted, and what running it does: it passes exactly
when `inlineHit` holds of the slot of the address, leaving the host address in
`H`, and otherwise jumps to one of the miss sites it recorded.
-/

namespace Rv64Vm.Jit

open Lib X86

/-- `E = [CTX + TLB_ENTRIES] + (((H >> 12) & TLB_SIZE_MASK) << 6)` in RCX. -/
def entryAddress (H : Reg) : List Instr :=
  [.mov .rcx H, .shift .shr .rcx 12, .arithImm .and .rcx 0x1FFFF, .shift .shl .rcx 6,
    .arithMem .add .rcx regCtx (BitVec.ofNat 64 ctxOffTlbEntries)]

def generationCheck : List Instr :=
  [.load 8 .zero .rdx .rcx (BitVec.ofNat 64 tlbOffGeneration),
    .arithMem .cmp .rdx regCtx (BitVec.ofNat 64 ctxOffTlbGen)]

/-- `(H ^ vpage_base) & vpage_mask_inv == 0` -/
def containmentCheck (H : Reg) : List Instr :=
  [.mov .rax H, .arithMem .xor .rax .rcx (BitVec.ofNat 64 tlbOffVpageBase),
    .arithMem .and .rax .rcx (BitVec.ofNat 64 tlbOffVpageMaskInv)]

def asidCheck : List Instr :=
  [.load 2 .zero .rdx regCtx (BitVec.ofNat 64 ctxOffSatpAsid),
    .cmpMem16 .rcx (BitVec.ofNat 64 tlbOffAsid) .rdx]

def globalCheck : List Instr := [.testMem8 .rcx (BitVec.ofNat 64 tlbOffGlobal) 0xFF]

def permCheck (must forb : BitVec 8) : List Instr :=
  [.load 1 .zero .rax .rcx (BitVec.ofNat 64 tlbOffPerm),
    .arithImm32 .and .rax ((must ||| forb).setWidth 32), .arithImm32 .cmp .rax (must.setWidth 32)]

def hostCheck : List Instr :=
  [.load 8 .zero .rdx .rcx (BitVec.ofNat 64 tlbOffHostPtr), .test .rdx .rdx]

namespace Emitter

/-- The permission bits that must be set for the access. -/
def mustPerm (em : Emitter) (store : Bool) : BitVec 8 :=
  let byType := if store then permW ||| permD else if em.mxr then permR ||| permX else permR
  if em.effMode = 0 then byType ||| permU else byType

/-- The permission bits that must be clear. -/
def forbPerm (em : Emitter) : BitVec 8 :=
  if em.effMode = 1 ∧ em.sum = false then permU else 0

/-- The ASID matches, or the entry is global. -/
def emitAsidCheck (em : Emitter) (instr : Nat) : Emitter :=
  let em := em.emit asidCheck
  let (em, okA) := em.jcc true .e
  let em := em.emit globalCheck
  let (em, okB) := em.jcc true .ne
  let (em, asidMiss) := em.jmp false
  let em := em.pushMiss asidMiss instr
  (em.patch okA).patch okB

def emitTlbChecks (em : Emitter) (H : Reg) (width : Nat) (store : Bool) (instr : Nat) : Emitter :=
  let em := em.emit (entryAddress H)
  let em := (em.emit generationCheck).missJump .ne instr
  let em := (em.emit (containmentCheck H)).missJump .ne instr
  let em := em.emitAsidCheck instr
  let em := (em.emit (permCheck (em.mustPerm store) em.forbPerm)).missJump .ne instr
  -- the fast path only handles aligned accesses, which stay in their page
  let em :=
    if width > 1 then (em.emit [.testImm H (BitVec.ofNat 64 (width - 1))]).missJump .ne instr else em
  let em := (em.emit hostCheck).missJump .e instr
  em.emit [.arith .add H .rdx]

end Emitter

/-! ## The emitted code -/

/-- The ASID part, with its three jumps at the sites from `n` on. -/
def asidCode (n : Label) : List Instr :=
  asidCheck ++ [.jcc true .e n] ++ globalCheck ++ [.jcc true .ne (n + 1), .jmp false (n + 2)] ++
    [.mark n, .mark (n + 1)]

def alignCode (H : Reg) (width : Nat) (n : Label) : List Instr :=
  if width > 1 then [.testImm H (BitVec.ofNat 64 (width - 1)), .jcc false .ne n] else []

/-- Jump sites of `alignCode`. -/
def alignSites (width : Nat) : Nat := if width > 1 then 1 else 0

/-- The guards, once RCX points to the entry. -/
def guardCode (H : Reg) (width : Nat) (must forb : BitVec 8) (n : Label) : List Instr :=
  (generationCheck ++ [.jcc false .ne n]) ++ ((containmentCheck H ++ [.jcc false .ne (n + 1)]) ++
    (asidCode (n + 2) ++ ((permCheck must forb ++ [.jcc false .ne (n + 5)]) ++
      (alignCode H width (n + 6) ++ (hostCheck ++ [.jcc false .e (n + 6 + alignSites width)])))))

/-- What `emit_tlb_checks` appends. -/
def tlbCode (H : Reg) (width : Nat) (must forb : BitVec 8) (n : Label) : List Instr :=
  entryAddress H ++ (guardCode H width must forb n ++ [.arith .add H .rdx])

@[simp] theorem marks_containmentCheck (H : Reg) : marks (containmentCheck H) = [] := rfl
@[simp] theorem marks_asidCode (n : Label) : marks (asidCode n) = [n, n + 1] := rfl
@[simp] theorem marks_permCheck (must forb : BitVec 8) : marks (permCheck must forb) = [] := rfl
@[simp] theorem marks_hostCheck : marks hostCheck = [] := rfl
@[simp] theorem marks_alignCode (H : Reg) (width : Nat) (l : Label) : marks (alignCode H width l) = [] := by
  unfold alignCode
  split <;> rfl

namespace Emitter

/-- The sites of the check that lead to the miss stub. -/
def tlbMissSites (n : Label) (width : Nat) : List Label :=
  [n] ++ ([n + 1] ++ ([n + 4] ++ ([n + 5] ++
    ((if 1 < width then [n + 6] else []) ++ [n + 6 + alignSites width]))))

theorem emitTlbChecks_code (em : Emitter) (H : Reg) (width : Nat) (store : Bool) (instr : Nat) :
    (em.emitTlbChecks H width store instr).code =
      em.code ++ tlbCode H width (em.mustPerm store) em.forbPerm em.sites := by
  by_cases wide : width > 1 <;> simp [emitTlbChecks, tlbCode, guardCode, emitAsidCheck, asidCode, alignCode, alignSites,
    wide, emit, missJump, jcc, jmp, pushMiss, patch, mustPerm, forbPerm, List.append_assoc]

end Emitter

/-! ## Running it -/

/-- The checks, on the slot of the address. -/
def InlineHit (m : HostMem) (must forb : BitVec 8) (width : Nat) (va : Word) : Prop :=
  let e := m.core.hart.tlb.entries (Tlb.index va)
  BitVec.ofNat 64 e.generation = m.ctx.tlbGen ∧ (va ^^^ e.vpageBase) &&& e.vpageMaskInv = 0#64 ∧
    (e.asid = m.ctx.satpAsid ∨ e.global = true) ∧ e.perm &&& (must ||| forb) = must ∧
    (1 < width → va &&& BitVec.ofNat 64 (width - 1) = 0#64) ∧ e.hostPtr ≠ 0#64

/-- RCX points to TLB entry `k`. -/
structure AtEntry (L : Layout) (k : Nat) (s : State HostMem) : Prop where
  layout : L.Ok s.mem.core.mmap
  ctx : s.regs regCtx = L.ctx
  entry : s.regs .rcx = L.tlb + BitVec.ofNat 64 (k * tlbEntrySize)
  inside : k < Tlb.size

/-- What the checks may overwrite once RCX is set. -/
abbrev checkScratch : List Reg := [.rax, .rdx]

theorem AtEntry.keeps {L : Layout} {k : Nat} {s t : State HostMem} (here : AtEntry L k s)
    (keeps : Keeps checkScratch s t) : AtEntry L k t where
  layout := keeps.mem ▸ here.layout
  ctx := (keeps.regs _ (by decide)).trans here.ctx
  entry := (keeps.regs _ (by decide)).trans here.entry
  inside := here.inside

section Pieces

variable {L : Layout} {k : Nat} {s : State HostMem}

theorem align_guard (H : HostSlot) (width : Nat) (l : Label) :
    Guards L.env (alignCode (hostPool H) width l) checkScratch (if 1 < width then [l] else [])
      (1 < width → s.regs (hostPool H) &&& BitVec.ofNat 64 (width - 1) = 0#64) s fun _ => True := by
  unfold alignCode
  by_cases wide : 1 < width
  · simp only [wide, if_true]
    refine Guards.jcc (f := logicFlags (s.regs (hostPool H) &&& BitVec.ofNat 64 (width - 1)))
      (show Wp _ [_] _ _ from .cons rfl <| .nil ⟨rfl, ?_, trivial⟩) ?_ l
    · exact ⟨fun r outside => rfl, rfl, rfl⟩
    · simp [Cond.eval, logicFlags]
  · simp only [wide, if_false, false_imp_iff]
    exact .of_wp (.nil ⟨.refl _ _, trivial⟩)

section Entry

variable (here : AtEntry L k s)

include here

theorem AtEntry.load (bytes off : Nat) (inside : off < tlbEntrySize) :
    HostMem.load L s.mem bytes (s.regs .rcx + BitVec.ofNat 64 off) =
      entryField (s.mem.core.hart.tlb.entries k) bytes off := by
  rw [here.entry, load_entry here.layout bytes here.inside inside]

theorem AtEntry.loadCtx (bytes off : Nat) (inside : off < ctxSize) :
    HostMem.load L s.mem bytes (s.regs regCtx + BitVec.ofNat 64 off) = s.mem.ctx.load bytes off := by
  rw [here.ctx, load_ctx L s.mem bytes off inside]

theorem generation_guard (l : Label) :
    Guards L.env (generationCheck ++ [.jcc false .ne l]) checkScratch [l]
      (BitVec.ofNat 64 (s.mem.core.hart.tlb.entries k).generation = s.mem.ctx.tlbGen) s
      fun _ => True := by
  refine .jcc (f := subFlags _ s.mem.ctx.tlbGen) (.load (here.load 8 _ (by decide)) <|
    .arithMem (here.loadCtx 8 ctxOffTlbGen (by decide)) <| .nil ⟨rfl, ?_, trivial⟩) ?_ l
  · exact ⟨fun r outside => by simp_all, rfl, rfl⟩
  · simp [Cond.eval, subFlags]
    rfl

theorem containment_guard (H : HostSlot) (l : Label) :
    let e := s.mem.core.hart.tlb.entries k
    Guards L.env (containmentCheck (hostPool H) ++ [.jcc false .ne l]) checkScratch [l]
      ((s.regs (hostPool H) ^^^ e.vpageBase) &&& e.vpageMaskInv = 0#64) s fun _ => True := by
  intro e
  refine .jcc (f := logicFlags ((s.regs (hostPool H) ^^^ e.vpageBase) &&& e.vpageMaskInv))
    (.cons rfl <| .arithMem (here.load 8 tlbOffVpageBase (by decide)) <|
      .arithMem (here.load 8 tlbOffVpageMaskInv (by decide)) <|
      .nil ⟨?_, ?_, trivial⟩) ?_ l
  · simp [Arith.flags, Arith.value, e]
  · exact ⟨fun r outside => by simp_all, rfl, rfl⟩
  · simp [Cond.eval, logicFlags]

theorem asid_guard (n : Label) :
    let e := s.mem.core.hart.tlb.entries k
    Guards L.env (asidCode n) checkScratch [n + 2]
      (e.asid = s.mem.ctx.satpAsid ∨ e.global = true) s fun _ => True := by
  intro e
  obtain ⟨t, compared, flags, keeps⟩ : Wp L.env asidCheck s fun t =>
      t.flags = some (subFlags e.asid s.mem.ctx.satpAsid) ∧ Keeps checkScratch s t := by
    refine .load (here.loadCtx 2 ctxOffSatpAsid (by decide)) <|
      .cmpMem16 (here.load 2 tlbOffAsid (by decide)) <| .nil ⟨?_, ?_⟩
    · simp [Extend.value, e]
    · exact ⟨fun r outside => by simp_all, rfl, rfl⟩
  obtain ⟨u, tested, flags', keeps'⟩ : Wp L.env globalCheck t fun u =>
      u.flags = some (logicFlags (if e.global then 1#8 else 0#8)) ∧ Keeps checkScratch s u := by
    refine .testMem8 ((here.keeps keeps).load 1 tlbOffGlobal (by decide)) <| .nil ⟨?_, ?_⟩
    · rw [keeps.mem]
      cases e.global <;> simp
    · exact keeps.trans ⟨fun r outside => rfl, rfl, rfl⟩
  have first := exec_jcc compared flags true .e n
  have second := exec_jcc tested flags' true .ne (n + 1)
  have split : asidCode n = (asidCheck ++ [.jcc true .e n]) ++
      ((globalCheck ++ [.jcc true .ne (n + 1)]) ++ [.jmp false (n + 2), .mark n, .mark (n + 1)]) := by
    simp [asidCode]
  rw [split]
  by_cases same : e.asid = s.mem.ctx.satpAsid
  · -- the first jump skips to its mark
    refine ⟨fun _ => ⟨t, ?_, keeps, trivial⟩, fun no => absurd (.inl same) no⟩
    rw [X86.Passes, exec_append, first, exec_append]
    simp [Cond.eval, subFlags, same, globalCheck, Config.step, Instr.exec, X86.run]
  · have stays : exec L.env (asidCheck ++ [.jcc true .e n]) ⟨.running, s⟩ = ⟨.running, t⟩ := by
      rw [first]
      simp [Cond.eval, subFlags, same]
    cases global : e.global with
    | true =>
      refine ⟨fun _ => ⟨u, ?_, keeps', trivial⟩, fun no => absurd (.inr rfl) no⟩
      rw [X86.Passes, exec_append, stays, exec_append, second]
      simp [Cond.eval, logicFlags, global, Config.step]
    | false =>
      refine ⟨fun yes => by simp [same] at yes, fun _ => ⟨n + 2, by simp, u, ?_, keeps'⟩⟩
      rw [Escapes, exec_append, stays, exec_append, second]
      simp [Cond.eval, logicFlags, global, Config.step, Instr.exec]

theorem perm_guard (must forb : BitVec 8) (l : Label) :
    let e := s.mem.core.hart.tlb.entries k
    Guards L.env (permCheck must forb ++ [.jcc false .ne l]) checkScratch [l]
      (e.perm &&& (must ||| forb) = must) s fun _ => True := by
  intro e
  refine .jcc (f := subFlags ((e.perm &&& (must ||| forb)).setWidth 32) (must.setWidth 32))
    (.load (here.load 1 tlbOffPerm (by decide)) <| .cons rfl <| .cons rfl <|
      .nil ⟨?_, ?_, trivial⟩) ?_ l
  · simp [Arith.flags, Arith.value, e, Extend.value]
  · exact ⟨fun r outside => by simp_all, rfl, rfl⟩
  · simp only [Cond.eval, subFlags, Bool.not_eq_false', beq_iff_eq]
    exact ⟨fun same => by simpa using congrArg (BitVec.setWidth 8) same, fun same => by rw [same]⟩

theorem host_guard (l : Label) :
    let e := s.mem.core.hart.tlb.entries k
    Guards L.env (hostCheck ++ [.jcc false .e l]) checkScratch [l] (e.hostPtr ≠ 0#64) s
      fun t => t.regs .rdx = e.hostPtr := by
  intro e
  refine .jcc (f := logicFlags e.hostPtr)
    (.load (here.load 8 tlbOffHostPtr (by decide)) <| .cons rfl <| .nil ⟨?_, ?_, ?_⟩) ?_ l
  · simp [e, Extend.value]
  · exact ⟨fun r outside => by simp_all, rfl, rfl⟩
  · simp [e, Extend.value]
  · simp [Cond.eval, logicFlags]

end Entry

theorem index_lt (va : Word) : Tlb.index va < Tlb.size := by
  rw [Tlb.index, BitVec.toNat_and]
  exact Nat.lt_succ_of_le Nat.and_le_right

/-- The shifted index is the byte offset of the slot. -/
theorem index_shifted (va : Word) : (((va >>> 12) &&& 0x1FFFF#64) <<< 6) =
    BitVec.ofNat 64 (Tlb.index va * tlbEntrySize) := by
  apply BitVec.eq_of_toNat_eq
  rw [BitVec.toNat_shiftLeft, Nat.shiftLeft_eq, BitVec.toNat_ofNat]
  rfl

theorem entryAddress_wp (layout : L.Ok s.mem.core.mmap) (ctx : s.regs regCtx = L.ctx)
    (entries : s.mem.ctx.tlbEntries = L.tlb) (H : HostSlot) :
    Wp L.env (entryAddress (hostPool H)) s fun t =>
      Keeps [.rcx] s t ∧ AtEntry L (Tlb.index (s.regs (hostPool H))) t := by
  have loaded := load_ctx L s.mem 8 ctxOffTlbEntries (by decide)
  rw [← ctx] at loaded
  refine .cons rfl <| .cons rfl <| .cons rfl <| .cons rfl <| .arithMem loaded <| .nil ⟨?_, ?_⟩
  · exact ⟨fun r outside => by simp_all, rfl, rfl⟩
  · refine ⟨layout, by simp [ctx], ?_, ?_⟩
    · simp [Arith.value, Shift.value, index_shifted, entries, BitVec.add_comm]
    · exact index_lt _

/-- The registers the whole check may change. -/
def checkChanges (H : HostSlot) : List Reg := [hostPool H, .rax, .rcx, .rdx]

theorem hostPool_notMem (H : HostSlot) : hostPool H ∉ [.rax, .rcx, .rdx, .r12, .r13, .r15] := by
  revert H
  decide

theorem hostPool_notMem_checkScratch (H : HostSlot) : hostPool H ∉ checkScratch := by
  revert H
  decide

/-- The guards pass together exactly on an inline hit. -/
theorem guardCode_guards (here : AtEntry L k s) (H : HostSlot) (width : Nat) (must forb : BitVec 8)
    (n : Label) (slot : Tlb.index (s.regs (hostPool H)) = k) :
    Guards L.env (guardCode (hostPool H) width must forb n) checkScratch
      (Emitter.tlbMissSites n width) (InlineHit s.mem must forb width (s.regs (hostPool H))) s
      fun t => t.regs .rdx = (s.mem.core.hart.tlb.entries k).hostPtr := by
  subst slot
  have same : ∀ {t : State HostMem}, Keeps checkScratch s t →
      t.regs (hostPool H) = s.regs (hostPool H) ∧ t.mem = s.mem :=
    fun keeps => ⟨keeps.regs _ (hostPool_notMem_checkScratch H), keeps.mem⟩
  refine (generation_guard here n).append (fun t₁ k₁ _ => ?_) (by simp [Nat.add_assoc])
  have second := containment_guard (here.keeps k₁) H (n + 1)
  rw [(same k₁).1, (same k₁).2] at second
  refine second.append (fun t₂ k₂ _ => ?_) (by simp [Nat.add_assoc])
  have upTo₂ := k₁.trans k₂
  have third := asid_guard (here.keeps upTo₂) (n + 2)
  rw [(same upTo₂).2] at third
  refine third.append (fun t₃ k₃ _ => ?_) (by simp)
  have upTo₃ := upTo₂.trans k₃
  have fourth := perm_guard (here.keeps upTo₃) must forb (n + 5)
  rw [(same upTo₃).2] at fourth
  refine fourth.append (fun t₄ k₄ _ => ?_) (by simp)
  have upTo₄ := upTo₃.trans k₄
  have fifth := align_guard (L := L) (s := t₄) H width (n + 6)
  rw [(same upTo₄).1] at fifth
  refine fifth.append (fun t₅ k₅ _ => ?_) (by simp)
  have upTo₅ := upTo₄.trans k₅
  have last := host_guard (here.keeps upTo₅) (n + 6 + alignSites width)
  rwa [(same upTo₅).2] at last

/-- The whole check: on an inline hit `H` ends up as the host address; otherwise
    control goes to one of the recorded miss sites. -/
theorem tlbCode_guards (layout : L.Ok s.mem.core.mmap) (ctx : s.regs regCtx = L.ctx)
    (entries : s.mem.ctx.tlbEntries = L.tlb) (H : HostSlot) (width : Nat) (must forb : BitVec 8)
    (n : Label) :
    let va := s.regs (hostPool H)
    Guards L.env (tlbCode (hostPool H) width must forb n) (checkChanges H)
      (Emitter.tlbMissSites n width) (InlineHit s.mem must forb width va) s
      fun t => t.regs (hostPool H) = va + (s.mem.core.hart.tlb.entries (Tlb.index va)).hostPtr := by
  intro va
  obtain ⟨t, passes, keeps, here⟩ := entryAddress_wp layout ctx entries H
  have same : t.regs (hostPool H) = va := keeps.regs _ fun member => hostPool_notMem H (by simp_all)
  have guards := guardCode_guards here H width must forb n (by rw [same])
  rw [same, keeps.mem] at guards
  have keeps' : Keeps (checkChanges H) s t := keeps.mono (by simp [checkChanges])
  have scratch : checkScratch ⊆ checkChanges H := by simp [checkChanges]
  refine ⟨fun hit => ?_, fun missed => ?_⟩
  · obtain ⟨u, passes', kept, rdx⟩ := guards.pass hit
    have here : u.regs (hostPool H) = va :=
      (kept.regs _ (hostPool_notMem_checkScratch H)).trans same
    refine .append ⟨t, passes, .append ⟨u, passes', .cons rfl <| .nil ⟨?_, ?_⟩⟩⟩
    · refine (keeps'.trans (kept.mono scratch)).trans ⟨fun r outside => ?_, rfl, rfl⟩
      simp_all [checkChanges]
    · simp [Arith.value, here, rdx, va]
  · obtain ⟨l, member, u, escapes, kept⟩ := guards.miss missed
    exact ⟨l, member, u, passes.escapes (escapes.append (by simp)), keeps'.trans (kept.mono scratch)⟩

end Pieces

end Rv64Vm.Jit
