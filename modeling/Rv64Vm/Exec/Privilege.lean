import Rv64Vm.Exec.CsrForms
import Rv64Vm.Isa.Selection

/-! # Privilege

What one instruction of User or Supervisor mode may change when it retires. Apart
from `MRET`, which checks no mode, and from CSR addresses that `csr_accessible` has no
range for, nothing above the mode changes.
-/

namespace Rv64Vm

open Lib

/-- The lowest privilege of a CSR address, by the architecture. -/
def csrPrivilege (csr : BitVec 12) : BitVec 2 := csr.extractLsb' 8 2

/-- Addresses above the mode that `csr_accessible` lets through: the rows 5, 7, 9 and D
    have no range there. -/
def csrHole (mode : PrivilegeMode) (csr : BitVec 12) : Bool :=
  let row := csr.extractLsb' 8 4
  match mode with
  | .user => row == 0x5 || row == 0x7 || row == 0x9 || row == 0xD
  | .supervisor => row == 0x7
  | _ => false

def mretWord : Inst := 0x30200073
def sretWord : Inst := 0x10200073

def mprvMask : Word := 0x20000#64

/-- FS and SD of `mstatus`. -/
def fsSdMask : Word := 0x8000000000006000#64

/-- The word is a CSR instruction: major opcode SYSTEM with a minor one. -/
def csrInst (w : Inst) : Prop := w &&& 0x7F = 0x73 ∧ w &&& 0x3000 ≠ 0

/-- `CSRRW` and `CSRRWI` always write, the others if their operand field is not 0. -/
def csrWrites (w : Inst) : Prop := w &&& 0x3000 = 0x1000 ∨ dRs1 w ≠ 0

/-- The address field. -/
def csrOf (w : Inst) : BitVec 12 := w.extractLsb' 20 12

/-- `tick` executes `w` to its end, and neither an interrupt nor an exception is taken. -/
structure Retires (bus : Bus) (w : Inst) (c c' : Core) : Prop where
  word : executedWord c = some w
  ends : tick bus c = .ok c'
  noTrap : c'.hart.traps = c.hart.traps

/-- No CSR, status bit, interrupt register or address-space register above the mode changes. -/
structure Confined (c c' : Core) : Prop where
  mode : c'.hart.mode.toNat ≤ c.hart.mode.toNat
  userCsrs : c.hart.mode = .user →
    ∀ csr, csrPrivilege csr = 1 ∨ csrPrivilege csr = 3 → c'.hart.csrs csr = c.hart.csrs csr
  userStatus : c.hart.mode = .user → c'.hart.status &&& ~~~fsSdMask = c.hart.status &&& ~~~fsSdMask
  userRegs : c.hart.mode = .user →
    c'.hart.ie = c.hart.ie ∧ c'.hart.satp = c.hart.satp ∧ c'.hart.stimecmp = c.hart.stimecmp
  userIp : c.hart.mode = .user → c'.hart.ip = c.hart.ip
  superCsrs : c.hart.mode = .supervisor → ∀ csr, csrPrivilege csr = 3 → c'.hart.csrs csr = c.hart.csrs csr
  superStatus : c.hart.mode = .supervisor →
    c'.hart.status &&& ~~~sstatusMask = c.hart.status &&& ~~~sstatusMask
  superMie : c.hart.mode = .supervisor → c'.hart.ie = c.hart.ie

/-- The same with what the code does on purpose: a device that is accessed may set
    pending interrupts, `SRET` clears MPRV, and `sie` and `sip` are windows on `mie` and `mip`. -/
structure ConfinedUpTo (w : Inst) (c c' : Core) : Prop where
  mode : c'.hart.mode.toNat ≤ c.hart.mode.toNat
  userCsrs : c.hart.mode = .user →
    ∀ csr, csrPrivilege csr = 1 ∨ csrPrivilege csr = 3 → c'.hart.csrs csr = c.hart.csrs csr
  userStatus : c.hart.mode = .user → c'.hart.status &&& ~~~fsSdMask = c.hart.status &&& ~~~fsSdMask
  userRegs : c.hart.mode = .user →
    c'.hart.ie = c.hart.ie ∧ c'.hart.satp = c.hart.satp ∧ c'.hart.stimecmp = c.hart.stimecmp
  userIp : c.hart.mode = .user → c'.io = c.io → c'.hart.ip = c.hart.ip
  superCsrs : c.hart.mode = .supervisor → ∀ csr, csrPrivilege csr = 3 → c'.hart.csrs csr = c.hart.csrs csr
  superStatus : c.hart.mode = .supervisor →
    c'.hart.status &&& ~~~sstatusMask = c.hart.status &&& ~~~sstatusMask ∨
      (w = sretWord ∧
        c'.hart.status &&& ~~~sstatusMask = c.hart.status &&& ~~~sstatusMask &&& ~~~mprvMask)
  superIe : c.hart.mode = .supervisor → c'.hart.ie &&& ~~~seMask = c.hart.ie &&& ~~~seMask
  superIp : c.hart.mode = .supervisor → c'.io = c.io → c'.hart.ip &&& ~~~seMask = c.hart.ip &&& ~~~seMask

/-! ## The handlers -/

/-- What `ConfinedUpTo` sees of a core. -/
structure SamePrivileged (c c' : Core) : Prop where
  mode : c'.hart.mode = c.hart.mode
  status : c'.hart.status = c.hart.status
  ie : c'.hart.ie = c.hart.ie
  ip : c'.hart.ip = c.hart.ip
  satp : c'.hart.satp = c.hart.satp
  stimecmp : c'.hart.stimecmp = c.hart.stimecmp
  csrs : c'.hart.csrs = c.hart.csrs
  traps : c'.hart.traps = c.hart.traps
  io : c'.io = c.io

theorem ConfinedUpTo.congr {w : Inst} {c c' d d' : Core} (first : SamePrivileged c d)
    (second : SamePrivileged d' c') (inner : ConfinedUpTo w d d') : ConfinedUpTo w c c' := by
  constructor
  all_goals simp only [← first.mode, ← first.status, ← first.ie, ← first.ip, ← first.satp, ← first.stimecmp,
    ← first.csrs, ← first.io, second.mode, second.status, second.ie, second.ip, second.satp, second.stimecmp,
    second.csrs, second.io]
  exacts [inner.mode, inner.userCsrs, inner.userStatus, inner.userRegs, inner.userIp, inner.superCsrs,
    inner.superStatus, inner.superIe, inner.superIp]

theorem confined_of_userFrame {c c' : Core} (w : Inst) (frame : UserFrame c c') : ConfinedUpTo w c c' where
  mode := by rw [frame.hart]
  userCsrs := by rw [frame.hart]; exact fun _ _ _ => rfl
  userStatus := by rw [frame.hart]; exact fun _ => rfl
  userRegs := by rw [frame.hart]; exact fun _ => ⟨rfl, rfl, rfl⟩
  userIp _ := frame.devices.ip
  superCsrs := by rw [frame.hart]; exact fun _ _ _ => rfl
  superStatus := by rw [frame.hart]; exact fun _ => .inl rfl
  superIe := by rw [frame.hart]; exact fun _ => rfl
  superIp _ quiet := by rw [frame.devices.ip quiet]

/-- `csr_accessible` looks at the row of an address only. -/
def levelOfRow (row : BitVec 4) : PrivilegeMode :=
  if row = 0x0 then .user
  else if row = 0x1 then .supervisor
  else if row = 0x2 then .hypervisor
  else if row = 0x3 ∨ row = 0xB ∨ row = 0xF then .machine
  else .user

theorem toNat_row (csr : BitVec 12) : (csr.extractLsb' 8 4).toNat = csr.toNat / 256 := by
  rw [BitVec.extractLsb'_toNat, Nat.shiftRight_eq_div_pow]
  omega

theorem csrLevel_row (csr : BitVec 12) : csrLevel csr = levelOfRow (csr.extractLsb' 8 4) := by
  unfold csrLevel levelOfRow
  simp only [BitVec.le_def, ← BitVec.toNat_inj, toNat_row, BitVec.reduceToNat]
  split_ifs <;> first | rfl | omega

theorem csrPrivilege_row (csr : BitVec 12) : csrPrivilege csr = (csr.extractLsb' 8 4).extractLsb' 0 2 := by
  apply BitVec.eq_of_toNat_eq
  rw [csrPrivilege, BitVec.extractLsb'_toNat, BitVec.extractLsb'_toNat, toNat_row, Nat.shiftRight_eq_div_pow]
  omega

/-- The addresses that a mode is let through to, holes apart, are not above it. -/
theorem privilege_of_user {csr : BitVec 12} (level : compatibleMode (csrLevel csr) .user = true)
    (noHole : csrHole .user csr = false) : csrPrivilege csr ≠ 1 ∧ csrPrivilege csr ≠ 3 := by
  rw [csrLevel_row] at level
  rw [csrPrivilege_row]
  simp only [csrHole] at noHole
  generalize csr.extractLsb' 8 4 = row at *
  revert row
  decide

theorem privilege_of_supervisor {csr : BitVec 12} (level : compatibleMode (csrLevel csr) .supervisor = true)
    (noHole : csrHole .supervisor csr = false) : csrPrivilege csr ≠ 3 := by
  rw [csrLevel_row] at level
  rw [csrPrivilege_row]
  simp only [csrHole] at noHole
  generalize csr.extractLsb' 8 4 = row at *
  revert row
  decide

theorem putBit_and_not {mask : Word} {i : Nat} (set : mask &&& (1#64 <<< i) = 1#64 <<< i) (x : Word) (b : Bool) :
    putBit x i b &&& ~~~mask = x &&& ~~~mask := by
  apply BitVec.eq_of_getLsbD_eq
  intro j inside
  have bit := congrArg (BitVec.getLsbD · j) set
  cases b <;> simp only [putBit, Bool.false_eq_true, if_false, if_true, BitVec.getLsbD_and, BitVec.getLsbD_or,
    BitVec.getLsbD_not, inside, decide_true, Bool.true_and] at bit ⊢ <;> grind

theorem merge_and_not {n : Nat} (x v m : BitVec n) : (x &&& ~~~m ||| v &&& m) &&& ~~~m = x &&& ~~~m := by
  apply BitVec.eq_of_getLsbD_eq
  intro i inside
  simp only [BitVec.getLsbD_and, BitVec.getLsbD_or, BitVec.getLsbD_not, inside, decide_true, Bool.true_and]
  cases m.getLsbD i <;> simp

theorem confined_of_csrFrame {csr : BitVec 12} {val : Word} {c c' : Core} (w : Inst) (frame : CsrFrame csr val c c')
    (low : c.hart.mode = .user ∨ c.hart.mode = .supervisor)
    (level : compatibleMode (csrLevel csr) c.hart.mode = true) (noHole : csrHole c.hart.mode csr = false) :
    ConfinedUpTo w c c' := by
  have kept : c'.hart.mode = c.hart.mode := by rw [frame.hart]
  -- the registers that live outside `csrs` are at S or M addresses
  have away {named : BitVec 12} (user : c.hart.mode = .user) (above : csrPrivilege named = 1 ∨ csrPrivilege named = 3) :
      csr ≠ named := by
    rintro rfl
    rw [user] at level noHole
    have below := privilege_of_user level noHole
    exact above.elim below.1 below.2
  have awayM {named : BitVec 12} (above : csrPrivilege named = 3) : csr ≠ named := by
    rintro rfl
    rcases low with user | super
    · exact away user (.inr above) rfl
    · rw [super] at level noHole
      exact privilege_of_supervisor level noHole above
  -- a write of `fcsr` sets FS
  have fs {mask : Word} (within : mask &&& 0x2000 = 0x2000 ∧ mask &&& 0x4000 = 0x4000) (status : Word) :
      putBits2 status 13 3 &&& ~~~mask = status &&& ~~~mask := by
    rw [putBits2, putBit_and_not (i := 14) within.2, putBit_and_not within.1]
  constructor
  case mode => rw [kept]
  case userCsrs => exact fun user a above => frame.csrs a (away user above).symm
  case userStatus =>
    intro user
    rw [frame.status, statusAfter, if_neg (awayM rfl), if_neg (away user (.inl rfl))]
    split
    · exact fs (by decide) _
    · rfl
  case userRegs =>
    intro user
    rw [frame.ie, ieAfter, if_neg (awayM rfl), if_neg (away user (.inl rfl))]
    exact ⟨rfl, frame.satp (away user (.inl rfl)), frame.stimecmp (away user (.inl rfl))⟩
  case userIp =>
    intro user _
    rw [frame.ip, ipAfter, if_neg (awayM rfl), if_neg (away user (.inl rfl))]
  case superCsrs => exact fun _ a above => frame.csrs a (awayM above).symm
  case superStatus =>
    intro _
    rw [frame.status, statusAfter, if_neg (awayM rfl)]
    left
    split
    · exact merge_and_not ..
    · split
      · exact fs (by decide) _
      · rfl
  case superIe =>
    intro _
    rw [frame.ie, ieAfter, if_neg (awayM rfl)]
    split
    · exact merge_and_not ..
    · rfl
  case superIp =>
    intro _ _
    rw [frame.ip, ipAfter, if_neg (awayM rfl)]
    split
    · exact merge_and_not ..
    · rfl

theorem execSRET_confined {bus : Bus} {c : Core} {i : InstructionData} {e : Executed}
    (ok : execSRET bus c i = .ok e) (low : c.hart.mode = .user ∨ c.hart.mode = .supervisor) :
    ConfinedUpTo sretWord c e.core := by
  unfold execSRET at ok
  split at ok
  case isTrue =>
    cases ok
    exact confined_of_userFrame _ (.refl c)
  case isFalse allowed =>
    have super : c.hart.mode = .supervisor := by
      rcases low with user | super
      · exact absurd (.inl user) allowed
      · exact super
    have notUser : c.hart.mode ≠ .user := by
      rw [super]
      decide
    cases ok
    exact {
      mode := by
        rw [super]
        dsimp only
        split <;> decide
      userCsrs := fun user => absurd user notUser
      userStatus := fun user => absurd user notUser
      userRegs := fun user => absurd user notUser
      userIp := fun user => absurd user notUser
      superCsrs := fun _ _ _ => rfl
      superStatus := fun _ => by
        refine .inr ⟨rfl, ?_⟩
        dsimp only
        rw [putBit_and_not (by decide), putBit_and_not (by decide), putBit_and_not (by decide)]
        show c.hart.status &&& ~~~(1#64 <<< 17) &&& ~~~sstatusMask = _
        rw [BitVec.and_assoc, BitVec.and_comm (~~~(1#64 <<< 17)), ← BitVec.and_assoc]
        rfl
      superIe := fun _ => rfl
      superIp := fun _ _ => rfl }

/-! ## One tick -/

theorem Instruction.Matches.eq {ins : Instruction} {w : Inst} (hit : ins.Matches w)
    (all : ins.mask = 0xFFFFFFFF) : w = ins.matchBits := by
  have whole : w &&& 0xFFFFFFFF = w := BitVec.and_allOnes
  rw [← whole, ← all]
  exact hit

section Handler

variable {bus : Bus} {w : Inst} {c : Core} {out : Executed} {ins : Instruction}

theorem csr_confined (mem : ins ∈ initZicsr) (hit : ins.Matches w)
    (ran : ins.func bus c (.ofInst w ins.immDecode) = .ok out)
    (low : c.hart.mode = .user ∨ c.hart.mode = .supervisor)
    (noHole : csrInst w → csrWrites w → csrHole c.hart.mode (csrOf w) = false)
    (quiet : out.core.hart.traps = c.hart.traps) : ConfinedUpTo w c out.core := by
  have entry := zicsr_entries ins mem
  have csr : (InstructionData.ofInst w ins.immDecode).csr = csrOf w := by
    rw [entry.imm]
    show ((w >>> 20).setWidth 64).setWidth 12 = w.extractLsb' 20 12
    apply BitVec.eq_of_getLsbD_eq
    intro i inside
    simp [BitVec.getLsbD_setWidth, inside]
    omega
  have bits {m : Inst} (within : (0x707F : Inst) &&& m = m) : w &&& m = ins.matchBits &&& m :=
    hit.and_eq (by rw [entry.mask, within])
  have isCsr : csrInst w := ⟨(bits (by decide)).trans entry.value.1, (bits (by decide)).trans_ne entry.value.2⟩
  cases entry.runs.does ran with
  | refused _ same => exact confined_of_userFrame w (same ▸ .refl c)
  | trapped _ _ same =>
    rw [same] at quiet
    exact absurd quiet (entry.trapped_traps c _).ne'
  | read _ _ _ same => exact confined_of_userFrame w (same ▸ (Straight.setGpr ..).toUserFrame)
  | written allowed on writes g _ same =>
    have actual : csrWrites w := (entry.writes _ writes).imp_left (bits (by decide)).trans
    rw [same]
    exact confined_of_csrFrame w ((csrWrite_frame on _).withGpr g) low (compatible_of_allowed allowed)
      (csr ▸ noHole isCsr actual)

theorem priv_confined (mem : ins ∈ initPriv) (hit : ins.Matches w)
    (ran : ins.func bus c (.ofInst w ins.immDecode) = .ok out)
    (low : c.hart.mode = .user ∨ c.hart.mode = .supervisor) (notMret : w ≠ mretWord) :
    ConfinedUpTo w c out.core := by
  simp only [initPriv, List.mem_cons, List.not_mem_nil, or_false] at mem
  rcases mem with rfl | rfl | rfl | rfl
  case inl => exact absurd (hit.eq (by decide +kernel)) notMret
  case inr.inl =>
    obtain rfl : w = sretWord := hit.eq (by decide +kernel)
    exact @execSRET_confined bus c _ out ran low
  case inr.inr.inl =>
    have asleep : SamePrivileged c out.core := by
      rw [@execWFI_core bus c _ out ran]
      constructor <;> rfl
    exact .congr (by constructor <;> rfl) asleep (confined_of_userFrame w (.refl c))
  case inr.inr.inr => exact confined_of_userFrame w (@execSFENCEVMA_ends bus c _ out ran).1

/-- Every handler, on the word its entry stands for. -/
theorem handler_confined (mem : ins ∈ instructions) (hit : ins.Matches w)
    (ran : ins.func bus c (.ofInst w ins.immDecode) = .ok out)
    (low : c.hart.mode = .user ∨ c.hart.mode = .supervisor) (notMret : w ≠ mretWord)
    (noHole : csrInst w → csrWrites w → csrHole c.hart.mode (csrOf w) = false)
    (quiet : out.core.hart.traps = c.hart.traps) : ConfinedUpTo w c out.core := by
  rcases unprivileged_or ins mem with plain | priv | csr
  · exact confined_of_userFrame w (plain.userFrame ran)
  · exact priv_confined priv hit ran low notMret
  · exact csr_confined csr hit ran low noHole quiet

theorem return_hart {f : Handler} {i : InstructionData} (isReturn : f = execMRET ∨ f = execSRET)
    (ran : f bus c i = .ok out) : out.core.hart =
      { c.hart with pc := out.core.hart.pc, mode := out.core.hart.mode, status := out.core.hart.status } := by
  rcases isReturn with rfl | rfl
  · cases ran
    unfold mretMode
    dsimp only
    split_ifs <;> rfl
  · unfold execSRET at ran
    split at ran <;> cases ran <;> rfl

theorem handler_traps_le {i : InstructionData} (mem : ins ∈ instructions)
    (ran : ins.func bus c i = .ok out) : c.hart.traps ≤ out.core.hart.traps := by
  have frame (same : UserFrame c out.core) : c.hart.traps ≤ out.core.hart.traps := by rw [same.hart]
  rcases unprivileged_or ins mem with plain | priv | csr
  · exact frame (plain.userFrame ran)
  · simp only [initPriv, List.mem_cons, List.not_mem_nil, or_false] at priv
    rcases priv with rfl | rfl | rfl | rfl
    case inl => rw [@return_hart bus c out _ i (.inl rfl) ran]
    case inr.inl => rw [@return_hart bus c out _ i (.inr rfl) ran]
    case inr.inr.inl => rw [@execWFI_core bus c i out ran, Core.mapHart]
    case inr.inr.inr => exact frame (@execSFENCEVMA_ends bus c _ out ran).1
  · have entry := zicsr_entries ins csr
    cases entry.runs.does ran with
    | refused _ same => exact frame (same ▸ .refl c)
    | trapped _ _ same => exact same ▸ (entry.trapped_traps c i).le
    | read _ _ _ same => exact frame (same ▸ (Straight.setGpr ..).toUserFrame)
    | written _ on _ g _ same =>
      rw [same]
      exact (congrArg Hart.traps (csrWrite_frame on _).hart).ge

end Handler

theorem beginTick_cases (h : Hart) :
    h.beginTick = { h with gpr := Function.update h.gpr 0 0, cycle := h.cycle + 1 } ∨
      h.beginTick.traps = h.traps + 1 := by
  unfold Hart.beginTick Hart.checkInts
  dsimp only
  split
  · split
    · exact .inr (trap_traps ..)
    · exact .inl rfl
  · exact .inl rfl

theorem beginTick_traps_le (h : Hart) : h.traps ≤ h.beginTick.traps := by
  rcases beginTick_cases h with same | taken
  · rw [same]
  · exact taken ▸ Nat.le_succ _

theorem beginTick_samePrivileged {c : Core} (quiet : c.hart.beginTick.traps = c.hart.traps) :
    SamePrivileged c (c.mapHart Hart.beginTick) := by
  rcases beginTick_cases c.hart with same | taken
  · have hart : (c.mapHart Hart.beginTick).hart = _ := same
    constructor <;> first | rw [hart] | rfl
  · exact absurd (taken.symm.trans quiet) (Nat.succ_ne_self _)

theorem FetchEnds.samePrivileged {c : Core} {f : Fetched} (ends : FetchEnds c f) : SamePrivileged c f.core := by
  have hart : f.core.hart = { c.hart with tlb := f.core.hart.tlb } := ends.translated.hart
  constructor
  case io => exact ends.translated.io
  all_goals rw [hart]

theorem SamePrivileged.trans {a b c : Core} (first : SamePrivileged a b) (second : SamePrivileged b c) :
    SamePrivileged a c where
  mode := second.mode.trans first.mode
  status := second.status.trans first.status
  ie := second.ie.trans first.ie
  ip := second.ip.trans first.ip
  satp := second.satp.trans first.satp
  stimecmp := second.stimecmp.trans first.stimecmp
  csrs := second.csrs.trans first.csrs
  traps := second.traps.trans first.traps
  io := second.io.trans first.io

theorem finish_cases (out : Executed) :
    SamePrivileged out.core (finish out) ∨ (finish out).hart.traps = out.core.hart.traps + 1 := by
  unfold finish
  cases success : out.ret.isSuccess with
  | false => exact .inr (trap_traps ..)
  | true => exact .inl ⟨rfl, rfl, rfl, rfl, rfl, rfl, rfl, rfl, rfl⟩

/-- A User or Supervisor instruction that retires leaves alone what is above its
    privilege. Left open are `MRET`, whose handler does not look at the mode, and writes to
    the CSR addresses that `csr_accessible` misses. -/
theorem retires_confined (bus : Bus) (w : Inst) (c c' : Core) (good : c.decoder.Good)
    (low : c.hart.mode = .user ∨ c.hart.mode = .supervisor) (retires : Retires bus w c c')
    (notMret : w ≠ mretWord)
    (noHole : csrInst w → csrWrites w → csrHole c.hart.mode (csrOf w) = false) : ConfinedUpTo w c c' := by
  obtain ⟨f, k, out, delivered, decoded, word, ran, rfl⟩ := tick_executes good retires.word retires.ends
  subst word
  have fetched := delivered.samePrivileged
  have registered : instructions.get k ∈ instructions := List.get_mem ..
  -- traps are only ever added, so none was taken at any of the three stages
  have first : c.hart.traps ≤ c.hart.beginTick.traps := beginTick_traps_le c.hart
  have second := handler_traps_le registered ran
  have total := retires.noTrap
  have kept : f.core.hart.traps = c.hart.beginTick.traps := fetched.traps
  rcases finish_cases out with finished | taken
  · have third := finished.traps
    have begun := (beginTick_samePrivileged (by omega)).trans fetched
    have quiet : out.core.hart.traps = f.core.hart.traps := by omega
    rw [← begun.mode] at low noHole
    have inner := handler_confined registered decoded.1.1.1 (decoded.2.2 ▸ ran) low notMret noHole quiet
    exact inner.congr begun finished
  · omega

def sretEntry : Instruction := ⟨"00010000001000000000000001110011", execSRET, none, none⟩

theorem sretEntry_mem : sretEntry ∈ instructions := by
  have mem : sretEntry ∈ initPriv := .tail _ (.head _)
  simp only [instructions, List.mem_append, mem, true_or, or_true]

theorem registered_CSRRW : Registered execCSRRW (some immZicsr) (4, 0x707F, 0x1073) :=
  registered_at mem_zicsr 0 rfl rfl

/-- `csrrw x0, sie, x1` -/
def sieWord : Inst := 0x10409073

/-- Supervisor mode, about to enable its software interrupt. -/
def sieCore : Core where
  hart := { pc := 0x80000000#64, mode := .supervisor, gpr := fun r => if r = 1 then 2 else 0, memsize := 0x1000#64 }
  mmap := (MemoryMap.empty.addRegion 0x80000000#64 0x1000#64 0x700000000000#64).setData 0 fun i =>
    if i < 4 then sieWord.extractLsb' (8 * i) 8 else 0
  smc := {}

/-- `sieCore` after the fetch. -/
def sieFetched : Core := (translateIdentity (sieCore.mapHart Hart.beginTick) sieCore.hart.beginTick.pc).core

theorem sieCore_retires : ∃ c', Retires Bus.empty sieWord sieCore c' ∧ c'.hart.ie = 2 := by
  have fetched : fetchWord (sieCore.mapHart Hart.beginTick) sieCore.hart.beginTick.pc =
      .ok ⟨{}, 0x80000000#64, sieWord, sieFetched⟩ := rfl
  obtain ⟨k, func, imm, best⟩ := registered_CSRRW.best (w := sieWord) rfl nofun
  obtain ⟨word, decoder, ends⟩ :=
    tick_of_best Bus.empty DecodeCache.good_empty rfl fetched rfl (by decide) best
  rw [func, imm] at ends
  have allowed : csrAllowed sieFetched.hart (InstructionData.ofInst sieWord (some immZicsr)).csr true = true := by
    decide
  have enabled : (sieFetched.hart.ie &&& ~~~seMask) ||| ((sieFetched.gpr 1).setWidth 16 &&& seMask) = 2 := by decide
  simp only [execCSRRW, allowed, Bool.not_true, Bool.false_eq_true, if_false] at ends
  exact ⟨_, ⟨word, ends, rfl⟩, enabled⟩

theorem sie_write_confined :
    sieCore.hart.mode = .supervisor ∧ ∃ c', Retires Bus.empty sieWord sieCore c' ∧ ConfinedUpTo sieWord sieCore c' := by
  obtain ⟨c', retires, -⟩ := sieCore_retires
  refine ⟨rfl, c', retires, ?_⟩
  exact retires_confined Bus.empty sieWord sieCore c' DecodeCache.good_empty (.inr rfl) retires (by decide)
    fun _ _ => by decide

/-- `sie` is a window on `mie`. -/
theorem sie_write_changes_mie :
    sieCore.decoder.Good ∧ sieCore.hart.mode = .supervisor ∧
      ∃ c', Retires Bus.empty sieWord sieCore c' ∧ ¬ Confined sieCore c' := by
  obtain ⟨c', retires, enabled⟩ := sieCore_retires
  refine ⟨DecodeCache.good_empty, rfl, c', retires, fun confined => ?_⟩
  exact absurd (enabled.symm.trans (confined.superMie rfl)) (by decide)

end Rv64Vm
