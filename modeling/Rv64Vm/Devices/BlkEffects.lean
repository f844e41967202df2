import Rv64Vm.Devices.UsedRing

/-! # What a block request touches

`Pass` says what one pass of `VirtIO_BLK::process_queue` stores and what becomes of the image.
A pass is confined if it stores only into buffers that the driver made writable and into the
used ring, writes the image only for a write request it reports as done, and leaves data
buffers and image alone when it reports an error. The copy and the disk write come before the
checks that decide the status, so that a pass is confined only for some requests.
-/

namespace Rv64Vm

open Lib

variable {chain : List VirtqDesc} {stores : List StoreRecord} {ok : Bool} {buf : List Byte} {pos : Nat}

namespace VirtioBlk

open Virtio

variable {t u : VirtioBlk} {req req' : VirtioBlkReq} {data data' : List VirtqDesc} {status status' : VirtqDesc}

/-- The next avail entry is a request with a status descriptor. -/
def RequestOf (t : VirtioBlk) (req : VirtioBlkReq) (data : List VirtqDesc) (status : VirtqDesc) : Prop :=
  ∃ head chain, Head t head chain ∧ Blk.Request t.mem chain req data status

theorem RequestOf.unique (first : RequestOf t req data status) (second : RequestOf t req' data' status') :
    req = req' ∧ data = data' ∧ status = status' := by
  obtain ⟨head, chain, ⟨loaded, fetched⟩, header, rest, rfl, -, read, parts⟩ := first
  obtain ⟨head', chain', ⟨loaded', fetched'⟩, header', rest', rfl, -, read', parts'⟩ := second
  obtain rfl := Except.ok.inj (loaded.symm.trans loaded')
  obtain ⟨rfl, rfl⟩ := List.cons.inj (Option.some.inj (Except.ok.inj (fetched.symm.trans fetched')))
  obtain ⟨rfl, rfl⟩ := Prod.mk.inj (Option.some.inj (parts.symm.trans parts'))
  exact ⟨Except.ok.inj (read.symm.trans read'), rfl, rfl⟩

theorem splitStatus_writable (found : splitStatus chain = some (data, status)) : status.writable = true := by
  induction chain generalizing data with
  | nil => cases found
  | cons d rest ih =>
    rw [splitStatus] at found
    cases later : splitStatus rest with
    | some p =>
      simp only [later, Option.some.injEq, Prod.mk.injEq] at found
      obtain ⟨-, rfl⟩ := found
      exact ih later
    | none =>
      simp only [later] at found
      split at found
      · cases found
        assumption
      · cases found

theorem RequestOf.writable (request : RequestOf t req data status) : status.writable = true := by
  obtain ⟨_, _, -, _, _, -, -, -, parts⟩ := request
  exact splitStatus_writable parts

/-- A request with a status descriptor is never refused. -/
theorem accepted_of_request {mem : GuestMemory} (request : Blk.Request mem chain req data status) :
    Blk.Accepted chain := by
  obtain ⟨header, rest, rfl, whole, -, parts⟩ := request
  cases rest with
  | nil => cases parts
  | cons => exact whole

/-- A store of the used element or of `used.idx`. -/
def InUsedRing (q : VirtQueueState) (r : StoreRecord) : Prop :=
  r.purpose = .used ∧
    (r.bytes = 4 ∧ (r.addr = q.usedElem ∨ r.addr = q.usedElem + 4#64) ∨ r.bytes = 2 ∧ r.addr = q.usedAddr + 2#64)

theorem usedStores_inUsedRing {q : VirtQueueState} {head : BitVec 16} {len : BitVec 32} :
    ∀ r ∈ usedStores q head len, InUsedRing q r := by
  simp [usedStores, InUsedRing]

/-- The pass stores `data`, the status, and the used element. -/
def Answers (t u : VirtioBlk) (data : List StoreRecord) (status : VirtqDesc) (ok : Bool) : Prop :=
  ∃ used, newStores t u = data ++ ⟨status.addr, 1, if ok then virtioBlkSOk else virtioBlkSIoerr, .status⟩ :: used ∧
    ∀ r ∈ used, InUsedRing t.queue0 r

/-- What one pass of the block device does. -/
inductive Pass (t u : VirtioBlk) : Prop
  | idle (none : ∀ req data status, ¬ RequestOf t req data status) (used : ∀ r ∈ newStores t u, InUsedRing t.queue0 r)
      (device : u.device = t.device)
  | failed {req : VirtioBlkReq} {data : List VirtqDesc} {status : VirtqDesc} (request : RequestOf t req data status)
      (inert : t.device.seeks req.sector = false ∨ req.type ≠ virtioBlkTIn ∧ req.type ≠ virtioBlkTOut)
      (answers : Answers t u [] status false) (device : u.device = t.device)
  | read {req : VirtioBlkReq} {data : List VirtqDesc} {status : VirtqDesc} {img : Image} {buf : List Byte}
      (request : RequestOf t req data status) (type : req.type = virtioBlkTIn)
      (seeks : t.device.seeks req.sector = true) (present : t.device.disk = some img)
      (content : buf = img.fread (Blk.offset req.sector).toNat (dataTotal data) ++
        List.replicate (dataTotal data - (img.fread (Blk.offset req.sector).toNat (dataTotal data)).length) 0)
      (answers : Answers t u (scatterLog buf data 0) status (data.all (·.writable))) (device : u.device = t.device)
  | write {req : VirtioBlkReq} {data : List VirtqDesc} {status : VirtqDesc} {img : Image} {buf : List Byte}
      (request : RequestOf t req data status) (type : req.type = virtioBlkTOut)
      (seeks : t.device.seeks req.sector = true) (present : t.device.disk = some img)
      (gathered : gather t.mem (dataTotal data) data 0 true = .ok (buf, true)) (length : buf.length = dataTotal data)
      (disk : u.device.disk = some (img.fwrite (Blk.offset req.sector).toNat buf))
      (writes : u.device.writes = t.device.writes ++ [((Blk.offset req.sector).toNat, dataTotal data)])
      (answers : Answers t u [] status (decide (dataTotal data % 512 = 0)))

theorem newStores_eq {new : List StoreRecord} (stored : t.mem.Stored u.mem new) : newStores t u = new := by
  rw [newStores, stored.log, List.drop_left]

theorem pass_cases (ran : processOne Blk.serve t = .ok u) : t.mem.Stored u.mem (newStores t u) ∧ Pass t u := by
  rcases processOne_cases ran with ⟨rfl, refused⟩ | ⟨head, chain, mem, device, len, here, served, added⟩
  · -- A refused chain is not a request, and nothing is stored.
    have nothing : newStores t t.skip = [] := List.drop_length
    refine ⟨nothing ▸ .refl t.mem, .idle ?_ (by rw [nothing]; exact nofun) rfl⟩
    rintro req data status ⟨head, chain, here, request⟩
    cases Blk.served (refused head chain here) with
    | refused malformed => exact malformed (accepted_of_request request)
  · obtain ⟨used, kept, -⟩ := addUsed_spec added
    have ring : ∀ r ∈ usedStores t.queue0 (head.setWidth 16) len, InUsedRing t.queue0 r := usedStores_inUsedRing
    cases Blk.served served with
    | silent _ noStatus =>
      have stores := newStores_eq used
      refine ⟨stores ▸ used, .idle ?_ (stores ▸ ring) kept⟩
      rintro req data status ⟨head', chain', here', request⟩
      obtain rfl := Except.ok.inj (here.1.symm.trans here'.1)
      obtain rfl := Option.some.inj (Except.ok.inj (here.2.symm.trans here'.2))
      exact noStatus _ _ _ request
    | @answered req data status mem' _ _ ok _ request performed answer =>
      have tail := (GuestMemory.store_stored answer).trans used
      have whole : RequestOf t req data status := ⟨head, chain, here, request⟩
      have all {new : List StoreRecord} (first : t.mem.Stored mem' new) :
          t.mem.Stored u.mem (newStores t u) ∧ Answers t u new status ok := by
        have stored := first.trans tail
        have stores := newStores_eq stored
        exact ⟨stores ▸ stored, _, stores, ring⟩
      cases performed with
      | unseekable seeks =>
        obtain ⟨stored, answers⟩ := all (.refl _)
        exact ⟨stored, .failed whole (.inl seeks) answers kept⟩
      | unsupported notIn notOut =>
        obtain ⟨stored, answers⟩ := all (.refl _)
        exact ⟨stored, .failed whole (.inr ⟨notIn, notOut⟩) answers kept⟩
      | read type seeks present content scattered =>
        obtain ⟨stored, answers⟩ := all scattered
        exact ⟨stored, .read whole type seeks present content answers kept⟩
      | write type seeks present gathered length disk _ writes =>
        obtain ⟨stored, answers⟩ := all (.refl _)
        exact ⟨stored, .write whole type seeks present gathered length (kept ▸ disk) (kept ▸ writes) answers⟩

/-- The status that the pass reports. -/
def reported (t u : VirtioBlk) : Option Word := ((newStores t u).find? (·.purpose = .status)).map (·.value)

theorem Answers.reported (answers : Answers t u stores status ok) (quiet : ∀ r ∈ stores, r.purpose = .data) :
    reported t u = some (if ok then virtioBlkSOk else virtioBlkSIoerr) := by
  obtain ⟨used, new, -⟩ := answers
  have skipped : stores.find? (·.purpose = .status) = none := by
    rw [List.find?_eq_none]
    intro r listed
    simp [quiet r listed]
  rw [VirtioBlk.reported, new, List.find?_append, skipped]
  rfl

/-- The byte at `addr` is in the buffer of `d`. -/
def Covers (d : VirtqDesc) (addr : Word) : Prop := (addr - d.addr).toNat < d.len.toNat

/-- The stores that a pass may make. -/
def Allowed (t : VirtioBlk) (r : StoreRecord) : Prop :=
  match r.purpose with
  | .used => InUsedRing t.queue0 r
  | .data => r.bytes = 1 ∧ ∃ req data status, RequestOf t req data status ∧ req.type = virtioBlkTIn ∧
      ∃ d ∈ data, d.writable = true ∧ Covers d r.addr
  | .status => r.bytes = 1 ∧ ∃ req data status, RequestOf t req data status ∧ status.writable = true ∧
      r.addr = status.addr ∧ Covers status r.addr

structure Confined (t u : VirtioBlk) : Prop where
  /-- Memory changes only where the pass stores. -/
  frame : ∀ addr size, (∀ r ∈ newStores t u, Apart r.addr r.bytes addr (size / 8)) →
    u.mem.load addr size = t.mem.load addr size
  stores : ∀ r ∈ newStores t u, Allowed t r
  /-- The image is as it was, or was written by a write request that is reported as done. -/
  disk : u.device.writes = t.device.writes ∧ u.device.disk = t.device.disk ∨
    reported t u = some virtioBlkSOk ∧ ∃ req data status, RequestOf t req data status ∧ req.type = virtioBlkTOut
  /-- A request reported as failed has left the data buffers and the image alone. -/
  failure : reported t u = some virtioBlkSIoerr →
    (∀ r ∈ newStores t u, r.purpose ≠ .data) ∧ u.device.writes = t.device.writes ∧ u.device.disk = t.device.disk

/-- The data descriptors up to the first one that the driver did not make writable. -/
def reached : List VirtqDesc → List VirtqDesc
  | [] => []
  | d :: rest => d :: if d.writable then reached rest else []

theorem reached_of_all (all : data.all (·.writable) = true) : reached data = data := by
  induction data with
  | nil => rfl
  | cons d rest ih =>
    rw [List.all_cons, Bool.and_eq_true] at all
    rw [reached, if_pos all.1, ih all.2]

/-- The request is one that the device carries out without a stray effect. -/
def Clean (t : VirtioBlk) : Prop :=
  ∀ req data status, RequestOf t req data status →
    status.len ≠ 0#32 ∧
    (req.type = virtioBlkTIn → t.device.seeks req.sector = true →
      data.all (·.writable) = true ∨ ∀ d ∈ reached data, d.len = 0#32) ∧
    (req.type = virtioBlkTOut → t.device.seeks req.sector = true → dataTotal data % 512 = 0)

theorem RequestOf.clean_iff (request : RequestOf t req data status) :
    Clean t ↔ status.len ≠ 0#32 ∧
      (req.type = virtioBlkTIn → t.device.seeks req.sector = true →
        data.all (·.writable) = true ∨ ∀ d ∈ reached data, d.len = 0#32) ∧
      (req.type = virtioBlkTOut → t.device.seeks req.sector = true → dataTotal data % 512 = 0) := by
  refine ⟨fun clean => clean req data status request, fun clean req' data' status' request' => ?_⟩
  obtain ⟨rfl, rfl, rfl⟩ := request.unique request'
  exact clean

theorem covers_self {d : VirtqDesc} : Covers d d.addr ↔ d.len ≠ 0#32 := by
  rw [Covers, BitVec.sub_self]
  bv_omega

theorem Allowed.status_iff {value : Word} (request : RequestOf t req data status) :
    Allowed t ⟨status.addr, 1, value, .status⟩ ↔ status.len ≠ 0#32 := by
  rw [← covers_self]
  constructor
  · rintro ⟨-, req', data', status', request', -, -, covers⟩
    obtain ⟨rfl, rfl, rfl⟩ := request.unique request'
    exact covers
  · intro covers
    exact ⟨rfl, req, data, status, request, request.writable, rfl, covers⟩

/-- Every byte that the copy loop stores is in a buffer that it reaches. -/
theorem scatterLog_covered :
    ∀ r ∈ scatterLog buf data pos, r.purpose = .data ∧ r.bytes = 1 ∧ ∃ d ∈ reached data, Covers d r.addr := by
  induction data generalizing pos with
  | nil => exact nofun
  | cons d rest ih =>
    intro r listed
    rcases List.mem_append.mp listed with first | later
    · obtain ⟨purpose, bytes, i, inside, place⟩ := GuestMemory.of_mem_copyLog first
      refine ⟨purpose, bytes, d, List.mem_cons_self, ?_⟩
      have small : i < d.len.toNat := by
        rw [List.length_take] at inside
        omega
      have bound := d.len.isLt
      rw [Covers, place]
      bv_omega
    · split at later
      · rename_i write
        obtain ⟨purpose, bytes, d', mem, covers⟩ := ih r later
        rw [reached, if_pos write]
        exact ⟨purpose, bytes, d', List.mem_cons_of_mem _ mem, covers⟩
      · cases later

/-- With a full buffer the copy loop stores nothing exactly if all it reaches is empty. -/
theorem scatterLog_eq_nil_iff (full : pos + dataTotal data ≤ buf.length) :
    scatterLog buf data pos = [] ↔ ∀ d ∈ reached data, d.len = 0#32 := by
  induction data generalizing pos with
  | nil => simp [scatterLog, reached]
  | cons d rest ih =>
    have total : dataTotal (d :: rest) = d.len.toNat + dataTotal rest := rfl
    have copied : min d.len.toNat (buf.length - pos) = d.len.toNat := by omega
    have empty : (buf.drop pos).take d.len.toNat = [] ↔ d.len = 0#32 := by
      rw [← List.length_eq_zero_iff, List.length_take, List.length_drop]
      bv_omega
    rw [scatterLog, copied, List.append_eq_nil_iff, GuestMemory.copyLog_eq_nil, empty, reached, List.forall_mem_cons]
    split
    · rw [ih (by omega)]
    · simp

theorem Answers.newStores_iff {P : StoreRecord → Prop}
    (answers : Answers t u stores status ok) (ring : ∀ r, InUsedRing t.queue0 r → P r) : (∀ r ∈ newStores t u, P r) ↔
      (∀ r ∈ stores, P r) ∧ P ⟨status.addr, 1, if ok then virtioBlkSOk else virtioBlkSIoerr, .status⟩ := by
  obtain ⟨used, new, inRing⟩ := answers
  rw [new, List.forall_mem_append, List.forall_mem_cons]
  constructor
  · rintro ⟨data, answer, -⟩
    exact ⟨data, answer⟩
  · rintro ⟨data, answer⟩
    exact ⟨data, answer, fun r listed => ring r (inRing r listed)⟩

theorem InUsedRing.allowed {r : StoreRecord} (ring : InUsedRing t.queue0 r) : Allowed t r := by
  rw [Allowed, ring.1]
  exact ring

/-- The stores of an answered request are allowed if those of its data are and there is a
    byte for the status. -/
theorem Answers.allowed_iff (answers : Answers t u stores status ok) (request : RequestOf t req data status) :
    (∀ r ∈ newStores t u, Allowed t r) ↔ (∀ r ∈ stores, Allowed t r) ∧ status.len ≠ 0#32 := by
  rw [answers.newStores_iff fun _ => InUsedRing.allowed, Allowed.status_iff request]

theorem Answers.noData_iff (answers : Answers t u stores status ok)
    (quiet : ∀ r ∈ stores, r.purpose = .data) : (∀ r ∈ newStores t u, r.purpose ≠ .data) ↔ stores = [] := by
  rw [answers.newStores_iff fun r ring => by rw [ring.1]; decide]
  constructor
  · rintro ⟨none, -⟩
    exact List.eq_nil_iff_forall_not_mem.mpr fun r listed => none r listed (quiet r listed)
  · rintro rfl
    exact ⟨nofun, nofun⟩

theorem confined_iff (ran : processOne Blk.serve t = .ok u) : Confined t u ↔ Clean t := by
  obtain ⟨stored, pass⟩ := pass_cases ran
  have unchanged (device : u.device = t.device) : u.device.writes = t.device.writes ∧
      u.device.disk = t.device.disk := by
    rw [device]
    exact ⟨rfl, rfl⟩
  cases pass with
  | idle none used device =>
    have noData : ∀ r ∈ newStores t u, r.purpose ≠ .data := fun r listed => by rw [(used r listed).1]; decide
    constructor
    · intro _ req data status request
      exact absurd request (none req data status)
    · intro _
      exact ⟨stored.frame, fun r listed => (used r listed).allowed, .inl (unchanged device),
        fun _ => ⟨noData, unchanged device⟩⟩
  | @failed req data status request inert answers device =>
    have noData := (answers.noData_iff nofun).mpr rfl
    have other (seeks : t.device.seeks req.sector = true) : req.type ≠ virtioBlkTIn ∧ req.type ≠ virtioBlkTOut :=
      inert.resolve_left (Bool.not_eq_false _ ▸ seeks)
    rw [request.clean_iff]
    constructor
    · intro confined
      exact ⟨((answers.allowed_iff request).mp confined.stores).2, fun type seeks => absurd type (other seeks).1,
        fun type seeks => absurd type (other seeks).2⟩
    · rintro ⟨room, -⟩
      exact ⟨stored.frame, (answers.allowed_iff request).mpr ⟨nofun, room⟩, .inl (unchanged device),
        fun _ => ⟨noData, unchanged device⟩⟩
  | @read req data status img buf request type seeks _ content answers device =>
    have full : 0 + dataTotal data ≤ buf.length := by
      rw [content, List.length_append, List.length_replicate]
      omega
    have noData := answers.noData_iff scatterLog_data
    have report := answers.reported scatterLog_data
    rw [request.clean_iff]
    constructor
    · intro confined
      refine ⟨((answers.allowed_iff request).mp confined.stores).2, fun _ _ => ?_, fun type' => ?_⟩
      · -- An error is reported unless all buffers are writable, and then no byte may be stored.
        cases all : data.all (·.writable) with
        | true => exact .inl rfl
        | false =>
          rw [all] at report
          exact .inr ((scatterLog_eq_nil_iff full).mp (noData.mp (confined.failure report).1))
      · rw [type] at type'
        cases type'
    · rintro ⟨room, copies, -⟩
      refine ⟨stored.frame, (answers.allowed_iff request).mpr ⟨fun r listed => ?_, room⟩, .inl (unchanged device),
        fun failed => ?_⟩
      · obtain ⟨purpose, bytes, d, mem, covers⟩ := scatterLog_covered r listed
        rcases copies type seeks with all | empty
        · rw [reached_of_all all] at mem
          rw [Allowed, purpose]
          exact ⟨bytes, req, data, status, request, type, d, mem, List.all_eq_true.mp all d mem, covers⟩
        · rw [(scatterLog_eq_nil_iff full).mpr empty] at listed
          cases listed
      · refine ⟨noData.mpr ?_, unchanged device⟩
        rcases copies type seeks with all | empty
        · rw [report, all] at failed
          cases failed
        · exact (scatterLog_eq_nil_iff full).mpr empty
  | @write req data status img buf request type seeks present _ _ _ writes answers =>
    have noData := (answers.noData_iff nofun).mpr rfl
    have report := answers.reported nofun
    have written : u.device.writes ≠ t.device.writes := by
      rw [writes]
      exact fun same => List.cons_ne_nil _ _ (List.self_eq_append_right.mp same.symm)
    rw [request.clean_iff]
    constructor
    · intro confined
      refine ⟨((answers.allowed_iff request).mp confined.stores).2, fun type' => ?_, fun _ _ => ?_⟩
      · rw [type] at type'
        cases type'
      · rcases confined.disk with ⟨same, -⟩ | ⟨done, -⟩
        · exact absurd same written
        · rw [report] at done
          by_contra odd
          rw [decide_eq_false odd] at done
          cases done
    · rintro ⟨room, -, whole⟩
      rw [decide_eq_true (whole type seeks)] at report
      refine ⟨stored.frame, (answers.allowed_iff request).mpr ⟨nofun, room⟩,
        .inr ⟨report, req, data, status, request, type⟩, fun failed => ?_⟩
      rw [report] at failed
      cases failed

/-- In every call that returns, each pass is confined exactly if the request it starts with is
    clean: its status descriptor has room for the status, a read is not copied into a buffer
    that the driver kept for itself, and a write is of whole sectors. -/
theorem confined_call_iff (s u : VirtioBlk) (qsel : BitVec 32) (ran : s.processQueue qsel = .ok u) :
    ∃ l, Calls Blk.serve qsel s l u ∧ ((∀ p ∈ l, Confined p.1 p.2) ↔ ∀ p ∈ l, Clean p.1) :=
  processQueue_calls_iff confined_iff ran

/-- One sector of fives. -/
def fives : Blk := Blk.init (some ⟨512, fun _ => 5#8⟩) (by rintro _ ⟨⟩; decide)

/-- A request of the given type: header at `0x80000300`, one data byte at `0x80000400` with the
    given flags, status at `0x80000500` with the given length. -/
def byteRequest (type flags statusLen : Byte) : List (Nat × Byte) :=
  [(1, 3#8), (3, 0x80#8), (8, 16#8), (12, 1#8), (14, 1#8), (17, 4#8), (19, 0x80#8), (24, 1#8), (28, flags), (30, 2#8),
    (33, 5#8), (35, 0x80#8), (40, statusLen), (44, 2#8), (0x300, type)]

/-- One byte of sector 0 is read into a writable buffer. -/
def byteRead : VirtioBlk := offered fives (byteRequest 0#8 3#8 1#8)

theorem byteRead_request : RequestOf byteRead ⟨0#32, 0#32, 0#64⟩ [⟨0x80000400#64, 1#32, 3#16, 2#16⟩]
    ⟨0x80000500#64, 1#32, 2#16, 0#16⟩ :=
  ⟨0#64, _, ⟨rfl, rfl⟩, _, _, rfl, Nat.le_refl 16, rfl, rfl⟩

theorem confined_byteRead : ∃ u l, byteRead.processQueue 0#32 = .ok u ∧ u.mem.load 0x80000400#64 8 = .ok 5#64 ∧
    Calls Blk.serve 0#32 byteRead l u ∧ l.length = 1 ∧ ∀ p ∈ l, Confined p.1 p.2 := by
  obtain ⟨u, ran, moved⟩ : ∃ u, byteRead.processQueue 0#32 = .ok u ∧ u.mem.load 0x80000400#64 8 = .ok 5#64 :=
    ⟨_, rfl, rfl⟩
  obtain ⟨l, calls, law⟩ := confined_call_iff _ u 0#32 ran
  obtain rfl := (calls.1 ⟨rfl, rfl, by decide⟩).single rfl
  refine ⟨u, _, ran, moved, calls, rfl, law.mpr fun p listed => ?_⟩
  obtain rfl := List.mem_singleton.mp listed
  exact byteRead_request.clean_iff.mpr ⟨by decide, fun _ _ => .inl rfl, nofun⟩

/-- Effects without leave: a read is copied into a buffer that is not writable, and a part of
    a sector is written to the image, both before the error is reported; and the status is
    stored at a status descriptor of length zero. -/
theorem error_after_effects :
    (∃ u, VirtioBlk.processQueue (offered fives (byteRequest 0#8 1#8 1#8)) 0#32 = .ok u ∧
      reported (offered fives (byteRequest 0#8 1#8 1#8)) u = some virtioBlkSIoerr ∧
      (offered fives (byteRequest 0#8 1#8 1#8)).mem.load 0x80000400#64 8 = .ok 0#64 ∧
      u.mem.load 0x80000400#64 8 = .ok 5#64) ∧
    (∃ u, VirtioBlk.processQueue (offered fives (byteRequest 1#8 1#8 1#8)) 0#32 = .ok u ∧
      reported (offered fives (byteRequest 1#8 1#8 1#8)) u = some virtioBlkSIoerr ∧
      (fives.disk.map fun img => img.data 0) = some 5#8 ∧ (u.device.disk.map fun img => img.data 0) = some 0#8) ∧
    (∃ u, VirtioBlk.processQueue (offered fives (byteRequest 2#8 1#8 0#8)) 0#32 = .ok u ∧
      (offered fives (byteRequest 2#8 1#8 0#8)).mem.load 0x80000500#64 8 = .ok 0#64 ∧
      u.mem.load 0x80000500#64 8 = .ok 1#64) :=
  ⟨⟨_, rfl, rfl, rfl, rfl⟩, ⟨_, rfl, rfl, rfl, rfl⟩, ⟨_, rfl, rfl, rfl⟩⟩

end VirtioBlk

end Rv64Vm
