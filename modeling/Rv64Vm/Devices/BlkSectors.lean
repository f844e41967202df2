import Rv64Vm.Devices.BlkEffects

/-! # Which bytes of the image a request reaches

A request for sector `s` and `d` bytes is about the image bytes from `512 * s` on, and the
device advertises how many sectors there are. The device never compares the two: the offset is
`s * 512` modulo `2 ^ 64`, reading past the end delivers zeros, and writing past the end grows
the image.
-/

namespace Rv64Vm

open Lib

namespace VirtioBlk

open Virtio

variable {t u : VirtioBlk} {req : VirtioBlkReq} {data : List VirtqDesc} {status : VirtqDesc}

/-- The range of a request lies within the advertised sectors; an empty range always does. -/
def InRange (b : Blk) (sector : Word) (d : Nat) : Prop :=
  d = 0 ∨ sectorSize * sector.toNat + d ≤ sectorSize * b.capacitySectors.toNat

/-- The bytes that the pass stores into data buffers, in order. -/
def delivered (t u : VirtioBlk) : List Word := ((newStores t u).filter (·.purpose = .data)).map (·.value)

/-- The image bytes `[512 * sector, 512 * sector + d)`. -/
def sectorBytes (img : Image) (sector : Word) (d : Nat) : List Byte :=
  (List.range d).map fun i => img.data (sectorSize * sector.toNat + i)

/-- `img'` is `img` with the bytes from `512 * sector` on replaced by `buf`. -/
def Replaced (img img' : Image) (sector : Word) (buf : List Byte) : Prop :=
  ∀ i < img.size, img'.data i =
    if sectorSize * sector.toNat ≤ i ∧ i < sectorSize * sector.toNat + buf.length then
      buf.getD (i - sectorSize * sector.toNat) 0
    else img.data i

/-- A request reported as done has moved the bytes it names, and they are advertised. -/
structure Transferred (t u : VirtioBlk) (req : VirtioBlkReq) (data : List VirtqDesc) : Prop where
  type : req.type = virtioBlkTIn ∨ req.type = virtioBlkTOut
  range : InRange t.device req.sector (dataTotal data)
  read : req.type = virtioBlkTIn → ∃ img, t.device.disk = some img ∧
    delivered t u = (sectorBytes img req.sector (dataTotal data)).map (BitVec.setWidth 64)
  write : req.type = virtioBlkTOut → ∃ img img' buf, t.device.disk = some img ∧ u.device.disk = some img' ∧
    gather t.mem (dataTotal data) data 0 true = .ok (buf, true) ∧ buf.length = dataTotal data ∧
    Replaced img img' req.sector buf

structure Addressed (t u : VirtioBlk) : Prop where
  done : ∀ req data status, RequestOf t req data status → reported t u = some virtioBlkSOk → Transferred t u req data
  /-- Every other request is reported as failed. -/
  otherwise : ∀ req data status, RequestOf t req data status →
    reported t u = some virtioBlkSOk ∨ reported t u = some virtioBlkSIoerr
  /-- The image does not grow. -/
  size : u.device.disk.map Image.size = t.device.disk.map Image.size

/-- The request stays within the advertised sectors where its status depends on nothing else,
    and within the image where it is written before the error is reported. -/
def InBounds (t : VirtioBlk) : Prop :=
  ∀ req data status, RequestOf t req data status → t.device.seeks req.sector = true →
    (req.type = virtioBlkTIn → data.all (·.writable) = true → InRange t.device req.sector (dataTotal data)) ∧
    (req.type = virtioBlkTOut →
      if dataTotal data % 512 = 0 then InRange t.device req.sector (dataTotal data)
      else ∀ img, t.device.disk = some img → (Blk.offset req.sector).toNat + dataTotal data ≤ img.size)

theorem RequestOf.inBounds_iff (request : RequestOf t req data status) (seeks : t.device.seeks req.sector = true) :
    InBounds t ↔
      (req.type = virtioBlkTIn → data.all (·.writable) = true → InRange t.device req.sector (dataTotal data)) ∧
      (req.type = virtioBlkTOut →
        if dataTotal data % 512 = 0 then InRange t.device req.sector (dataTotal data)
        else ∀ img, t.device.disk = some img → (Blk.offset req.sector).toNat + dataTotal data ≤ img.size) := by
  refine ⟨fun bounds => bounds req data status request seeks, fun bounds req' data' status' request' _ => ?_⟩
  obtain ⟨rfl, rfl, rfl⟩ := request.unique request'
  exact bounds

variable {img : Image} {buf : List Byte}

theorem InRange.offset {b : Blk} {sector : Word} {d : Nat} (range : InRange b sector d) (nonempty : d ≠ 0)
    (present : b.disk = some img) :
    (Blk.offset sector).toNat = sectorSize * sector.toNat ∧ (Blk.offset sector).toNat + d ≤ img.size := by
  have inside := range.resolve_left nonempty
  have long := b.long
  have advertised := b.advertised img present
  have place : (Blk.offset sector).toNat = sectorSize * sector.toNat := by
    rw [Blk.offset, BitVec.toNat_mul, Nat.mul_comm]
    exact Nat.mod_eq_of_lt (by simp only [sectorSize, BitVec.toNat_ofNat] at *; omega)
  exact ⟨place, by omega⟩

theorem fread_eq {offset d : Nat} (inside : offset + d ≤ img.size) :
    img.fread offset d ++ List.replicate (d - (img.fread offset d).length) 0 =
      (List.range d).map fun i => img.data (offset + i) := by
  have all : min d (img.size - offset) = d := by omega
  rw [Image.fread, all, List.length_map, List.length_range, Nat.sub_self, List.replicate_zero, List.append_nil]

theorem Answers.delivered {stores : List StoreRecord} {ok : Bool} (answers : Answers t u stores status ok)
    (quiet : ∀ r ∈ stores, r.purpose = .data) : delivered t u = stores.map (·.value) := by
  obtain ⟨used, new, ring⟩ := answers
  have kept : stores.filter (·.purpose = .data) = stores := List.filter_eq_self.mpr (by simpa using quiet)
  have dropped : used.filter (·.purpose = .data) = [] := by
    rw [List.filter_eq_nil_iff]
    intro r listed
    simp [(ring r listed).1]
  rw [VirtioBlk.delivered, new, List.filter_append, kept, List.filter_cons_of_neg (by simp), dropped, List.append_nil]

/-- Into writable buffers the copy loop delivers the whole buffer. -/
theorem scatterLog_values {pos : Nat} (all : data.all (·.writable) = true)
    (full : pos + dataTotal data ≤ buf.length) :
    (scatterLog buf data pos).map (·.value) = ((buf.drop pos).take (dataTotal data)).map (BitVec.setWidth 64) := by
  induction data generalizing pos with
  | nil => simp [scatterLog, dataTotal]
  | cons d rest ih =>
    have total : dataTotal (d :: rest) = d.len.toNat + dataTotal rest := rfl
    have copied : min d.len.toNat (buf.length - pos) = d.len.toNat := by omega
    rw [List.all_cons, Bool.and_eq_true] at all
    rw [scatterLog, copied, if_pos all.1, List.map_append, GuestMemory.copyLog_values, ih all.2 (by omega),
      ← List.map_append, total, List.take_add, List.drop_drop]

theorem size_fwrite {offset : Nat} :
    (img.fwrite offset buf).size = img.size ↔ buf.length = 0 ∨ offset + buf.length ≤ img.size := by
  rw [Image.fwrite, List.length_eq_zero_iff]
  by_cases empty : buf = []
  · simp [empty]
  · simp only [empty, if_false, false_or]
    omega

/-- A write in range replaces exactly the named bytes. -/
theorem InRange.replaced {b : Blk} {sector : Word}
    (range : InRange b sector buf.length) (present : b.disk = some img) :
    Replaced img (img.fwrite (Blk.offset sector).toNat buf) sector buf := by
  intro i inside
  by_cases empty : buf.length = 0
  · have none (start : Nat) : ¬(start ≤ i ∧ i < start + buf.length) := by omega
    simp only [Image.fwrite, none, if_false, inside, if_true]
  · obtain ⟨place, -⟩ := range.offset empty present
    simp only [Image.fwrite, place, inside, if_true]

/-- A read in range into writable buffers delivers exactly the named bytes. -/
theorem InRange.delivered {b : Blk} {sector : Word} (all : data.all (·.writable) = true)
    (range : InRange b sector (dataTotal data)) (present : b.disk = some img)
    (content : buf = img.fread (Blk.offset sector).toNat (dataTotal data) ++
      List.replicate (dataTotal data - (img.fread (Blk.offset sector).toNat (dataTotal data)).length) 0)
    (full : buf.length = dataTotal data) :
    (scatterLog buf data 0).map (·.value) = (sectorBytes img sector (dataTotal data)).map (BitVec.setWidth 64) := by
  rw [scatterLog_values all (by omega), List.drop_zero, ← full, List.take_length, full]
  by_cases empty : dataTotal data = 0
  · have nil : buf = [] := List.length_eq_zero_iff.mp (full.trans empty)
    rw [nil, empty]
    rfl
  · obtain ⟨place, inside⟩ := range.offset empty present
    rw [content, fread_eq inside, place]
    rfl

theorem addressed_iff (ran : processOne Blk.serve t = .ok u) : Addressed t u ↔ InBounds t := by
  obtain ⟨-, pass⟩ := pass_cases ran
  cases pass with
  | idle none _ device =>
    have no {P : Prop} {req : VirtioBlkReq} {data : List VirtqDesc} {status : VirtqDesc}
        (request : RequestOf t req data status) : P := absurd request (none req data status)
    exact ⟨fun _ _ _ _ request => no request,
      fun _ => ⟨fun _ _ _ request => no request, fun _ _ _ request => no request, by rw [device]⟩⟩
  | @failed req data status request inert answers device =>
    have report := answers.reported nofun
    constructor
    · intro _ req' data' status' request' seeks
      obtain ⟨rfl, rfl, rfl⟩ := request.unique request'
      have other := inert.resolve_left (Bool.not_eq_false _ ▸ seeks)
      exact ⟨fun type => absurd type other.1, fun type => absurd type other.2⟩
    · intro _
      refine ⟨fun _ _ _ _ done => ?_, fun _ _ _ _ => .inr report, by rw [device]⟩
      rw [report] at done
      cases done
  | @read req data status img buf request type seeks present content answers device =>
    have notOut : req.type ≠ virtioBlkTOut := by rw [type]; decide
    have report := answers.reported scatterLog_data
    have full : buf.length = dataTotal data := by
      have short : (img.fread (Blk.offset req.sector).toNat (dataTotal data)).length ≤ dataTotal data := by
        rw [Image.fread, List.length_map, List.length_range]
        omega
      rw [content, List.length_append, List.length_replicate]
      omega
    rw [request.inBounds_iff seeks]
    constructor
    · intro addressed
      refine ⟨fun _ all => ?_, fun type' => absurd type' notOut⟩
      rw [all] at report
      exact (addressed.done req data status request report).range
    · rintro ⟨bounds, -⟩
      refine ⟨fun req' data' status' request' done => ?_, fun _ _ _ _ => ?_, by rw [device]⟩
      · obtain ⟨rfl, rfl, rfl⟩ := request.unique request'
        cases all : data.all (·.writable) with
        | false =>
          rw [report, all] at done
          cases done
        | true =>
          have range := bounds type all
          refine ⟨.inl type, range, fun _ => ⟨img, present, ?_⟩, fun type' => absurd type' notOut⟩
          rw [answers.delivered scatterLog_data, range.delivered all present content full]
      · rw [report]
        cases data.all (·.writable)
        · exact .inr rfl
        · exact .inl rfl
  | @write req data status img buf request type seeks present gathered length disk _ answers =>
    have notIn : req.type ≠ virtioBlkTIn := by rw [type]; decide
    have report := answers.reported nofun
    have grows : u.device.disk.map Image.size = t.device.disk.map Image.size ↔
        dataTotal data = 0 ∨ (Blk.offset req.sector).toNat + dataTotal data ≤ img.size := by
      rw [disk, present, Option.map_some, Option.map_some, Option.some.injEq, size_fwrite, length]
    rw [request.inBounds_iff seeks]
    constructor
    · intro addressed
      refine ⟨fun type' => absurd type' notIn, fun _ => ?_⟩
      split
      · rename_i whole
        rw [decide_eq_true whole] at report
        exact (addressed.done req data status request report).range
      · rename_i odd
        rintro img' present'
        obtain rfl := Option.some.inj (present.symm.trans present')
        exact (grows.mp addressed.size).resolve_left fun zero => odd (by rw [zero])
    · rintro ⟨-, bounds⟩
      have bounds := bounds type
      refine ⟨fun req' data' status' request' done => ?_, fun _ _ _ _ => ?_, grows.mpr ?_⟩
      · obtain ⟨rfl, rfl, rfl⟩ := request.unique request'
        by_cases whole : dataTotal data % 512 = 0
        · rw [if_pos whole] at bounds
          refine ⟨.inr type, bounds, fun type' => absurd type' notIn, fun _ => ?_⟩
          rw [← length] at bounds
          exact ⟨img, _, buf, present, disk, gathered, length, bounds.replaced present⟩
        · rw [report, decide_eq_false whole] at done
          cases done
      · rw [report]
        cases decide (dataTotal data % 512 = 0)
        · exact .inr rfl
        · exact .inl rfl
      · split at bounds
        · by_cases zero : dataTotal data = 0
          · exact .inl zero
          · exact .inr (bounds.offset zero present).2
        · exact .inr (bounds img present)

end VirtioBlk

end Rv64Vm
