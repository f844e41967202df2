import Rv64Vm.Devices.Virtqueue

/-! # The VirtIO block device

A request is a chain: a header, data descriptors and a status descriptor. `serve` is what
`process_queue` does with one chain. The image is a byte array under a `FILE*`: `fseek` takes
its offset as a `long` and refuses a negative one, reading past the end is short, writing past
the end extends the array and leaves zeros between.
-/

namespace Rv64Vm

open Lib

def sectorSize : Nat := 512

/-- The bytes of the image file. -/
structure Image where
  size : Nat
  data : Nat → Byte

namespace Image

/-- `fread` of `bytes` bytes: those that exist. -/
def fread (img : Image) (offset bytes : Nat) : List Byte :=
  (List.range (min bytes (img.size - offset))).map fun i => img.data (offset + i)

/-- `fwrite` of a buffer. -/
def fwrite (img : Image) (offset : Nat) (buf : List Byte) : Image where
  size := if buf = [] then img.size else max img.size (offset + buf.length)
  data i :=
    if offset ≤ i ∧ i < offset + buf.length then buf.getD (i - offset) 0
    else if i < img.size then img.data i else 0

theorem size_le_fwrite (img : Image) (offset : Nat) (buf : List Byte) : img.size ≤ (img.fwrite offset buf).size := by
  simp only [fwrite]
  split
  · exact Nat.le_refl _
  · exact Nat.le_max_left ..

end Image

/-- The image and the capacity that the constructor took from its length. -/
structure Blk where
  /-- `none` is the null pointer. -/
  disk : Option Image
  capacitySectors : Word
  /-- Offset and length of each `fwrite`, oldest first; no code reads it. -/
  writes : List (Nat × Nat) := []
  /-- The capacity was a `long` divided by the sector size. -/
  long : sectorSize * capacitySectors.toNat < 2 ^ 63
  /-- The image has at least the sectors that are advertised. -/
  advertised : ∀ img, disk = some img → sectorSize * capacitySectors.toNat ≤ img.size

namespace Blk

/-- The constructor; `ftell` returns the length as a `long`. -/
def init : (disk : Option Image) → (∀ img, disk = some img → img.size < 2 ^ 63) → Blk
  | none, _ => { disk := none, capacitySectors := 0#64, long := by decide, advertised := nofun }
  | some img, fits =>
    have small : img.size / sectorSize < 2 ^ 64 := by
      have := fits img rfl
      simp only [sectorSize]
      omega
    have count : (BitVec.ofNat 64 (img.size / sectorSize)).toNat = img.size / sectorSize :=
      Nat.mod_eq_of_lt small
    { disk := some img
      capacitySectors := BitVec.ofNat 64 (img.size / sectorSize)
      long := by
        have := fits img rfl
        rw [count]
        exact Nat.lt_of_le_of_lt (Nat.mul_div_le ..) this
      advertised := by
        rintro _ ⟨⟩
        rw [count]
        exact Nat.mul_div_le .. }

/-- `sector * SECTOR_SIZE` in `uint64_t`. -/
def offset (sector : Word) : Word := sector * 512#64

/-- `fseek` succeeds: there is a file, and the offset is not negative as a `long`. -/
def seeks (b : Blk) (sector : Word) : Bool := b.disk.isSome && !(offset sector).msb

/-- `disk_read`: the buffer, or `none` for `false`. -/
def diskRead (b : Blk) (sector : Word) (bytes : Nat) : Option (List Byte) :=
  match b.disk with
  | none => none
  | some img =>
    if (offset sector).msb then none
    else
      let buf := img.fread (offset sector).toNat bytes
      some (buf ++ List.replicate (bytes - buf.length) 0)

/-- `disk_write`: the device after it, or `none` for `false`. -/
def diskWrite (b : Blk) (sector : Word) (buf : List Byte) : Option Blk :=
  match present : b.disk with
  | none => none
  | some img =>
    if (offset sector).msb then none
    else some
      { b with
        disk := some (img.fwrite (offset sector).toNat buf)
        writes := b.writes ++ [((offset sector).toNat, buf.length)]
        advertised := by
          rintro _ ⟨⟩
          exact Nat.le_trans (b.advertised img present) (img.size_le_fwrite ..) }

end Blk

def virtioBlkTIn : BitVec 32 := 0#32
def virtioBlkTOut : BitVec 32 := 1#32
def virtioBlkSOk : Word := 0#64
def virtioBlkSIoerr : Word := 1#64

structure VirtioBlkReq where
  type : BitVec 32
  reserved : BitVec 32
  sector : Word
  deriving DecidableEq, Repr

/-- The header, copied into the packed structure. -/
def readReq (mem : GuestMemory) (addr : Word) : Except HostError VirtioBlkReq := do
  let bytes ← mem.copyFromDram addr 16
  let field (w off n : Nat) : BitVec w := loadLE w (fun i => bytes.getD (off + i) 0) n
  return ⟨field 32 0 4, field 32 4 4, field 64 8 8⟩

/-- The status descriptor is the last one after the header that has WRITE; the data
    descriptors are those between the header and it. -/
def splitStatus : List VirtqDesc → Option (List VirtqDesc × VirtqDesc)
  | [] => none
  | d :: rest =>
    match splitStatus rest with
    | some (data, status) => some (d :: data, status)
    | none => if d.writable then some ([], d) else none

def dataTotal (data : List VirtqDesc) : Nat := (data.map fun d => d.len.toNat).sum

/-- The copy loop of a read; `pos` bytes of `buf` are delivered, and `ok` ends it. -/
def scatter (buf : List Byte) : List VirtqDesc → Nat → GuestMemory → Except HostError (GuestMemory × Bool)
  | [], _, mem => .ok (mem, true)
  | d :: rest, pos, mem => do
      let toCopy := min d.len.toNat (buf.length - pos)
      let mem ← mem.copyToDram d.addr ((buf.drop pos).take toCopy)
      if d.writable then scatter buf rest (pos + toCopy) mem else return (mem, false)

/-- The copy loop of a write: the buffer and `ok`. -/
def gather (mem : GuestMemory) (total : Nat) : List VirtqDesc → Nat → Bool → Except HostError (List Byte × Bool)
  | [], _, ok => .ok ([], ok)
  | d :: rest, pos, ok => do
      let ok := if pos + d.len.toNat > total then false else ok
      let bytes ← mem.copyFromDram d.addr d.len.toNat
      let (later, ok) ← gather mem total rest (pos + d.len.toNat) ok
      return (bytes ++ later, ok)

/-- The operation of a request, and `ok` after it. -/
def perform (mem : GuestMemory) (b : Blk) (req : VirtioBlkReq) (data : List VirtqDesc) :
    Except HostError (GuestMemory × Blk × Bool) := do
  let total := dataTotal data
  if req.type = virtioBlkTIn then
    match b.diskRead req.sector total with
    | none => return (mem, b, false)
    | some buf =>
      let (mem, ok) ← scatter buf data 0 mem
      return (mem, b, ok)
  else if req.type = virtioBlkTOut then
    let (buf, ok) ← gather mem total data 0 true
    let ok := if total % 512 ≠ 0 then false else ok
    match b.diskWrite req.sector buf with
    | none => return (mem, b, false)
    | some b => return (mem, b, ok)
  else return (mem, b, false)

/-- The stores of a copy loop of a read. -/
def scatterLog (buf : List Byte) : List VirtqDesc → Nat → List StoreRecord
  | [], _ => []
  | d :: rest, pos =>
    let toCopy := min d.len.toNat (buf.length - pos)
    GuestMemory.copyLog d.addr ((buf.drop pos).take toCopy) ++
      if d.writable then scatterLog buf rest (pos + toCopy) else []

theorem scatter_stored {buf : List Byte} {data : List VirtqDesc} {pos : Nat} {mem mem' : GuestMemory} {ok : Bool}
    (ran : scatter buf data pos mem = .ok (mem', ok)) :
    mem.Stored mem' (scatterLog buf data pos) ∧ ok = data.all (·.writable) := by
  induction data generalizing pos mem with
  | nil =>
    obtain ⟨rfl, rfl⟩ := Prod.mk.inj (Except.ok.inj ran)
    exact ⟨.refl mem, rfl⟩
  | cons d rest ih =>
    obtain ⟨next, copied, ran⟩ := bind_eq_ok.mp ran
    have first := GuestMemory.copyToDram_stored copied
    cases write : d.writable with
    | false =>
      simp only [write, Bool.false_eq_true, if_false] at ran
      obtain ⟨rfl, rfl⟩ := Prod.mk.inj (pure_eq_ok.mp ran)
      simp only [scatterLog, write, List.all_cons, Bool.false_eq_true, if_false, List.append_nil, Bool.false_and]
      exact ⟨first, trivial⟩
    | true =>
      simp only [write, if_true] at ran
      obtain ⟨later, done⟩ := ih ran
      simp only [scatterLog, write, List.all_cons, if_true, Bool.true_and]
      exact ⟨first.trans later, done⟩

theorem gather_spec {mem : GuestMemory} {total pos : Nat} {data : List VirtqDesc} {buf : List Byte} {ok : Bool}
    (fits : pos + dataTotal data ≤ total) (ran : gather mem total data pos true = .ok (buf, ok)) :
    ok = true ∧ buf.length = dataTotal data := by
  induction data generalizing pos buf ok with
  | nil =>
    obtain ⟨rfl, rfl⟩ := Prod.mk.inj (Except.ok.inj ran)
    exact ⟨rfl, rfl⟩
  | cons d rest ih =>
    have sum : dataTotal (d :: rest) = d.len.toNat + dataTotal rest := rfl
    have inside : ¬ pos + d.len.toNat > total := by omega
    simp only [gather, inside, if_false] at ran
    obtain ⟨bytes, copied, ran⟩ := bind_eq_ok.mp ran
    obtain ⟨⟨later, ok'⟩, gathered, ran⟩ := bind_eq_ok.mp ran
    obtain ⟨rfl, rfl⟩ := Prod.mk.inj (pure_eq_ok.mp ran)
    obtain ⟨done, length⟩ := ih (by omega) gathered
    exact ⟨done, by rw [List.length_append, GuestMemory.copyFromDram_length copied, length, sum]⟩

namespace Blk

variable {mem mem' : GuestMemory} {b b' : Blk} {req : VirtioBlkReq} {data chain : List VirtqDesc} {ok : Bool}

theorem diskRead_eq (b : Blk) (sector : Word) (bytes : Nat) :
    (b.seeks sector = false ∧ b.diskRead sector bytes = none) ∨
      ∃ img, b.seeks sector = true ∧ b.disk = some img ∧
        b.diskRead sector bytes = some (img.fread (offset sector).toNat bytes ++
          List.replicate (bytes - (img.fread (offset sector).toNat bytes).length) 0) := by
  unfold diskRead seeks
  cases b.disk with
  | none => exact .inl ⟨rfl, rfl⟩
  | some img =>
    cases (offset sector).msb with
    | true => exact .inl ⟨rfl, rfl⟩
    | false => exact .inr ⟨img, rfl, rfl, rfl⟩

theorem diskWrite_eq (b : Blk) (sector : Word) (buf : List Byte) :
    (b.seeks sector = false ∧ b.diskWrite sector buf = none) ∨
      ∃ img b', b.seeks sector = true ∧ b.disk = some img ∧ b.diskWrite sector buf = some b' ∧
        b'.disk = some (img.fwrite (offset sector).toNat buf) ∧ b'.capacitySectors = b.capacitySectors ∧
        b'.writes = b.writes ++ [((offset sector).toNat, buf.length)] := by
  unfold diskWrite seeks
  split
  · rename_i absent
    exact .inl ⟨by rw [absent]; rfl, rfl⟩
  · rename_i img present
    cases (offset sector).msb with
    | true => exact .inl ⟨by rw [Bool.not_true, Bool.and_false], rfl⟩
    | false => exact .inr ⟨img, _, by rw [present]; rfl, present, rfl, rfl, rfl, rfl⟩

/-- What the operation of a request can do. -/
inductive Performed (mem : GuestMemory) (b : Blk) (req : VirtioBlkReq) (data : List VirtqDesc) :
    GuestMemory → Blk → Bool → Prop
  | unseekable (seeks : b.seeks req.sector = false) : Performed mem b req data mem b false
  | unsupported (notIn : req.type ≠ virtioBlkTIn) (notOut : req.type ≠ virtioBlkTOut) :
      Performed mem b req data mem b false
  | read {img : Image} {buf : List Byte} {mem' : GuestMemory} (type : req.type = virtioBlkTIn)
      (seeks : b.seeks req.sector = true) (present : b.disk = some img)
      (content : buf = img.fread (offset req.sector).toNat (dataTotal data) ++
        List.replicate (dataTotal data - (img.fread (offset req.sector).toNat (dataTotal data)).length) 0)
      (stored : mem.Stored mem' (scatterLog buf data 0)) : Performed mem b req data mem' b (data.all (·.writable))
  | write {img : Image} {buf : List Byte} {b' : Blk} (type : req.type = virtioBlkTOut)
      (seeks : b.seeks req.sector = true) (present : b.disk = some img)
      (gathered : gather mem (dataTotal data) data 0 true = .ok (buf, true)) (length : buf.length = dataTotal data)
      (disk : b'.disk = some (img.fwrite (offset req.sector).toNat buf))
      (capacity : b'.capacitySectors = b.capacitySectors)
      (writes : b'.writes = b.writes ++ [((offset req.sector).toNat, dataTotal data)]) :
      Performed mem b req data mem b' (decide (dataTotal data % 512 = 0))

theorem performed (ran : perform mem b req data = .ok (mem', b', ok)) : Performed mem b req data mem' b' ok := by
  have inert (ran : (pure (mem, b, false) : Except HostError _) = .ok (mem', b', ok)) :
      mem = mem' ∧ b = b' ∧ false = ok := by simpa [pure, Except.pure] using ran
  unfold perform at ran
  split at ran
  · rename_i type
    rcases b.diskRead_eq req.sector (dataTotal data) with ⟨seeks, refused⟩ | ⟨img, seeks, present, done⟩
    · simp only [refused] at ran
      obtain ⟨rfl, rfl, rfl⟩ := inert ran
      exact .unseekable seeks
    · simp only [done] at ran
      obtain ⟨⟨mem'', ok'⟩, scattered, ran⟩ := bind_eq_ok.mp ran
      obtain ⟨rfl, rfl, rfl⟩ : mem'' = mem' ∧ b = b' ∧ ok' = ok := by simpa [pure, Except.pure] using ran
      obtain ⟨stored, rfl⟩ := scatter_stored scattered
      exact .read type seeks present rfl stored
  · rename_i notIn
    split at ran
    · rename_i type
      obtain ⟨⟨buf, ok'⟩, gathered, ran⟩ := bind_eq_ok.mp ran
      obtain ⟨rfl, length⟩ := gather_spec (by omega) gathered
      rcases b.diskWrite_eq req.sector buf with
        ⟨seeks, refused⟩ | ⟨img, b'', seeks, present, done, disk, capacity, writes⟩
      · simp only [refused] at ran
        obtain ⟨rfl, rfl, rfl⟩ := inert ran
        exact .unseekable seeks
      · simp only [done] at ran
        obtain ⟨rfl, rfl, rfl⟩ : mem = mem' ∧ b'' = b' ∧ decide (dataTotal data % 512 = 0) = ok := by
          simpa [pure, Except.pure] using ran
        exact .write type seeks present gathered length disk capacity (length ▸ writes)
    · rename_i notOut
      obtain ⟨rfl, rfl, rfl⟩ := inert ran
      exact .unsupported notIn notOut

/-- One chain of the block queue. -/
def serve : Serve Blk := fun mem b chain =>
  match chain with
  | header :: second :: rest => do
      if header.len.toNat < 16 then return none
      let req ← readReq mem header.addr
      match splitStatus (second :: rest) with
      | none => return some (mem, b, 0#32)
      | some (data, status) =>
        let (mem, b, ok) ← perform mem b req data
        let mem ← mem.store .status status.addr 8 (if ok then virtioBlkSOk else virtioBlkSIoerr)
        return some (mem, b, 0#32)
  | _ => return none

/-- A chain is served if it has a whole header and something after it. -/
def Accepted : List VirtqDesc → Prop
  | header :: _ :: _ => 16 ≤ header.len.toNat
  | _ => False

/-- The chain is a request with a status descriptor. -/
def Request (mem : GuestMemory) (chain : List VirtqDesc) (req : VirtioBlkReq) (data : List VirtqDesc)
    (status : VirtqDesc) : Prop :=
  ∃ header rest, chain = header :: rest ∧ 16 ≤ header.len.toNat ∧ readReq mem header.addr = .ok req ∧
    splitStatus rest = some (data, status)

/-- What the device can do with a chain. -/
inductive Served (mem : GuestMemory) (b : Blk) (chain : List VirtqDesc) :
    Option (GuestMemory × Blk × BitVec 32) → Prop
  | refused (malformed : ¬ Accepted chain) : Served mem b chain none
  | silent (accepted : Accepted chain) (noStatus : ∀ req data status, ¬ Request mem chain req data status) :
      Served mem b chain (some (mem, b, 0#32))
  | answered {req : VirtioBlkReq} {data : List VirtqDesc} {status : VirtqDesc} {mem' mem'' : GuestMemory} {b' : Blk}
      {ok : Bool} (accepted : Accepted chain) (request : Request mem chain req data status)
      (performed : Performed mem b req data mem' b' ok)
      (answer : mem'.store .status status.addr 8 (if ok then virtioBlkSOk else virtioBlkSIoerr) = .ok mem'') :
      Served mem b chain (some (mem'', b', 0#32))

theorem served {answer : Option (GuestMemory × Blk × BitVec 32)} (ran : serve mem b chain = .ok answer) :
    Served mem b chain answer := by
  unfold serve at ran
  split at ran
  · rename_i header second rest
    split at ran
    · rename_i short
      obtain rfl := pure_eq_ok.mp ran
      exact .refused (Nat.not_le.mpr short)
    · rename_i whole
      have accepted : Accepted (header :: second :: rest) := Nat.not_lt.mp whole
      obtain ⟨req, read, ran⟩ := bind_eq_ok.mp ran
      cases parts : splitStatus (second :: rest) with
      | none =>
        simp only [parts] at ran
        obtain rfl := pure_eq_ok.mp ran
        refine .silent accepted ?_
        rintro req data status ⟨_, _, same, -, -, found⟩
        obtain ⟨rfl, rfl⟩ := List.cons.inj same
        rw [parts] at found
        cases found
      | some p =>
        simp only [parts] at ran
        obtain ⟨⟨mem', b', ok⟩, ran', ran⟩ := bind_eq_ok.mp ran
        obtain ⟨mem'', stored, ran⟩ := bind_eq_ok.mp ran
        obtain rfl := pure_eq_ok.mp ran
        exact .answered accepted ⟨header, _, rfl, accepted, read, parts⟩ (Blk.performed ran') stored
  · rename_i short
    obtain rfl := pure_eq_ok.mp ran
    refine .refused fun accepted => ?_
    match chain, accepted, short with
    | header :: second :: rest, _, short => exact short header second rest rfl

end Blk

abbrev VirtioBlk := Virtio Blk

def VirtioBlk.processQueue (s : VirtioBlk) (qsel : BitVec 32) : Except HostError VirtioBlk :=
  Virtio.processQueue Blk.serve s qsel

end Rv64Vm
