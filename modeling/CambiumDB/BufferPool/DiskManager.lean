import CambiumDB.Lib.File
import CambiumDB.PageCodec.MetaDataSpec

/-!
# `bufferpoolmanager/direct_io_disk_manager.go`

The manager keeps the file and the decoded metadata. A system call may fail; a write that
fails may have written some of its bytes.
-/

namespace CambiumDB

open ByteBuffer

inductive AllocationSource where
  | freelist
  | fileExpansion
  deriving DecidableEq

/-- How a `WriteAt` ends: with all bytes written, or with an error after some of them. -/
inductive WriteResult where
  | done
  | failed (written : Nat)

structure DiskManager where
  file : File
  metadata : MetaData

/-- Recovery takes a page off the free list: the last id of the list goes to its place. -/
def swapRemove (list : List UInt64) (pageId : UInt64) : List UInt64 :=
  match list.idxOf? pageId with
  | none => list
  | some i => (list.set i (list.getLastD 0)).dropLast

theorem mem_of_mem_swapRemove {list : List UInt64} {pageId p : UInt64}
    (member : p ∈ swapRemove list pageId) : p ∈ list := by
  rw [swapRemove] at member
  split at member
  next => exact member
  next i found =>
    have nonempty : list ≠ [] := by
      rintro rfl
      cases found
    have listed := (List.dropLast_sublist _).subset member
    rcases List.mem_or_eq_of_mem_set listed with old | last
    · exact old
    · rw [last, List.getLastD_eq_getLast?, List.getLast?_eq_some_getLast nonempty]
      exact List.getLast_mem nonempty

namespace DiskManager

/-- Offsets are `int64`. -/
def maxFileSize : Nat := 2 ^ 63

/-- `int64(pageId) * 4096`; a negative offset is refused. -/
def pageOffset (pageId : UInt64) : Option Nat :=
  let offset := 4096 * pageId.toNat % 2 ^ 64
  if offset < maxFileSize then some offset else none

/-- The number of pages that lie wholly in the file. -/
def numPages (disk : DiskManager) : Nat := disk.file.size / 4096

def read (disk : DiskManager) (pageId : UInt64) : Option Page := do
  let offset ← pageOffset pageId
  disk.file.read offset 4096

theorem read_congr {disk disk' : DiskManager} (file : disk'.file = disk.file) (pageId : UInt64) :
    disk'.read pageId = disk.read pageId := by
  rw [read, read, file]

/-- A page written as a whole. -/
def writePage (disk : DiskManager) (pageId : UInt64) (data : Page) : Option DiskManager := do
  let offset ← pageOffset pageId
  some { disk with file := disk.file.write offset (data.read 0 4096) }

def write (disk : DiskManager) (pageId : UInt64) (data : Page) (result : WriteResult) :
    Bool × DiskManager :=
  match pageOffset pageId with
  | none => (false, disk)
  | some offset =>
    match result with
    | .done => (true, { disk with file := disk.file.write offset (data.read 0 4096) })
    | .failed written =>
      (false, { disk with file := disk.file.write offset ((data.read 0 4096).take written) })

/-- Zero bytes written at an offset, or as many of them as were written before the error. -/
def writeZeros (disk : DiskManager) (offset count : Nat) : WriteResult → Bool × DiskManager
  | .done =>
    if offset + count ≤ maxFileSize then
      (true, { disk with file := disk.file.write offset (List.replicate count 0) })
    else (false, disk)
  | .failed written =>
    (false, { disk with
      file := disk.file.write offset
        (List.replicate (min written (min count (maxFileSize - offset))) 0) })

/-- The free list first; then, once its last page is allocated, the file is extended. -/
def allocatePage (disk : DiskManager) (statFails : Bool) (result : WriteResult) :
    Option (UInt64 × AllocationSource) × DiskManager :=
  match disk.metadata.deallocatedPageIdList with
  | pageId :: rest =>
    (some (pageId, .freelist),
      { disk with metadata := { disk.metadata with deallocatedPageIdList := rest } })
  | [] =>
    let pageId := disk.metadata.maxAllocatedPageId + 1
    if statFails then (none, disk)
    else
      let (extended, disk) :=
        if pageId.toNat = disk.numPages then
          disk.writeZeros (4096 * pageId.toNat) (16 * 4096) result
        else (true, disk)
      if extended then
        (some (pageId, .fileExpansion),
          { disk with metadata := { disk.metadata with maxAllocatedPageId := pageId } })
      else (none, disk)

/-- For recovery: the file is extended up to the page, which then counts as allocated. -/
def ensurePageExists (disk : DiskManager) (pageId : UInt64) (statFails : Bool)
    (result : WriteResult) : Bool × DiskManager :=
  if statFails then (false, disk)
  else
    let requiredPages := (pageId + 1).toNat
    let (extended, disk) :=
      if disk.numPages < requiredPages then
        disk.writeZeros (4096 * disk.numPages)
          (4096 * (requiredPages - disk.numPages) % 2 ^ 64) result
      else (true, disk)
    if extended then
      (true, { disk with metadata := { disk.metadata with
        maxAllocatedPageId := if disk.metadata.maxAllocatedPageId < pageId then pageId
          else disk.metadata.maxAllocatedPageId } })
    else (false, disk)

def deallocatePage (disk : DiskManager) (pageId : UInt64) : DiskManager :=
  { disk with
    metadata := { disk.metadata with
      deallocatedPageIdList := disk.metadata.deallocatedPageIdList ++ [pageId] } }

/-- `close`: the metadata page is written; `none` is the panic of the encoder. -/
def close (disk : DiskManager) : Option File := do
  let page ← MetaDataCodec.encodeMetaDataPage disk.metadata
  some (disk.file.write 0 (page.read 0 4096))

def newMetaData : MetaData := ⟨0, 0, [], 0, [], []⟩

/-- `NewDirectIODiskManager` without a file. -/
def create : Option DiskManager := do
  let page ← MetaDataCodec.encodeMetaDataPage newMetaData
  some ⟨File.empty.write 0 (page.read 0 4096), newMetaData⟩

/-- `NewDirectIODiskManager` with an existing file. -/
def openFile (file : File) : Option DiskManager := do
  let page ← file.read 0 4096
  let metadata ← MetaDataCodec.decodeMetaDataPage page
  some ⟨file, metadata⟩

theorem create_eq_some {disk : DiskManager} (created : create = some disk) :
    disk.file.size = 4096 ∧ disk.metadata = newMetaData := by
  rw [create] at created
  cases encoded : MetaDataCodec.encodeMetaDataPage newMetaData with
  | none =>
    rw [encoded] at created
    cases created
  | some page =>
    rw [encoded] at created
    obtain rfl := Option.some.inj created
    refine ⟨?_, rfl⟩
    rw [File.size_write _ _ _ (Nat.zero_le _), Buffer.length_read]
    rfl

theorem create_isSome : ∃ disk, create = some disk := by
  have fits : (MetaDataCodec.encodeMetaDataPage newMetaData).isSome :=
    (MetaDataCodec.encode_isSome_iff newMetaData).mpr (by decide)
  obtain ⟨page, encoded⟩ := Option.isSome_iff_exists.mp fits
  refine ⟨⟨File.empty.write 0 (page.read 0 4096), newMetaData⟩, ?_⟩
  rw [create, encoded]
  rfl

theorem create_read {disk : DiskManager} (created : create = some disk) :
    ∃ data, disk.read 0 = some data := by
  have size := (create_eq_some created).1
  have offset : pageOffset 0 = some 0 := by decide
  refine ⟨Buffer.ofBytes 4096 fun i => disk.file.byte (0 + i), ?_⟩
  simp only [read, offset, Option.bind_eq_bind, Option.bind_some, File.read]
  rw [if_pos (by omega)]

/-! ### Extending the file -/

/-- The file as it was, or with zero bytes written after its last whole page. -/
def Extends (file file' : File) : Prop :=
  file' = file ∨
    ∃ count, file' = file.write (4096 * (file.size / 4096)) (List.replicate count 0)

section
variable {file file' : File}

theorem Extends.size_le (extends_ : Extends file file') : file.size ≤ file'.size := by
  rcases extends_ with rfl | ⟨count, rfl⟩
  · exact le_refl _
  · exact File.size_le_write ..

/-- The pages that were there are left alone. -/
theorem Extends.read_old (extends_ : Extends file file') {page : Nat}
    (old : page < file.size / 4096) :
    file'.read (4096 * page) 4096 = file.read (4096 * page) 4096 := by
  rcases extends_ with rfl | ⟨count, rfl⟩
  · rfl
  · have whole : 4096 * page + 4096 ≤ file.size := by omega
    exact File.read_write_outside file (4096 * page) 4096 _ whole (.inl (by omega))

/-- The pages that were added are zero. -/
theorem Extends.read_new (extends_ : Extends file file') {page : Nat}
    (new : file.size / 4096 ≤ page) (inside : 4096 * (page + 1) ≤ file'.size) :
    file'.read (4096 * page) 4096 = some (Buffer.zero 4096) := by
  rcases extends_ with rfl | ⟨count, rfl⟩
  · omega
  · have floor := Nat.mul_div_le file.size 4096
    rw [File.size_write _ _ _ floor, List.length_replicate] at inside
    have lower : 4096 * (file.size / 4096) ≤ 4096 * page := by omega
    have upper : 4096 * page + 4096 ≤ 4096 * (file.size / 4096) + count := by omega
    exact File.read_zeros file _ 4096 count (by decide) lower upper

end

theorem writeZeros_spec {disk disk' : DiskManager} {count : Nat} {result : WriteResult} {ok : Bool}
    (limit : disk.file.size ≤ maxFileSize)
    (run : disk.writeZeros (4096 * disk.numPages) count result = (ok, disk')) :
    ∃ file, disk' = ⟨file, disk.metadata⟩ ∧ Extends disk.file file ∧ file.size ≤ maxFileSize ∧
      (ok = true → 4096 * disk.numPages + count ≤ file.size) := by
  have inside : 4096 * disk.numPages ≤ disk.file.size := by
    rw [numPages]
    omega
  cases result with
  | done =>
    rw [writeZeros] at run
    split at run
    next fits =>
      obtain ⟨rfl, rfl⟩ := Prod.mk.inj run
      have size := File.size_write _ _ (List.replicate count 0) inside
      rw [List.length_replicate] at size
      refine ⟨_, rfl, .inr ⟨count, rfl⟩, ?_, fun _ => ?_⟩
      · rw [size]
        exact max_le limit fits
      · rw [size]
        exact le_max_right ..
    next =>
      obtain ⟨rfl, rfl⟩ := Prod.mk.inj run
      exact ⟨_, rfl, .inl rfl, limit, fun no => by cases no⟩
  | failed written =>
    obtain ⟨rfl, rfl⟩ := Prod.mk.inj run
    refine ⟨_, rfl, .inr ⟨_, rfl⟩, ?_, fun no => by cases no⟩
    rw [File.size_write _ _ _ inside, List.length_replicate]
    omega

/-- What `allocatePage` does: it takes the head of the free list, or the page after the last
allocated one, which then lies in the file, or it fails and at most extends the file. -/
inductive Allocated (disk : DiskManager) :
    Option (UInt64 × AllocationSource) → DiskManager → Prop
  | freelist {pageId : UInt64} {rest : List UInt64} :
      disk.metadata.deallocatedPageIdList = pageId :: rest →
      Allocated disk (some (pageId, .freelist))
        { disk with metadata := { disk.metadata with deallocatedPageIdList := rest } }
  | expansion {file : File} :
      disk.metadata.deallocatedPageIdList = [] → Extends disk.file file →
      file.size ≤ maxFileSize →
      4096 * ((disk.metadata.maxAllocatedPageId + 1).toNat + 1) ≤ file.size →
      Allocated disk (some (disk.metadata.maxAllocatedPageId + 1, .fileExpansion))
        ⟨file, { disk.metadata with maxAllocatedPageId := disk.metadata.maxAllocatedPageId + 1 }⟩
  | failed {file : File} : Extends disk.file file → file.size ≤ maxFileSize →
      Allocated disk none ⟨file, disk.metadata⟩

/-- A file is never so large that the next page id wraps around. -/
theorem next_toNat {disk : DiskManager} (limit : disk.file.size ≤ maxFileSize)
    (inside : disk.metadata.maxAllocatedPageId.toNat + 1 ≤ disk.numPages) :
    (disk.metadata.maxAllocatedPageId + 1).toNat = disk.metadata.maxAllocatedPageId.toNat + 1 := by
  have pages : disk.numPages ≤ 2 ^ 51 := by
    rw [numPages]
    rw [maxFileSize] at limit
    omega
  rw [UInt64.toNat_add, UInt64.toNat_one]
  exact Nat.mod_eq_of_lt (by omega)

theorem allocatePage_outcome {disk disk' : DiskManager} {statFails : Bool} {result : WriteResult}
    {answer : Option (UInt64 × AllocationSource)} (limit : disk.file.size ≤ maxFileSize)
    (inside : disk.metadata.maxAllocatedPageId.toNat + 1 ≤ disk.numPages)
    (run : disk.allocatePage statFails result = (answer, disk')) : Allocated disk answer disk' := by
  have next := next_toNat limit inside
  rw [allocatePage] at run
  split at run
  next pageId rest free =>
    obtain ⟨rfl, rfl⟩ := Prod.mk.inj run
    exact .freelist free
  next free =>
    dsimp only at run
    split at run
    next =>
      obtain ⟨rfl, rfl⟩ := Prod.mk.inj run
      exact .failed (.inl rfl) limit
    next =>
      by_cases full : (disk.metadata.maxAllocatedPageId + 1).toNat = disk.numPages
      · -- the page after the last one of the file: the extension decides
        rw [if_pos full, full] at run
        obtain ⟨⟨ok, disk₁⟩, wrote⟩ : ∃ r, disk.writeZeros (4096 * disk.numPages) (16 * 4096)
            result = r := ⟨_, rfl⟩
        obtain ⟨file, rfl, extends_, limit', reached⟩ := writeZeros_spec limit wrote
        rw [wrote] at run
        cases ok with
        | true =>
          obtain ⟨rfl, rfl⟩ := Prod.mk.inj run
          have enough := reached rfl
          have room : 4096 * ((disk.metadata.maxAllocatedPageId + 1).toNat + 1) ≤ file.size := by
            rw [full]
            omega
          exact .expansion free extends_ limit' room
        | false =>
          obtain ⟨rfl, rfl⟩ := Prod.mk.inj run
          exact .failed extends_ limit'
      · rw [if_neg full] at run
        obtain ⟨rfl, rfl⟩ := Prod.mk.inj run
        have room : 4096 * ((disk.metadata.maxAllocatedPageId + 1).toNat + 1) ≤ disk.file.size := by
          rw [numPages] at inside full
          omega
        exact .expansion free (.inl rfl) limit room

/-- Without a failing call and a free page the next page id is handed out. -/
theorem allocatePage_done (disk : DiskManager) (free : disk.metadata.deallocatedPageIdList = [])
    (fits : 4096 * (disk.metadata.maxAllocatedPageId + 1).toNat + 16 * 4096 ≤ maxFileSize) :
    ∃ disk', disk.allocatePage false .done =
      (some (disk.metadata.maxAllocatedPageId + 1, .fileExpansion), disk') := by
  rw [allocatePage, free]
  dsimp only
  rw [if_neg (by decide)]
  by_cases full : (disk.metadata.maxAllocatedPageId + 1).toNat = disk.numPages
  · rw [if_pos full, writeZeros, if_pos fits]
    exact ⟨_, rfl⟩
  · rw [if_neg full]
    exact ⟨_, rfl⟩

theorem ensurePageExists_spec {disk disk' : DiskManager} {pageId : UInt64} {statFails : Bool}
    {result : WriteResult} {ok : Bool} (limit : disk.file.size ≤ maxFileSize)
    (fits : 4096 * (pageId.toNat + 1) ≤ maxFileSize)
    (run : disk.ensurePageExists pageId statFails result = (ok, disk')) :
    Extends disk.file disk'.file ∧ disk'.file.size ≤ maxFileSize ∧
      (ok = false → disk'.metadata = disk.metadata) ∧
      (ok = true → 4096 * (pageId.toNat + 1) ≤ disk'.file.size ∧
        disk'.metadata = { disk.metadata with
          maxAllocatedPageId := if disk.metadata.maxAllocatedPageId < pageId then pageId
            else disk.metadata.maxAllocatedPageId }) := by
  have required : (pageId + 1).toNat = pageId.toNat + 1 := by
    rw [maxFileSize] at fits
    rw [UInt64.toNat_add, UInt64.toNat_one]
    exact Nat.mod_eq_of_lt (by omega)
  have exact_ : 4096 * (pageId.toNat + 1 - disk.numPages) % 2 ^ 64 =
      4096 * (pageId.toNat + 1 - disk.numPages) := by
    rw [maxFileSize] at fits
    exact Nat.mod_eq_of_lt (by omega)
  rw [ensurePageExists] at run
  dsimp only at run
  rw [required, exact_] at run
  split at run
  next =>
    obtain ⟨rfl, rfl⟩ := Prod.mk.inj run
    exact ⟨.inl rfl, limit, fun _ => rfl, nofun⟩
  next =>
    by_cases short : disk.numPages < pageId.toNat + 1
    · rw [if_pos short] at run
      obtain ⟨⟨extended, disk₁⟩, wrote⟩ : ∃ r, disk.writeZeros (4096 * disk.numPages)
          (4096 * (pageId.toNat + 1 - disk.numPages)) result = r := ⟨_, rfl⟩
      obtain ⟨file, rfl, extends_, limit', reached⟩ := writeZeros_spec limit wrote
      rw [wrote] at run
      cases extended with
      | true =>
        obtain ⟨rfl, rfl⟩ := Prod.mk.inj run
        have enough := reached rfl
        exact ⟨extends_, limit', nofun, fun _ => ⟨by dsimp only; omega, rfl⟩⟩
      | false =>
        obtain ⟨rfl, rfl⟩ := Prod.mk.inj run
        exact ⟨extends_, limit', fun _ => rfl, nofun⟩
    · rw [if_neg short] at run
      obtain ⟨rfl, rfl⟩ := Prod.mk.inj run
      refine ⟨.inl rfl, limit, nofun, fun _ => ⟨?_, rfl⟩⟩
      rw [numPages] at short
      dsimp only
      omega

/-! ### Closing and opening again -/

/-- The metadata survives, and so do all pages but the metadata page. -/
theorem openFile_close {disk disk' : DiskManager} {file : File}
    (roots : disk.metadata.rootPages.Distinct) (leaves : disk.metadata.firstLeafNodePages.Distinct)
    (closed : disk.close = some file) (opened : openFile file = some disk') :
    disk' = ⟨file, disk.metadata⟩ ∧ ∃ page : Page, file = disk.file.write 0 (page.read 0 4096) := by
  rw [close] at closed
  cases encoded : MetaDataCodec.encodeMetaDataPage disk.metadata with
  | none =>
    rw [encoded] at closed
    cases closed
  | some page =>
    rw [encoded] at closed
    obtain rfl := Option.some.inj closed
    have back : (disk.file.write 0 (page.read 0 4096)).read 0 4096 = some page :=
      File.read_write_same _ _ 4096 page (by decide)
    rw [openFile, back] at opened
    simp only [bind, Option.bind, MetaDataCodec.decode_encode roots leaves encoded,
      Option.some.injEq] at opened
    exact ⟨opened.symm, page, rfl⟩

end DiskManager

end CambiumDB
