import CambiumDB.BufferPool.DiskManager

/-!
# What changes to the file leave alone

A page that is written back changes itself only; a file that grows gets zero pages; the
metadata page changes when the manager closes, and what is opened afterwards depends on that
page alone.
-/

namespace CambiumDB

open ByteBuffer

namespace DiskManager

/-! ### Pages of the file -/

/-- The page lies in the file. -/
def InFile (disk : DiskManager) (pageId : UInt64) : Prop :=
  4096 * (pageId.toNat + 1) ≤ disk.file.size

instance (disk : DiskManager) (pageId : UInt64) : Decidable (disk.InFile pageId) :=
  inferInstanceAs (Decidable (_ ≤ _))

variable {disk disk' : DiskManager} {pageId : UInt64}

/-- The offset of a page of the file does not overflow. -/
theorem InFile.pageOffset (small : disk.file.size ≤ maxFileSize) (inside : disk.InFile pageId) :
    DiskManager.pageOffset pageId = some (4096 * pageId.toNat) := by
  rw [InFile] at inside
  rw [maxFileSize] at small
  have exact_ : 4096 * pageId.toNat % 2 ^ 64 = 4096 * pageId.toNat := by
    apply Nat.mod_eq_of_lt
    omega
  rw [DiskManager.pageOffset]
  simp only [exact_, maxFileSize]
  rw [if_pos (by omega)]

theorem InFile.read_eq (small : disk.file.size ≤ maxFileSize) (inside : disk.InFile pageId) :
    disk.read pageId = disk.file.read (4096 * pageId.toNat) 4096 := by
  rw [DiskManager.read, inside.pageOffset small]
  rfl

theorem InFile.read_isSome (small : disk.file.size ≤ maxFileSize) (inside : disk.InFile pageId) :
    disk.read pageId ≠ none := by
  rw [inside.read_eq small, File.read, if_pos]
  · exact Option.some_ne_none _
  · rw [InFile] at inside
    omega

/-- The size of the file, its first page and the metadata in memory stay as they are. -/
structure Keeps (disk disk' : DiskManager) : Prop where
  size : disk'.file.size = disk.file.size
  metadata : disk'.metadata = disk.metadata
  first : disk'.file.read 0 4096 = disk.file.read 0 4096

theorem Keeps.refl (disk : DiskManager) : disk.Keeps disk := ⟨rfl, rfl, rfl⟩

theorem Keeps.trans {disk₁ disk₂ : DiskManager} (left : disk.Keeps disk₁)
    (right : disk₁.Keeps disk₂) : disk.Keeps disk₂ :=
  ⟨right.size.trans left.size, right.metadata.trans left.metadata, right.first.trans left.first⟩

theorem Keeps.inFile {disk' : DiskManager} (keeps : disk.Keeps disk') :
    disk'.InFile pageId ↔ disk.InFile pageId := by
  rw [InFile, InFile, keeps.size]

/-- One page of the file has a new content. -/
structure Rewrites (disk : DiskManager) (pageId : UInt64) (data : Page) (disk' : DiskManager) :
    Prop where
  keeps : disk.Keeps disk'
  same : disk'.read pageId = some data
  other : ∀ p, disk.InFile p → p ≠ pageId → disk'.read p = disk.read p

theorem InFile.rewrites (small : disk.file.size ≤ maxFileSize) (inside : disk.InFile pageId)
    (nonzero : pageId ≠ 0) {data : Page} {disk' : DiskManager}
    (metadata : disk'.metadata = disk.metadata)
    (file : disk'.file = disk.file.write (4096 * pageId.toNat) (data.read 0 4096)) :
    disk.Rewrites pageId data disk' := by
  have length : (data.read 0 4096).length = 4096 := Buffer.length_read ..
  have upper : 4096 * pageId.toNat + 4096 ≤ disk.file.size := by
    rw [InFile] at inside
    omega
  have size : disk'.file.size = disk.file.size := by
    rw [file, File.size_write _ _ _ (by omega), length]
    exact max_eq_left upper
  have small' : disk'.file.size ≤ maxFileSize := size ▸ small
  have positive : pageId.toNat ≠ 0 := fun zero => nonzero (UInt64.toNat_inj.1 zero)
  have keeps : disk.Keeps disk' := by
    refine ⟨size, metadata, ?_⟩
    rw [file]
    apply File.read_write_outside
    · omega
    · omega
  refine ⟨keeps, ?_, ?_⟩
  · rw [InFile.read_eq small' (keeps.inFile.2 inside), file]
    exact File.read_write_same _ _ _ data (by decide)
  · intro p here other
    rw [InFile.read_eq small' (keeps.inFile.2 here), here.read_eq small, file]
    have distinct : p.toNat ≠ pageId.toNat := fun same => other (UInt64.toNat_inj.1 same)
    rw [InFile] at here
    apply File.read_write_outside
    · omega
    · omega

theorem InFile.writePage (small : disk.file.size ≤ maxFileSize) (inside : disk.InFile pageId)
    (nonzero : pageId ≠ 0) (data : Page) : ∃ disk', disk.writePage pageId data = some disk' ∧
      disk.Rewrites pageId data disk' := by
  refine ⟨{ disk with file := disk.file.write (4096 * pageId.toNat) (data.read 0 4096) }, ?_,
    inside.rewrites small nonzero rfl rfl⟩
  rw [DiskManager.writePage, inside.pageOffset small]
  rfl

theorem InFile.write (small : disk.file.size ≤ maxFileSize) (inside : disk.InFile pageId)
    (nonzero : pageId ≠ 0) (data : Page) : ∃ disk', disk.write pageId data .done = (true, disk') ∧
      disk.Rewrites pageId data disk' := by
  refine ⟨{ disk with file := disk.file.write (4096 * pageId.toNat) (data.read 0 4096) }, ?_,
    inside.rewrites small nonzero rfl rfl⟩
  rw [DiskManager.write, inside.pageOffset small]

/-- The metadata page is the only page that `close` writes. -/
theorem InFile.read_close (small : disk.file.size ≤ maxFileSize) (inside : disk.InFile pageId)
    (nonzero : pageId ≠ 0) {file : File} (closed : disk.close = some file) :
    file.read (4096 * pageId.toNat) 4096 = disk.read pageId := by
  rw [DiskManager.close] at closed
  obtain ⟨page, -, written⟩ := Option.bind_eq_some_iff.1 closed
  obtain rfl := Option.some.inj written
  have positive : pageId.toNat ≠ 0 := fun zero => nonzero (UInt64.toNat_inj.1 zero)
  rw [inside.read_eq small]
  rw [InFile] at inside
  apply File.read_write_outside
  · omega
  · right
    rw [Buffer.length_read]
    omega

/-! ### The metadata page -/

/-- The last allocated page lies in the file, and the maps are maps. -/
structure Sound (disk : DiskManager) : Prop where
  lastInside : disk.metadata.maxAllocatedPageId.toNat + 1 ≤ disk.numPages
  roots : disk.metadata.rootPages.Distinct
  leaves : disk.metadata.firstLeafNodePages.Distinct

theorem openFile_eq_some {file : File} : openFile file = some disk ↔
    ∃ page, file.read 0 4096 = some page ∧
      MetaDataCodec.decodeMetaDataPage page = some disk.metadata ∧ disk.file = file := by
  obtain ⟨file', metadata⟩ := disk
  simp only [openFile, Option.bind_eq_bind, Option.bind_eq_some_iff, Option.some.injEq,
    DiskManager.mk.injEq]
  constructor
  · rintro ⟨page, read, _, decoded, rfl, rfl⟩
    exact ⟨page, read, decoded, rfl⟩
  · rintro ⟨page, read, decoded, rfl⟩
    exact ⟨page, read, metadata, decoded, rfl, rfl⟩

/-- What is opened depends on the first page of the file alone. -/
theorem openFile_congr {file file' : File} (first : file'.read 0 4096 = file.read 0 4096)
    (opened : openFile file' = some disk') : openFile file = some ⟨file, disk'.metadata⟩ := by
  obtain ⟨page, read, decoded, -⟩ := openFile_eq_some.1 opened
  exact openFile_eq_some.2 ⟨page, first ▸ read, decoded, rfl⟩

theorem openFile_file {file : File} (opened : openFile file = some disk') :
    disk'.file = file := by
  obtain ⟨-, -, -, same⟩ := openFile_eq_some.1 opened
  exact same

theorem openFile_create (created : create = some disk)
    (opened : openFile disk.file = some disk') : disk' = disk := by
  have closed : DiskManager.close ⟨File.empty, newMetaData⟩ = some disk.file := by
    rw [create] at created
    obtain ⟨page, encoded, same⟩ := Option.bind_eq_some_iff.1 created
    rw [DiskManager.close, encoded, ← Option.some.inj same]
    rfl
  have none_open : newMetaData.rootPages.Distinct ∧ newMetaData.firstLeafNodePages.Distinct :=
    ⟨.nil, .nil⟩
  obtain ⟨same, -⟩ := openFile_close none_open.1 none_open.2 closed opened
  rw [same, ← (create_eq_some created).2]

/-- The metadata in memory and the metadata in the file are sound. -/
def Kept (disk : DiskManager) : Prop :=
  disk.Sound ∧ ∀ disk', openFile disk.file = some disk' → disk'.Sound

/-- A larger file with the same first page. -/
theorem Kept.mono (kept : disk.Kept) (larger : disk.file.size ≤ disk'.file.size)
    (first : disk'.file.read 0 4096 = disk.file.read 0 4096) (sound : disk'.Sound) :
    disk'.Kept := by
  refine ⟨sound, fun opened found => ?_⟩
  obtain ⟨inside, roots, leaves⟩ := kept.2 _ (openFile_congr first found)
  refine ⟨?_, roots, leaves⟩
  have whole : disk.file.size / 4096 ≤ disk'.file.size / 4096 := Nat.div_le_div_right larger
  rw [numPages] at inside ⊢
  rw [openFile_file found]
  exact inside.trans whole

theorem Kept.keeps (kept : disk.Kept) (keeps : disk.Keeps disk') : disk'.Kept := by
  obtain ⟨inside, roots, leaves⟩ := kept.1
  refine kept.mono keeps.size.ge keeps.first ⟨?_, ?_, ?_⟩
  · rw [numPages, keeps.size, keeps.metadata]
    exact inside
  · rw [keeps.metadata]
    exact roots
  · rw [keeps.metadata]
    exact leaves

/-! ### Files that grow -/

/-- The file may have got more pages, all of them zero. -/
structure Grows (disk disk' : DiskManager) : Prop where
  file : Extends disk.file disk'.file
  small : disk'.file.size ≤ maxFileSize

theorem Grows.inFile (grows : disk.Grows disk') {p : UInt64} (inside : disk.InFile p) :
    disk'.InFile p :=
  Nat.le_trans inside grows.file.size_le

theorem Grows.read_old (grows : disk.Grows disk') {p : UInt64} (inside : disk.InFile p) :
    disk'.read p = disk.read p := by
  have small := grows.file.size_le.trans grows.small
  rw [(grows.inFile inside).read_eq grows.small, inside.read_eq small]
  rw [InFile] at inside
  exact grows.file.read_old (by omega)

theorem Grows.read_new (grows : disk.Grows disk') {p : UInt64} (outside : ¬ disk.InFile p)
    (inside : disk'.InFile p) : disk'.read p = some (Buffer.zero 4096) := by
  rw [inside.read_eq grows.small]
  rw [InFile] at outside inside
  exact grows.file.read_new (by omega) inside

theorem Grows.kept (grows : disk.Grows disk') (kept : disk.Kept) (sound : disk'.Sound) :
    disk'.Kept := by
  have inside := kept.1.lastInside
  have first : disk'.file.read (4096 * 0) 4096 = disk.file.read (4096 * 0) 4096 := by
    rw [numPages] at inside
    exact grows.file.read_old (by omega)
  exact kept.mono grows.file.size_le first sound

end DiskManager

end CambiumDB
