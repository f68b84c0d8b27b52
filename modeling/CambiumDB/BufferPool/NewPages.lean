import CambiumDB.BufferPool.PageStore
import CambiumDB.PageCodec.Split

/-!
# Pages that `NewPage` hands out

Runs of the shared pool together with `NewPage`, `CleanupPage`, the calls that recovery makes
on the metadata, crashes and clean restarts. `fresh` is a ghost: the ids that `NewPage`
returned and to which nothing was written since. No call clears a page, so a fresh page is
empty only if the page was empty when it was given back.
-/

namespace CambiumDB

open ByteBuffer TransitionSystem HeaderCodec

/-- The page decodes as an empty leaf without a log sequence number. -/
structure EmptyPage (page : Page) : Prop where
  leaf : (decodePageHeader page).isLeafNode = true
  numSlots : (decodePageHeader page).numSlots = 0
  freeSpaceBegin : (decodePageHeader page).freeSpaceBegin = 32
  freeSpaceEnd : (decodePageHeader page).freeSpaceEnd = 4096
  nextLeaf : (decodePageHeader page).nextLeafNodePageId = 0
  lsn : getLSN page = 0

theorem emptyPage_zero : EmptyPage (Buffer.zero 4096) := by
  have header : decodePageHeader (Buffer.zero 4096) =
      ⟨true, 0, HeaderConfig.headerSize, 4096, 0, 0⟩ := by
    rw [decodePageHeader, Buffer.byte_zero, if_pos rfl]
  have lsn : getLSN (Buffer.zero 4096) = 0 := by
    rw [getLSN, Buffer.getLE_zero]
    rfl
  exact ⟨by rw [header], by rw [header], by rw [header], by rw [header], by rw [header], lsn⟩

structure PagePool (T : Type) (poolSize : Nat) where
  shared : SharedPool T poolSize
  fresh : List UInt64

namespace PagePool

variable {T : Type} {poolSize : Nat}

inductive Op (T : Type) where
  | pool (op : SharedPool.Op T)
  | newPage
  | cleanup (pageId : UInt64)
  | metadata
  | ensure (pageId : UInt64)
  | take (pageId : UInt64)
  | crash
  | restart

/-- The ids that are still fresh after an operation on the pool. -/
def unwritten (fresh : List UInt64) : SharedPool.Op T → List UInt64
  | .write _ pageId _ => fresh.filter (· ≠ pageId)
  | _ => fresh

def withDisk (s : PagePool T poolSize) (disk : DiskManager) (fresh : List UInt64) :
    PagePool T poolSize :=
  ⟨{ s.shared with pool := { s.shared.pool with disk } }, fresh⟩

/-- The process starts on a file: a new pool, and no thread inside it. -/
def started (disk : DiskManager) (fresh : List UInt64) : PagePool T poolSize :=
  ⟨⟨BufferPool.new poolSize disk, fun _ => .idle, []⟩, fresh⟩

inductive Step [DecidableEq T] : PagePool T poolSize → Op T → PagePool T poolSize → Prop
  | pool {s : PagePool T poolSize} {op : SharedPool.Op T} {shared : SharedPool T poolSize} :
      s.shared.Step op shared → Step s (.pool op) ⟨shared, unwritten s.fresh op⟩
  | newPage {s : PagePool T poolSize} {statFails : Bool} {result : WriteResult}
      {pageId : UInt64} {source : AllocationSource} {disk : DiskManager} :
      s.shared.pool.disk.allocatePage statFails result = (some (pageId, source), disk) →
      Step s .newPage (s.withDisk disk (pageId :: s.fresh))
  | noPage {s : PagePool T poolSize} {statFails : Bool} {result : WriteResult}
      {disk : DiskManager} : s.shared.pool.disk.allocatePage statFails result = (none, disk) →
      Step s .newPage (s.withDisk disk s.fresh)
  | cleanup {s : PagePool T poolSize} {pageId : UInt64} :
      Step s (.cleanup pageId) (s.withDisk (s.shared.pool.disk.deallocatePage pageId) s.fresh)
  /-- the tree ids, roots and first leaves and the log sequence number of the metadata -/
  | metadata {s : PagePool T poolSize} {metadata : MetaData} :
      metadata.deallocatedPageIdList = s.shared.pool.disk.metadata.deallocatedPageIdList →
      metadata.maxAllocatedPageId = s.shared.pool.disk.metadata.maxAllocatedPageId →
      metadata.rootPages.Distinct → metadata.firstLeafNodePages.Distinct →
      Step s .metadata (s.withDisk { s.shared.pool.disk with metadata } s.fresh)
  | ensure {s : PagePool T poolSize} {statFails : Bool} {result : WriteResult}
      {pageId : UInt64} {ok : Bool} {disk : DiskManager} :
      s.shared.pool.disk.ensurePageExists pageId statFails result = (ok, disk) →
      Step s (.ensure pageId) (s.withDisk disk s.fresh)
  | take {s : PagePool T poolSize} {pageId : UInt64} :
      Step s (.take pageId) (s.withDisk { s.shared.pool.disk with
        metadata := { s.shared.pool.disk.metadata with
          deallocatedPageIdList :=
            swapRemove s.shared.pool.disk.metadata.deallocatedPageIdList pageId } } s.fresh)
  | crash {s : PagePool T poolSize} {disk : DiskManager} :
      DiskManager.openFile s.shared.pool.disk.file = some disk →
      Step s .crash (started disk s.fresh)
  | restart {s : PagePool T poolSize} {order : List UInt64} {flushed disk : DiskManager}
      {file : File} : (∀ p f, s.shared.pool.pageTable p = some f → p ∈ order) →
      s.shared.pool.flushPages order = some flushed → flushed.close = some file →
      DiskManager.openFile file = some disk → Step s .restart (started disk s.fresh)

/-- A new database. -/
def Opened (s : PagePool T poolSize) : Prop :=
  ∃ disk, DiskManager.create = some disk ∧ s = started disk []

/-- The page may be seen as new: it is fresh, free, or not allocated yet. -/
def New (s : PagePool T poolSize) (metadata : MetaData) (pageId : UInt64) : Prop :=
  pageId ∈ s.fresh ∨ pageId ∈ metadata.deallocatedPageIdList ∨
    metadata.maxAllocatedPageId < pageId

/-- The page is empty where the file holds it. -/
def BlankOnDisk (s : PagePool T poolSize) (pageId : UInt64) : Prop :=
  s.shared.pool.disk.InFile pageId →
    ∀ data, s.shared.pool.disk.read pageId = some data → EmptyPage data

/-- Guards are on pages of the file; only allocated pages are written; a page is empty when it
is given back; and a crash leaves nothing in the pages that are new again after it. -/
def Allowed (s : PagePool T poolSize) : Op T → Prop
  | .pool (.fetch _ pageId) => pageId ≠ 0 ∧ s.shared.pool.disk.InFile pageId
  | .pool (.load _ _ result) => result = .done
  | .pool (.write _ pageId _) => pageId ≤ s.shared.pool.disk.metadata.maxAllocatedPageId ∧
      pageId ∉ s.shared.pool.disk.metadata.deallocatedPageIdList
  | .pool (.delete _ pageId) => s.BlankOnDisk pageId
  | .pool _ | .newPage | .metadata | .take _ | .restart => True
  | .cleanup pageId =>
      match s.shared.pool.pageTable pageId with
      | some frameId => EmptyPage (s.shared.pool.frames frameId).data
      | none => s.BlankOnDisk pageId
  | .ensure pageId => 4096 * (pageId.toNat + 1) ≤ DiskManager.maxFileSize
  | .crash => ∀ disk, DiskManager.openFile s.shared.pool.disk.file = some disk →
      ∀ pageId, pageId ≠ 0 → s.New disk.metadata pageId → s.BlankOnDisk pageId

/-! ### The invariant -/

structure Inv (s : PagePool T poolSize) (store : UInt64 → Page) : Prop where
  recorded : RecordedPool.Inv ⟨s.shared, store⟩
  blank : ∀ p, p ≠ 0 → s.New s.shared.pool.disk.metadata p → s.shared.pool.disk.InFile p →
    EmptyPage (store p)
  kept : s.shared.pool.disk.Kept

variable {s : PagePool T poolSize} {store : UInt64 → Page}

/-- The pool is left alone while the file grows and the metadata changes. -/
theorem Inv.withDisk (inv : Inv s store) {disk : DiskManager} {fresh : List UInt64}
    (grows : s.shared.pool.disk.Grows disk) (sound : disk.Sound)
    (new : ∀ p, p ≠ 0 → (s.withDisk disk fresh).New disk.metadata p →
      s.shared.pool.disk.InFile p → EmptyPage (store p)) :
    ∃ store', Inv (s.withDisk disk fresh) store' := by
  obtain ⟨⟨shared, shows_, missed⟩, blank, kept⟩ := inv
  refine ⟨fun p => if s.shared.pool.disk.InFile p then store p else Buffer.zero 4096, ?_, ?_,
    grows.kept kept sound⟩
  · refine ⟨shared.sameBook rfl rfl rfl (fun _ => rfl) fun _ => rfl, shows_.grow grows, ?_⟩
    intro t p waiting
    obtain ⟨nonzero, inside⟩ := missed t p waiting
    exact ⟨nonzero, grows.inFile inside⟩
  · intro p nonzero here _
    by_cases old : s.shared.pool.disk.InFile p
    · rw [if_pos old]
      exact new p nonzero here old
    · rw [if_neg old]
      exact emptyPage_zero

/-- A process that starts on a sound file. -/
theorem inv_started {disk : DiskManager} {fresh : List UInt64}
    (small : disk.file.size ≤ DiskManager.maxFileSize) (kept : disk.Kept)
    (blank : ∀ p, p ≠ 0 → (started disk fresh : PagePool T poolSize).New disk.metadata p →
      (started disk fresh : PagePool T poolSize).BlankOnDisk p) :
    ∃ store, Inv (started disk fresh : PagePool T poolSize) store := by
  have content : ∀ p, disk.InFile p →
      disk.read p = some ((disk.read p).getD (Buffer.zero 4096)) := by
    intro p inside
    obtain ⟨page, read⟩ := Option.ne_none_iff_exists'.1 (inside.read_isSome small)
    rw [read]
    rfl
  refine ⟨fun p => (disk.read p).getD (Buffer.zero 4096), ?_, ?_, kept⟩
  · exact RecordedPool.Opened.inv ⟨⟨⟨disk, rfl⟩, fun _ => rfl, rfl⟩, small, content⟩
  · intro p nonzero new inside
    exact blank p nonzero new inside _ (content p inside)

/-! ### Steps keep it -/

/-- `NewPage`, whether it succeeds or not. -/
theorem Inv.allocate (inv : Inv s store) {statFails : Bool} {result : WriteResult}
    {answer : Option (UInt64 × AllocationSource)} {disk : DiskManager}
    (run : s.shared.pool.disk.allocatePage statFails result = (answer, disk)) :
    ∃ store', Inv (s.withDisk disk ((answer.map Prod.fst).toList ++ s.fresh)) store' := by
  obtain ⟨inside, roots, leaves⟩ := inv.kept.1
  have small : s.shared.pool.disk.file.size ≤ _ := inv.recorded.shows.small
  have next := DiskManager.next_toNat small inside
  cases DiskManager.allocatePage_outcome small inside run with
  | @freelist pageId rest list =>
    refine inv.withDisk ⟨.inl rfl, small⟩ ⟨inside, roots, leaves⟩ ?_
    intro p nonzero new old
    apply inv.blank p nonzero _ old
    rcases new with fresh | free | later
    · rcases List.mem_append.1 fresh with taken | before
      · have same : p = pageId := List.mem_singleton.1 taken
        exact .inr (.inl (list ▸ same ▸ List.mem_cons_self))
      · exact .inl before
    · exact .inr (.inl (list ▸ List.mem_cons_of_mem _ free))
    · exact .inr (.inr later)
  | @expansion file list extends_ limit room =>
    refine inv.withDisk ⟨extends_, limit⟩ ⟨?_, roots, leaves⟩ ?_
    · rw [DiskManager.numPages]
      dsimp only
      omega
    · intro p nonzero new old
      apply inv.blank p nonzero _ old
      have above : ∀ q : UInt64, s.shared.pool.disk.metadata.maxAllocatedPageId + 1 ≤ q →
          s.shared.pool.disk.metadata.maxAllocatedPageId < q := by
        intro q reaches
        rw [UInt64.le_iff_toNat_le] at reaches
        rw [UInt64.lt_iff_toNat_lt]
        omega
      rcases new with fresh | free | later
      · rcases List.mem_append.1 fresh with taken | before
        · have same : p = _ := List.mem_singleton.1 taken
          exact .inr (.inr (above p (same ▸ UInt64.le_refl _)))
        · exact .inl before
      · exact .inr (.inl free)
      · exact .inr (.inr (above p (UInt64.le_of_lt later)))
  | @failed file extends_ limit =>
    refine inv.withDisk ⟨extends_, limit⟩ ⟨?_, roots, leaves⟩ ?_
    · have larger := extends_.size_le
      rw [DiskManager.numPages] at inside ⊢
      dsimp only
      omega
    · intro p nonzero new old
      exact inv.blank p nonzero new old

/-- `CleanupPage` of an empty page. -/
theorem Inv.cleanup (inv : Inv s store) {pageId : UInt64} (empty : s.Allowed (.cleanup pageId)) :
    ∃ store', Inv (s.withDisk (s.shared.pool.disk.deallocatePage pageId) s.fresh) store' := by
  obtain ⟨inside, roots, leaves⟩ := inv.kept.1
  have shows_ := inv.recorded.shows
  refine inv.withDisk ⟨.inl rfl, shows_.small⟩ ⟨inside, roots, leaves⟩ ?_
  intro p nonzero new old
  rcases new with fresh | free | later
  · exact inv.blank p nonzero (.inl fresh) old
  · rcases List.mem_append.1 free with before | added
    · exact inv.blank p nonzero (.inr (.inl before)) old
    · obtain rfl := List.mem_singleton.1 added
      rw [Allowed] at empty
      split at empty
      next frameId found =>
        have content : (s.shared.pool.frames frameId).data = store p :=
          (shows_.cached _ _ found).2.2
        exact content ▸ empty
      next missing =>
        exact empty old _ (shows_.stored p nonzero old fun f here => nomatch missing.symm.trans here)
  · exact inv.blank p nonzero (.inr (.inr later)) old

/-- `EnsurePageExists`. -/
theorem Inv.ensure (inv : Inv s store) {pageId : UInt64} {statFails : Bool}
    {result : WriteResult} {ok : Bool} {disk : DiskManager}
    (fits : 4096 * (pageId.toNat + 1) ≤ DiskManager.maxFileSize)
    (run : s.shared.pool.disk.ensurePageExists pageId statFails result = (ok, disk)) :
    ∃ store', Inv (s.withDisk disk s.fresh) store' := by
  obtain ⟨inside, roots, leaves⟩ := inv.kept.1
  have small : s.shared.pool.disk.file.size ≤ _ := inv.recorded.shows.small
  obtain ⟨extends_, limit, fails, succeeds⟩ :=
    DiskManager.ensurePageExists_spec small fits run
  have larger := extends_.size_le
  cases ok with
  | false =>
    have same := fails rfl
    apply inv.withDisk ⟨extends_, limit⟩
    · refine ⟨?_, same ▸ roots, same ▸ leaves⟩
      rw [DiskManager.numPages] at inside ⊢
      rw [same]
      omega
    · intro p nonzero new old
      rw [same] at new
      exact inv.blank p nonzero new old
  | true =>
    obtain ⟨room, same⟩ := succeeds rfl
    apply inv.withDisk ⟨extends_, limit⟩
    · refine ⟨?_, same ▸ roots, same ▸ leaves⟩
      rw [DiskManager.numPages] at inside ⊢
      rw [same]
      dsimp only
      split
      · omega
      · omega
    · intro p nonzero new old
      apply inv.blank p nonzero _ old
      rw [same] at new
      rcases new with fresh | free | later
      · exact .inl fresh
      · exact .inr (.inl free)
      · refine .inr (.inr ?_)
        dsimp only at later
        split at later
        next raised => exact UInt64.lt_trans raised later
        next => exact later

/-- After a successful `deletePage` the page shows what the file holds. -/
theorem Inv.deleted [DecidableEq T] (inv : Inv s store) {t : T} {pageId : UInt64}
    {shared : SharedPool T poolSize} (blank : s.BlankOnDisk pageId)
    (step : s.shared.Step (.delete t pageId) shared) :
    ∃ store', Inv ⟨shared, s.fresh⟩ store' := by
  have kept := inv.recorded.shared.step step
  have shows_ : s.shared.pool.Shows store := inv.recorded.shows
  obtain ⟨⟨_, _, missed⟩, fresh, sound⟩ := inv
  cases step with
  | @deleted _ _ held pool idle free member run =>
    obtain ⟨disk, shows'⟩ := shows_.deletePage run
    refine ⟨Function.update store pageId ((s.shared.pool.disk.read pageId).getD (store pageId)),
      ⟨kept, shows', ?_⟩, ?_, ?_⟩
    · intro u p waiting
      rw [disk]
      exact missed u p waiting
    · intro p nonzero new inside
      rw [disk] at new inside
      by_cases same : p = pageId
      · subst same
        obtain ⟨data, read⟩ := Option.ne_none_iff_exists'.1
          (DiskManager.InFile.read_isSome shows_.small inside)
        rw [Function.update_self, read]
        exact blank inside data read
      · rw [Function.update_of_ne same]
        apply fresh p nonzero _ inside
        rcases new with written | free | later
        · exact .inl written
        · rcases List.mem_append.1 free with before | added
          · exact .inr (.inl before)
          · exact absurd (List.mem_singleton.1 added) same
        · exact .inr (.inr later)
    · rw [disk]
      exact ⟨⟨sound.1.lastInside, sound.1.roots, sound.1.leaves⟩, sound.2⟩
  | notDeleted _ _ _ run =>
    obtain rfl := BufferPool.deletePage_false run
    exact ⟨store, ⟨kept, shows_, missed⟩, fresh, sound⟩
  | deleteBlocked =>
    refine ⟨store, ⟨kept, shows_, fun u p waiting => ?_⟩, fresh, sound⟩
    exact missed u p (RecordedPool.missed_goto (by simp) waiting)

theorem Inv.pool [DecidableEq T] (inv : Inv s store) {op : SharedPool.Op T}
    {shared : SharedPool T poolSize} (allowed : s.Allowed (.pool op))
    (step : s.shared.Step op shared) : ∃ store', Inv ⟨shared, unwritten s.fresh op⟩ store' := by
  -- all calls but `deletePage` are the ones that a page store takes
  have recorded : (∀ t pageId, op ≠ .delete t pageId) →
      RecordedPool.Allowed ⟨s.shared, store⟩ op := by
    intro other
    cases op with
    | delete t pageId => exact absurd rfl (other t pageId)
    | fetch => exact allowed
    | load => exact allowed
    | unpin => trivial
    | write => trivial
    | flush => trivial
    | proceed => trivial
  cases op with
  | delete t pageId => exact inv.deleted allowed step
  | write t pageId data =>
    obtain ⟨keeps, -⟩ := RecordedPool.shows_of_step inv.recorded (recorded nofun) step
    refine ⟨RecordedPool.record store (.write t pageId data),
      inv.recorded.step (recorded nofun) ⟨step, rfl⟩, ?_, inv.kept.keeps keeps⟩
    intro p nonzero new inside
    rw [keeps.metadata] at new
    have other : p ≠ pageId := by
      rintro rfl
      rcases new with fresh | free | later
      · simp [unwritten] at fresh
      · exact allowed.2 free
      · exact absurd later (UInt64.not_lt.2 allowed.1)
    have unchanged : RecordedPool.record store (.write t pageId data) p = store p :=
      Function.update_of_ne other ..
    rw [unchanged]
    apply inv.blank p nonzero _ (keeps.inFile.1 inside)
    rcases new with fresh | free | later
    · exact .inl (List.mem_of_mem_filter fresh)
    · exact .inr (.inl free)
    · exact .inr (.inr later)
  | fetch | load | unpin | flush | proceed =>
    obtain ⟨keeps, -⟩ := RecordedPool.shows_of_step inv.recorded (recorded nofun) step
    refine ⟨_, inv.recorded.step (recorded nofun) ⟨step, rfl⟩, ?_, inv.kept.keeps keeps⟩
    intro p nonzero new inside
    rw [keeps.metadata] at new
    exact inv.blank p nonzero new (keeps.inFile.1 inside)

/-- A clean close writes the store to the file. -/
theorem Inv.restart (inv : Inv s store) {order : List UInt64} {flushed disk : DiskManager}
    {file : File} (complete : ∀ p f, s.shared.pool.pageTable p = some f → p ∈ order)
    (flush : s.shared.pool.flushPages order = some flushed)
    (closed : flushed.close = some file) (opened : DiskManager.openFile file = some disk) :
    ∃ store', Inv (started disk s.fresh : PagePool T poolSize) store' := by
  obtain ⟨disk', flushes, ⟨keeps, shows_, -⟩, done⟩ :=
    inv.recorded.shows.flushPages_all complete
  obtain rfl : disk' = flushed := Option.some.inj (flushes.symm.trans flush)
  obtain ⟨inside, roots, leaves⟩ := (inv.kept.keeps keeps).1
  obtain ⟨same, page, written⟩ := DiskManager.openFile_close roots leaves closed opened
  have size : disk.file.size = disk'.file.size := by
    rw [same, written, File.size_write _ _ _ (Nat.zero_le _), Buffer.length_read]
    rw [DiskManager.numPages] at inside
    omega
  have sound : disk.Sound := by
    refine ⟨?_, same ▸ roots, same ▸ leaves⟩
    rw [DiskManager.numPages, size, same]
    exact inside
  apply inv_started
  · rw [size]
    exact shows_.small
  · refine ⟨sound, fun again found => ?_⟩
    rw [DiskManager.openFile_file opened, opened] at found
    exact Option.some.inj found ▸ sound
  · intro p nonzero new here data read
    have old : disk'.InFile p := by
      rw [DiskManager.InFile, ← size]
      exact here
    have content : file.read (4096 * p.toNat) 4096 = some (store p) := by
      rw [old.read_close shows_.small nonzero closed]
      exact done p nonzero (keeps.inFile.1 old)
    have shown : disk.read p = file.read (4096 * p.toNat) 4096 := by
      rw [DiskManager.InFile.read_eq (size.trans_le shows_.small) here,
        DiskManager.openFile_file opened]
    obtain rfl : store p = data := by
      have both := content.symm.trans (shown.symm.trans read)
      exact Option.some.inj both
    apply inv.blank p nonzero _ (keeps.inFile.1 old)
    rw [same, keeps.metadata] at new
    exact new

theorem Opened.inv (opened : s.Opened) : ∃ store, Inv s store := by
  obtain ⟨disk, created, rfl⟩ := opened
  obtain ⟨size, metadata⟩ := DiskManager.create_eq_some created
  have sound : ∀ disk' : DiskManager, disk'.file.size = 4096 →
      disk'.metadata = DiskManager.newMetaData → disk'.Sound := by
    intro disk' size metadata
    constructor
    · rw [DiskManager.numPages, size, metadata]
      decide
    · rw [metadata]
      exact .nil
    · rw [metadata]
      exact .nil
  apply inv_started
  · rw [size]
    decide
  · refine ⟨sound disk size metadata, fun again opened => ?_⟩
    obtain rfl := DiskManager.openFile_create created opened
    exact sound _ size metadata
  · intro p nonzero _ inside
    have positive : p.toNat ≠ 0 := fun zero => nonzero (UInt64.toNat_inj.1 zero)
    have whole : 4096 * (p.toNat + 1) ≤ disk.file.size := inside
    omega

theorem Inv.step [DecidableEq T] (inv : Inv s store) {op : Op T} {s' : PagePool T poolSize}
    (allowed : s.Allowed op) (step : Step s op s') : ∃ store', Inv s' store' := by
  have small : s.shared.pool.disk.file.size ≤ _ := inv.recorded.shows.small
  obtain ⟨inside, roots, leaves⟩ := inv.kept.1
  cases step with
  | pool taken => exact inv.pool allowed taken
  | newPage run => exact inv.allocate run
  | noPage run => exact inv.allocate run
  | cleanup => exact inv.cleanup allowed
  | @metadata metadata free last roots leaves =>
    refine inv.withDisk ⟨.inl rfl, small⟩ ⟨last ▸ inside, roots, leaves⟩ ?_
    intro p nonzero new old
    apply inv.blank p nonzero _ old
    rw [New, free, last] at new
    exact new
  | ensure run => exact inv.ensure allowed run
  | take =>
    refine inv.withDisk ⟨.inl rfl, small⟩ ⟨inside, roots, leaves⟩ ?_
    intro p nonzero new old
    apply inv.blank p nonzero _ old
    rcases new with fresh | free | later
    · exact .inl fresh
    · exact .inr (.inl (mem_of_mem_swapRemove free))
    · exact .inr (.inr later)
  | @crash disk opened =>
    obtain ⟨file, metadata⟩ := disk
    obtain rfl : file = s.shared.pool.disk.file := DiskManager.openFile_file opened
    apply inv_started
    · exact small
    · exact ⟨inv.kept.2 _ opened, inv.kept.2⟩
    · intro p nonzero new
      exact allowed _ opened p nonzero new
  | restart complete flush closed opened => exact inv.restart complete flush closed opened

section
variable {allowed : PagePool Unit 1 → Op Unit → Prop} {s : PagePool Unit 1} {data : Page}

/-- The pool holds no page, and its thread is outside. -/
structure Vacant (s : PagePool Unit 1) : Prop where
  idle : s.shared.threads () = .idle
  table : s.shared.pool.pageTable 1 = none
  unlocked : s.shared.pool.allocationLocked = false
  frames : s.shared.pool.freeFrames = [0]
  pins : s.shared.pins = []

/-- The state after a guard on page 1 was acquired. -/
def guarded (s : PagePool Unit 1) (data : Page) : PagePool Unit 1 :=
  ⟨{ s.shared.goto () (.missed 1) with
    pool := { s.shared.pool with freeFrames := [] }.load 0 1 data
    pins := [⟨(), 1, 0⟩] }.goto () .idle, s.fresh⟩

theorem Vacant.guard (vacant : Vacant s) (run : Reach Step allowed Opened s)
    (read : s.shared.pool.disk.read 1 = some data)
    (fetches : allowed s (.pool (.fetch () 1)))
    (loads : ∀ s', allowed s' (.pool (.load () false .done))) :
    Reach Step allowed Opened (s.guarded data) := by
  have missed : Step s (.pool (.fetch () 1)) ⟨s.shared.goto () (.missed 1), s.fresh⟩ := by
    refine .pool (.missed vacant.idle (fun t blocked => ?_) vacant.table)
    exact nomatch vacant.idle.symm.trans blocked
  have fetched := BufferPool.fetchExclusive_free s.shared.pool vacant.table read vacant.unlocked
    vacant.frames .done
  have waiting : (s.shared.goto () (.missed 1)).threads () = .missed 1 :=
    SharedPool.goto_threads_self
  have loaded := SharedPool.Step.loaded (s := s.shared.goto () (.missed 1)) (t := ()) waiting
    (fun _ => .inr ⟨1, waiting⟩) fetched
  rw [SharedPool.goto_pins, vacant.pins] at loaded
  exact (run.next fetches missed).next (loads _) (.pool loaded)

end

end PagePool

end CambiumDB
