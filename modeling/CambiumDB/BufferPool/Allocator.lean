import CambiumDB.BufferPool.DiskManager
import CambiumDB.Lib.Reach

/-!
# Page ids handed out by the disk manager

Runs of `allocatePage`, `deallocatePage` and a clean close and reopen, with system calls
that may fail. The ids in use are a ghost: those that were returned and not given back
since. The file is extended exactly when its last page is allocated, so the last allocated
page always lies in the file.
-/

namespace CambiumDB

open ByteBuffer TransitionSystem

structure Allocator where
  disk : DiskManager
  inUse : List UInt64

namespace Allocator

inductive Op where
  | allocate
  | deallocate (pageId : UInt64)
  | reopen

inductive Step : Allocator → Op → Allocator → Prop
  | allocated {s : Allocator} {statFails : Bool} {result : WriteResult} {pageId : UInt64}
      {source : AllocationSource} {disk : DiskManager} :
      s.disk.allocatePage statFails result = (some (pageId, source), disk) →
      Step s .allocate ⟨disk, pageId :: s.inUse⟩
  | refused {s : Allocator} {statFails : Bool} {result : WriteResult} {disk : DiskManager} :
      s.disk.allocatePage statFails result = (none, disk) → Step s .allocate ⟨disk, s.inUse⟩
  | deallocated {s : Allocator} {pageId : UInt64} : pageId ∈ s.inUse →
      Step s (.deallocate pageId) ⟨s.disk.deallocatePage pageId, s.inUse.erase pageId⟩
  | reopened {s : Allocator} {file : File} {disk : DiskManager} :
      s.disk.close = some file → DiskManager.openFile file = some disk →
      Step s .reopen ⟨disk, s.inUse⟩

/-- A new database, with no page in use. -/
def New (s : Allocator) : Prop := DiskManager.create = some s.disk ∧ s.inUse = []

structure Safe (s : Allocator) : Prop where
  freeNodup : s.disk.metadata.deallocatedPageIdList.Nodup
  freeUnused : ∀ pageId ∈ s.disk.metadata.deallocatedPageIdList, pageId ∉ s.inUse
  lastInside : s.disk.metadata.maxAllocatedPageId.toNat + 1 ≤ s.disk.numPages
  /-- an id that is returned is a new one, and its page lies in the file -/
  returned : ∀ statFails result pageId source disk,
    s.disk.allocatePage statFails result = (some (pageId, source), disk) →
    pageId ≠ 0 ∧ 4096 * (pageId.toNat + 1) ≤ disk.file.size ∧ pageId ∉ s.inUse

/-! ### The invariant -/

structure Sound (s : Allocator) : Prop where
  limit : s.disk.file.size ≤ DiskManager.maxFileSize
  lastInside : s.disk.metadata.maxAllocatedPageId.toNat + 1 ≤ s.disk.numPages
  /-- no id is both free and in use, and none occurs twice -/
  nodup : (s.disk.metadata.deallocatedPageIdList ++ s.inUse).Nodup
  known : ∀ pageId ∈ s.disk.metadata.deallocatedPageIdList ++ s.inUse,
    pageId ≠ 0 ∧ pageId ≤ s.disk.metadata.maxAllocatedPageId
  roots : s.disk.metadata.rootPages.Distinct
  leaves : s.disk.metadata.firstLeafNodePages.Distinct

theorem New.sound {s : Allocator} (new : New s) : Sound s := by
  obtain ⟨⟨file, metadata⟩, inUse⟩ := s
  obtain ⟨created, unused⟩ := new
  obtain rfl : inUse = [] := unused
  obtain ⟨size, rfl⟩ : file.size = 4096 ∧ metadata = DiskManager.newMetaData :=
    DiskManager.create_eq_some created
  have one : DiskManager.numPages ⟨file, DiskManager.newMetaData⟩ = 1 := by
    rw [DiskManager.numPages, size]
  refine ⟨?_, ?_, .nil, ?_, .nil, .nil⟩
  · show file.size ≤ DiskManager.maxFileSize
    rw [size]
    decide
  · rw [one]
    exact Nat.le_refl 1
  · intro pageId member
    cases member

namespace Sound

variable {s : Allocator} (sound : Sound s)
include sound

/-- The page after the last allocated one is not known yet. -/
theorem next_new {pageId : UInt64}
    (member : pageId ∈ s.disk.metadata.deallocatedPageIdList ++ s.inUse) :
    pageId ≠ s.disk.metadata.maxAllocatedPageId + 1 ∧
      pageId ≤ s.disk.metadata.maxAllocatedPageId + 1 := by
  have next := DiskManager.next_toNat sound.limit sound.lastInside
  obtain ⟨_, old⟩ := sound.known pageId member
  rw [UInt64.le_iff_toNat_le] at old ⊢
  constructor
  · intro same
    rw [same] at old
    omega
  · omega

theorem next_ne_zero : s.disk.metadata.maxAllocatedPageId + 1 ≠ 0 := by
  intro zero
  have next := DiskManager.next_toNat sound.limit sound.lastInside
  rw [zero, UInt64.toNat_zero] at next
  omega

theorem safe : Safe s := by
  obtain ⟨free, _, across⟩ := List.nodup_append.mp sound.nodup
  refine ⟨free, fun pageId member used => across pageId member pageId used rfl, sound.lastInside,
    fun statFails result pageId source disk run => ?_⟩
  have outcome := DiskManager.allocatePage_outcome sound.limit sound.lastInside run
  cases outcome with
  | @freelist _ rest list =>
    have head : pageId ∈ s.disk.metadata.deallocatedPageIdList := list ▸ List.mem_cons_self
    obtain ⟨nonzero, old⟩ := sound.known pageId (List.mem_append_left _ head)
    refine ⟨nonzero, ?_, fun used => across pageId head pageId used rfl⟩
    have inside := sound.lastInside
    rw [UInt64.le_iff_toNat_le] at old
    rw [DiskManager.numPages] at inside
    show 4096 * (pageId.toNat + 1) ≤ s.disk.file.size
    omega
  | expansion _ _ _ room =>
    refine ⟨sound.next_ne_zero, room, fun used => ?_⟩
    exact (sound.next_new (List.mem_append_right _ used)).1 rfl

end Sound

/-! ### Steps keep it -/

section
variable {s : Allocator} (sound : Sound s)
include sound

theorem Sound.allocate {statFails : Bool} {result : WriteResult} {disk : DiskManager}
    {answer : Option (UInt64 × AllocationSource)}
    (run : s.disk.allocatePage statFails result = (answer, disk)) :
    Sound ⟨disk, (answer.map Prod.fst).toList ++ s.inUse⟩ := by
  have outcome := DiskManager.allocatePage_outcome sound.limit sound.lastInside run
  cases outcome with
  | @freelist pageId rest list =>
    -- the head of the free list is now in use, so the known ids are the same ones
    have perm : (rest ++ ([pageId] ++ s.inUse)).Perm
        (s.disk.metadata.deallocatedPageIdList ++ s.inUse) := by
      rw [list]
      exact List.perm_middle
    exact ⟨sound.limit, sound.lastInside, perm.nodup_iff.mpr sound.nodup,
      fun id member => sound.known id (perm.mem_iff.mp member), sound.roots, sound.leaves⟩
  | @expansion file list extends_ limit room =>
    have nodup := sound.nodup
    rw [list, List.nil_append] at nodup
    refine ⟨limit, ?_, ?_, fun id member => ?_, sound.roots, sound.leaves⟩
    · show (s.disk.metadata.maxAllocatedPageId + 1).toNat + 1 ≤ file.size / 4096
      omega
    · show (s.disk.metadata.deallocatedPageIdList ++
        (s.disk.metadata.maxAllocatedPageId + 1) :: s.inUse).Nodup
      rw [list, List.nil_append, List.nodup_cons]
      exact ⟨fun used => (sound.next_new (List.mem_append_right _ used)).1 rfl, nodup⟩
    · have position : id ∈ s.disk.metadata.deallocatedPageIdList ++
          (s.disk.metadata.maxAllocatedPageId + 1) :: s.inUse := member
      rw [list, List.nil_append] at position
      rcases List.mem_cons.mp position with rfl | old
      · exact ⟨sound.next_ne_zero, UInt64.le_refl _⟩
      · have known := List.mem_append_right s.disk.metadata.deallocatedPageIdList old
        exact ⟨(sound.known id known).1, (sound.next_new known).2⟩
  | @failed file extends_ limit =>
    have larger := extends_.size_le
    have inside := sound.lastInside
    refine ⟨limit, ?_, sound.nodup, sound.known, sound.roots, sound.leaves⟩
    rw [DiskManager.numPages] at inside
    show s.disk.metadata.maxAllocatedPageId.toNat + 1 ≤ file.size / 4096
    omega

theorem Sound.deallocate {pageId : UInt64} (used : pageId ∈ s.inUse) :
    Sound ⟨s.disk.deallocatePage pageId, s.inUse.erase pageId⟩ := by
  have perm : (s.disk.metadata.deallocatedPageIdList ++ [pageId] ++ s.inUse.erase pageId).Perm
      (s.disk.metadata.deallocatedPageIdList ++ s.inUse) := by
    rw [List.append_assoc]
    exact (List.perm_cons_erase used).symm.append_left _
  exact ⟨sound.limit, sound.lastInside, perm.nodup_iff.mpr sound.nodup,
    fun id member => sound.known id (perm.mem_iff.mp member), sound.roots, sound.leaves⟩

theorem Sound.reopen {file : File} {disk : DiskManager} (closed : s.disk.close = some file)
    (opened : DiskManager.openFile file = some disk) : Sound ⟨disk, s.inUse⟩ := by
  obtain ⟨rfl, page, rfl⟩ := DiskManager.openFile_close sound.roots sound.leaves closed opened
  have inside := sound.lastInside
  have size : (s.disk.file.write 0 (page.read 0 4096)).size = s.disk.file.size := by
    rw [File.size_write _ _ _ (Nat.zero_le _), Buffer.length_read]
    rw [DiskManager.numPages] at inside
    omega
  refine ⟨?_, ?_, sound.nodup, sound.known, sound.roots, sound.leaves⟩
  · rw [size]
    exact sound.limit
  · rw [DiskManager.numPages, size]
    exact sound.lastInside

end

theorem Step.sound {s s' : Allocator} {op : Op} (sound : Sound s) (step : Step s op s') :
    Sound s' := by
  cases step with
  | allocated run => exact sound.allocate run
  | refused run => exact sound.allocate run
  | deallocated used => exact sound.deallocate used
  | reopened closed opened => exact sound.reopen closed opened

/-! ### Runs -/

theorem safe_of_run (s : Allocator) (reached : Reach Step (fun _ _ => True) New s) : Safe s := by
  have sound := reached.invariant Sound (fun _ new => new.sound) fun _ _ _ sound _ step =>
    step.sound sound
  exact sound.safe

/-- A run that allocates a page of a new file. -/
theorem safe_of_first_allocation : ∃ s, Reach Step (fun _ _ => True) New s ∧ Safe s ∧
    s.inUse = [1] := by
  obtain ⟨disk, created⟩ := DiskManager.create_isSome
  obtain ⟨_, fresh⟩ := DiskManager.create_eq_some created
  have start : Reach Step (fun _ _ => True) New ⟨disk, []⟩ := .start ⟨created, rfl⟩
  obtain ⟨disk', run⟩ : ∃ disk', disk.allocatePage false .done = (some (1, .fileExpansion), disk') := by
    have next : disk.metadata.maxAllocatedPageId + 1 = 1 := by rw [fresh]; rfl
    have done := DiskManager.allocatePage_done disk (by rw [fresh]; rfl)
      (by rw [next]; decide)
    rwa [next] at done
  have reached := start.next trivial (.allocated run)
  exact ⟨_, reached, safe_of_run _ reached, rfl⟩

end Allocator

end CambiumDB
