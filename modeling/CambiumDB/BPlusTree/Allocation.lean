import CambiumDB.BPlusTree.Tree
import CambiumDB.PageCodec.LeafPage

/-!
# The calls of a tree operation when none of them fails

What each primitive leaves behind, written with the transformers of `World`. As long as no
page was given back, `NewPage` hands out the page after the last allocated one, and that
page is zero: the file grows by zero pages and nothing writes past the last allocated page.
-/

namespace CambiumDB

open ByteBuffer TreeM

namespace World

theorem setPage_setPage (w : World) (id : UInt64) (a b : Page) :
    (w.setPage id a).setPage id b = w.setPage id b := by
  simp only [setPage, Function.update_idem]

theorem setPage_comm (w : World) {a b : UInt64} (different : a ≠ b) (x y : Page) :
    (w.setPage a x).setPage b y = (w.setPage b y).setPage a x := by
  simp only [setPage, Function.update_comm different]

@[simp] theorem setPage_pages_self (w : World) (id : UInt64) (page : Page) :
    (w.setPage id page).pages id = page := Function.update_self ..

@[simp] theorem setPage_pages_ne (w : World) {id other : UInt64} (different : other ≠ id)
    (page : Page) : (w.setPage id page).pages other = w.pages other :=
  Function.update_of_ne different ..

theorem setPage_same (w : World) (id : UInt64) : w.setPage id (w.pages id) = w := by
  rw [setPage, Function.update_eq_self]

/-- The page that the file is extended to next. -/
def nextPage (w : World) : UInt64 := w.metadata.maxAllocatedPageId + 1

theorem nextPage_toNat {w : World} (inside : w.metadata.maxAllocatedPageId.toNat < w.filePages)
    (limit : w.filePages ≤ maxFilePages) :
    w.nextPage.toNat = w.metadata.maxAllocatedPageId.toNat + 1 := by
  rw [maxFilePages] at limit
  rw [nextPage, UInt64.toNat_add, UInt64.toNat_one, Nat.mod_eq_of_lt]
  omega

theorem nextPage_ne_zero {w : World} (inside : w.metadata.maxAllocatedPageId.toNat < w.filePages)
    (limit : w.filePages ≤ maxFilePages) : w.nextPage ≠ 0 := by
  intro zero
  have number := nextPage_toNat inside limit
  rw [zero] at number
  simp at number

/-- What a successful `NewPage` leaves when the free list is empty. -/
@[simps]
def allocate (w : World) : World :=
  { w with
    filePages := if w.nextPage.toNat = w.filePages then w.filePages + 16 else w.filePages
    pages := if w.nextPage.toNat = w.filePages then (extendFile w).pages else w.pages
    metadata := { w.metadata with maxAllocatedPageId := w.nextPage }
    calls := w.calls + 1 }

theorem filePages_le_allocate (w : World) : w.filePages ≤ w.allocate.filePages := by
  rw [allocate_filePages]
  split <;> omega

theorem allocate_filePages_le (w : World) : w.allocate.filePages ≤ w.filePages + 16 := by
  rw [allocate_filePages]
  split <;> omega

theorem extendFile_pages (w : World) (id : UInt64) : (extendFile w).pages id =
    if w.filePages ≤ id.toNat ∧ id.toNat < w.filePages + 16 then Buffer.zero 4096
    else w.pages id := rfl

/-- No page was given back and every page past the last allocated one is zero. -/
structure Allocating (w : World) : Prop where
  freeList : w.metadata.deallocatedPageIdList = []
  inside : w.metadata.maxAllocatedPageId.toNat < w.filePages
  limit : w.filePages ≤ maxFilePages
  blank : ∀ id : UInt64, w.metadata.maxAllocatedPageId < id → id.toNat < w.filePages →
    w.pages id = Buffer.zero 4096

namespace Allocating

variable {w : World} (h : Allocating w)
include h

theorem nextPage_toNat : w.nextPage.toNat = w.metadata.maxAllocatedPageId.toNat + 1 :=
  World.nextPage_toNat h.inside h.limit

theorem lt_nextPage {id : UInt64} (old : id ≤ w.metadata.maxAllocatedPageId) : id < w.nextPage := by
  rw [UInt64.le_iff_toNat_le] at old
  rw [UInt64.lt_iff_toNat_lt, h.nextPage_toNat]
  omega

theorem le_of_lt_nextPage {id : UInt64} (less : id < w.nextPage) :
    id ≤ w.metadata.maxAllocatedPageId := by
  rw [UInt64.lt_iff_toNat_lt, h.nextPage_toNat] at less
  rw [UInt64.le_iff_toNat_le]
  omega

theorem nextPage_notMem {ids : List UInt64}
    (old : ∀ id ∈ ids, id ≤ w.metadata.maxAllocatedPageId) : w.nextPage ∉ ids :=
  fun member => UInt64.lt_irrefl _ (h.lt_nextPage (old _ member))

theorem nextPage_ne_zero : w.nextPage ≠ 0 := World.nextPage_ne_zero h.inside h.limit

theorem allocate_pages {id : UInt64} (old : id ≤ w.metadata.maxAllocatedPageId) :
    w.allocate.pages id = w.pages id := by
  rw [UInt64.le_iff_toNat_le] at old
  have inside := h.inside
  rw [World.allocate_pages]
  split
  · rw [extendFile_pages, if_neg (by omega)]
  · rfl

/-- The new page is zero, whether or not the file had to grow. -/
theorem allocate_nextPage : w.allocate.pages w.nextPage = Buffer.zero 4096 := by
  have inside := h.inside
  have number := h.nextPage_toNat
  rw [World.allocate_pages]
  split
  · rw [extendFile_pages, if_pos (by omega)]
  · exact h.blank _ (h.lt_nextPage (UInt64.le_refl _)) (by omega)

theorem nextPage_inside : w.nextPage.toNat < w.allocate.filePages := by
  have inside := h.inside
  have number := h.nextPage_toNat
  rw [World.allocate_filePages]
  split <;> omega

/-- The file has to grow only if it is full. -/
theorem allocate_grown (space : w.nextPage.toNat = w.filePages → w.filePages + 16 ≤ maxFilePages) :
    Allocating w.allocate := by
  refine ⟨h.freeList, h.nextPage_inside, ?_, ?_⟩
  · rw [World.allocate_filePages]
    split
    next full => exact space full
    next => exact h.limit
  · intro id later
    have after : w.nextPage.toNat < id.toNat := UInt64.lt_iff_toNat_lt.mp later
    have number := h.nextPage_toNat
    rw [World.allocate_filePages, World.allocate_pages]
    split
    · intro inside
      rw [extendFile_pages, if_pos (by omega)]
    · intro inside
      exact h.blank id (UInt64.lt_iff_toNat_lt.mpr (by omega)) inside

theorem allocate (space : w.filePages + 16 ≤ maxFilePages) : Allocating w.allocate :=
  h.allocate_grown fun _ => space

/-- Only the allocator's own fields and the pages past the last allocated one matter. -/
theorem congr {w' : World}
    (freeList : w'.metadata.deallocatedPageIdList = w.metadata.deallocatedPageIdList)
    (last : w'.metadata.maxAllocatedPageId = w.metadata.maxAllocatedPageId)
    (size : w'.filePages = w.filePages)
    (pages : ∀ id, w.metadata.maxAllocatedPageId < id → w'.pages id = w.pages id) :
    Allocating w' := by
  refine ⟨freeList.trans h.freeList, ?_, size ▸ h.limit, ?_⟩
  · rw [last, size]
    exact h.inside
  · intro id later inside
    rw [last] at later
    rw [size] at inside
    rw [pages id later, h.blank id later inside]

end Allocating

end World

namespace TreeM

variable {w : World} {id : UInt64}

theorem newGuard_ok (fault : w.faults w.calls = false) (inside : id.toNat < w.filePages)
    (free : id ∉ w.guards) : newGuard id w = (.ok (), w.acquire id) := by
  rw [newGuard, fault, if_neg (by simpa using inside), if_neg free]

theorem newGuardOrCleanup_ok (fault : w.faults w.calls = false) (inside : id.toNat < w.filePages)
    (free : id ∉ w.guards) : newGuardOrCleanup id w = (.ok (), w.acquire id) := by
  rw [newGuardOrCleanup, newGuard_ok fault inside free]

theorem newPage_ok (alloc : w.Allocating) (fault : w.faults w.calls = false)
    (space : w.filePages + 16 ≤ maxFilePages) :
    newPage w = (.ok (w.nextPage, .fileExpansion), w.allocate) := by
  have grows : ¬ maxFilePages < w.filePages + 16 := not_lt.mpr space
  rw [newPage, alloc.freeList]
  simp only [fault, grows, decide_false, Bool.and_false, Bool.or_false, Bool.false_eq_true,
    if_false, World.allocate]
  by_cases full : w.nextPage.toNat = w.filePages
  · have full' : (w.metadata.maxAllocatedPageId + 1).toNat = w.filePages := full
    simp only [full, full', decide_true, if_true, extendFile]
    rfl
  · have room : ¬ (w.metadata.maxAllocatedPageId + 1).toNat = w.filePages := full
    simp only [full, room, decide_false, Bool.false_eq_true, if_false]
    rfl

/-- With an empty free list the new page is the one after the last. -/
theorem newPage_inv {w' : World} {source : AllocationSource}
    (freeList : w.metadata.deallocatedPageIdList = [])
    (run : newPage w = (.ok (id, source), w')) :
    id = w.nextPage ∧ w' = w.allocate ∧
      (w.nextPage.toNat = w.filePages → w.filePages + 16 ≤ maxFilePages) := by
  rw [newPage, freeList] at run
  dsimp only at run
  split at run
  · cases run
  next enough =>
    obtain ⟨same, rfl⟩ := Prod.mk.inj run
    cases same
    refine ⟨rfl, ?_, ?_⟩
    · by_cases full : w.nextPage.toNat = w.filePages
      · have full' : (w.metadata.maxAllocatedPageId + 1).toNat = w.filePages := full
        simp only [World.allocate, full, full', decide_true, if_true, extendFile]
        rfl
      · have room : ¬ (w.metadata.maxAllocatedPageId + 1).toNat = w.filePages := full
        simp only [World.allocate, full, room, decide_false, Bool.false_eq_true, if_false]
        rfl
    · intro full
      have full' : (w.metadata.maxAllocatedPageId + 1).toNat = w.filePages := full
      simp only [full', decide_true, Bool.true_and, Bool.or_eq_true, decide_eq_true_eq, not_or,
        not_lt] at enough
      exact enough.2

theorem logRecord_ok {nextLSN : List LogEntry → UInt64} {record : WALRecord}
    (fault : w.faults w.calls = false) :
    logRecord nextLSN record w = (.ok (nextLSN w.log), w.append (nextLSN w.log) record) := by
  rw [logRecord, fault, if_neg (by decide)]

theorem logIgnored_ok {nextLSN : List LogEntry → UInt64} {record : WALRecord}
    (fault : w.faults w.calls = false) :
    logIgnored nextLSN record w = (.ok (), w.append (nextLSN w.log) record) := by
  rw [logIgnored, logRecord_ok fault]

theorem applyPage_setPage {α : Type} {f : Page → Option (α × Page)} {a : α} {page page' : Page}
    (h : f page = some (a, page')) :
    applyPage id f (w.setPage id page) = (.ok a, w.setPage id page') := by
  rw [applyPage_ok (w := w.setPage id page) ((w.setPage_pages_self id page).symm ▸ h),
    World.setPage_setPage]

end TreeM

end CambiumDB
