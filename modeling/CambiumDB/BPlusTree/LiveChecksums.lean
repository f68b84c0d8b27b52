import CambiumDB.BPlusTree.DisciplinedInsert
import CambiumDB.BPlusTree.Frame
import CambiumDB.BPlusTree.CleanRun
import CambiumDB.PageCodec.Checksum

/-!
# Checksums after inserts and deletes

A page is in order if no write has changed it or its checksum is right. The LSN and the node type
are written without a checksum, but never as the last change: every write of an element and every
split ends with `updateCRC`. What the checksum function computes plays no part.
-/

namespace CambiumDB

open ByteBuffer HeaderCodec SlotCodec TreeM TransitionSystem

open LeafNodeCodec (spaceRequired)

/-- The page is as it was in `w₀`, or as the file has grown by it since. -/
def Unmodified (w₀ : World) (id : UInt64) (page : Page) : Prop :=
  page = w₀.pages id ∨ w₀.filePages ≤ id.toNat ∧ page = Buffer.zero 4096

/-- The store has grown from `w₀`. -/
structure GrownFrom (w₀ : World) (s : Store) : Prop where
  freeList : 0 ∉ s.deallocatedPageIdList
  inside : s.maxAllocatedPageId.toNat < s.filePages
  limit : s.filePages ≤ maxFilePages
  file : w₀.filePages ≤ s.filePages

/-- The new page comes from the free list, from the end of the file, or with the file's growth. -/
theorem GrownFrom.newPage {w₀ w w' : World} {id : UInt64} {source : AllocationSource}
    (grown : GrownFrom w₀ w.store) (run : newPage w = (.ok (id, source), w')) :
    id ≠ 0 ∧ GrownFrom w₀ w'.store ∧
      ∀ q, w'.pages q = w.pages q ∨ w₀.filePages ≤ q.toNat ∧ w'.pages q = Buffer.zero 4096 := by
  have freeList : 0 ∉ w.metadata.deallocatedPageIdList := grown.freeList
  have inside : w.metadata.maxAllocatedPageId.toNat < w.filePages := grown.inside
  have limit : w.filePages ≤ maxFilePages := grown.limit
  have file : w₀.filePages ≤ w.filePages := grown.file
  cases free : w.metadata.deallocatedPageIdList with
  | cons p rest =>
    rw [TreeM.newPage, free] at run
    obtain ⟨same, rfl⟩ := Prod.mk.inj run
    cases same
    rw [free, List.mem_cons, not_or] at freeList
    exact ⟨Ne.symm freeList.1, ⟨freeList.2, inside, limit, file⟩, fun _ => .inl rfl⟩
  | nil =>
    obtain ⟨rfl, rfl, room⟩ := newPage_inv free run
    have number := World.nextPage_toNat inside limit
    refine ⟨World.nextPage_ne_zero inside limit, ⟨grown.freeList, ?_, ?_, ?_⟩, ?_⟩
    · show w.nextPage.toNat < w.allocate.filePages
      rw [World.allocate_filePages]
      split <;> omega
    · show w.allocate.filePages ≤ maxFilePages
      rw [World.allocate_filePages]
      split
      next full => exact room full
      next => exact limit
    · exact file.trans w.filePages_le_allocate
    · intro q
      rw [World.allocate_pages]
      split
      · rw [World.extendFile_pages]
        split
        next past => exact .inr ⟨file.trans past.1, rfl⟩
        next => exact .inl rfl
      · exact .inl rfl

/-- The discipline of checksums. -/
def checksums (w₀ : World) : PageDiscipline where
  Clean _ id page := Unmodified w₀ id page ∨ CrcValid page
  Fit _ _ := True
  Stamped _ _ := True
  Good _ page := CrcValid page
  Own _ _ := True
  Alloc := GrownFrom w₀
  clean_other clean _ := clean
  clean_named valid _ := .inr valid
  stamp _ _ := trivial
  fit_setLSN _ _ := trivial
  fit_setNodeType _ := trivial
  fit_checkLeaf _ _ := trivial
  fit_checkNode _ _ := trivial
  insertLeaf _ _ done := SlottedPage.crcValid_insertElement done
  insertNode _ _ done := SlottedPage.crcValid_insertElement done
  setValue _ _ _ done := LeafNodeCodec.crcValid_setValue done
  splitLeaf _ _ _ done half which := by
    obtain ⟨left, right⟩ := SlottedPage.crcValid_splitNode done
    rcases which with rfl | rfl
    · exact ⟨trivial, trivial, left⟩
    · exact ⟨trivial, trivial, right⟩
  splitNode _ _ _ done half which := by
    obtain ⟨left, right⟩ := SlottedPage.crcValid_splitNode done
    rcases which with rfl | rfl
    · exact ⟨trivial, trivial, left⟩
    · exact ⟨trivial, trivial, right⟩
  alloc_page _ grown _ := ⟨grown.freeList, grown.inside, grown.limit, grown.file⟩
  alloc_log _ grown _ := ⟨grown.freeList, grown.inside, grown.limit, grown.file⟩
  alloc_new grown run := by
    obtain ⟨present, grown', pages⟩ := grown.newPage run
    refine ⟨present, grown', trivial, fun _ => trivial, fun q => ⟨?_, fun _ => ?_⟩⟩
    swap
    · exact ⟨trivial, fun _ _ => trivial⟩
    intro clean
    rcases pages q with same | zero
    · rw [same]
      exact clean
    · exact .inl (.inr zero)

/-! ### Deletes -/

/-- The store between two operations. -/
def ChecksumsKept (w₀ w : World) : Prop := Orderly (checksums w₀) False ∅ (fun _ => none) w

theorem guardFrame_checksums (w₀ : World) :
    GuardFrame (fun _ => True) fun w w' => ChecksumsKept w₀ w → ChecksumsKept w₀ w' where
  refl _ kept := kept
  trans first second kept := second (first kept)
  keep _ _ := trivial
  acquire w id kept := by
    have entered : Orderly (checksums w₀) False ∅ (Function.update (fun _ => none) id (some .leaf))
        (w.acquire id) := Orderly.acquire kept trivial trivial
    exact entered.weaken (Set.Subset.refl _) (fun _ _ known => nomatch known) (by simp)
  release w id kept := Orderly.release_free kept rfl
  countCall w kept := Orderly.countCall kept

/-- A delete ends with `updateCRC` or leaves the page as it is. -/
theorem keeps_deleteElement (w₀ : World) (key : Bytes) (leaf : UInt64) :
    Keeps (fun _ => True) (fun w w' => ChecksumsKept w₀ w → ChecksumsKept w₀ w')
      (applyPage leaf (LeafNodeCodec.deleteElement · key)) := by
  intro w _ kept
  rw [applyPage]
  split
  next found page done =>
    refine ⟨(checksums w₀).alloc_page page kept.alloc trivial, ?_, by simp, ?_, kept.past, by simp⟩
    · intro p type known
      cases known
    · intro q outside
      by_cases here : q = leaf
      · rw [here, World.setPage_pages_self]
        rcases SlottedPage.crcValid_deleteElement done with valid | same
        · exact .inr valid
        · rw [same]
          exact kept.clean leaf (Set.notMem_empty _)
      · rw [World.setPage_pages_ne _ here]
        exact kept.clean q outside
  next => exact kept

theorem checksumsKept_delete {w₀ w : World} (key : Bytes) (kept : ChecksumsKept w₀ w) :
    ChecksumsKept w₀ (BPlusTree.delete key w).2 :=
  (guardFrame_checksums w₀).delete (keeps_deleteElement w₀ key) w trivial kept

/-! ### Runs -/

/-- An insert that returns nil, or a delete that returns. -/
inductive WriteStep (nextLSN : List LogEntry → UInt64) (w : World) : Call → World → Prop
  | insert {key value : Bytes} {w' : World} :
      BPlusTree.insert nextLSN key value w = (.ok (), w') → WriteStep nextLSN w (.insert key value) w'
  | delete {key : Bytes} {w' : World} :
      BPlusTree.delete key w = (.ok (), w') → WriteStep nextLSN w (.delete key) w'
  | missing {key : Bytes} {w' : World} :
      BPlusTree.delete key w = (.error (.error (.keyNotFound key)), w') →
      WriteStep nextLSN w (.delete key) w'

/-- Where a run starts: the disk manager can hand out pages, none of them page 0, and the first
one that it hands out to an empty tree reads as a leaf. -/
structure Startable (w : World) : Prop where
  freeList : 0 ∉ w.metadata.deallocatedPageIdList
  inside : w.metadata.maxAllocatedPageId.toNat < w.filePages
  limit : w.filePages ≤ maxFilePages
  first : w.tree.rootNodePageId = 0 → isLeafNode w.freshPage = true
  history : w.history = []

theorem Startable.checksumsKept {w₀ : World} (start : Startable w₀) : ChecksumsKept w₀ w₀ where
  alloc := ⟨start.freeList, start.inside, start.limit, Nat.le_refl _⟩
  held _ _ known := nomatch known
  role _ inside := absurd inside (Set.notMem_empty _)
  clean _ _ := .inl (.inl rfl)
  past := by
    rw [start.history]
    exact ⟨by simp, List.isChain_nil, List.Pairwise.nil, by simp, by simp⟩
  root := False.elim

/-- A delete from an empty tree fails at once, and on another tree it leaves the root alone. -/
theorem first_delete {w w' : World} {key : Bytes} {result : Except Failure Unit}
    (first : w.tree.rootNodePageId = 0 → isLeafNode w.freshPage = true)
    (run : BPlusTree.delete key w = (result, w')) :
    w'.tree.rootNodePageId = 0 → isLeafNode w'.freshPage = true := by
  intro empty
  have same := sameHandle_delete key w
  rw [run] at same
  rw [same.tree] at empty
  rw [BPlusTree.delete, bind_ok (get_apply _ _), if_pos empty] at run
  obtain rfl := (Prod.mk.inj run).2
  exact first empty

theorem checksumsKept_step {nextLSN : List LogEntry → UInt64} {w₀ w w' : World} {call : Call}
    (kept : ChecksumsKept w₀ w)
    (first : w.tree.rootNodePageId = 0 → isLeafNode w.freshPage = true)
    (step : WriteStep nextLSN w call w') :
    ChecksumsKept w₀ w' ∧ (w'.tree.rootNodePageId = 0 → isLeafNode w'.freshPage = true) := by
  have deleted {key : Bytes} {result : Except Failure Unit}
      (run : BPlusTree.delete key w = (result, w')) : ChecksumsKept w₀ w' := by
    have after := checksumsKept_delete key kept
    rw [run] at after
    exact after
  cases step with
  | insert run =>
    have after := Orderly.insert kept (fun _ _ _ => ⟨trivial, trivial⟩) first run
    constructor
    · exact ⟨after.alloc, after.held, after.role, after.clean, after.past, False.elim⟩
    · exact fun empty => absurd empty (after.root trivial)
  | delete run => exact ⟨deleted run, first_delete first run⟩
  | missing run => exact ⟨deleted run, first_delete first run⟩

/-- Along every run of inserts and deletes that return, a page that no guard pins is unmodified or
has the right checksum: whenever a guard was taken or given back, and at the end. -/
theorem crcValid_of_unpinned {nextLSN : List LogEntry → UInt64} {w₀ w : World}
    (start : Startable w₀) (reached : Reach (WriteStep nextLSN) (fun _ _ => True) (· = w₀) w) :
    (∀ s ∈ w.history, ∀ q, q ∉ s.guards → Unmodified w₀ q (s.pages q) ∨ CrcValid (s.pages q)) ∧
      ∀ q, Unmodified w₀ q (w.pages q) ∨ CrcValid (w.pages q) := by
  have kept : ChecksumsKept w₀ w ∧
      (w.tree.rootNodePageId = 0 → isLeafNode w.freshPage = true) := by
    refine reached.invariant
      (fun w => ChecksumsKept w₀ w ∧ (w.tree.rootNodePageId = 0 → isLeafNode w.freshPage = true))
      ?_ ?_
    · rintro _ rfl
      exact ⟨start.checksumsKept, start.first⟩
    · rintro _ _ _ ⟨kept, first⟩ _ step
      exact checksumsKept_step kept first step
  constructor
  · intro s member q free
    -- a page that is logged before it has a guard is unmodified or checksummed all the same
    rcases kept.1.past.seen s member q free with clean | ⟨_, _, _, _, _, _, clean⟩
    · exact clean
    · exact clean
  · exact fun q => kept.1.clean q (Set.notMem_empty _)

theorem startable_newDatabase : Startable newDatabase where
  freeList := List.not_mem_nil
  inside := Nat.zero_lt_one
  limit := by decide
  first _ := rfl
  history := rfl

theorem crcValid_of_first_insert : ∃ w, Startable newDatabase ∧
    Reach (WriteStep fun log => log.length.toUInt64 + 1) (fun _ _ => True) (· = newDatabase) w ∧
    ∀ q, Unmodified newDatabase q (w.pages q) ∨ CrcValid (w.pages q) := by
  have room : spaceRequired [1] [2] + slotSize ≤ 4064 := by decide
  obtain ⟨w, run, _, _⟩ := Tidy.plant (fun log => log.length.toUInt64 + 1)
    fresh_newDatabase.toReady rfl (by decide) room
  have reached : Reach (WriteStep fun log => log.length.toUInt64 + 1) (fun _ _ => True)
      (· = newDatabase) w := .next (.start rfl) trivial (.insert run)
  exact ⟨w, startable_newDatabase, reached, (crcValid_of_unpinned startable_newDatabase reached).2⟩

end CambiumDB
