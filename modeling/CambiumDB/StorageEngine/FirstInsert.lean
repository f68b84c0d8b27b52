import CambiumDB.StorageEngine.Engine
import CambiumDB.StorageEngine.Restart
import CambiumDB.BPlusTree.Refinement

/-!
# The first insert into the first tree

The state of the engine after it, and what a crash without any flushed page makes of it.
-/

namespace CambiumDB

open ByteBuffer TransitionSystem SlotCodec LeafNodeCodec

namespace StorageEngine

/-- After `NewBPlusTree` and `OpenBPlusTree(1)` on a new database. -/
def openedTree (page : Page) : StorageEngine :=
  ((newDatabase page).newBPlusTree.2.openBPlusTree 1).2

theorem reach_openedTree {nextLSN : List LogEntry → UInt64} {page : Page}
    (opened : Opened (newDatabase page)) {allowed : StorageEngine → Op → Prop}
    (creates : ∀ e, allowed e .newBPlusTree) (opens : ∀ e, allowed e (.openBPlusTree 1)) :
    Reach (Step nextLSN) allowed Opened (openedTree page) :=
  .next (.next (.start opened) (creates _) .newBPlusTree) (opens _) .openBPlusTree

theorem findTree_openedTree (page : Page) : (openedTree page).findTree 1 = some ⟨1, 0, 0⟩ := rfl

theorem ready_openedTree (page : Page) :
    Ready ((openedTree page).enterTree ⟨1, 0, 0⟩ fun _ => false) where
  freeList := rfl
  inside := Nat.zero_lt_one
  limit := show 1 ≤ TreeM.maxFilePages by decide
  blank _ _ _ := rfl
  guards := rfl
  faults _ := rfl

/-- The records of a first insert between its begin and its commit record. -/
def firstRecords (lsn tree page : UInt64) (source : AllocationSource) (key value : Bytes) :
    List LogEntry :=
  [⟨lsn, .createPage tree page .leaf source⟩, ⟨lsn + 1, .updateFirstLeafNodePageId tree page⟩,
    ⟨lsn + 2, .updateRootNodePageId tree page⟩,
    ⟨lsn + 3, .insertLeafNodeEntry tree page key value⟩]

theorem insert_openedTree (page : Page) {key value : Bytes}
    (room : spaceRequired key value + slotSize ≤ 4064) : ∃ w,
      BPlusTree.insert recordLSN key value
        ((openedTree page).enterTree ⟨1, 0, 0⟩ fun _ => false) = (.ok (), w) ∧
      w.tree = ⟨1, 1, 1⟩ ∧ w.filePages = 17 ∧ LeafPage (w.pages 1) [⟨key, value⟩] ∧
      w.log = ⟨1, .beginOperation 1⟩ :: firstRecords 2 1 1 .fileExpansion key value ++
        [⟨6, .commitOperation 1⟩] := by
  obtain ⟨checked, final, run, written, _⟩ := BPlusTree.insert_planted recordLSN
    (ready_openedTree page) (show 1 + 16 ≤ TreeM.maxFilePages by decide) rfl
    (clean_zero.insertFits room)
  refine ⟨_, run, rfl, rfl, ?_, rfl⟩
  exact written.leaf

/-- The engine after it, with nothing written to the file. -/
structure AfterFirstInsert (key value : Bytes) (e : StorageEngine) : Prop where
  reached : ∀ allowed : StorageEngine → Op → Prop, (∀ e, allowed e .newBPlusTree) →
    (∀ e, allowed e (.openBPlusTree 1)) → (∀ e, allowed e (.insert 1 key value)) →
    Reach (Step recordLSN) allowed Opened e
  handle : e.openBPlusTrees = [⟨1, 1, 1⟩]
  page : LeafPage (e.world.pages 1) [⟨key, value⟩]
  file : e.world.filePages = 17
  log : e.world.log =
    ⟨1, .beginOperation 1⟩ :: firstRecords 2 1 1 .fileExpansion key value ++ [⟨6, .commitOperation 1⟩]
  read : MetaDataCodec.decodeMetaDataPage e.metaDataPage = some ⟨0, 0, [], 0, [], []⟩
  stored : ∀ id, e.stored id = Buffer.zero 4096

theorem exists_afterFirstInsert {key value : Bytes}
    (room : spaceRequired key value + slotSize ≤ 4064) : ∃ e, AfterFirstInsert key value e := by
  obtain ⟨page, opened⟩ := exists_newDatabase
  obtain ⟨_, same, read⟩ := opened_spec opened
  obtain rfl : page = _ := congrArg StorageEngine.metaDataPage same
  obtain ⟨w, run, tree, file, leaf, log⟩ := insert_openedTree page room
  refine ⟨(openedTree page).leaveTree w (openedTree page).stored, ?_, ?_, leaf, file, log, read,
    fun _ => rfl⟩
  · intro allowed creates opens inserts
    exact .next (reach_openedTree opened creates opens) (inserts _)
      (.insert (findTree_openedTree page) run trivial fun _ => .inl rfl)
  · rw [leaveTree, tree]
    rfl

/-! ### Redo -/

section
variable {lsn tree page : UInt64} {source : AllocationSource} {key value : Bytes}

theorem names_firstRecords {id : UInt64} :
    ∀ entry ∈ firstRecords lsn tree page source key value, Names entry.record id → id = page := by
  intro entry member names
  by_contra other
  simp only [firstRecords, List.mem_cons, List.not_mem_nil, or_false] at member
  rcases member with rfl | rfl | rfl | rfl
  all_goals simp [Names, createdType, pageChange, other] at names

theorem redoable_firstRecords :
    ∀ entry ∈ firstRecords lsn tree page source key value, Redoable entry.record := by
  simp [firstRecords, Redoable]

theorem redoPage_insertLeaf (lsn tree id : UInt64) (key value : Bytes) (content : Page) :
    redoPage ⟨lsn, .insertLeafNodeEntry tree id key value⟩ id content =
      guarded lsn (fun content => (insertElement content key value).map Prod.snd) content := by
  simp [redoPage, createdType, pageChange]

/-- Redo builds the page of a first insert from a zero page. -/
theorem redoPages_firstRecords (room : spaceRequired key value + slotSize ≤ 4064)
    (positive : 0 < lsn + 3) :
    ∃ content, redoPages (firstRecords lsn tree page source key value) page (Buffer.zero 4096) =
        some content ∧
      LeafPage content [⟨key, value⟩] ∧ HeaderCodec.getLSN content = lsn + 3 := by
  have takes : TakesInsert (Buffer.zero 4096) key value := by
    left
    rw [clean_zero.free]
    exact room
  obtain ⟨content, done, leaf, _⟩ := leafPage_zero.insertElement takes rfl
  have zero : HeaderCodec.getLSN (Buffer.zero 4096) = 0 := by decide
  have blank : redoPage ⟨lsn, .createPage tree page .leaf source⟩ page (Buffer.zero 4096) =
      some (Buffer.zero 4096) := by
    have created : createdType (.createPage tree page .leaf source) page = some .leaf := if_pos rfl
    rw [redoPage_created created, setType_leaf_self (Buffer.byte_zero _)]
  have entered : redoPage ⟨lsn + 3, .insertLeafNodeEntry tree page key value⟩ page
      (Buffer.zero 4096) = some (HeaderCodec.setLSN content (lsn + 3)) := by
    rw [redoPage_insertLeaf]
    exact guarded_older (by rw [zero]; exact positive) (by rw [done]; rfl)
  refine ⟨HeaderCodec.setLSN content (lsn + 3), ?_, leaf.setLSN (lsn + 3),
    HeaderCodec.getLSN_setLSN content (lsn + 3)⟩
  rw [firstRecords, redoPages_cons, blank, Option.bind_some, redoPages_cons,
    redoPage_other rfl rfl, Option.bind_some, redoPages_cons, redoPage_other rfl rfl,
    Option.bind_some, redoPages_cons, entered]
  rfl

/-- A page that holds nothing but zeros is all that redo needs, and it needs it for one page. -/
theorem redoPages_firstRecords_of_zero (room : spaceRequired key value + slotSize ≤ 4064)
    (positive : 0 < lsn + 3) {pages : UInt64 → Page} (blank : pages page = Buffer.zero 4096)
    (id : UInt64) :
    ∃ content, redoPages (firstRecords lsn tree page source key value) id (pages id) =
      some content := by
  by_cases here : id = page
  · obtain ⟨content, redo, _⟩ := redoPages_firstRecords room positive
    rw [here, blank]
    exact ⟨content, redo⟩
  · exact ⟨_, redoPages_unnamed (fun entry member names =>
      here (names_firstRecords entry member names)) _⟩

end

/-- What a new process starts from when it has read its metadata. -/
def startedFrom (e : StorageEngine) (metadata : MetaData) : StorageEngine :=
  { e with
    currBPlusTreeId := metadata.currBPlusTreeId
    openBPlusTrees := []
    world := { e.world with
      tree := ⟨0, 0, 0⟩
      pages := e.stored
      metadata
      guards := []
      history := [] } }

theorem newStorageEngine_eq {e : StorageEngine} {m : MetaData}
    (read : MetaDataCodec.decodeMetaDataPage e.metaDataPage = some m) :
    e.newStorageEngine = some (e.startedFrom m) := by
  rw [newStorageEngine, read]
  rfl

/-- The content of a page in the file. -/
def filed (e : StorageEngine) (id : UInt64) : Page :=
  if id.toNat < e.world.filePages then e.stored id else Buffer.zero 4096

/-- A crash after which every committed record can be redone. -/
theorem exists_crash {nextLSN : List LogEntry → UInt64} {e : StorageEngine} {m : MetaData}
    {entries : List LogEntry} (read : MetaDataCodec.decodeMetaDataPage e.metaDataPage = some m)
    (redone : committed e.world.log = some entries)
    (redoable : ∀ entry ∈ entries, Redoable entry.record)
    (named : ∀ entry ∈ entries, ∀ id, Names entry.record id → id.toNat < e.world.filePages)
    (pages : ∀ id, ∃ page, redoPages entries id (e.filed id) = some page) :
    ∃ w, Step nextLSN e .crash ((e.startedFrom m).recovered w) ∧
      w.metadata = entries.foldl redoMeta m ∧ w.log = e.world.log ∧ Idle w ∧
      w.filePages = e.world.filePages ∧
      ∀ id, redoPages entries id (e.filed id) = some (w.view id) := by
  have idle : Idle ((e.startedFrom m).recovering fun _ => false) := ⟨rfl, fun _ => rfl⟩
  obtain ⟨w, run, idle', file⟩ := recover_returns idle redone redoable named pages
  obtain ⟨entries', redone', metadata, log⟩ := recover_metadata run
  obtain ⟨entries'', redone'', views⟩ := recover_pages run
  obtain rfl := Option.some.inj (redone.symm.trans redone')
  obtain rfl := Option.some.inj (redone.symm.trans redone'')
  exact ⟨w, .crash (newStorageEngine_eq read) run, metadata, log, idle', file, views⟩

/-- A crash after the first insert, with nothing written to the file. -/
theorem AfterFirstInsert.exists_crash {key value : Bytes} {e : StorageEngine}
    (first : AfterFirstInsert key value e)
    (room : spaceRequired key value + slotSize ≤ 4064) :
    committed e.world.log = some (firstRecords 2 1 1 .fileExpansion key value) ∧
    ∃ w, Step recordLSN e .crash ((e.startedFrom ⟨0, 0, [], 0, [], []⟩).recovered w) ∧
      w.metadata = ⟨4, 0, [(1, 1)], 1, [], [(1, 1)]⟩ ∧ w.log = e.world.log := by
  have redone : committed e.world.log = some (firstRecords 2 1 1 .fileExpansion key value) := by
    rw [first.log]
    rfl
  have named : ∀ entry ∈ firstRecords 2 1 1 .fileExpansion key value, ∀ id,
      Names entry.record id → id.toNat < e.world.filePages := by
    intro entry member id names
    rw [names_firstRecords entry member names, first.file]
    decide
  have blank : e.filed 1 = Buffer.zero 4096 := by
    rw [filed, first.stored, ite_self]
  obtain ⟨w, crash, metadata, log, _⟩ := StorageEngine.exists_crash first.read redone
    redoable_firstRecords named (redoPages_firstRecords_of_zero room (by decide) blank)
  exact ⟨redone, w, crash, metadata, log⟩

end StorageEngine

end CambiumDB
