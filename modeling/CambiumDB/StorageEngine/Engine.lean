import CambiumDB.Lib.Reach
import CambiumDB.StorageEngine.Recovery

/-!
# `storageengine/storage_engine.go`

The engine hands out tree ids, keeps the handles of the open trees and owns the metadata.
`metaDataPage` and `stored` are what the file holds: the metadata page is written by `Close`
only, any other page when it is evicted or flushed. A page is written whole or not at all.
After a crash the new process has the file and the log.
-/

namespace CambiumDB

open ByteBuffer TreeM

structure StorageEngine where
  currBPlusTreeId : UInt64
  /-- The handles under their ids, as `openBPlusTrees` has them. -/
  openBPlusTrees : List BPlusTree
  world : World
  metaDataPage : Page
  stored : UInt64 → Page

/-- `NewBPlusTree` of the tree package: the first leaf is not read from the metadata. -/
def BPlusTree.newBPlusTree (metadata : MetaData) (id : UInt64) : BPlusTree :=
  ⟨id, metadata.rootPages.get id, 0⟩

/-- `Close` of one handle. -/
def World.closeTree (w : World) (tree : BPlusTree) : World :=
  (BPlusTree.close { w with tree }).2

namespace StorageEngine

variable (e : StorageEngine)

def newBPlusTree : UInt64 × StorageEngine :=
  let id := e.currBPlusTreeId + 1
  (id, { e with currBPlusTreeId := id })

def findTree (id : UInt64) : Option BPlusTree :=
  e.openBPlusTrees.find? fun tree => tree.bPlusTreeId = id

def openBPlusTree (id : UInt64) : BPlusTree × StorageEngine :=
  match e.findTree id with
  | some tree => (tree, e)
  | none =>
    let tree := BPlusTree.newBPlusTree e.world.metadata id
    (tree, { e with openBPlusTrees := tree :: e.openBPlusTrees })

/-- `none` is the error "can't close B-Tree twice". -/
def closeBPlusTree (id : UInt64) : Option StorageEngine := do
  let tree ← e.findTree id
  some { e with
    world := e.world.closeTree tree
    openBPlusTrees := e.openBPlusTrees.filter fun tree => tree.bPlusTreeId ≠ id }

/-- The world of `Close` once the counter and the handles are in the metadata. The order is the
one in which `range` yields the open trees. -/
def closing (order : List BPlusTree) : World :=
  order.foldl World.closeTree
    { e.world with metadata := { e.world.metadata with currBPlusTreeId := e.currBPlusTreeId } }

/-- The calls of `Close` that may fail. -/
structure CloseFaults where
  flushAllPages : Bool
  releaseAllFrameBuffers : Bool
  write : Bool
  fileClose : Bool

/-- `Close`. The pages that `flushed` names are written even if it fails. -/
def close (order : List BPlusTree) (faults : CloseFaults) (flushed : UInt64 → Bool) :
    Except Failure Unit × StorageEngine :=
  let e := { e with world := e.closing order }
  if faults.flushAllPages then
    (.error (.error .io),
      { e with stored := fun p => if flushed p then e.world.pages p else e.stored p })
  else
    let e := { e with stored := e.world.pages }
    if faults.releaseAllFrameBuffers then (.error (.error .io), e)
    else
      match MetaDataCodec.encodeMetaDataPage e.world.metadata with
      | none => (.error .panic, e)
      | some page =>
        if faults.write then (.error (.error .io), e)
        else
          let e := { e with metaDataPage := page }
          if faults.fileClose then (.error (.error .io), e) else (.ok (), e)

/-- `NewStorageEngine` on the file and the log of a process that has ended. -/
def newStorageEngine : Option StorageEngine := do
  let metadata ← MetaDataCodec.decodeMetaDataPage e.metaDataPage
  some { e with
    currBPlusTreeId := metadata.currBPlusTreeId
    openBPlusTrees := []
    world := { e.world with
      tree := ⟨0, 0, 0⟩
      pages := e.stored
      metadata
      guards := []
      history := [] } }

/-- The engine on a file with one page and without a log. -/
def newDatabase (metaDataPage : Page) : StorageEngine where
  currBPlusTreeId := 0
  openBPlusTrees := []
  world := {
    tree := ⟨0, 0, 0⟩
    pages := fun _ => Buffer.zero 4096
    filePages := 1
    metadata := ⟨0, 0, [], 0, [], []⟩
    log := []
    guards := []
    history := []
    calls := 0
    faults := fun _ => false }
  metaDataPage
  stored := fun _ => Buffer.zero 4096

/-- `NewStorageEngine` without a database file: the metadata page is written first. -/
def create : Option StorageEngine :=
  (MetaDataCodec.encodeMetaDataPage ⟨0, 0, [], 0, [], []⟩).map newDatabase

/-! ### Calls on open trees -/

/-- What a call on a tree starts from. -/
def enterTree (tree : BPlusTree) (faults : Nat → Bool) : World :=
  { e.world with tree, history := [], calls := 0, faults }

/-- What a call on a tree leaves behind. -/
def leaveTree (w : World) (stored : UInt64 → Page) : StorageEngine :=
  { e with
    openBPlusTrees := e.openBPlusTrees.map fun tree =>
      if tree.bPlusTreeId = w.tree.bPlusTreeId then w.tree else tree
    world := w
    stored }

/-- The call came back to its caller. -/
def Returned : Except Failure Unit → Prop
  | .ok _ => True
  | .error (.error _) => True
  | .error _ => False

/-- Each page of the file is as it was, or as an eviction found it while nothing held it. -/
def Evicted (stored : UInt64 → Page) (history : List Snapshot) (stored' : UInt64 → Page) : Prop :=
  ∀ p, stored' p = stored p ∨ ∃ snap ∈ history, p ∉ snap.guards ∧ stored' p = snap.pages p

/-- What a crash leaves: the log, the file and its size. -/
def crashedAt (log : List LogEntry) (filePages : Nat) (stored : UInt64 → Page) : StorageEngine :=
  { e with world := { e.world with log, filePages }, stored }

def recovering (faults : Nat → Bool) : World := { e.world with calls := 0, faults }

/-- The engine after `Recover`, which has flushed all pages. -/
def recovered (w : World) : StorageEngine := { e with world := w, stored := w.pages }

inductive Op where
  | newBPlusTree
  | openBPlusTree (id : UInt64)
  | closeBPlusTree (id : UInt64)
  | insert (id : UInt64) (key value : Bytes)
  | delete (id : UInt64) (key : Bytes)
  | deallocatePage (pageId : UInt64)
  | evict (pageId : UInt64)
  | recover
  | restart
  | closeFails
  | crash

/-- A step of the engine, with the log sequence numbers that `nextLSN` gives out. -/
inductive Step (nextLSN : List LogEntry → UInt64) : StorageEngine → Op → StorageEngine → Prop
  | newBPlusTree {e : StorageEngine} : Step nextLSN e .newBPlusTree e.newBPlusTree.2
  | openBPlusTree {e : StorageEngine} {id : UInt64} :
      Step nextLSN e (.openBPlusTree id) (e.openBPlusTree id).2
  | closeBPlusTree {e e' : StorageEngine} {id : UInt64} : e.closeBPlusTree id = some e' →
      Step nextLSN e (.closeBPlusTree id) e'
  | insert {e : StorageEngine} {id : UInt64} {key value : Bytes} {tree : BPlusTree}
      {faults : Nat → Bool} {result : Except Failure Unit} {w : World} {stored : UInt64 → Page} :
      e.findTree id = some tree →
      BPlusTree.insert nextLSN key value (e.enterTree tree faults) = (result, w) →
      Returned result → Evicted e.stored w.history stored →
      Step nextLSN e (.insert id key value) (e.leaveTree w stored)
  | delete {e : StorageEngine} {id : UInt64} {key : Bytes} {tree : BPlusTree}
      {faults : Nat → Bool} {result : Except Failure Unit} {w : World} {stored : UInt64 → Page} :
      e.findTree id = some tree →
      BPlusTree.delete key (e.enterTree tree faults) = (result, w) →
      Returned result → Evicted e.stored w.history stored →
      Step nextLSN e (.delete id key) (e.leaveTree w stored)
  | deallocatePage {e : StorageEngine} {pageId : UInt64} :
      Step nextLSN e (.deallocatePage pageId) { e with world := (cleanupPage pageId e.world).2 }
  | evict {e : StorageEngine} {pageId : UInt64} : pageId ∉ e.world.guards →
      Step nextLSN e (.evict pageId)
        { e with stored := Function.update e.stored pageId (e.world.pages pageId) }
  /-- before a tree is opened -/
  | recover {e : StorageEngine} {faults : Nat → Bool} {w : World} : e.openBPlusTrees = [] →
      StorageEngine.recover (e.recovering faults) = (.ok (), w) →
      Step nextLSN e .recover (e.recovered w)
  | restart {e closed started : StorageEngine} {order : List BPlusTree} {faults : CloseFaults}
      {flushed : UInt64 → Bool} : order.Perm e.openBPlusTrees →
      e.close order faults flushed = (.ok (), closed) →
      closed.newStorageEngine = some started → Step nextLSN e .restart started
  | closeFails {e closed : StorageEngine} {order : List BPlusTree} {faults : CloseFaults}
      {flushed : UInt64 → Bool} {error : TreeError} : order.Perm e.openBPlusTrees →
      e.close order faults flushed = (.error (.error error), closed) →
      Step nextLSN e .closeFails closed
  | crash {e started : StorageEngine} {faults : Nat → Bool} {w : World} :
      e.newStorageEngine = some started →
      StorageEngine.recover (started.recovering faults) = (.ok (), w) →
      Step nextLSN e .crash (started.recovered w)
  /-- inside a call, when the log and the file are as after one of its steps -/
  | crashInside {e started : StorageEngine} {key value : Bytes} {id : UInt64} {tree : BPlusTree}
      {faults faults' : Nat → Bool} {result : Except Failure Unit} {w w' : World}
      {stored : UInt64 → Page} {before after : List Snapshot} {snap : Snapshot} {filePages : Nat} :
      e.findTree id = some tree →
      BPlusTree.insert nextLSN key value (e.enterTree tree faults) = (result, w) →
      w.history = before ++ snap :: after → Evicted e.stored (before ++ [snap]) stored →
      e.world.filePages ≤ filePages → filePages ≤ w.filePages →
      (e.crashedAt snap.log filePages stored).newStorageEngine = some started →
      StorageEngine.recover (started.recovering faults') = (.ok (), w') →
      Step nextLSN e .crash (started.recovered w')

/-- A new database. -/
def Opened (e : StorageEngine) : Prop := create = some e

/-! ### The maps of the engine -/

section
variable (w : World) (tree : BPlusTree)

@[simp] theorem closeTree_rootPages : (w.closeTree tree).metadata.rootPages =
    w.metadata.rootPages.set tree.bPlusTreeId tree.rootNodePageId := rfl

@[simp] theorem closeTree_firstLeafNodePages : (w.closeTree tree).metadata.firstLeafNodePages =
    w.metadata.firstLeafNodePages.set tree.bPlusTreeId tree.firstLeafNodePageId := rfl

@[simp] theorem closeTree_currBPlusTreeId :
    (w.closeTree tree).metadata.currBPlusTreeId = w.metadata.currBPlusTreeId := rfl

@[simp] theorem closeTree_deallocatedPageIdList : (w.closeTree tree).metadata.deallocatedPageIdList =
    w.metadata.deallocatedPageIdList := rfl

@[simp] theorem closeTree_log : (w.closeTree tree).log = w.log := rfl

end

/-- What `Close` keeps, however many trees it goes through. -/
theorem foldl_closeTree (order : List BPlusTree) (w : World) :
    (order.foldl World.closeTree w).metadata.currBPlusTreeId = w.metadata.currBPlusTreeId ∧
      (order.foldl World.closeTree w).metadata.deallocatedPageIdList =
        w.metadata.deallocatedPageIdList ∧
      (order.foldl World.closeTree w).log = w.log := by
  induction order generalizing w with
  | nil => exact ⟨rfl, rfl, rfl⟩
  | cons tree rest ih => exact ih (w.closeTree tree)

theorem foldl_closeTree_rootPages (order : List BPlusTree) (w : World) :
    (order.foldl World.closeTree w).metadata.rootPages =
      w.metadata.rootPages.setAll BPlusTree.bPlusTreeId BPlusTree.rootNodePageId order := by
  induction order generalizing w with
  | nil => rfl
  | cons tree rest ih => exact ih (w.closeTree tree)

theorem foldl_closeTree_firstLeafNodePages (order : List BPlusTree) (w : World) :
    (order.foldl World.closeTree w).metadata.firstLeafNodePages =
      w.metadata.firstLeafNodePages.setAll BPlusTree.bPlusTreeId BPlusTree.firstLeafNodePageId
        order := by
  induction order generalizing w with
  | nil => rfl
  | cons tree rest ih => exact ih (w.closeTree tree)

/-- What every tree that is closed keeps holds after `Close`. -/
theorem closing_induction (P : MetaData → Prop) {e : StorageEngine} {order : List BPlusTree}
    (start : P { e.world.metadata with currBPlusTreeId := e.currBPlusTreeId })
    (keep : ∀ w tree, tree ∈ order → P w.metadata → P (World.closeTree w tree).metadata) :
    P (e.closing order).metadata := by
  suffices all : ∀ w : World, P w.metadata → P (order.foldl World.closeTree w).metadata from
    all _ start
  induction order with
  | nil => exact fun w held => held
  | cons tree rest ih =>
    intro w held
    apply ih (fun w tree member => keep w tree (List.mem_cons_of_mem _ member))
    exact keep w tree List.mem_cons_self held

theorem not_mem_of_findTree {e : StorageEngine} {id : UInt64} (absent : e.findTree id = none) :
    ∀ tree ∈ e.openBPlusTrees, tree.bPlusTreeId ≠ id := by
  intro tree member
  simpa using List.find?_eq_none.1 absent tree member

theorem findTree_spec {e : StorageEngine} {id : UInt64} {tree : BPlusTree}
    (found : e.findTree id = some tree) :
    tree ∈ e.openBPlusTrees ∧ tree.bPlusTreeId = id :=
  ⟨List.mem_of_find?_eq_some found, by simpa using List.find?_some found⟩

theorem openBPlusTree_found {e : StorageEngine} {id : UInt64} {tree : BPlusTree}
    (found : e.findTree id = some tree) : e.openBPlusTree id = (tree, e) := by
  rw [openBPlusTree, found]

theorem openBPlusTree_new {e : StorageEngine} {id : UInt64} (absent : e.findTree id = none) :
    e.openBPlusTree id = (BPlusTree.newBPlusTree e.world.metadata id, { e with
      openBPlusTrees := BPlusTree.newBPlusTree e.world.metadata id :: e.openBPlusTrees }) := by
  rw [openBPlusTree, absent]

theorem closeBPlusTree_some {e e' : StorageEngine} {id : UInt64}
    (closed : e.closeBPlusTree id = some e') :
    ∃ tree, e.findTree id = some tree ∧ e' = { e with
      world := e.world.closeTree tree
      openBPlusTrees := e.openBPlusTrees.filter fun tree => tree.bPlusTreeId ≠ id } := by
  rw [closeBPlusTree] at closed
  cases found : e.findTree id with
  | none =>
    rw [found] at closed
    cases closed
  | some tree =>
    rw [found] at closed
    exact ⟨tree, rfl, (Option.some.inj closed).symm⟩

/-- The maps have no key twice, in memory and in the file. -/
structure WellFormed (e : StorageEngine) : Prop where
  handles : (e.openBPlusTrees.map BPlusTree.bPlusTreeId).Nodup
  roots : e.world.metadata.rootPages.Distinct
  leaves : e.world.metadata.firstLeafNodePages.Distinct
  page : ∃ m, MetaDataCodec.decodeMetaDataPage e.metaDataPage = some m ∧
    m.rootPages.Distinct ∧ m.firstLeafNodePages.Distinct

theorem distinct_redoMeta {m : MetaData} (entry : LogEntry)
    (held : m.rootPages.Distinct ∧ m.firstLeafNodePages.Distinct) :
    (redoMeta m entry).rootPages.Distinct ∧ (redoMeta m entry).firstLeafNodePages.Distinct := by
  rw [redoMeta]
  split
  · split
    · exact held
    · exact held
    · exact ⟨held.1.set _ _, held.2⟩
    · exact ⟨held.1, held.2.set _ _⟩
    · exact held
  · exact held

theorem distinct_foldl_redoMeta (entries : List LogEntry) {m : MetaData}
    (held : m.rootPages.Distinct ∧ m.firstLeafNodePages.Distinct) :
    (entries.foldl redoMeta m).rootPages.Distinct ∧
      (entries.foldl redoMeta m).firstLeafNodePages.Distinct := by
  induction entries generalizing m with
  | nil => exact held
  | cons entry rest ih => exact ih (distinct_redoMeta entry held)

theorem distinct_closing {e : StorageEngine} (wf : e.WellFormed) (order : List BPlusTree) :
    (e.closing order).metadata.rootPages.Distinct ∧
      (e.closing order).metadata.firstLeafNodePages.Distinct :=
  closing_induction (fun m => m.rootPages.Distinct ∧ m.firstLeafNodePages.Distinct)
    ⟨wf.roots, wf.leaves⟩ fun _ _ _ held => ⟨held.1.set _ _, held.2.set _ _⟩

/-- A `Close` that succeeds wrote the metadata page, and all pages. -/
theorem close_ok {e closed : StorageEngine} {order : List BPlusTree} {faults : CloseFaults}
    {flushed : UInt64 → Bool} (run : e.close order faults flushed = (.ok (), closed)) :
    ∃ page, MetaDataCodec.encodeMetaDataPage (e.closing order).metadata = some page ∧
      closed = { e with
        world := e.closing order, stored := (e.closing order).pages, metaDataPage := page } := by
  rw [close] at run
  dsimp only at run
  split at run
  · cases run
  · split at run
    · cases run
    · split at run
      · cases run
      next page encoded =>
        split at run
        · cases run
        · split at run
          · cases run
          · exact ⟨page, encoded, (Prod.mk.inj run).2.symm⟩

/-- One that fails may have written the metadata page. -/
theorem close_error {e closed : StorageEngine} {order : List BPlusTree} {faults : CloseFaults}
    {flushed : UInt64 → Bool} {failure : Failure}
    (run : e.close order faults flushed = (.error failure, closed)) :
    closed.currBPlusTreeId = e.currBPlusTreeId ∧ closed.openBPlusTrees = e.openBPlusTrees ∧
      closed.world = e.closing order ∧ (closed.metaDataPage = e.metaDataPage ∨
        MetaDataCodec.encodeMetaDataPage (e.closing order).metadata = some closed.metaDataPage) := by
  rw [close] at run
  dsimp only at run
  split at run
  · obtain rfl := (Prod.mk.inj run).2
    exact ⟨rfl, rfl, rfl, .inl rfl⟩
  · split at run
    · obtain rfl := (Prod.mk.inj run).2
      exact ⟨rfl, rfl, rfl, .inl rfl⟩
    · split at run
      next =>
        obtain rfl := (Prod.mk.inj run).2
        exact ⟨rfl, rfl, rfl, .inl rfl⟩
      next page encoded =>
        split at run
        · obtain rfl := (Prod.mk.inj run).2
          exact ⟨rfl, rfl, rfl, .inl rfl⟩
        · split at run
          · obtain rfl := (Prod.mk.inj run).2
            exact ⟨rfl, rfl, rfl, .inr encoded⟩
          · cases run

/-- The metadata of a new process is what the metadata page says. -/
theorem newStorageEngine_spec {e started : StorageEngine}
    (start : e.newStorageEngine = some started) :
    ∃ m, MetaDataCodec.decodeMetaDataPage e.metaDataPage = some m ∧
      started.currBPlusTreeId = m.currBPlusTreeId ∧ started.openBPlusTrees = [] ∧
      started.world.metadata = m ∧ started.world.log = e.world.log ∧
      started.metaDataPage = e.metaDataPage := by
  rw [newStorageEngine] at start
  cases decoded : MetaDataCodec.decodeMetaDataPage e.metaDataPage with
  | none =>
    rw [decoded] at start
    cases start
  | some m =>
    rw [decoded] at start
    obtain rfl := Option.some.inj start
    exact ⟨m, rfl, rfl, rfl, rfl, rfl, rfl⟩

/-- After a clean restart the metadata is what `Close` had in memory. -/
theorem restart_spec {e closed started : StorageEngine} (wf : e.WellFormed)
    {order : List BPlusTree} {faults : CloseFaults} {flushed : UInt64 → Bool}
    (run : e.close order faults flushed = (.ok (), closed))
    (start : closed.newStorageEngine = some started) :
    started.currBPlusTreeId = e.currBPlusTreeId ∧ started.openBPlusTrees = [] ∧
      started.world.metadata = (e.closing order).metadata ∧ started.world.log = e.world.log ∧
      MetaDataCodec.decodeMetaDataPage started.metaDataPage =
        some (e.closing order).metadata := by
  obtain ⟨page, encoded, rfl⟩ := close_ok run
  obtain ⟨roots, leaves⟩ := distinct_closing wf order
  have decoded := MetaDataCodec.decode_encode roots leaves encoded
  obtain ⟨m, read, counter, handles, metadata, log, same⟩ := newStorageEngine_spec start
  obtain rfl : (e.closing order).metadata = m := Option.some.inj (decoded.symm.trans read)
  obtain ⟨current, _, log'⟩ := foldl_closeTree order
    { e.world with metadata := { e.world.metadata with currBPlusTreeId := e.currBPlusTreeId } }
  exact ⟨counter.trans current, handles, metadata, log.trans log', same ▸ decoded⟩

theorem map_leaveTree (e : StorageEngine) (w : World) (stored : UInt64 → Page) :
    (e.leaveTree w stored).openBPlusTrees.map BPlusTree.bPlusTreeId =
      e.openBPlusTrees.map BPlusTree.bPlusTreeId := by
  rw [leaveTree, List.map_map]
  apply List.map_congr_left
  intro tree _
  dsimp only [Function.comp_apply]
  split
  next same => exact same.symm
  next => rfl

/-- A new database can be made. -/
theorem exists_newDatabase : ∃ page, Opened (newDatabase page) := by
  have fits : (MetaDataCodec.encodeMetaDataPage ⟨0, 0, [], 0, [], []⟩).isSome = true := by
    rw [MetaDataCodec.encode_isSome_iff]
    decide
  obtain ⟨page, encoded⟩ := Option.isSome_iff_exists.1 fits
  refine ⟨page, ?_⟩
  rw [Opened, create, encoded]
  rfl

theorem opened_spec {e : StorageEngine} (opened : Opened e) : ∃ page, e = newDatabase page ∧
    MetaDataCodec.decodeMetaDataPage page = some ⟨0, 0, [], 0, [], []⟩ := by
  rw [Opened, create] at opened
  obtain ⟨page, encoded, rfl⟩ := Option.map_eq_some_iff.1 opened
  have empty : PageMap.Distinct [] := List.nodup_nil
  refine ⟨page, rfl, MetaDataCodec.decode_encode ?_ ?_ encoded⟩
  · exact empty
  · exact empty

theorem WellFormed.create {e : StorageEngine} (opened : Opened e) : e.WellFormed := by
  obtain ⟨page, rfl, decoded⟩ := opened_spec opened
  have empty : PageMap.Distinct [] := List.nodup_nil
  exact ⟨List.nodup_nil, empty, empty, _, decoded, empty, empty⟩

theorem WellFormed.recovered {e : StorageEngine} {faults : Nat → Bool} {w : World}
    (wf : e.WellFormed) (run : StorageEngine.recover (e.recovering faults) = (.ok (), w)) :
    (e.recovered w).WellFormed := by
  obtain ⟨entries, _, metadata, _⟩ := recover_metadata run
  have distinct := distinct_foldl_redoMeta entries ⟨wf.roots, wf.leaves⟩
  rw [show e.world.metadata = (e.recovering faults).metadata from rfl, ← metadata] at distinct
  exact ⟨wf.handles, distinct.1, distinct.2, wf.page⟩

theorem WellFormed.newStorageEngine {e started : StorageEngine}
    (start : e.newStorageEngine = some started)
    (page : ∃ m, MetaDataCodec.decodeMetaDataPage e.metaDataPage = some m ∧
      m.rootPages.Distinct ∧ m.firstLeafNodePages.Distinct) : started.WellFormed := by
  obtain ⟨m, read, _, handles, metadata, _, same⟩ := newStorageEngine_spec start
  obtain ⟨m', read', roots, leaves⟩ := page
  obtain rfl : m = m' := Option.some.inj (read.symm.trans read')
  refine ⟨?_, ?_, ?_, m, ?_, roots, leaves⟩
  · rw [handles]
    exact List.nodup_nil
  · rw [metadata]
    exact roots
  · rw [metadata]
    exact leaves
  · rw [same, read]

theorem WellFormed.step {nextLSN : List LogEntry → UInt64} {e e' : StorageEngine} {op : Op}
    (wf : e.WellFormed) (taken : Step nextLSN e op e') : e'.WellFormed := by
  cases taken with
  | newBPlusTree => exact ⟨wf.handles, wf.roots, wf.leaves, wf.page⟩
  | @openBPlusTree id =>
    cases found : e.findTree id with
    | some tree =>
      rw [openBPlusTree_found found]
      exact wf
    | none =>
      rw [openBPlusTree_new found]
      refine ⟨?_, wf.roots, wf.leaves, wf.page⟩
      rw [List.map_cons, List.nodup_cons]
      refine ⟨?_, wf.handles⟩
      rw [List.mem_map]
      rintro ⟨tree, member, same⟩
      exact not_mem_of_findTree found tree member same
  | closeBPlusTree closed =>
    obtain ⟨tree, _, rfl⟩ := closeBPlusTree_some closed
    exact ⟨(List.Sublist.map _ List.filter_sublist).nodup wf.handles, wf.roots.set _ _,
      wf.leaves.set _ _, wf.page⟩
  | @insert _ key value tree faults _ w _ _ run _ _ =>
    have own := ownRecords_insert nextLSN key value (e.enterTree tree faults)
    rw [run] at own
    refine ⟨by rw [map_leaveTree]; exact wf.handles, ?_, ?_, wf.page⟩
    · exact own.roots ▸ wf.roots
    · exact own.leaves ▸ wf.leaves
  | @delete _ key tree faults _ w _ _ run _ _ =>
    have same := sameHandle_delete key (e.enterTree tree faults)
    rw [run] at same
    refine ⟨by rw [map_leaveTree]; exact wf.handles, ?_, ?_, wf.page⟩
    · exact same.metadata ▸ wf.roots
    · exact same.metadata ▸ wf.leaves
  | deallocatePage => exact ⟨wf.handles, wf.roots, wf.leaves, wf.page⟩
  | evict _ => exact ⟨wf.handles, wf.roots, wf.leaves, wf.page⟩
  | recover _ run => exact wf.recovered run
  | @restart _ _ order _ _ _ run start =>
    obtain ⟨page, encoded, rfl⟩ := close_ok run
    obtain ⟨roots, leaves⟩ := distinct_closing wf order
    exact .newStorageEngine start
      ⟨_, MetaDataCodec.decode_encode roots leaves encoded, roots, leaves⟩
  | @closeFails _ order _ _ _ _ run =>
    obtain ⟨_, handles, world, page⟩ := close_error run
    obtain ⟨roots, leaves⟩ := distinct_closing wf order
    refine ⟨handles ▸ wf.handles, world ▸ roots, world ▸ leaves, ?_⟩
    rcases page with same | encoded
    · rw [same]
      exact wf.page
    · exact ⟨_, MetaDataCodec.decode_encode roots leaves encoded, roots, leaves⟩
  | crash start run =>
    exact (WellFormed.newStorageEngine start wf.page).recovered run
  | crashInside _ _ _ _ _ _ start run =>
    exact (WellFormed.newStorageEngine start wf.page).recovered run

theorem wellFormed_of_reach {nextLSN : List LogEntry → UInt64}
    {allowed : StorageEngine → Op → Prop} {e : StorageEngine}
    (reached : TransitionSystem.Reach (Step nextLSN) allowed Opened e) : e.WellFormed := by
  refine reached.invariant WellFormed (fun _ opened => .create opened) ?_
  intro _ _ _ wf _ taken
  exact wf.step taken

end StorageEngine

end CambiumDB
