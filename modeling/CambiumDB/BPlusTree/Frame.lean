import CambiumDB.BPlusTree.Tree

/-!
# What a tree operation leaves alone

A relation between the world before and after a call that every primitive keeps is kept by
every call, whatever its result. An insert logs records of its own tree only, and it leaves
the maps and the tree counter of the metadata alone.
-/

namespace CambiumDB

open ByteBuffer

/-- The record begins or commits an operation. -/
def WALRecord.brackets : WALRecord → Bool
  | .beginOperation _ | .commitOperation _ => true
  | _ => false

namespace TreeM

variable {α β : Type} {P : World → Prop} {R : World → World → Prop}

/-- Whatever its result, a call from a world with `P` relates the world before it to the world
after it. -/
def Keeps (P : World → Prop) (R : World → World → Prop) (m : TreeM α) : Prop :=
  ∀ w, P w → R w (m w).2

/-- A relation that keeps `P` and along which calls can be chained. -/
structure Chain (P : World → Prop) (R : World → World → Prop) : Prop where
  refl : ∀ w, R w w
  trans : ∀ {a b c}, R a b → R b c → R a c
  keep : ∀ {a b}, R a b → P a → P b

namespace Chain

variable (chain : Chain P R)
include chain

theorem pure (a : α) : Keeps P R (pure a : TreeM α) := fun w _ => chain.refl w

theorem fail (e : Failure) : Keeps P R (fail e : TreeM α) := fun w _ => chain.refl w

theorem orPanic (o : Option α) : Keeps P R (orPanic o) := by
  cases o with
  | none => exact chain.fail .panic
  | some a => exact chain.pure a

theorem bind {m : TreeM α} {f : α → TreeM β} (first : Keeps P R m)
    (second : ∀ a, Keeps P R (f a)) : Keeps P R (m >>= f) := by
  intro w start
  have before := first w start
  cases run : m w with
  | mk result w' =>
    rw [run] at before
    cases result with
    | ok a =>
      rw [bind_ok run]
      exact chain.trans before (second a w' (chain.keep before start))
    | error e =>
      rw [bind_error run]
      exact before

end Chain

/-- What was read satisfies what every world with `P` satisfies. -/
theorem Keeps.get {f : World → α} {g : α → TreeM β}
    (rest : ∀ a, (∃ w, P w ∧ f w = a) → Keeps P R (g a)) : Keeps P R (TreeM.get f >>= g) :=
  fun w start => rest (f w) ⟨w, start, rfl⟩ w start

theorem Keeps.ite {p : Prop} [Decidable p] {m n : TreeM α} (left : Keeps P R m)
    (right : Keeps P R n) : Keeps P R (if p then m else n) := by
  split
  · exact left
  · exact right

/-- Guards and calls do not matter to the relation. -/
structure GuardFrame (P : World → Prop) (R : World → World → Prop) : Prop extends Chain P R where
  acquire : ∀ w id, R w (w.acquire id)
  release : ∀ w id, R w (w.release id)
  countCall : ∀ w, R w w.countCall

namespace GuardFrame

variable (frame : GuardFrame P R)
include frame

theorem deferDone {m : TreeM α} (id : UInt64) (inner : Keeps P R m) :
    Keeps P R (deferDone id m) :=
  fun w start => frame.trans (inner w start) (frame.release _ id)

theorem newGuard (id : UInt64) : Keeps P R (newGuard id) := by
  intro w _
  rw [TreeM.newGuard]
  split
  · exact frame.countCall w
  · split
    · exact frame.refl w
    · exact frame.acquire w id

theorem findLeafNodePageId (fuel : Nat) (key : Bytes) (id : UInt64) :
    Keeps P R (BPlusTree.findLeafNodePageId fuel key id) := by
  induction fuel generalizing id with
  | zero => exact frame.fail .diverges
  | succ fuel ih =>
    rw [BPlusTree.findLeafNodePageId]
    apply frame.bind (frame.newGuard id)
    intro _
    apply Keeps.get
    intro leaf _
    apply Keeps.ite
    · apply frame.bind (fun w _ => frame.release w id)
      intro _
      exact frame.pure id
    · apply Keeps.get
      intro page _
      apply frame.bind (frame.orPanic _)
      intro child
      apply frame.bind (fun w _ => frame.release w id)
      intro _
      exact ih child

/-- A delete changes one leaf, by `DeleteElement`. -/
theorem delete {key : Bytes}
    (deleted : ∀ leaf, Keeps P R (applyPage leaf (LeafNodeCodec.deleteElement · key))) :
    Keeps P R (BPlusTree.delete key) := by
  rw [BPlusTree.delete]
  apply Keeps.get
  intro root _
  apply Keeps.ite
  · exact frame.fail _
  · apply Keeps.get
    intro pages _
    apply frame.bind (frame.findLeafNodePageId _ key root)
    intro leaf
    apply frame.bind (frame.newGuard leaf)
    intro _
    apply frame.deferDone leaf
    apply frame.bind (deleted leaf)
    intro found
    apply Keeps.ite
    · exact frame.pure ()
    · exact frame.fail _

end GuardFrame

/-- Pages, guards and calls do not matter to the relation. -/
structure PageFrame (P : World → Prop) (R : World → World → Prop) : Prop extends Chain P R where
  setPage : ∀ w id page, R w (w.setPage id page)
  acquire : ∀ w id, R w (w.acquire id)
  release : ∀ w id, R w (w.release id)
  countCall : ∀ w, R w w.countCall

namespace PageFrame

variable (frame : PageFrame P R)
include frame

theorem guards : GuardFrame P R :=
  { toChain := frame.toChain, acquire := frame.acquire, release := frame.release,
    countCall := frame.countCall }

theorem deferDone {m : TreeM α} (id : UInt64) (inner : Keeps P R m) :
    Keeps P R (deferDone id m) :=
  frame.guards.deferDone id inner

theorem applyPage (id : UInt64) (f : Page → Option (α × Page)) : Keeps P R (applyPage id f) := by
  intro w _
  rw [TreeM.applyPage]
  split
  · exact frame.setPage w id _
  · exact frame.refl w

theorem modifyPage (id : UInt64) (f : Page → Page) : Keeps P R (modifyPage id f) :=
  fun w _ => frame.setPage w id _

theorem newGuard (id : UInt64) : Keeps P R (newGuard id) := frame.guards.newGuard id

theorem delete (key : Bytes) : Keeps P R (BPlusTree.delete key) :=
  frame.guards.delete fun leaf => frame.applyPage leaf _

end PageFrame

/-- What an insert does besides to a world whose tree is `id`: it takes pages, it logs records
of the tree, and it moves the root and the first leaf of the handle. -/
structure InsertFrame (id : UInt64) (R : World → World → Prop) : Prop
    extends PageFrame (fun w => w.tree.bPlusTreeId = id) R where
  newPage : ∀ w, R w (newPage w).2
  cleanupPage : ∀ w page, R w (cleanupPage page w).2
  append : ∀ w lsn record, w.tree.bPlusTreeId = id → record.tree = id →
    R w (w.append lsn record)
  setMetaLSN : ∀ w lsn, R w (w.setMetaLSN lsn)
  setRoot : ∀ w page, R w (w.setRoot page)
  setFirstLeaf : ∀ w page, R w (w.setFirstLeaf page)

/-- The same under the mutex of the tree, where no begin and no commit record is logged. -/
structure OperationFrame (id : UInt64) (R : World → World → Prop) : Prop
    extends PageFrame (fun w => w.tree.bPlusTreeId = id) R where
  newPage : ∀ w, R w (newPage w).2
  cleanupPage : ∀ w page, R w (cleanupPage page w).2
  append : ∀ w lsn record, w.tree.bPlusTreeId = id → record.tree = id →
    record.brackets = false → R w (w.append lsn record)
  setMetaLSN : ∀ w lsn, R w (w.setMetaLSN lsn)
  setRoot : ∀ w page, R w (w.setRoot page)
  setFirstLeaf : ∀ w page, R w (w.setFirstLeaf page)

theorem logRecord_keeps {P : World → Prop} {record : WALRecord}
    (nextLSN : List LogEntry → UInt64) (counts : ∀ w, R w w.countCall)
    (appends : ∀ w lsn, P w → R w (w.append lsn record)) :
    Keeps P R (logRecord nextLSN record) := by
  intro w start
  rw [TreeM.logRecord]
  split
  · exact counts w
  · exact appends w _ start

namespace OperationFrame

variable {id : UInt64} (frame : OperationFrame id R) (nextLSN : List LogEntry → UInt64)
include frame

theorem logRecord {record : WALRecord} (own : record.tree = id)
    (operation : record.brackets = false) :
    Keeps (fun w => w.tree.bPlusTreeId = id) R (logRecord nextLSN record) :=
  logRecord_keeps nextLSN frame.countCall fun w lsn start =>
    frame.append w lsn record start own operation

theorem newGuardOrCleanup (page : UInt64) :
    Keeps (fun w => w.tree.bPlusTreeId = id) R (newGuardOrCleanup page) := by
  intro w start
  have guarded := frame.newGuard page w start
  rw [TreeM.newGuardOrCleanup]
  split
  next e w' failed =>
    rw [failed] at guarded
    exact frame.trans guarded (frame.cleanupPage w' page)
  next => exact guarded

/-! ### Splits -/

omit frame in
/-- Every record names the tree that the handle was read from. -/
theorem tree {α : Type} {f : UInt64 → TreeM α}
    (rest : Keeps (fun w => w.tree.bPlusTreeId = id) R (f id)) :
    Keeps (fun w => w.tree.bPlusTreeId = id) R
      (TreeM.get (·.tree.bPlusTreeId) >>= f) := by
  apply Keeps.get
  rintro _ ⟨w, same, rfl⟩
  exact same ▸ rest

theorem moveToRightLeaf (left right : UInt64) (key value : Bytes) :
    Keeps (fun w => w.tree.bPlusTreeId = id) R
      (BPlusTree.moveToRightLeaf nextLSN left right key value) := by
  rw [BPlusTree.moveToRightLeaf]
  apply tree
  apply Keeps.get
  intro page _
  apply frame.bind (frame.orPanic _)
  intro splitIndex
  apply frame.bind (frame.orPanic _)
  rintro ⟨length, elements⟩
  apply frame.bind (frame.logRecord nextLSN rfl rfl)
  intro lsn
  apply frame.bind (frame.modifyPage right _)
  intro _
  apply frame.bind (frame.modifyPage left _)
  intro _
  apply Keeps.get
  intro leftPage _
  apply Keeps.get
  intro rightPage _
  apply frame.bind (frame.orPanic _)
  rintro ⟨leftPage, rightPage, extraKey⟩
  apply frame.bind (frame.modifyPage left _)
  intro _
  apply frame.bind (frame.modifyPage right _)
  intro _
  apply Keeps.ite
  · apply frame.bind (frame.applyPage left _)
    intro _
    exact frame.pure _
  · apply frame.bind (frame.applyPage right _)
    intro _
    exact frame.pure _

/-- The start of all splits: the guard on the new page, and the record of its creation. -/
theorem created {α : Type} {page : UInt64} {type : NodeType} {source : AllocationSource}
    {f : UInt64 → TreeM α} (rest : ∀ lsn, Keeps (fun w => w.tree.bPlusTreeId = id) R (f lsn)) :
    Keeps (fun w => w.tree.bPlusTreeId = id) R (TreeM.newGuardOrCleanup page >>= fun _ =>
      TreeM.deferDone page
        (TreeM.logRecord nextLSN (.createPage id page type source) >>= f)) := by
  apply frame.bind (frame.newGuardOrCleanup page)
  intro _
  apply frame.deferDone page
  exact frame.bind (frame.logRecord nextLSN rfl rfl) rest

theorem handleLeafNodeSplit (left : UInt64) (key value : Bytes) :
    Keeps (fun w => w.tree.bPlusTreeId = id) R
      (BPlusTree.handleLeafNodeSplit nextLSN left key value) := by
  rw [BPlusTree.handleLeafNodeSplit]
  apply tree
  apply frame.bind (fun w _ => frame.newPage w)
  rintro ⟨right, source⟩
  apply frame.created nextLSN
  intro lsn
  apply frame.bind (frame.modifyPage right _)
  intro _
  exact frame.moveToRightLeaf nextLSN left right key value

theorem moveToRightNode (left right parent : UInt64) (insertKey : Bytes)
    (insertLeft insertRight : UInt64) : Keeps (fun w => w.tree.bPlusTreeId = id) R
      (BPlusTree.moveToRightNode nextLSN left right parent insertKey insertLeft insertRight) := by
  rw [BPlusTree.moveToRightNode]
  apply tree
  apply Keeps.get
  intro page _
  apply frame.bind (frame.orPanic _)
  intro splitIndex
  apply frame.bind (frame.orPanic _)
  rintro ⟨length, elements⟩
  apply frame.bind (frame.logRecord nextLSN rfl rfl)
  intro lsn
  apply frame.bind (frame.modifyPage right _)
  intro _
  apply frame.bind (frame.modifyPage left _)
  intro _
  apply frame.bind (frame.modifyPage parent _)
  intro _
  apply Keeps.get
  intro leftPage _
  apply Keeps.get
  intro rightPage _
  apply frame.bind (frame.orPanic _)
  rintro ⟨leftPage, rightPage, splitKey⟩
  apply frame.bind (frame.modifyPage left _)
  intro _
  apply frame.bind (frame.modifyPage right _)
  intro _
  apply Keeps.ite
  · apply frame.bind (frame.applyPage left _)
    intro _
    exact frame.pure _
  · apply frame.bind (frame.applyPage right _)
    intro _
    exact frame.pure _

theorem handleInternalNodeSplit (left parent : UInt64) (insertKey : Bytes)
    (insertLeft insertRight : UInt64) : Keeps (fun w => w.tree.bPlusTreeId = id) R
      (BPlusTree.handleInternalNodeSplit nextLSN left parent insertKey insertLeft
        insertRight) := by
  rw [BPlusTree.handleInternalNodeSplit]
  apply tree
  apply frame.bind (fun w _ => frame.newPage w)
  rintro ⟨right, source⟩
  apply frame.created nextLSN
  intro lsn
  apply frame.bind (frame.modifyPage right _)
  intro _
  exact frame.moveToRightNode nextLSN left right parent insertKey insertLeft insertRight

theorem installRoot (newRoot : UInt64) (extraKey : Bytes) (left right : UInt64) :
    Keeps (fun w => w.tree.bPlusTreeId = id) R
      (BPlusTree.installRoot nextLSN newRoot extraKey left right) := by
  rw [BPlusTree.installRoot]
  apply tree
  apply frame.bind (frame.logRecord nextLSN rfl rfl)
  intro lsn
  apply frame.bind (frame.modifyPage newRoot _)
  intro _
  apply frame.bind (frame.applyPage newRoot _)
  intro _
  apply frame.bind (frame.logRecord nextLSN rfl rfl)
  intro lsn
  apply frame.bind (fun w _ => frame.setMetaLSN w lsn)
  intro _
  exact fun w _ => frame.setRoot w newRoot

theorem handleLeafRootNodeSplit (oldRoot : UInt64) (key value : Bytes) :
    Keeps (fun w => w.tree.bPlusTreeId = id) R
      (BPlusTree.handleLeafRootNodeSplit nextLSN oldRoot key value) := by
  rw [BPlusTree.handleLeafRootNodeSplit]
  apply tree
  apply frame.bind (fun w _ => frame.newPage w)
  rintro ⟨newRoot, source⟩
  apply frame.created nextLSN
  intro lsn
  apply frame.bind (frame.modifyPage newRoot _)
  intro _
  apply frame.bind (frame.modifyPage newRoot _)
  intro _
  apply frame.bind (frame.handleLeafNodeSplit nextLSN oldRoot key value)
  rintro ⟨extraKey, left, right⟩
  exact frame.installRoot nextLSN newRoot extraKey left right

theorem handleInternalRootNodeSplit (oldRoot : UInt64) (insertKey : Bytes)
    (insertLeft insertRight : UInt64) : Keeps (fun w => w.tree.bPlusTreeId = id) R
      (BPlusTree.handleInternalRootNodeSplit nextLSN oldRoot insertKey insertLeft
        insertRight) := by
  rw [BPlusTree.handleInternalRootNodeSplit]
  apply tree
  apply frame.bind (fun w _ => frame.newPage w)
  rintro ⟨newRoot, source⟩
  apply frame.created nextLSN
  intro lsn
  apply frame.bind (frame.modifyPage newRoot _)
  intro _
  apply frame.bind
    (frame.handleInternalNodeSplit nextLSN oldRoot newRoot insertKey insertLeft insertRight)
  rintro ⟨extraKey, left, right⟩
  exact frame.installRoot nextLSN newRoot extraKey left right

/-! ### Insert -/

theorem splitLeaf (page : UInt64) (key value : Bytes) :
    Keeps (fun w => w.tree.bPlusTreeId = id) R
      (BPlusTree.splitLeaf nextLSN page key value) := by
  rw [BPlusTree.splitLeaf]
  apply Keeps.get
  intro root _
  apply Keeps.ite
  · apply frame.bind (frame.handleLeafRootNodeSplit nextLSN page key value)
    intro _
    exact frame.pure _
  · apply frame.bind (frame.handleLeafNodeSplit nextLSN page key value)
    intro result
    exact frame.pure _

theorem writeLeaf (page : UInt64) (key value : Bytes) :
    Keeps (fun w => w.tree.bPlusTreeId = id) R
      (BPlusTree.writeLeaf nextLSN page key value) := by
  rw [BPlusTree.writeLeaf]
  apply tree
  apply Keeps.get
  intro content _
  apply frame.bind (frame.orPanic _)
  rintro (_ | oldValue)
  · apply frame.bind (frame.applyPage page _)
    intro enough
    apply Keeps.ite
    · apply frame.bind (frame.logRecord nextLSN rfl rfl)
      intro lsn
      apply frame.bind (frame.modifyPage page _)
      intro _
      apply frame.bind (frame.applyPage page _)
      intro _
      exact frame.pure _
    · exact frame.splitLeaf nextLSN page key value
  · apply frame.bind (frame.applyPage page _)
    intro enough
    apply Keeps.ite
    · apply frame.bind (frame.logRecord nextLSN rfl rfl)
      intro lsn
      apply frame.bind (frame.modifyPage page _)
      intro _
      apply frame.bind (frame.applyPage page _)
      intro _
      exact frame.pure _
    · exact frame.splitLeaf nextLSN page key value

theorem writeSeparator (page : UInt64) (parent : Option UInt64) (extraKey : Bytes)
    (left right : UInt64) : Keeps (fun w => w.tree.bPlusTreeId = id) R
      (BPlusTree.writeSeparator nextLSN page parent extraKey left right) := by
  rw [BPlusTree.writeSeparator]
  apply tree
  apply frame.bind (frame.applyPage page _)
  intro enough
  apply Keeps.ite
  · apply frame.bind (frame.logRecord nextLSN rfl rfl)
    intro lsn
    apply frame.bind (frame.modifyPage page _)
    intro _
    apply frame.bind (frame.applyPage page _)
    intro _
    exact frame.pure _
  · apply Keeps.get
    intro root _
    apply Keeps.ite
    · apply frame.bind (frame.handleInternalRootNodeSplit nextLSN page extraKey left right)
      intro _
      exact frame.pure _
    · apply frame.bind (frame.orPanic parent)
      intro parent
      apply frame.bind (frame.handleInternalNodeSplit nextLSN page parent extraKey left right)
      intro result
      exact frame.pure _

theorem writeTraversal (key value : Bytes) (fuel : Nat) (page : UInt64)
    (parent : Option UInt64) : Keeps (fun w => w.tree.bPlusTreeId = id) R
      (BPlusTree.writeTraversal nextLSN key value fuel page parent) := by
  induction fuel generalizing page parent with
  | zero => exact frame.fail .diverges
  | succ fuel ih =>
    rw [BPlusTree.writeTraversal]
    apply Keeps.get
    intro leaf _
    apply Keeps.ite
    · exact frame.writeLeaf nextLSN page key value
    · apply Keeps.get
      intro content _
      apply frame.bind (frame.orPanic _)
      intro child
      apply frame.bind (frame.newGuard child)
      intro _
      apply frame.deferDone child
      apply frame.bind (ih child (some page))
      rintro (_ | ⟨extraKey, left, right⟩)
      · exact frame.pure _
      · exact frame.writeSeparator nextLSN page parent extraKey left right

theorem createRoot :
    Keeps (fun w => w.tree.bPlusTreeId = id) R (BPlusTree.createRoot nextLSN) := by
  rw [BPlusTree.createRoot]
  apply tree
  apply frame.bind (fun w _ => frame.newPage w)
  rintro ⟨root, source⟩
  apply frame.bind (frame.logRecord nextLSN rfl rfl)
  intro lsn
  apply frame.bind (frame.newGuard root)
  intro _
  apply frame.bind (frame.modifyPage root _)
  intro _
  apply frame.bind (frame.logRecord nextLSN rfl rfl)
  intro lsn
  apply frame.bind (fun w _ => frame.setMetaLSN w lsn)
  intro _
  apply frame.bind (frame.logRecord nextLSN rfl rfl)
  intro lsn
  apply frame.bind (fun w _ => frame.setMetaLSN w lsn)
  intro _
  apply frame.bind (fun w _ => frame.setFirstLeaf w root)
  intro _
  apply frame.bind (fun w _ => frame.setRoot w root)
  intro _
  exact frame.pure root

/-- The root of the tree under a guard, be it new or not. -/
theorem guardRoot :
    Keeps (fun w => w.tree.bPlusTreeId = id) R (BPlusTree.guardRoot nextLSN) := by
  rw [BPlusTree.guardRoot]
  apply Keeps.get
  intro root _
  apply Keeps.ite
  · exact frame.createRoot nextLSN
  · apply frame.bind (frame.newGuard root)
    intro _
    exact frame.pure root

end OperationFrame

namespace InsertFrame

variable {id : UInt64} (frame : InsertFrame id R) (nextLSN : List LogEntry → UInt64)
include frame

theorem operations : OperationFrame id R where
  toPageFrame := frame.toPageFrame
  newPage := frame.newPage
  cleanupPage := frame.cleanupPage
  append w lsn record start own _ := frame.append w lsn record start own
  setMetaLSN := frame.setMetaLSN
  setRoot := frame.setRoot
  setFirstLeaf := frame.setFirstLeaf

theorem logIgnored {record : WALRecord} (own : record.tree = id) :
    Keeps (fun w => w.tree.bPlusTreeId = id) R (TreeM.logIgnored nextLSN record) :=
  logRecord_keeps nextLSN frame.countCall fun w lsn start => frame.append w lsn record start own

/-- Whether it returns or fails, an insert keeps the relation. -/
theorem insert (key value : Bytes) :
    Keeps (fun w => w.tree.bPlusTreeId = id) R (BPlusTree.insert nextLSN key value) := by
  rw [BPlusTree.insert]
  apply OperationFrame.tree
  apply frame.bind (frame.logIgnored nextLSN rfl)
  intro _
  rw [BPlusTree.insertLocked]
  apply frame.bind (frame.operations.guardRoot nextLSN)
  intro root
  apply frame.deferDone root
  apply Keeps.get
  intro pages _
  apply frame.bind (frame.operations.writeTraversal nextLSN key value (pages + 1) root none)
  intro _
  apply OperationFrame.tree
  exact frame.logIgnored nextLSN rfl

end InsertFrame

end TreeM

/-! ### The maps of the metadata and the log -/

/-- The handle stays on its tree, the metadata keeps its maps and its counter, and what is
logged belongs to the tree. -/
structure OwnRecords (w w' : World) : Prop where
  tree : w'.tree.bPlusTreeId = w.tree.bPlusTreeId
  counter : w'.metadata.currBPlusTreeId = w.metadata.currBPlusTreeId
  roots : w'.metadata.rootPages = w.metadata.rootPages
  leaves : w'.metadata.firstLeafNodePages = w.metadata.firstLeafNodePages
  log : ∃ added, w'.log = w.log ++ added ∧ ∀ e ∈ added, e.record.tree = w.tree.bPlusTreeId

theorem OwnRecords.of_log {w w' : World} (tree : w'.tree.bPlusTreeId = w.tree.bPlusTreeId)
    (counter : w'.metadata.currBPlusTreeId = w.metadata.currBPlusTreeId)
    (roots : w'.metadata.rootPages = w.metadata.rootPages)
    (leaves : w'.metadata.firstLeafNodePages = w.metadata.firstLeafNodePages)
    (log : w'.log = w.log) : OwnRecords w w' :=
  ⟨tree, counter, roots, leaves, [], by simp [log]⟩

theorem OwnRecords.trans {a b c : World} (first : OwnRecords a b) (second : OwnRecords b c) :
    OwnRecords a c := by
  obtain ⟨added, log, own⟩ := first.log
  obtain ⟨added', log', own'⟩ := second.log
  refine ⟨second.tree.trans first.tree, second.counter.trans first.counter,
    second.roots.trans first.roots, second.leaves.trans first.leaves, added ++ added', ?_, ?_⟩
  · rw [log', log, List.append_assoc]
  · intro e member
    rcases List.mem_append.1 member with before | after
    · exact own e before
    · exact (own' e after).trans first.tree

theorem ownRecords_newPage (w : World) : OwnRecords w (TreeM.newPage w).2 := by
  rw [TreeM.newPage]
  split
  · exact .of_log rfl rfl rfl rfl rfl
  · dsimp only
    split
    · exact .of_log rfl rfl rfl rfl rfl
    · split
      · exact .of_log rfl rfl rfl rfl rfl
      · exact .of_log rfl rfl rfl rfl rfl

theorem insertFrame_ownRecords (id : UInt64) : TreeM.InsertFrame id OwnRecords where
  refl w := .of_log rfl rfl rfl rfl rfl
  trans := .trans
  keep related start := related.tree.trans start
  setPage w _ _ := .of_log rfl rfl rfl rfl rfl
  acquire w _ := .of_log rfl rfl rfl rfl rfl
  release w _ := .of_log rfl rfl rfl rfl rfl
  countCall w := .of_log rfl rfl rfl rfl rfl
  newPage := ownRecords_newPage
  cleanupPage w _ := .of_log rfl rfl rfl rfl rfl
  append w lsn record start own :=
    ⟨rfl, rfl, rfl, rfl, [⟨lsn, record⟩], rfl, fun e member => by
      obtain rfl := List.mem_singleton.1 member
      exact own.trans start.symm⟩
  setMetaLSN w _ := .of_log rfl rfl rfl rfl rfl
  setRoot w _ := .of_log rfl rfl rfl rfl rfl
  setFirstLeaf w _ := .of_log rfl rfl rfl rfl rfl

theorem ownRecords_insert (nextLSN : List LogEntry → UInt64) (key value : Bytes) (w : World) :
    OwnRecords w (BPlusTree.insert nextLSN key value w).2 :=
  (insertFrame_ownRecords w.tree.bPlusTreeId).insert nextLSN key value w rfl

/-- A delete changes the handle as little as the log. -/
structure SameHandle (w w' : World) : Prop where
  tree : w'.tree = w.tree
  metadata : w'.metadata = w.metadata
  log : w'.log = w.log

theorem pageFrame_sameHandle : TreeM.PageFrame (fun _ => True) SameHandle where
  refl _ := ⟨rfl, rfl, rfl⟩
  trans first second := ⟨second.tree.trans first.tree, second.metadata.trans first.metadata,
    second.log.trans first.log⟩
  keep _ _ := trivial
  setPage _ _ _ := ⟨rfl, rfl, rfl⟩
  acquire _ _ := ⟨rfl, rfl, rfl⟩
  release _ _ := ⟨rfl, rfl, rfl⟩
  countCall _ := ⟨rfl, rfl, rfl⟩

theorem sameHandle_delete (key : Bytes) (w : World) :
    SameHandle w (BPlusTree.delete key w).2 :=
  pageFrame_sameHandle.delete key w trivial

end CambiumDB
