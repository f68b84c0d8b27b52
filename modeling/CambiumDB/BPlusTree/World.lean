import Mathlib.Tactic.Simps.Basic
import CambiumDB.BufferPool.DiskManager
import CambiumDB.PageCodec.InternalNode
import CambiumDB.PageCodec.LeafNode

/-!
# What a tree operation runs on

The buffer pool and the file under it are one page store: a guard on a page shows what was
last written to that page. `World` holds that store, the allocator's metadata, the
write-ahead log and the tree handle. `history` is a ghost: the store as it was after each
guard or log call, which is what an eviction or a crash can see.
-/

namespace CambiumDB

open ByteBuffer

inductive NodeType where
  | leaf
  | internal
  deriving DecidableEq

/-- The operations of the write-ahead log, each with the tree it belongs to. -/
inductive WALRecord where
  | beginOperation (tree : UInt64)
  | commitOperation (tree : UInt64)
  | createPage (tree page : UInt64) (nodeType : NodeType) (source : AllocationSource)
  | updateRootNodePageId (tree page : UInt64)
  | updateFirstLeafNodePageId (tree page : UInt64)
  | insertInternalNodeEntry (tree page : UInt64) (key : Bytes) (left right : UInt64)
  | insertLeafNodeEntry (tree page : UInt64) (key value : Bytes)
  | updateLeafNodeEntry (tree page : UInt64) (key value : Bytes)
  | splitLeafNode (tree left right : UInt64) (splitIndex : Nat) (nextLeaf : UInt64)
      (key value : Bytes) (elementListLength : Nat) (elementList : Bytes)
  | splitInternalNode (tree left right : UInt64) (splitIndex : Nat) (key : Bytes)
      (leftChild rightChild : UInt64) (elementListLength : Nat) (elementList : Bytes)
  deriving DecidableEq

def WALRecord.tree : WALRecord → UInt64
  | .beginOperation t | .commitOperation t | .createPage t _ _ _ | .updateRootNodePageId t _
  | .updateFirstLeafNodePageId t _ | .insertInternalNodeEntry t _ _ _ _
  | .insertLeafNodeEntry t _ _ _ | .updateLeafNodeEntry t _ _ _
  | .splitLeafNode t _ _ _ _ _ _ _ _ | .splitInternalNode t _ _ _ _ _ _ _ _ => t

def WALRecord.IsLeafSplit : WALRecord → Prop
  | .splitLeafNode .. => True
  | _ => False

def WALRecord.IsNodeSplit : WALRecord → Prop
  | .splitInternalNode .. => True
  | _ => False

structure LogEntry where
  lsn : UInt64
  record : WALRecord
  deriving DecidableEq

/-- The records numbered from 1. -/
def recordLSN (log : List LogEntry) : UInt64 := log.length.toUInt64 + 1

/-- The fields of the Go struct that are not handles to shared parts. -/
structure BPlusTree where
  bPlusTreeId : UInt64
  rootNodePageId : UInt64
  firstLeafNodePageId : UInt64
  deriving DecidableEq

structure Snapshot where
  pages : UInt64 → Page
  guards : List UInt64
  log : List LogEntry

structure World where
  tree : BPlusTree
  pages : UInt64 → Page
  filePages : Nat
  metadata : MetaData
  log : List LogEntry
  /-- The pages under a guard of the running operation. -/
  guards : List UInt64
  history : List Snapshot
  /-- How many calls that may fail were made, and which of them do. -/
  calls : Nat
  faults : Nat → Bool

namespace World

@[simps]
def setPage (w : World) (id : UInt64) (page : Page) : World :=
  { w with pages := Function.update w.pages id page }

@[simps]
def acquire (w : World) (id : UInt64) : World :=
  { w with
    guards := id :: w.guards
    calls := w.calls + 1
    history := w.history ++ [⟨w.pages, id :: w.guards, w.log⟩] }

@[simps]
def release (w : World) (id : UInt64) : World :=
  { w with
    guards := w.guards.erase id
    history := w.history ++ [⟨w.pages, w.guards.erase id, w.log⟩] }

@[simps]
def append (w : World) (lsn : UInt64) (record : WALRecord) : World :=
  { w with
    log := w.log ++ [⟨lsn, record⟩]
    calls := w.calls + 1
    history := w.history ++ [⟨w.pages, w.guards, w.log ++ [⟨lsn, record⟩]⟩] }

@[simps]
def setRoot (w : World) (id : UInt64) : World :=
  { w with tree := { w.tree with rootNodePageId := id } }

@[simps]
def setFirstLeaf (w : World) (id : UInt64) : World :=
  { w with tree := { w.tree with firstLeafNodePageId := id } }

@[simps]
def setMetaLSN (w : World) (lsn : UInt64) : World :=
  { w with metadata := { w.metadata with LSN := lsn } }

@[simps]
def countCall (w : World) : World := { w with calls := w.calls + 1 }

end World

/-! ### The monad of tree operations -/

/-- Errors a caller sees. -/
inductive TreeError where
  | keyNotFound (key : Bytes)
  | io
  /-- "CommitOperation without BeginOperation" -/
  | commitWithoutBegin
  /-- "Operation without BeginOperation" -/
  | operationWithoutBegin
  deriving DecidableEq

/-- How a call ends other than by returning: with an error, with a run-time panic, waiting
for a latch it holds itself, or never. -/
inductive Failure where
  | error (e : TreeError)
  | panic
  | blocked
  | diverges
  deriving DecidableEq

/-- An operation that fails keeps the changes it has made. -/
def TreeM (α : Type) : Type := World → Except Failure α × World

namespace TreeM

variable {α β : Type}

instance : Monad TreeM where
  pure a := fun w => (.ok a, w)
  bind m f := fun w =>
    match m w with
    | (.ok a, w') => f a w'
    | (.error e, w') => (.error e, w')

@[simp] theorem pure_apply (a : α) (w : World) : (pure a : TreeM α) w = (.ok a, w) := rfl

theorem bind_ok {m : TreeM α} {f : α → TreeM β} {w w' : World} {a : α}
    (h : m w = (.ok a, w')) : (m >>= f) w = f a w' := by
  show (match m w with | (.ok a, w') => f a w' | (.error e, w') => (.error e, w')) = f a w'
  rw [h]

theorem bind_error {m : TreeM α} {f : α → TreeM β} {w w' : World} {e : Failure}
    (h : m w = (.error e, w')) : (m >>= f) w = (.error e, w') := by
  show (match m w with | (.ok a, w') => f a w' | (.error e, w') => (.error e, w')) = _
  rw [h]

/-- A call that returned took every step of its body. -/
theorem bind_eq_ok {m : TreeM α} {f : α → TreeM β} {w w'' : World} {b : β}
    (h : (m >>= f) w = (.ok b, w'')) : ∃ a w', m w = (.ok a, w') ∧ f a w' = (.ok b, w'') := by
  cases run : m w with
  | mk result w' =>
    cases result with
    | ok a =>
      rw [bind_ok run] at h
      exact ⟨a, w', rfl, h⟩
    | error e =>
      rw [bind_error run] at h
      cases h

def fail (e : Failure) : TreeM α := fun w => (.error e, w)

/-- A step that panics on `none`. -/
def orPanic (o : Option α) : TreeM α :=
  match o with
  | some a => pure a
  | none => fail .panic

def get (f : World → α) : TreeM α := fun w => (.ok (f w), w)

def modify (f : World → World) : TreeM Unit := fun w => (.ok (), f w)

/-- `defer guard.Done()` around the rest of a function. -/
def deferDone (id : UInt64) (m : TreeM α) : TreeM α := fun w => ((m w).1, (m w).2.release id)

/-- Rewrites a page under its guard. -/
def applyPage (id : UInt64) (f : Page → Option (α × Page)) : TreeM α := fun w =>
  match f (w.pages id) with
  | some (a, page) => (.ok a, w.setPage id page)
  | none => (.error .panic, w)

def modifyPage (id : UInt64) (f : Page → Page) : TreeM Unit :=
  modify fun w => w.setPage id (f (w.pages id))

@[simp] theorem orPanic_some (a : α) (w : World) : orPanic (some a) w = (.ok a, w) := rfl

@[simp] theorem get_apply (f : World → α) (w : World) : get f w = (.ok (f w), w) := rfl

@[simp] theorem modify_apply (f : World → World) (w : World) : modify f w = (.ok (), f w) := rfl

@[simp] theorem modifyPage_apply (id : UInt64) (f : Page → Page) (w : World) :
    modifyPage id f w = (.ok (), w.setPage id (f (w.pages id))) := rfl

theorem deferDone_ok {id : UInt64} {m : TreeM α} {w w' : World} {a : α} (h : m w = (.ok a, w')) :
    deferDone id m w = (.ok a, w'.release id) := by
  rw [deferDone, h]

theorem applyPage_ok {id : UInt64} {f : Page → Option (α × Page)} {w : World} {a : α} {page : Page}
    (h : f (w.pages id) = some (a, page)) : applyPage id f w = (.ok a, w.setPage id page) := by
  rw [applyPage, h]

/-! ### Guards, pages and the log -/

/-- `NewWriteGuard` and `NewReadGuard`: the page is read from the file if it is not in the
pool, then its latch is taken. -/
def newGuard (id : UInt64) : TreeM Unit := fun w =>
  if w.faults w.calls || decide (w.filePages ≤ id.toNat) then (.error (.error .io), w.countCall)
  else if id ∈ w.guards then (.error .blocked, w)
  else (.ok (), w.acquire id)

def cleanupPage (id : UInt64) : TreeM Unit := modify fun w =>
  { w with metadata :=
    { w.metadata with deallocatedPageIdList := w.metadata.deallocatedPageIdList ++ [id] } }

/-- The guard on a page just obtained from `NewPage`; the page is given back on an error. -/
def newGuardOrCleanup (id : UInt64) : TreeM Unit := fun w =>
  match newGuard id w with
  | (.error (.error e), w') => (.error (.error e), (cleanupPage id w').2)
  | result => result

/-- Offsets are `int64`, so a file has fewer pages than this. -/
def maxFilePages : Nat := 2 ^ 51

/-- The file gets 16 zero pages once its last page is allocated. -/
def extendFile (w : World) : World :=
  { w with
    filePages := w.filePages + 16
    pages := fun id => if w.filePages ≤ id.toNat ∧ id.toNat < w.filePages + 16 then
      Buffer.zero 4096 else w.pages id }

/-- `allocatePage`: the free list first, then the page after the last allocated one. -/
def newPage : TreeM (UInt64 × AllocationSource) := fun w =>
  match w.metadata.deallocatedPageIdList with
  | id :: rest =>
    (.ok (id, .freelist), { w with metadata := { w.metadata with deallocatedPageIdList := rest } })
  | [] =>
    let id := w.metadata.maxAllocatedPageId + 1
    let full := decide (id.toNat = w.filePages)
    if w.faults w.calls || full && decide (maxFilePages < w.filePages + 16) then
      (.error (.error .io), w.countCall)
    else
      let w := if full then extendFile w else w
      (.ok (id, .fileExpansion), { w with
        metadata := { w.metadata with maxAllocatedPageId := id }
        calls := w.calls + 1 })

/-- A `Log*` call: the record is appended under the next LSN. -/
def logRecord (nextLSN : List LogEntry → UInt64) (record : WALRecord) : TreeM UInt64 := fun w =>
  if w.faults w.calls then (.error (.error .io), w.countCall)
  else (.ok (nextLSN w.log), w.append (nextLSN w.log) record)

/-- A `Log*` call whose error is dropped. -/
def logIgnored (nextLSN : List LogEntry → UInt64) (record : WALRecord) : TreeM Unit := fun w =>
  (.ok (), (logRecord nextLSN record w).2)

/-! ### Calls that returned -/

section
variable {w w' : World} {id : UInt64} {a : α}

theorem orPanic_inv {o : Option α} (run : orPanic o w = (.ok a, w')) : o = some a ∧ w' = w := by
  cases o with
  | none => cases run
  | some b =>
    obtain ⟨same, rfl⟩ := Prod.mk.inj run
    cases same
    exact ⟨rfl, rfl⟩

theorem deferDone_inv {m : TreeM α} (run : deferDone id m w = (.ok a, w')) :
    ∃ w₁, m w = (.ok a, w₁) ∧ w' = w₁.release id := by
  cases inner : m w with
  | mk result w₁ =>
    rw [deferDone, inner] at run
    obtain ⟨rfl, rfl⟩ := Prod.mk.inj run
    exact ⟨w₁, rfl, rfl⟩

theorem applyPage_inv {f : Page → Option (α × Page)} (run : applyPage id f w = (.ok a, w')) :
    ∃ page, f (w.pages id) = some (a, page) ∧ w' = w.setPage id page := by
  rw [applyPage] at run
  cases applied : f (w.pages id) with
  | none =>
    rw [applied] at run
    cases run
  | some result =>
    rw [applied] at run
    obtain ⟨same, rfl⟩ := Prod.mk.inj run
    cases same
    exact ⟨result.2, rfl, rfl⟩

theorem newGuard_inv (run : newGuard id w = (.ok (), w')) :
    w' = w.acquire id ∧ id.toNat < w.filePages ∧ id ∉ w.guards := by
  rw [newGuard] at run
  split at run
  next => cases run
  next inside =>
    split at run
    next => cases run
    next free =>
      refine ⟨(Prod.mk.inj run).2.symm, ?_, free⟩
      simp only [Bool.or_eq_true, decide_eq_true_eq, not_or, not_le] at inside
      exact inside.2

theorem newGuardOrCleanup_inv (run : newGuardOrCleanup id w = (.ok (), w')) :
    newGuard id w = (.ok (), w') := by
  rw [newGuardOrCleanup] at run
  split at run
  · cases run
  · exact run

theorem logRecord_inv {nextLSN : List LogEntry → UInt64} {record : WALRecord} {lsn : UInt64}
    (run : logRecord nextLSN record w = (.ok lsn, w')) :
    lsn = nextLSN w.log ∧ w' = w.append lsn record := by
  rw [logRecord] at run
  split at run
  · cases run
  · obtain ⟨same, rfl⟩ := Prod.mk.inj run
    cases same
    exact ⟨rfl, rfl⟩

end

/-! ### Calls that returned an error -/

section
variable {w w' : World} {id : UInt64} {e : TreeError}

/-- The error came from the first part, or from the rest after the first part returned. -/
theorem bind_eq_error {m : TreeM α} {f : α → TreeM β} {failure : Failure}
    (run : (m >>= f) w = (.error failure, w')) :
    m w = (.error failure, w') ∨ ∃ a w₁, m w = (.ok a, w₁) ∧ f a w₁ = (.error failure, w') := by
  cases first : m w with
  | mk result w₁ =>
    cases result with
    | ok a =>
      rw [bind_ok first] at run
      exact .inr ⟨a, w₁, rfl, run⟩
    | error e =>
      rw [bind_error first] at run
      cases run
      exact .inl rfl

/-- A call that may panic, block or diverge and returns no error. -/
def NeverErrs (m : TreeM α) : Prop := ∀ w e w', m w ≠ (.error (.error e), w')

namespace NeverErrs

theorem pure (a : α) : NeverErrs (Pure.pure a : TreeM α) := fun _ _ _ => nofun

theorem bind {m : TreeM α} {f : α → TreeM β} (first : NeverErrs m) (rest : ∀ a, NeverErrs (f a)) :
    NeverErrs (m >>= f) := by
  intro w e w' run
  rcases bind_eq_error run with failed | ⟨a, w₁, _, failed⟩
  · exact first w e w' failed
  · exact rest a w₁ e w' failed

theorem orPanic (o : Option α) : NeverErrs (orPanic o) := by
  cases o with
  | none => exact fun _ _ _ => nofun
  | some a => exact fun _ _ _ => nofun

theorem get (f : World → α) : NeverErrs (get f) := fun _ _ _ => nofun

theorem modifyPage (id : UInt64) (f : Page → Page) : NeverErrs (modifyPage id f) :=
  fun _ _ _ => nofun

theorem applyPage (id : UInt64) (f : Page → Option (α × Page)) : NeverErrs (applyPage id f) := by
  intro w e w'
  rw [TreeM.applyPage]
  split
  · exact nofun
  · exact nofun

theorem ite {c : Prop} [Decidable c] {m m' : TreeM α} (yes : NeverErrs m) (no : NeverErrs m') :
    NeverErrs (if c then m else m') := by
  split
  · exact yes
  · exact no

end NeverErrs

theorem deferDone_err {m : TreeM α} {failure : Failure}
    (run : deferDone id m w = (.error failure, w')) :
    ∃ w₁, m w = (.error failure, w₁) ∧ w' = w₁.release id := by
  cases inner : m w with
  | mk result w₁ =>
    rw [deferDone, inner] at run
    obtain ⟨rfl, rfl⟩ := Prod.mk.inj run
    exact ⟨w₁, rfl, rfl⟩

theorem newGuard_err (run : newGuard id w = (.error (.error e), w')) :
    w' = w.countCall ∧ (w.faults w.calls = true ∨ w.filePages ≤ id.toNat) := by
  rw [newGuard] at run
  split at run
  next cause =>
    exact ⟨(Prod.mk.inj run).2.symm, by simpa using cause⟩
  next =>
    split at run
    · cases run
    · cases run

theorem newGuardOrCleanup_err (run : newGuardOrCleanup id w = (.error (.error e), w')) :
    w' = (cleanupPage id w.countCall).2 ∧ (w.faults w.calls = true ∨ w.filePages ≤ id.toNat) := by
  rw [newGuardOrCleanup] at run
  split at run
  next failed =>
    obtain ⟨rfl, cause⟩ := newGuard_err failed
    exact ⟨(Prod.mk.inj run).2.symm, cause⟩
  next failed => exact absurd run (failed e w')

theorem newPage_err (run : newPage w = (.error (.error e), w')) :
    w' = w.countCall ∧ (w.faults w.calls = true ∨ maxFilePages < w.filePages + 16) := by
  rw [newPage] at run
  split at run
  · cases run
  · dsimp only at run
    split at run
    next cause =>
      refine ⟨(Prod.mk.inj run).2.symm, ?_⟩
      rw [Bool.or_eq_true, Bool.and_eq_true, decide_eq_true_eq, decide_eq_true_eq] at cause
      exact cause.imp_right And.right
    next => cases run

theorem logRecord_err {nextLSN : List LogEntry → UInt64} {record : WALRecord}
    (run : logRecord nextLSN record w = (.error (.error e), w')) :
    w' = w.countCall ∧ w.faults w.calls = true := by
  rw [logRecord] at run
  split at run
  next fault => exact ⟨(Prod.mk.inj run).2.symm, fault⟩
  next => cases run

end

end TreeM

end CambiumDB
