import CambiumDB.BPlusTree.Frame

/-!
# `storageengine/wal_recovery.go`

`Recover` reads the whole log. The records between the begin and the commit record of a tree
are redone at the commit record, in their order; what is not committed is dropped. One log
sequence number in the metadata guards all changes of the metadata, and one in each page
guards the changes of the page.
-/

namespace CambiumDB

open ByteBuffer

namespace StorageEngine

open TreeM

/-- `EnsurePageExists`: the file gets zero pages up to the page, which then counts as allocated.
The number of bytes to add is computed in 64 bits. -/
def ensurePageExists (pageId : UInt64) : TreeM Unit := fun w =>
  let requiredPages := (pageId + 1).toNat
  let pagesToAdd := (requiredPages - w.filePages) % 2 ^ 52
  if w.faults w.calls || decide (0 < pagesToAdd ∧ maxFilePages < w.filePages + pagesToAdd) then
    (.error (.error .io), w.countCall)
  else
    (.ok (), { w with
      filePages := w.filePages + pagesToAdd
      pages := fun id => if w.filePages ≤ id.toNat ∧ id.toNat < w.filePages + pagesToAdd then
        Buffer.zero 4096 else w.pages id
      metadata := { w.metadata with
        maxAllocatedPageId := if w.metadata.maxAllocatedPageId < pageId then pageId
          else w.metadata.maxAllocatedPageId }
      calls := w.calls + 1 })

def flushAllPages : TreeM Unit := fun w =>
  if w.faults w.calls then (.error (.error .io), w.countCall) else (.ok (), w.countCall)

/-! ### Redo -/

/-- A page from the end of the file does not move the log sequence number of the metadata on. -/
def redoAllocation (lsn page : UInt64) (source : AllocationSource) : TreeM Unit := do
  let metadata ← TreeM.get (·.metadata)
  if metadata.LSN < lsn then
    match source with
    | .fileExpansion => ensurePageExists page
    | .freelist =>
      TreeM.modify fun w => { w with metadata := { w.metadata with
        deallocatedPageIdList := swapRemove w.metadata.deallocatedPageIdList page
        LSN := lsn } }
  else pure ()

def redoCreatePage (lsn page : UInt64) (type : NodeType) (source : AllocationSource) :
    TreeM Unit := do
  redoAllocation lsn page source
  newGuard page
  deferDone page do
    match type with
    | .leaf => modifyPage page LeafNodeCodec.setNodeType
    | .internal => modifyPage page InternalNodeCodec.setNodeType

def redoUpdateRootNodePageId (lsn tree page : UInt64) : TreeM Unit :=
  TreeM.modify fun w =>
    if w.metadata.LSN < lsn then
      { w with metadata := { w.metadata with
        rootPages := w.metadata.rootPages.set tree page
        LSN := lsn } }
    else w

def redoUpdateFirstLeafNodePageId (lsn tree page : UInt64) : TreeM Unit :=
  TreeM.modify fun w =>
    if w.metadata.LSN < lsn then
      { w with metadata := { w.metadata with
        firstLeafNodePages := w.metadata.firstLeafNodePages.set tree page
        LSN := lsn } }
    else w

/-- A change that is skipped on a page that has it already. -/
def redoOnPage (lsn page : UInt64) (change : Page → Option Page) : TreeM Unit := do
  let content ← TreeM.get (·.pages page)
  if HeaderCodec.getLSN content < lsn then
    applyPage page fun content => (change content).map ((), ·)
    modifyPage page (HeaderCodec.setLSN · lsn)
  else pure ()

def redoEntry (lsn page : UInt64) (change : Page → Option Page) : TreeM Unit := do
  newGuard page
  deferDone page (redoOnPage lsn page change)

/-- The answer of `InsertKey` is dropped. -/
def redoInsertInternalNodeEntry (lsn page : UInt64) (key : Bytes) (left right : UInt64) :
    TreeM Unit :=
  redoEntry lsn page fun content =>
    (InternalNodeCodec.insertElement content key left right).map Prod.snd

/-- The answer of `InsertKeyValue` is dropped, and the space is not checked. -/
def redoInsertLeafNodeEntry (lsn page : UInt64) (key value : Bytes) : TreeM Unit :=
  redoEntry lsn page fun content => (LeafNodeCodec.insertElement content key value).map Prod.snd

def redoUpdateLeafNodeEntry (lsn page : UInt64) (key value : Bytes) : TreeM Unit :=
  redoEntry lsn page fun content => LeafNodeCodec.setValue content key value

/-- `PrintElements` decodes all elements, so it panics where one is out of range. It does not
read the log sequence number, which is set just before it. -/
def printed (content : Page) : Option Page :=
  (LeafNodeCodec.getAllSlotsAndElements content).map fun _ => content

def redoSplitLeafNode (lsn left right : UInt64) (separatorKeyIndex : Nat) (nextLeaf : UInt64)
    (insertKey insertValue elementList : Bytes) : TreeM Unit := do
  newGuard left
  deferDone left do
    newGuard right
    deferDone right do
      let entries ← orPanic (LeafNodeCodec.decodeAllSlotsAndElements elementList)
      let separator ← orPanic entries[separatorKeyIndex]?
      let extraKey := separator.2.key
      -- the right half first
      redoOnPage lsn right fun content => do
        let content ← LeafNodeCodec.putAllSlotsAndElements content
          (entries.drop separatorKeyIndex)
        let content := LeafNodeCodec.setNextLeafNodePageId content nextLeaf
        let content ← if compareBytes insertKey extraKey = .lt then some content
          else (LeafNodeCodec.insertElement content insertKey insertValue).map Prod.snd
        printed content
      redoOnPage lsn left fun content => do
        let content ← LeafNodeCodec.putAllSlotsAndElements content
          (entries.take separatorKeyIndex)
        let content := LeafNodeCodec.setNextLeafNodePageId content right
        let content ← if compareBytes insertKey extraKey = .lt then
            (LeafNodeCodec.insertElement content insertKey insertValue).map Prod.snd
          else some content
        printed content

def redoSplitInternalNode (lsn left right : UInt64) (separatorKeyIndex : Nat)
    (insertKey : Bytes) (insertLeft insertRight : UInt64) (elementList : Bytes) :
    TreeM Unit := do
  newGuard left
  deferDone left do
    let entries ← orPanic (InternalNodeCodec.decodeAllSlotsAndElements elementList)
    let separator ← orPanic entries[separatorKeyIndex]?
    let extraKey := separator.2.key
    redoOnPage lsn left fun content => do
      let content ← InternalNodeCodec.putAllSlotsAndElements content
        (entries.take separatorKeyIndex)
      if compareBytes insertKey extraKey = .lt then
        (InternalNodeCodec.insertElement content insertKey insertLeft insertRight).map Prod.snd
      else some content
    newGuard right
    deferDone right do
      redoOnPage lsn right fun content => do
        let content ← InternalNodeCodec.putAllSlotsAndElements content
          (entries.drop (separatorKeyIndex + 1))
        if compareBytes insertKey extraKey = .lt then some content
        else
          (InternalNodeCodec.insertElement content insertKey insertLeft insertRight).map Prod.snd

/-- `redoFuncMapping`; the begin and commit records are never redone. -/
def redo (entry : LogEntry) : TreeM Unit :=
  match entry.record with
  | .beginOperation _ | .commitOperation _ => pure ()
  | .createPage _ page type source => redoCreatePage entry.lsn page type source
  | .updateRootNodePageId tree page => redoUpdateRootNodePageId entry.lsn tree page
  | .updateFirstLeafNodePageId tree page => redoUpdateFirstLeafNodePageId entry.lsn tree page
  | .insertInternalNodeEntry _ page key left right =>
    redoInsertInternalNodeEntry entry.lsn page key left right
  | .insertLeafNodeEntry _ page key value => redoInsertLeafNodeEntry entry.lsn page key value
  | .updateLeafNodeEntry _ page key value => redoUpdateLeafNodeEntry entry.lsn page key value
  | .splitLeafNode _ left right splitIndex nextLeaf key value _ elements =>
    redoSplitLeafNode entry.lsn left right splitIndex nextLeaf key value elements
  | .splitInternalNode _ left right splitIndex key leftChild rightChild _ elements =>
    redoSplitInternalNode entry.lsn left right splitIndex key leftChild rightChild elements

def redoAll : List LogEntry → TreeM Unit
  | [] => pure ()
  | entry :: rest => do
    redo entry
    redoAll rest

/-! ### Recover -/

/-- `recoveryOperationsMap`. -/
abbrev Pending := UInt64 → Option (List LogEntry)

def recoverLoop : Pending → List LogEntry → TreeM Unit
  | _, [] => pure ()
  | pending, entry :: rest =>
    match entry.record with
    | .beginOperation tree => recoverLoop (Function.update pending tree (some [])) rest
    | .commitOperation tree =>
      match pending tree with
      | none => fail (.error .commitWithoutBegin)
      | some operations => do
        redoAll operations
        recoverLoop (Function.update pending tree none) rest
    | record =>
      match pending record.tree with
      | none => fail (.error .operationWithoutBegin)
      | some operations =>
        recoverLoop (Function.update pending record.tree (some (operations ++ [entry]))) rest

/-- Operations without a commit record at the end of the log are ignored. -/
def recover : TreeM Unit := do
  let log ← TreeM.get (·.log)
  recoverLoop (fun _ => none) log
  flushAllPages

/-! ### What is redone -/

/-- The records that are redone, in the order in which they are; `none` where a record is
outside of an operation. -/
def committedFrom : Pending → List LogEntry → Option (List LogEntry)
  | _, [] => some []
  | pending, entry :: rest =>
    match entry.record with
    | .beginOperation tree => committedFrom (Function.update pending tree (some [])) rest
    | .commitOperation tree =>
      match pending tree with
      | none => none
      | some operations =>
        (committedFrom (Function.update pending tree none) rest).map (operations ++ ·)
    | record =>
      match pending record.tree with
      | none => none
      | some operations =>
        committedFrom (Function.update pending record.tree (some (operations ++ [entry]))) rest

def committed (log : List LogEntry) : Option (List LogEntry) := committedFrom (fun _ => none) log

theorem redoAll_append (first second : List LogEntry) :
    redoAll (first ++ second) = (do redoAll first; redoAll second) := by
  funext w
  induction first generalizing w with
  | nil => rfl
  | cons entry rest ih =>
    rw [List.cons_append, redoAll, redoAll]
    cases run : redo entry w with
    | mk result w' =>
      cases result with
      | ok _ =>
        rw [bind_ok run, ih]
        cases run' : redoAll rest w' with
        | mk result' w'' =>
          have both : (redo entry >>= fun _ => redoAll rest) w = (result', w'') := by
            rw [bind_ok run, run']
          cases result' with
          | ok _ => rw [bind_ok run', bind_ok both]
          | error e => rw [bind_error run', bind_error both]
      | error e =>
        have stopped : (redo entry >>= fun _ => redoAll rest) w = (.error e, w') := bind_error run
        rw [bind_error run, bind_error stopped]

/-- `Recover` redoes the committed records one after the other. -/
theorem recoverLoop_eq {pending : Pending} {log entries : List LogEntry}
    (redone : committedFrom pending log = some entries) :
    recoverLoop pending log = redoAll entries := by
  induction log generalizing pending entries with
  | nil =>
    obtain rfl := Option.some.inj redone
    rfl
  | cons entry rest ih =>
    rw [committedFrom] at redone
    rw [recoverLoop]
    split at redone
    next => exact ih redone
    next =>
      split at redone
      next => cases redone
      next tree _ operations begun =>
        obtain ⟨later, laterEq, rfl⟩ := Option.map_eq_some_iff.1 redone
        rw [redoAll_append, ← ih laterEq]
    next =>
      split at redone
      next => cases redone
      next operations begun => exact ih redone

/-- Where it succeeds, no record is outside of an operation. -/
theorem committedFrom_of_ok {pending : Pending} {log : List LogEntry} {w w' : World}
    (run : recoverLoop pending log w = (.ok (), w')) :
    ∃ entries, committedFrom pending log = some entries := by
  induction log generalizing pending w with
  | nil => exact ⟨[], rfl⟩
  | cons entry rest ih =>
    obtain ⟨m, step⟩ : ∃ m, recoverLoop pending (entry :: rest) = m := ⟨_, rfl⟩
    rw [step] at run
    rw [recoverLoop] at step
    rw [committedFrom]
    split at step
    next =>
      subst step
      exact ih run
    next =>
      split at step
      next =>
        subst step
        cases run
      next operations _ =>
        subst step
        obtain ⟨_, w₁, _, run⟩ := bind_eq_ok run
        obtain ⟨later, laterEq⟩ := ih run
        exact ⟨operations ++ later, by rw [laterEq]; rfl⟩
    next =>
      split at step
      next =>
        subst step
        cases run
      next =>
        subst step
        exact ih run

/-- What one record does to the metadata. -/
def redoMeta (m : MetaData) (entry : LogEntry) : MetaData :=
  if m.LSN < entry.lsn then
    match entry.record with
    | .createPage _ page _ .fileExpansion =>
      { m with maxAllocatedPageId :=
          if m.maxAllocatedPageId < page then page else m.maxAllocatedPageId }
    | .createPage _ page _ .freelist =>
      { m with
        deallocatedPageIdList := swapRemove m.deallocatedPageIdList page
        LSN := entry.lsn }
    | .updateRootNodePageId tree page =>
      { m with rootPages := m.rootPages.set tree page, LSN := entry.lsn }
    | .updateFirstLeafNodePageId tree page =>
      { m with firstLeafNodePages := m.firstLeafNodePages.set tree page, LSN := entry.lsn }
    | _ => m
  else m

theorem sameHandle_redoOnPage (lsn page : UInt64) (change : Page → Option Page) :
    Keeps (fun _ => True) SameHandle (redoOnPage lsn page change) := by
  rw [redoOnPage]
  apply Keeps.get
  intro content _
  apply Keeps.ite
  · apply pageFrame_sameHandle.bind (pageFrame_sameHandle.applyPage page _)
    intro _
    exact pageFrame_sameHandle.modifyPage page _
  · exact pageFrame_sameHandle.pure ()

theorem sameHandle_redoEntry (lsn page : UInt64) (change : Page → Option Page) :
    Keeps (fun _ => True) SameHandle (redoEntry lsn page change) := by
  apply pageFrame_sameHandle.bind (pageFrame_sameHandle.newGuard page)
  intro _
  exact pageFrame_sameHandle.deferDone page (sameHandle_redoOnPage lsn page change)

theorem sameHandle_redoSplitLeafNode (lsn left right : UInt64) (separatorKeyIndex : Nat)
    (nextLeaf : UInt64) (insertKey insertValue elementList : Bytes) :
    Keeps (fun _ => True) SameHandle (redoSplitLeafNode lsn left right separatorKeyIndex nextLeaf
      insertKey insertValue elementList) := by
  have frame := pageFrame_sameHandle
  apply frame.bind (frame.newGuard left)
  intro _
  apply frame.deferDone left
  apply frame.bind (frame.newGuard right)
  intro _
  apply frame.deferDone right
  apply frame.bind (frame.orPanic _)
  intro entries
  apply frame.bind (frame.orPanic _)
  intro separator
  apply frame.bind (sameHandle_redoOnPage lsn right _)
  intro _
  exact sameHandle_redoOnPage lsn left _

theorem sameHandle_redoSplitInternalNode (lsn left right : UInt64) (separatorKeyIndex : Nat)
    (insertKey : Bytes) (insertLeft insertRight : UInt64) (elementList : Bytes) :
    Keeps (fun _ => True) SameHandle (redoSplitInternalNode lsn left right separatorKeyIndex
      insertKey insertLeft insertRight elementList) := by
  have frame := pageFrame_sameHandle
  apply frame.bind (frame.newGuard left)
  intro _
  apply frame.deferDone left
  apply frame.bind (frame.orPanic _)
  intro entries
  apply frame.bind (frame.orPanic _)
  intro separator
  apply frame.bind (sameHandle_redoOnPage lsn left _)
  intro _
  apply frame.bind (frame.newGuard right)
  intro _
  exact frame.deferDone right (sameHandle_redoOnPage lsn right _)

theorem redoAllocation_metadata {lsn page tree : UInt64} {type : NodeType}
    {source : AllocationSource} {w w' : World}
    (run : redoAllocation lsn page source w = (.ok (), w')) :
    w'.metadata = redoMeta w.metadata ⟨lsn, .createPage tree page type source⟩ ∧
      w'.log = w.log := by
  rw [redoAllocation.eq_def, bind_ok (get_apply _ _)] at run
  rw [redoMeta]
  split at run
  next newer =>
    rw [if_pos newer]
    cases source with
    | fileExpansion =>
      dsimp only [ensurePageExists] at run
      split at run
      · cases run
      · obtain rfl := (Prod.mk.inj run).2
        exact ⟨rfl, rfl⟩
    | freelist =>
      obtain rfl := (Prod.mk.inj run).2
      exact ⟨rfl, rfl⟩
  next older =>
    obtain rfl := (Prod.mk.inj run).2
    rw [if_neg older]
    exact ⟨rfl, rfl⟩

theorem redoCreatePage_metadata {lsn page tree : UInt64} {type : NodeType}
    {source : AllocationSource} {w w' : World}
    (run : redoCreatePage lsn page type source w = (.ok (), w')) :
    w'.metadata = redoMeta w.metadata ⟨lsn, .createPage tree page type source⟩ ∧
      w'.log = w.log := by
  have frame := pageFrame_sameHandle
  obtain ⟨_, w₁, allocated, run⟩ := bind_eq_ok run
  have same : SameHandle w₁ w' := by
    have kept : Keeps (fun _ => True) SameHandle (do
        newGuard page
        deferDone page (match type with
          | .leaf => modifyPage page LeafNodeCodec.setNodeType
          | .internal => modifyPage page InternalNodeCodec.setNodeType)) := by
      apply frame.bind (frame.newGuard page)
      intro _
      apply frame.deferDone page
      cases type with
      | leaf => exact frame.modifyPage page _
      | internal => exact frame.modifyPage page _
    have related := kept w₁ trivial
    rw [run] at related
    exact related
  obtain ⟨metadata, log⟩ := redoAllocation_metadata allocated
  exact ⟨same.metadata.trans metadata, same.log.trans log⟩

/-- The pages have no say in what redo does to the metadata. -/
theorem redo_metadata {entry : LogEntry} {w w' : World} (run : redo entry w = (.ok (), w')) :
    w'.metadata = redoMeta w.metadata entry ∧ w'.log = w.log := by
  obtain ⟨lsn, record⟩ := entry
  have pageOnly : ∀ {m : TreeM Unit}, Keeps (fun _ => True) SameHandle m →
      m w = (.ok (), w') → w'.metadata = w.metadata ∧ w'.log = w.log := by
    intro m kept run
    have related := kept w trivial
    rw [run] at related
    exact ⟨related.metadata, related.log⟩
  cases record with
  | beginOperation tree =>
    obtain rfl := (Prod.mk.inj run).2
    simp [redoMeta]
  | commitOperation tree =>
    obtain rfl := (Prod.mk.inj run).2
    simp [redoMeta]
  | createPage tree page type source => exact redoCreatePage_metadata run
  | updateRootNodePageId tree page =>
    obtain rfl := (Prod.mk.inj run).2
    by_cases newer : w.metadata.LSN < lsn
    · simp [redoMeta, newer]
    · simp [redoMeta, newer]
  | updateFirstLeafNodePageId tree page =>
    obtain rfl := (Prod.mk.inj run).2
    by_cases newer : w.metadata.LSN < lsn
    · simp [redoMeta, newer]
    · simp [redoMeta, newer]
  | insertInternalNodeEntry tree page key left right =>
    simpa [redoMeta] using pageOnly (sameHandle_redoEntry lsn page _) run
  | insertLeafNodeEntry tree page key value =>
    simpa [redoMeta] using pageOnly (sameHandle_redoEntry lsn page _) run
  | updateLeafNodeEntry tree page key value =>
    simpa [redoMeta] using pageOnly (sameHandle_redoEntry lsn page _) run
  | splitLeafNode tree left right splitIndex nextLeaf key value length elements =>
    simpa [redoMeta] using
      pageOnly (sameHandle_redoSplitLeafNode lsn left right splitIndex nextLeaf key value _) run
  | splitInternalNode tree left right splitIndex key leftChild rightChild length elements =>
    simpa [redoMeta] using pageOnly
      (sameHandle_redoSplitInternalNode lsn left right splitIndex key leftChild rightChild _) run

theorem redoAll_metadata {entries : List LogEntry} {w w' : World}
    (run : redoAll entries w = (.ok (), w')) :
    w'.metadata = entries.foldl redoMeta w.metadata ∧ w'.log = w.log := by
  induction entries generalizing w with
  | nil =>
    obtain rfl := (Prod.mk.inj run).2
    exact ⟨rfl, rfl⟩
  | cons entry rest ih =>
    obtain ⟨_, w₁, first, run⟩ := bind_eq_ok run
    obtain ⟨metadata, log⟩ := redo_metadata first
    obtain ⟨metadata', log'⟩ := ih run
    exact ⟨by rw [metadata', metadata, List.foldl_cons], log'.trans log⟩

theorem recover_inv {w w' : World} (run : recover w = (.ok (), w')) :
    ∃ entries w₁, committed w.log = some entries ∧ redoAll entries w = (.ok (), w₁) ∧
      w' = w₁.countCall := by
  rw [recover, bind_ok (get_apply _ _)] at run
  obtain ⟨_, w₁, redone, run⟩ := bind_eq_ok run
  obtain ⟨entries, entriesEq⟩ := committedFrom_of_ok redone
  rw [recoverLoop_eq entriesEq] at redone
  refine ⟨entries, w₁, entriesEq, redone, ?_⟩
  rw [flushAllPages] at run
  split at run
  · cases run
  · exact (Prod.mk.inj run).2.symm

theorem recover_of_redoAll {w w' : World} {entries : List LogEntry}
    (redone : committed w.log = some entries) (run : redoAll entries w = (.ok (), w'))
    (fault : w'.faults w'.calls = false) : recover w = (.ok (), w'.countCall) := by
  rw [recover, bind_ok (get_apply _ _), recoverLoop_eq redone, bind_ok run, flushAllPages, fault]
  rfl

/-- A recovery that succeeds leaves the metadata that the committed records give. -/
theorem recover_metadata {w w' : World} (run : recover w = (.ok (), w')) :
    ∃ entries, committed w.log = some entries ∧
      w'.metadata = entries.foldl redoMeta w.metadata ∧ w'.log = w.log := by
  obtain ⟨entries, w₁, entriesEq, redone, rfl⟩ := recover_inv run
  obtain ⟨metadata, log⟩ := redoAll_metadata redone
  exact ⟨entries, entriesEq, metadata, log⟩

end StorageEngine

end CambiumDB
