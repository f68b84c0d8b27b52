import CambiumDB.BPlusTree.World

/-!
# `bplustree/b_plus_tree.go`

`nextLSN` is the LSN that the write-ahead log gives to the next record. The tree mutex
makes `Insert` and `Delete` exclusive, so the functions here are what one holder does.

A descent is bounded by the number of pages in the file: under write guards a page cannot
be entered twice, and a read that passes a page twice never ends.
-/

namespace CambiumDB

open ByteBuffer TreeM

namespace BPlusTree

def isLeafNode (id : UInt64) : TreeM Bool := TreeM.get fun w => HeaderCodec.isLeafNode (w.pages id)

/-! ### Get -/

def readTraversal : Nat → Bytes → UInt64 → TreeM Bytes
  | 0, _, _ => fail .diverges
  | fuel + 1, key, id => do
    if ← isLeafNode id then
      let page ← TreeM.get (·.pages id)
      match ← orPanic (LeafNodeCodec.findValue page key) with
      | some value => pure value
      | none => fail (.error (.keyNotFound key))
    else
      let page ← TreeM.get (·.pages id)
      let child ← orPanic (InternalNodeCodec.findNextChildNodePageId page key)
      newGuard child
      deferDone child (readTraversal fuel key child)

/-- Before the first insert the root is page 0, the metadata page. -/
def get (key : Bytes) : TreeM Bytes := do
  let root ← TreeM.get (·.tree.rootNodePageId)
  let pages ← TreeM.get (·.filePages)
  newGuard root
  deferDone root (readTraversal (pages + 1) key root)

section
variable (nextLSN : List LogEntry → UInt64)

/-! ### Splits -/

/-- `HandleLeafNodeSplit` from the moment the right page is there. -/
def moveToRightLeaf (left right : UInt64) (key value : Bytes) :
    TreeM (Bytes × UInt64 × UInt64) := do
  let tree ← TreeM.get (·.tree.bPlusTreeId)
  let page ← TreeM.get (·.pages left)
  let splitIndex ← orPanic (LeafNodeCodec.findSplitNodeIndex page)
  let (length, elements) ← orPanic (LeafNodeCodec.encodeAllElements page)
  let lsn ← logRecord nextLSN (.splitLeafNode tree left right (splitIndex % 65536)
    (LeafNodeCodec.getNextLeafNodePageId page) key value (length % 65536) elements)
  modifyPage right (LeafNodeCodec.setLSN · lsn)
  modifyPage left (LeafNodeCodec.setLSN · lsn)
  let leftPage ← TreeM.get (·.pages left)
  let rightPage ← TreeM.get (·.pages right)
  let (leftPage, rightPage, extraKey) ←
    orPanic (LeafNodeCodec.splitNode leftPage rightPage right splitIndex)
  modifyPage left fun _ => leftPage
  modifyPage right fun _ => rightPage
  -- the answer of `InsertKeyValue` is dropped
  if compareBytes key extraKey = .lt then
    let _ ← applyPage left (LeafNodeCodec.insertElement · key value)
    pure (extraKey, left, right)
  else
    let _ ← applyPage right (LeafNodeCodec.insertElement · key value)
    pure (extraKey, left, right)

def handleLeafNodeSplit (left : UInt64) (key value : Bytes) : TreeM (Bytes × UInt64 × UInt64) := do
  let tree ← TreeM.get (·.tree.bPlusTreeId)
  let (right, source) ← newPage
  newGuardOrCleanup right
  deferDone right do
    let lsn ← logRecord nextLSN (.createPage tree right .leaf source)
    modifyPage right (LeafNodeCodec.setLSN · lsn)
    moveToRightLeaf nextLSN left right key value

/-- `HandleInternalNodeSplit` from the moment the right page is there. -/
def moveToRightNode (left right parent : UInt64) (insertKey : Bytes)
    (insertLeft insertRight : UInt64) : TreeM (Bytes × UInt64 × UInt64) := do
  let tree ← TreeM.get (·.tree.bPlusTreeId)
  let page ← TreeM.get (·.pages left)
  let splitIndex ← orPanic (InternalNodeCodec.findSplitNodeIndex page)
  let (length, elements) ← orPanic (InternalNodeCodec.encodeAllElements page)
  let lsn ← logRecord nextLSN (.splitInternalNode tree left right (splitIndex % 65536) insertKey
    insertLeft insertRight (length % 65536) elements)
  modifyPage right (InternalNodeCodec.setLSN · lsn)
  modifyPage left (InternalNodeCodec.setLSN · lsn)
  modifyPage parent (InternalNodeCodec.setLSN · lsn)
  let leftPage ← TreeM.get (·.pages left)
  let rightPage ← TreeM.get (·.pages right)
  let (leftPage, rightPage, splitKey) ←
    orPanic (InternalNodeCodec.splitNode leftPage rightPage right splitIndex)
  modifyPage left fun _ => leftPage
  modifyPage right fun _ => rightPage
  if compareBytes insertKey splitKey = .lt then
    let _ ← applyPage left (InternalNodeCodec.insertElement · insertKey insertLeft insertRight)
    pure (splitKey, left, right)
  else
    let _ ← applyPage right (InternalNodeCodec.insertElement · insertKey insertLeft insertRight)
    pure (splitKey, left, right)

def handleInternalNodeSplit (left parent : UInt64) (insertKey : Bytes)
    (insertLeft insertRight : UInt64) : TreeM (Bytes × UInt64 × UInt64) := do
  let tree ← TreeM.get (·.tree.bPlusTreeId)
  let (right, source) ← newPage
  newGuardOrCleanup right
  deferDone right do
    let lsn ← logRecord nextLSN (.createPage tree right .internal source)
    -- the type of the new page is not set
    modifyPage right (InternalNodeCodec.setLSN · lsn)
    moveToRightNode nextLSN left right parent insertKey insertLeft insertRight

/-- The end of both root splits: the separator goes into the new root, which becomes the
root of the tree. -/
def installRoot (newRoot : UInt64) (extraKey : Bytes) (left right : UInt64) : TreeM Unit := do
  let tree ← TreeM.get (·.tree.bPlusTreeId)
  let lsn ← logRecord nextLSN (.insertInternalNodeEntry tree newRoot extraKey left right)
  modifyPage newRoot (InternalNodeCodec.setLSN · lsn)
  let _ ← applyPage newRoot (InternalNodeCodec.insertElement · extraKey left right)
  let lsn ← logRecord nextLSN (.updateRootNodePageId tree newRoot)
  modify (·.setMetaLSN lsn)
  modify (·.setRoot newRoot)

def handleLeafRootNodeSplit (oldRoot : UInt64) (key value : Bytes) : TreeM Unit := do
  let tree ← TreeM.get (·.tree.bPlusTreeId)
  let (newRoot, source) ← newPage
  newGuardOrCleanup newRoot
  deferDone newRoot do
    let lsn ← logRecord nextLSN (.createPage tree newRoot .internal source)
    modifyPage newRoot (InternalNodeCodec.setLSN · lsn)
    modifyPage newRoot InternalNodeCodec.setNodeType
    let (extraKey, left, right) ← handleLeafNodeSplit nextLSN oldRoot key value
    installRoot nextLSN newRoot extraKey left right

def handleInternalRootNodeSplit (oldRoot : UInt64) (insertKey : Bytes)
    (insertLeft insertRight : UInt64) : TreeM Unit := do
  let tree ← TreeM.get (·.tree.bPlusTreeId)
  let (newRoot, source) ← newPage
  newGuardOrCleanup newRoot
  deferDone newRoot do
    let lsn ← logRecord nextLSN (.createPage tree newRoot .internal source)
    -- unlike the leaf root split, the type of the new root is not set
    modifyPage newRoot (InternalNodeCodec.setLSN · lsn)
    let (extraKey, left, right) ←
      handleInternalNodeSplit nextLSN oldRoot newRoot insertKey insertLeft insertRight
    installRoot nextLSN newRoot extraKey left right

/-! ### Insert -/

/-- A leaf that has no room: the root splits under a new root, another leaf hands its
separator to the caller. -/
def splitLeaf (id : UInt64) (key value : Bytes) : TreeM (Option (Bytes × UInt64 × UInt64)) := do
  if (← TreeM.get (·.tree.rootNodePageId)) = id then
    handleLeafRootNodeSplit nextLSN id key value
    pure none
  else
    let result ← handleLeafNodeSplit nextLSN id key value
    pure (some result)

def writeLeaf (id : UInt64) (key value : Bytes) : TreeM (Option (Bytes × UInt64 × UInt64)) := do
  let tree ← TreeM.get (·.tree.bPlusTreeId)
  let page ← TreeM.get (·.pages id)
  match ← orPanic (LeafNodeCodec.findValue page key) with
  | some oldValue =>
    if ← applyPage id (LeafNodeCodec.hasEnoughSpaceToUpdateValue · key oldValue value) then
      let lsn ← logRecord nextLSN (.updateLeafNodeEntry tree id key value)
      modifyPage id (LeafNodeCodec.setLSN · lsn)
      applyPage id fun page => (LeafNodeCodec.setValue page key value).map ((), ·)
      pure none
    else splitLeaf nextLSN id key value
  | none =>
    if ← applyPage id (LeafNodeCodec.hasEnoughSpaceToInsertElement · key value) then
      let lsn ← logRecord nextLSN (.insertLeafNodeEntry tree id key value)
      modifyPage id (LeafNodeCodec.setLSN · lsn)
      let _ ← applyPage id (LeafNodeCodec.insertElement · key value)
      pure none
    else splitLeaf nextLSN id key value

/-- What an internal node does with the separator its child handed up. -/
def writeSeparator (id : UInt64) (parent : Option UInt64) (extraKey : Bytes) (left right : UInt64) :
    TreeM (Option (Bytes × UInt64 × UInt64)) := do
  let tree ← TreeM.get (·.tree.bPlusTreeId)
  if ← applyPage id (InternalNodeCodec.hasEnoughSpaceToInsertElement · extraKey) then
    let lsn ← logRecord nextLSN (.insertInternalNodeEntry tree id extraKey left right)
    modifyPage id (InternalNodeCodec.setLSN · lsn)
    let _ ← applyPage id (InternalNodeCodec.insertElement · extraKey left right)
    pure none
  else if (← TreeM.get (·.tree.rootNodePageId)) = id then
    handleInternalRootNodeSplit nextLSN id extraKey left right
    pure none
  else
    -- a nil parent guard would be dereferenced
    let parent ← orPanic parent
    let result ← handleInternalNodeSplit nextLSN id parent extraKey left right
    pure (some result)

def writeTraversal (key value : Bytes) :
    Nat → UInt64 → Option UInt64 → TreeM (Option (Bytes × UInt64 × UInt64))
  | 0, _, _ => fail .diverges
  | fuel + 1, id, parent => do
    if ← isLeafNode id then writeLeaf nextLSN id key value
    else
      let page ← TreeM.get (·.pages id)
      let child ← orPanic (InternalNodeCodec.findNextChildNodePageId page key)
      newGuard child
      deferDone child do
        match ← writeTraversal key value fuel child (some id) with
        | none => pure none
        | some (extraKey, left, right) => writeSeparator nextLSN id parent extraKey left right

/-- The first leaf of a tree. On an error after the guard was taken, the guard is not
given back. -/
def createRoot : TreeM UInt64 := do
  let tree ← TreeM.get (·.tree.bPlusTreeId)
  let (root, source) ← newPage
  let lsn ← logRecord nextLSN (.createPage tree root .leaf source)
  newGuard root
  modifyPage root (LeafNodeCodec.setLSN · lsn)
  let lsn ← logRecord nextLSN (.updateFirstLeafNodePageId tree root)
  modify (·.setMetaLSN lsn)
  let lsn ← logRecord nextLSN (.updateRootNodePageId tree root)
  modify (·.setMetaLSN lsn)
  modify (·.setFirstLeaf root)
  modify (·.setRoot root)
  pure root

/-- The guard on the root, which is created if there is none. -/
def guardRoot : TreeM UInt64 := do
  let root ← TreeM.get (·.tree.rootNodePageId)
  if root = 0 then createRoot nextLSN
  else
    newGuard root
    pure root

/-- `Insert` once the mutex is held. -/
def insertLocked (key value : Bytes) : TreeM Unit := do
  let root ← guardRoot nextLSN
  deferDone root do
    let pages ← TreeM.get (·.filePages)
    let _ ← writeTraversal nextLSN key value (pages + 1) root none
    let tree ← TreeM.get (·.tree.bPlusTreeId)
    logIgnored nextLSN (.commitOperation tree)

/-- The begin record is written before the mutex is taken. -/
def insert (key value : Bytes) : TreeM Unit := do
  let tree ← TreeM.get (·.tree.bPlusTreeId)
  logIgnored nextLSN (.beginOperation tree)
  insertLocked nextLSN key value

end

/-! ### Delete -/

def findLeafNodePageId : Nat → Bytes → UInt64 → TreeM UInt64
  | 0, _, _ => fail .diverges
  | fuel + 1, key, id => do
    newGuard id
    if ← isLeafNode id then
      modify (·.release id)
      pure id
    else
      let page ← TreeM.get (·.pages id)
      let child ← orPanic (InternalNodeCodec.findNextChildNodePageId page key)
      modify (·.release id)
      findLeafNodePageId fuel key child

/-- Deletes are not logged. -/
def delete (key : Bytes) : TreeM Unit := do
  let root ← TreeM.get (·.tree.rootNodePageId)
  if root = 0 then fail (.error (.keyNotFound key))
  else
    let pages ← TreeM.get (·.filePages)
    let leaf ← findLeafNodePageId (pages + 1) key root
    newGuard leaf
    deferDone leaf do
      if ← applyPage leaf (LeafNodeCodec.deleteElement · key) then pure ()
      else fail (.error (.keyNotFound key))

/-- `Close` copies the handle into the metadata. -/
def close : TreeM Unit := modify fun w =>
  { w with metadata := { w.metadata with
      rootPages := w.metadata.rootPages.set w.tree.bPlusTreeId w.tree.rootNodePageId
      firstLeafNodePages :=
        w.metadata.firstLeafNodePages.set w.tree.bPlusTreeId w.tree.firstLeafNodePageId } }

end BPlusTree

end CambiumDB
