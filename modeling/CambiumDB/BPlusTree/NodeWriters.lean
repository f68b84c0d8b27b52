import CambiumDB.BufferPool.FetchFailures
import CambiumDB.PageCodec.InternalNode
import CambiumDB.PageCodec.LeafNode

/-!
# `bplustree/leaf_node_writer.go` and `bplustree/internal_node_writer.go`

The writers work on the frame of an active write guard; `none` is a panic of the codec. An
eviction writes a frame back only if its dirty flag is set, so a method that changes the page and
leaves the flag alone can lose the change.
-/

namespace CambiumDB

open ByteBuffer HeaderConfig HeaderCodec SlottedPage

namespace InternalNodeCodec

/-- No part of the tree calls it. -/
def deleteElement (page : Page) (key : Bytes) : Option (Bool × Page) :=
  SlottedPage.deleteElement elementCodec page key

end InternalNodeCodec

/-! ### The three kinds of methods -/

namespace Frame

variable {α : Type}

/-- `SetDirtyFlag`, then a codec call that cannot panic. -/
def modify (w : Frame) (f : Page → Page) : Frame := { w with data := f w.data, dirty := true }

/-- `SetDirtyFlag`, then a codec call that can. -/
def tryModify (w : Frame) (f : Page → Option (α × Page)) : Option (α × Frame) := do
  let (result, page) ← f w.data
  some (result, { w with data := page, dirty := true })

/-- A codec call without `SetDirtyFlag`, which gets the bytes of the frame all the same. -/
def inspect (w : Frame) (f : Page → Option (α × Page)) : Option (α × Frame) := do
  let (result, page) ← f w.data
  some (result, { w with data := page })

/-- Both nodes of a split are flagged. -/
def split (w rightNode : Frame)
    (f : Page → Page → UInt64 → Nat → Option (Page × Page × Bytes)) (splitIndex : Nat) :
    Option (Bytes × Frame × Frame) := do
  let (page, rightPage, extraKey) ← f w.data rightNode.data rightNode.pageId splitIndex
  some (extraKey, { w with data := page, dirty := true },
    { rightNode with data := rightPage, dirty := true })

end Frame

namespace LeafNodeWriter

def setNodeType (w : Frame) : Frame := w.modify LeafNodeCodec.setNodeType

def insertKeyValue (w : Frame) (key value : Bytes) : Option (Bool × Frame) :=
  w.tryModify (LeafNodeCodec.insertElement · key value)

def findValue (w : Frame) (key : Bytes) : Option (Option Bytes) := LeafNodeCodec.findValue w.data key

def deleteKeyValue (w : Frame) (key : Bytes) : Option (Bool × Frame) :=
  w.tryModify (LeafNodeCodec.deleteElement · key)

def setValue (w : Frame) (key value : Bytes) : Option (Bool × Frame) :=
  w.tryModify fun page => (LeafNodeCodec.setValue page key value).map (true, ·)

def setLSN (w : Frame) (lsn : UInt64) : Frame := w.modify (LeafNodeCodec.setLSN · lsn)

def setNextLeafNodePageId (w : Frame) (id : UInt64) : Frame :=
  w.modify (LeafNodeCodec.setNextLeafNodePageId · id)

def encodeAllElements (w : Frame) : Option (Nat × Bytes) := LeafNodeCodec.encodeAllElements w.data

def putAllElements (w : Frame) (entries : List (Slot × LeafNodeElement)) : Option (Unit × Frame) :=
  w.tryModify fun page => (LeafNodeCodec.putAllSlotsAndElements page entries).map ((), ·)

def findSplitIndex (w : Frame) : Option Nat := LeafNodeCodec.findSplitNodeIndex w.data

def split (w rightNode : Frame) (splitIndex : Nat) : Option (Bytes × Frame × Frame) :=
  w.split rightNode LeafNodeCodec.splitNode splitIndex

def hasEnoughSpaceToUpdateValue (w : Frame) (key oldValue newValue : Bytes) :
    Option (Bool × Frame) :=
  w.inspect (LeafNodeCodec.hasEnoughSpaceToUpdateValue · key oldValue newValue)

def hasEnoughSpaceToInsertElement (w : Frame) (key value : Bytes) : Option (Bool × Frame) :=
  w.inspect (LeafNodeCodec.hasEnoughSpaceToInsertElement · key value)

/-- The keys that go to the log. -/
def printElements (w : Frame) : Option (List Bytes) :=
  (LeafNodeCodec.getAllSlotsAndElements w.data).map fun entries => entries.map fun e => e.2.key

end LeafNodeWriter

namespace InternalNodeWriter

/-- The writer of leaf nodes sets the flag here, this one does not. -/
def setNodeType (w : Frame) : Frame := { w with data := InternalNodeCodec.setNodeType w.data }

def insertKey (w : Frame) (key : Bytes) (leftChildNodePageId rightChildNodePageId : UInt64) :
    Option (Bool × Frame) :=
  w.tryModify (InternalNodeCodec.insertElement · key leftChildNodePageId rightChildNodePageId)

def findNextChildNodePageId (w : Frame) (key : Bytes) : Option UInt64 :=
  InternalNodeCodec.findNextChildNodePageId w.data key

def deleteKey (w : Frame) (key : Bytes) : Option (Bool × Frame) :=
  w.tryModify (InternalNodeCodec.deleteElement · key)

def hasEnoughSpaceToInsertElement (w : Frame) (key : Bytes) : Option (Bool × Frame) :=
  w.inspect (InternalNodeCodec.hasEnoughSpaceToInsertElement · key)

def setLSN (w : Frame) (lsn : UInt64) : Frame := w.modify (InternalNodeCodec.setLSN · lsn)

def encodeAllElements (w : Frame) : Option (Nat × Bytes) :=
  InternalNodeCodec.encodeAllElements w.data

def putAllElements (w : Frame) (entries : List (Slot × InternalNodeElement)) :
    Option (Unit × Frame) :=
  w.tryModify fun page => (InternalNodeCodec.putAllSlotsAndElements page entries).map ((), ·)

def findSplitIndex (w : Frame) : Option Nat := InternalNodeCodec.findSplitNodeIndex w.data

def split (w rightNode : Frame) (splitIndex : Nat) : Option (Bytes × Frame × Frame) :=
  w.split rightNode InternalNodeCodec.splitNode splitIndex

def printElements (w : Frame) : Option (List Bytes) :=
  (InternalNodeCodec.getAllSlotsAndElements w.data).map fun entries => entries.map fun e => e.2.key

end InternalNodeWriter

/-! ### Calls -/

inductive LeafWriterCall where
  | getPageId
  | setNodeType
  | insertKeyValue (key value : Bytes)
  | findValue (key : Bytes)
  | deleteKeyValue (key : Bytes)
  | setValue (key value : Bytes)
  | setLSN (lsn : UInt64)
  | getLSN
  | setNextLeafNodePageId (id : UInt64)
  | getNextLeafNodePageId
  | encodeAllElements
  | putAllElements (entries : List (Slot × LeafNodeElement))
  | findSplitIndex
  | split (splitIndex : Nat)
  | hasEnoughSpaceToUpdateValue (key oldValue newValue : Bytes)
  | hasEnoughSpaceToInsertElement (key value : Bytes)
  | printElements

inductive InternalWriterCall where
  | getPageId
  | setNodeType
  | insertKey (key : Bytes) (leftChildNodePageId rightChildNodePageId : UInt64)
  | findNextChildNodePageId (key : Bytes)
  | deleteKey (key : Bytes)
  | hasEnoughSpaceToInsertElement (key : Bytes)
  | setLSN (lsn : UInt64)
  | getLSN
  | encodeAllElements
  | putAllElements (entries : List (Slot × InternalNodeElement))
  | findSplitIndex
  | split (splitIndex : Nat)
  | printElements

/-- The frames of the writer and of the right node after a call that returned. -/
def LeafWriterCall.run (w rightNode : Frame) : LeafWriterCall → Option (Frame × Frame)
  | getPageId | getLSN | getNextLeafNodePageId => some (w, rightNode)
  | setNodeType => some (LeafNodeWriter.setNodeType w, rightNode)
  | insertKeyValue key value =>
    (LeafNodeWriter.insertKeyValue w key value).map fun r => (r.2, rightNode)
  | findValue key => (LeafNodeWriter.findValue w key).map fun _ => (w, rightNode)
  | deleteKeyValue key => (LeafNodeWriter.deleteKeyValue w key).map fun r => (r.2, rightNode)
  | setValue key value => (LeafNodeWriter.setValue w key value).map fun r => (r.2, rightNode)
  | setLSN lsn => some (LeafNodeWriter.setLSN w lsn, rightNode)
  | setNextLeafNodePageId id => some (LeafNodeWriter.setNextLeafNodePageId w id, rightNode)
  | encodeAllElements => (LeafNodeWriter.encodeAllElements w).map fun _ => (w, rightNode)
  | putAllElements entries => (LeafNodeWriter.putAllElements w entries).map fun r => (r.2, rightNode)
  | findSplitIndex => (LeafNodeWriter.findSplitIndex w).map fun _ => (w, rightNode)
  | split splitIndex => (LeafNodeWriter.split w rightNode splitIndex).map Prod.snd
  | hasEnoughSpaceToUpdateValue key oldValue newValue =>
    (LeafNodeWriter.hasEnoughSpaceToUpdateValue w key oldValue newValue).map
      fun r => (r.2, rightNode)
  | hasEnoughSpaceToInsertElement key value =>
    (LeafNodeWriter.hasEnoughSpaceToInsertElement w key value).map fun r => (r.2, rightNode)
  | printElements => (LeafNodeWriter.printElements w).map fun _ => (w, rightNode)

@[inherit_doc LeafWriterCall.run]
def InternalWriterCall.run (w rightNode : Frame) : InternalWriterCall → Option (Frame × Frame)
  | getPageId | getLSN => some (w, rightNode)
  | setNodeType => some (InternalNodeWriter.setNodeType w, rightNode)
  | insertKey key leftChildNodePageId rightChildNodePageId =>
    (InternalNodeWriter.insertKey w key leftChildNodePageId rightChildNodePageId).map
      fun r => (r.2, rightNode)
  | findNextChildNodePageId key =>
    (InternalNodeWriter.findNextChildNodePageId w key).map fun _ => (w, rightNode)
  | deleteKey key => (InternalNodeWriter.deleteKey w key).map fun r => (r.2, rightNode)
  | hasEnoughSpaceToInsertElement key =>
    (InternalNodeWriter.hasEnoughSpaceToInsertElement w key).map fun r => (r.2, rightNode)
  | setLSN lsn => some (InternalNodeWriter.setLSN w lsn, rightNode)
  | encodeAllElements => (InternalNodeWriter.encodeAllElements w).map fun _ => (w, rightNode)
  | putAllElements entries =>
    (InternalNodeWriter.putAllElements w entries).map fun r => (r.2, rightNode)
  | findSplitIndex => (InternalNodeWriter.findSplitIndex w).map fun _ => (w, rightNode)
  | split splitIndex => (InternalNodeWriter.split w rightNode splitIndex).map Prod.snd
  | printElements => (InternalNodeWriter.printElements w).map fun _ => (w, rightNode)

/-- A method of one of the two writers. -/
inductive WriterCall where
  | leaf (call : LeafWriterCall)
  | internal (call : InternalWriterCall)

def WriterCall.run (w rightNode : Frame) : WriterCall → Option (Frame × Frame)
  | leaf call => call.run w rightNode
  | internal call => call.run w rightNode

/-! ### The dirty flag -/

/-- A change is flagged. -/
def Flagged (before after : Frame) : Prop := after.data ≠ before.data → after.dirty = true

/-- The next eviction of the frame leaves its content on the disk. -/
def SurvivesEviction (before after : Frame) : Prop :=
  ∀ (poolSize : Nat) (pool pool' : BufferPool poolSize) (frameId : Fin poolSize) (other : UInt64)
    (readFails : Bool), pool.frames frameId = { after with pinCount := 0 } →
    pool.disk.read before.pageId = some before.data → pool.pageTable other = none →
    frameId ∉ pool.freeFrames →
    pool.fetchExclusive other readFails .done = (.page frameId, pool') →
    pool'.disk.read before.pageId = some after.data

/-- A space check leaves the page alone: it has room, or compaction would not help, or it is
compact already. -/
def CheckKeeps {E : Type} (c : ElementCodec E) (page : Page) (required : Nat) : Prop :=
  isAdequate page required = true ∨ shouldCompact page required = false ∨
    SlottedPage.compact c page = some page

/-- When a call flags what it changes. -/
def WriterCall.Flags (page : Page) : WriterCall → Prop
  | leaf (.hasEnoughSpaceToInsertElement key value) =>
    CheckKeeps LeafNodeCodec.elementCodec page (2 + key.length + 2 + value.length)
  | leaf (.hasEnoughSpaceToUpdateValue key oldValue newValue) =>
    newValue.length ≤ oldValue.length ∨
      CheckKeeps LeafNodeCodec.elementCodec page (2 + key.length + 2 + newValue.length)
  | internal (.hasEnoughSpaceToInsertElement key) =>
    CheckKeeps InternalNodeCodec.elementCodec page (2 + key.length + 8 + 8)
  | internal .setNodeType => page.byte nodeTypeOffset = internalNodeType
  | _ => True

namespace Frame

variable {α : Type} {w rightNode w' right' : Frame}

theorem flagged_refl (w : Frame) : Flagged w w := fun changed => absurd rfl changed

theorem run_read {result : Option α}
    (returned : (result.map fun _ => (w, rightNode)) = some (w', right')) :
    w' = w ∧ right' = rightNode := by
  obtain ⟨_, _, same⟩ := Option.map_eq_some_iff.1 returned
  cases same
  exact ⟨rfl, rfl⟩

theorem run_tryModify {f : Page → Option (α × Page)}
    (returned : ((w.tryModify f).map fun r => (r.2, rightNode)) = some (w', right')) :
    w'.pageId = w.pageId ∧ w'.dirty = true ∧ right' = rightNode := by
  obtain ⟨_, modified, same⟩ := Option.map_eq_some_iff.1 returned
  obtain ⟨_, _, flagged⟩ := Option.bind_eq_some_iff.1 modified
  cases flagged
  cases same
  exact ⟨rfl, rfl, rfl⟩

theorem run_inspect {f : Page → Option (α × Page)}
    (returned : ((w.inspect f).map fun r => (r.2, rightNode)) = some (w', right')) :
    ∃ result page, f w.data = some (result, page) ∧ w' = { w with data := page } ∧
      right' = rightNode := by
  obtain ⟨_, inspected, same⟩ := Option.map_eq_some_iff.1 returned
  obtain ⟨⟨result, page⟩, found, kept⟩ := Option.bind_eq_some_iff.1 inspected
  cases kept
  cases same
  exact ⟨result, page, found, rfl, rfl⟩

theorem run_split {f : Page → Page → UInt64 → Nat → Option (Page × Page × Bytes)} {i : Nat}
    (returned : (w.split rightNode f i).map Prod.snd = some (w', right')) :
    w'.pageId = w.pageId ∧ w'.dirty = true ∧ right'.pageId = rightNode.pageId ∧
      right'.dirty = true := by
  obtain ⟨_, divided, same⟩ := Option.map_eq_some_iff.1 returned
  obtain ⟨_, _, flagged⟩ := Option.bind_eq_some_iff.1 divided
  cases flagged
  cases same
  exact ⟨rfl, rfl, rfl, rfl⟩

end Frame

/-- The page that a space check leaves behind. -/
theorem hasEnoughSpace_keeps_iff {E : Type} {c : ElementCodec E} {page page' : Page}
    {required : Nat} {answer : Bool} (done : hasEnoughSpace c page required = some (answer, page')) :
    page' = page ↔ CheckKeeps c page required := by
  rw [hasEnoughSpace] at done
  split at done
  next adequate =>
    cases done
    exact iff_of_true rfl (.inl adequate)
  next inadequate =>
    split at done
    next compacts =>
      obtain ⟨compacted, found, same⟩ := Option.bind_eq_some_iff.1 done
      cases same
      simp [CheckKeeps, inadequate, compacts, found]
    next refused =>
      cases done
      exact iff_of_true rfl (.inr (.inl (by simpa using refused)))

theorem setNodeType_eq_iff (page : Page) :
    InternalNodeCodec.setNodeType page = page ↔ page.byte nodeTypeOffset = internalNodeType := by
  constructor
  · intro same
    rw [← same]
    exact Buffer.byte_setByte_same page nodeTypeOffset _ (by decide)
  · intro already
    apply Buffer.ext_byte
    intro i _
    by_cases here : i = nodeTypeOffset
    · rw [here, already]
      exact Buffer.byte_setByte_same page nodeTypeOffset _ (by decide)
    · exact Buffer.byte_setByte_outside page nodeTypeOffset _ here

/-- What a call does to the frames: it stays on its pages, flags what it does to the right node,
and flags what it does to its own node under the condition. -/
structure WriterCall.Spec (call : WriterCall) (w rightNode w' right' : Frame) : Prop where
  pageId : w'.pageId = w.pageId
  rightPageId : right'.pageId = rightNode.pageId
  right : Flagged rightNode right'
  own : Flagged w w' ↔ call.Flags w.data

namespace WriterCall

variable {call : WriterCall} {w rightNode w' right' : Frame}

theorem Spec.of_unchanged (same : w' = w ∧ right' = rightNode) (always : call.Flags w.data) :
    call.Spec w rightNode w' right' := by
  obtain ⟨rfl, rfl⟩ := same
  exact ⟨rfl, rfl, Frame.flagged_refl _, iff_of_true (Frame.flagged_refl _) always⟩

theorem Spec.of_flagged (kept : w'.pageId = w.pageId ∧ w'.dirty = true ∧ right' = rightNode)
    (always : call.Flags w.data) : call.Spec w rightNode w' right' := by
  obtain ⟨page, flagged, rfl⟩ := kept
  exact ⟨page, rfl, Frame.flagged_refl _, iff_of_true (fun _ => flagged) always⟩

theorem Spec.of_modify (f : Page → Page) (always : call.Flags w.data) :
    call.Spec w rightNode (w.modify f) rightNode :=
  .of_flagged ⟨rfl, rfl, rfl⟩ always

theorem Spec.of_split (kept : w'.pageId = w.pageId ∧ w'.dirty = true ∧
      right'.pageId = rightNode.pageId ∧ right'.dirty = true)
    (always : call.Flags w.data) : call.Spec w rightNode w' right' := by
  obtain ⟨page, flagged, rightPage, rightFlagged⟩ := kept
  exact ⟨page, rightPage, fun _ => rightFlagged, iff_of_true (fun _ => flagged) always⟩

/-- A write without the flag: harmless exactly if it changes nothing. -/
theorem Spec.of_unflagged {page : Page} (clean : w.dirty = false)
    (same : page = w.data ↔ call.Flags w.data) :
    call.Spec w rightNode { w with data := page } rightNode := by
  refine ⟨rfl, rfl, Frame.flagged_refl _, ?_⟩
  rw [← same]
  simp [Flagged, clean]

theorem spec_check {E : Type} {c : ElementCodec E} {required : Nat} (clean : w.dirty = false)
    (returned : ((w.inspect fun page => hasEnoughSpace c page required).map
      fun r => (r.2, rightNode)) = some (w', right'))
    (condition : CheckKeeps c w.data required ↔ call.Flags w.data) :
    call.Spec w rightNode w' right' := by
  obtain ⟨_, page, done, rfl, rfl⟩ := Frame.run_inspect returned
  exact .of_unflagged clean ((hasEnoughSpace_keeps_iff done).trans condition)

theorem spec_updateCheck {key oldValue newValue : Bytes} (clean : w.dirty = false)
    (returned : (LeafWriterCall.hasEnoughSpaceToUpdateValue key oldValue newValue).run w rightNode =
      some (w', right')) :
    (leaf (.hasEnoughSpaceToUpdateValue key oldValue newValue)).Spec w rightNode w' right' := by
  obtain ⟨_, page, done, rfl, rfl⟩ := Frame.run_inspect returned
  apply Spec.of_unflagged clean
  rw [LeafNodeCodec.hasEnoughSpaceToUpdateValue] at done
  split at done
  next shorter =>
    cases done
    exact iff_of_true rfl (.inl shorter)
  next longer =>
    rw [hasEnoughSpace_keeps_iff done]
    simp [Flags, longer]

theorem spec_leaf {method : LeafWriterCall} (clean : w.dirty = false)
    (returned : method.run w rightNode = some (w', right')) :
    (leaf method).Spec w rightNode w' right' := by
  cases method with
  | getPageId | getLSN | getNextLeafNodePageId =>
    cases returned
    exact .of_unchanged ⟨rfl, rfl⟩ trivial
  | setNodeType | setLSN | setNextLeafNodePageId =>
    cases returned
    exact .of_modify _ trivial
  | insertKeyValue | deleteKeyValue | setValue | putAllElements =>
    exact .of_flagged (Frame.run_tryModify returned) trivial
  | findValue | encodeAllElements | findSplitIndex | printElements =>
    exact .of_unchanged (Frame.run_read returned) trivial
  | split => exact .of_split (Frame.run_split returned) trivial
  | hasEnoughSpaceToUpdateValue => exact spec_updateCheck clean returned
  | hasEnoughSpaceToInsertElement => exact spec_check clean returned Iff.rfl

theorem spec_internal {method : InternalWriterCall} (clean : w.dirty = false)
    (returned : method.run w rightNode = some (w', right')) :
    (internal method).Spec w rightNode w' right' := by
  cases method with
  | getPageId | getLSN =>
    cases returned
    exact .of_unchanged ⟨rfl, rfl⟩ trivial
  | setNodeType =>
    cases returned
    exact .of_unflagged clean (setNodeType_eq_iff w.data)
  | setLSN =>
    cases returned
    exact .of_modify _ trivial
  | insertKey | deleteKey | putAllElements =>
    exact .of_flagged (Frame.run_tryModify returned) trivial
  | findNextChildNodePageId | encodeAllElements | findSplitIndex | printElements =>
    exact .of_unchanged (Frame.run_read returned) trivial
  | split => exact .of_split (Frame.run_split returned) trivial
  | hasEnoughSpaceToInsertElement => exact spec_check clean returned Iff.rfl

theorem spec (clean : w.dirty = false) (returned : call.run w rightNode = some (w', right')) :
    call.Spec w rightNode w' right' := by
  cases call with
  | leaf method => exact spec_leaf clean returned
  | internal method => exact spec_internal clean returned

end WriterCall

/-! ### Evictions -/

/-- What was written back is read again. -/
theorem DiskManager.read_write {disk disk' : DiskManager} {pageId : UInt64} {old data : Page}
    (readable : disk.read pageId = some old) (done : disk.write pageId data .done = (true, disk')) :
    disk'.read pageId = some data := by
  obtain ⟨offset, found, _⟩ := Option.bind_eq_some_iff.1 readable
  have again : disk'.read pageId = disk'.file.read offset 4096 := by
    simp only [DiskManager.read, found, bind, Option.bind]
  rw [DiskManager.write, found] at done
  have file : disk'.file = disk.file.write offset (data.read 0 4096) := by
    rw [← (Prod.mk.inj done).2]
  rw [again, file]
  exact File.read_write_same _ _ _ data (by decide)

/-- The disk after the frame was evicted. -/
theorem BufferPool.evicted_read {poolSize : Nat} {pool pool' : BufferPool poolSize}
    {frameId : Fin poolSize} {other : UInt64} {readFails : Bool} {old : Page}
    (onDisk : pool.disk.read (pool.frames frameId).pageId = some old)
    (missing : pool.pageTable other = none) (used : frameId ∉ pool.freeFrames)
    (evicts : pool.fetchExclusive other readFails .done = (.page frameId, pool')) :
    pool'.disk.read (pool.frames frameId).pageId =
      some (if (pool.frames frameId).dirty then (pool.frames frameId).data else old) := by
  cases fetchExclusive_outcome evicts with
  | present found => exact absurd found (by simp [missing])
  | free _ _ _ frames _ => exact absurd (frames ▸ List.mem_cons_self) used
  | @evicted _ _ _ disk _ _ _ _ _ written _ =>
    show disk.read _ = _
    split at written
    next dirty =>
      rw [if_pos dirty]
      exact DiskManager.read_write onDisk written
    next clean =>
      rw [if_neg clean, written]
      exact onDisk

theorem survivesEviction_of_flagged {before after : Frame} (page : after.pageId = before.pageId)
    (flagged : Flagged before after) : SurvivesEviction before after := by
  intro poolSize pool pool' frameId other readFails frame onDisk missing used evicts
  have same : (pool.frames frameId).pageId = before.pageId := by rw [frame]; exact page
  rw [← same] at onDisk ⊢
  rw [BufferPool.evicted_read onDisk missing used evicts, frame]
  split
  next => rfl
  next unflagged =>
    -- without the flag the content is the one that is on the disk
    by_contra lost
    exact unflagged (flagged fun unchanged => lost (by rw [unchanged]))

/-- Exactly under the condition, a call on clean frames flags what it changes and no change is lost
by an eviction. -/
theorem writer_flags_changes_iff (call : WriterCall) (w rightNode w' right' : Frame)
    (clean : w.dirty = false) (returned : call.run w rightNode = some (w', right')) :
    ((Flagged w w' ∧ SurvivesEviction w w') ∧
      Flagged rightNode right' ∧ SurvivesEviction rightNode right') ↔ call.Flags w.data := by
  have spec := WriterCall.spec clean returned
  constructor
  · rintro ⟨⟨flagged, _⟩, _⟩
    exact spec.own.1 flagged
  · intro condition
    have flagged := spec.own.2 condition
    exact ⟨⟨flagged, survivesEviction_of_flagged spec.pageId flagged⟩, spec.right,
      survivesEviction_of_flagged spec.rightPageId spec.right⟩

theorem writer_flags_changes_of_internal_page :
    ∃ w : Frame, w.dirty = false ∧ Flagged w (InternalNodeWriter.setNodeType w) ∧
      SurvivesEviction w (InternalNodeWriter.setNodeType w) := by
  obtain ⟨page, isInternal⟩ : ∃ page : Page, page.byte nodeTypeOffset = internalNodeType :=
    ⟨_, Buffer.byte_setByte_same (Buffer.zero 4096) nodeTypeOffset _ (by decide)⟩
  exact ⟨⟨1, page, 1, false⟩, rfl, ((writer_flags_changes_iff (.internal .setNodeType)
    ⟨1, page, 1, false⟩ ⟨2, page, 1, false⟩ _ _ rfl rfl).2 isInternal).1⟩

variable {poolSize : Nat} (pool : BufferPool poolSize) in
/-- A clean victim is not written back. -/
theorem BufferPool.fetchExclusive_clean {frameId : Fin poolSize} {rest : List (Fin poolSize)}
    {pageId : UInt64} {data : Page} {result : WriteResult}
    (missing : pool.pageTable pageId = none) (read : pool.disk.read pageId = some data)
    (unlocked : pool.allocationLocked = false) (none_free : pool.freeFrames = [])
    (last : pool.replacer = rest ++ [frameId]) (clean : (pool.frames frameId).dirty = false) :
    pool.fetchExclusive pageId false result =
      (.page frameId, (pool.evict frameId rest).load frameId pageId data) := by
  have taken : LRUReplacer.victim pool.replacer = some (frameId, rest) := by
    simp [LRUReplacer.victim, last]
  simp [fetchExclusive, missing, read, unlocked, none_free, taken, clean]

/-- The redo of a created internal node on a blank page: the node type is set in a clean frame, the
guard is given back, and the next fetch takes the frame. The page on the disk is still blank. -/
theorem redone_nodeType_is_dropped :
    ∃ (w w' rightNode : Frame) (pool pool' : BufferPool 1),
      (BufferPool.new 1 (.blank 3)).fetchExclusive 1 false .done = (.page 0, pool) ∧
      pool.frames 0 = w ∧ w.dirty = false ∧
      (WriterCall.internal .setNodeType).run w rightNode = some (w', rightNode) ∧
      w'.data ≠ w.data ∧ ¬ Flagged w w' ∧
      ((pool.setFrame 0 w').unpin 0).fetchExclusive 2 false .done = (.page 0, pool') ∧
      pool'.disk.read 1 = some w.data := by
  have read₁ : (DiskManager.blank 3).read 1 = some (Buffer.zero 4096) :=
    DiskManager.blank_read (by decide) (by decide)
  have read₂ : (DiskManager.blank 3).read 2 = some (Buffer.zero 4096) :=
    DiskManager.blank_read (by decide) (by decide)
  have frames : (BufferPool.new 1 (.blank 3)).freeFrames = [0] := rfl
  obtain ⟨pool, loaded⟩ : ∃ pool, pool = ({ BufferPool.new 1 (.blank 3) with freeFrames := [] }.load
    0 1 (Buffer.zero 4096)) := ⟨_, rfl⟩
  obtain ⟨w, frame⟩ : ∃ w : Frame, w = ⟨1, Buffer.zero 4096, 1, false⟩ := ⟨_, rfl⟩
  have here : pool.frames 0 = w := by rw [loaded, frame]; simp [BufferPool.load]
  have changed : (InternalNodeWriter.setNodeType w).data ≠ w.data := by
    intro same
    have typed := (setNodeType_eq_iff w.data).1 same
    rw [frame, Buffer.byte_zero] at typed
    exact absurd typed (by decide)
  have unflagged : (InternalNodeWriter.setNodeType w).dirty = false := by rw [frame]; rfl
  obtain ⟨pool₁, given⟩ : ∃ pool₁, pool₁ =
    (pool.setFrame 0 (InternalNodeWriter.setNodeType w)).unpin 0 := ⟨_, rfl⟩
  have unpinned : pool₁.replacer = [] ++ [0] ∧ pool₁.freeFrames = [] ∧
      pool₁.allocationLocked = false ∧ pool₁.pageTable 2 = none ∧ pool₁.disk = .blank 3 ∧
      (pool₁.frames 0).dirty = false := by
    rw [given, loaded, frame]
    simp [BufferPool.unpin, BufferPool.addPin, BufferPool.setFrame, BufferPool.load, BufferPool.new,
      LRUReplacer.insert, InternalNodeWriter.setNodeType]
  obtain ⟨last, none_free, unlocked, missing, disk, clean⟩ := unpinned
  refine ⟨w, InternalNodeWriter.setNodeType w, w, pool,
    (pool₁.evict 0 []).load 0 2 (Buffer.zero 4096), ?_, here, by rw [frame], rfl, changed, ?_, ?_, ?_⟩
  · rw [loaded]
    exact BufferPool.fetchExclusive_free (BufferPool.new 1 (.blank 3)) rfl read₁ rfl frames .done
  · intro flagged
    rw [flagged changed] at unflagged
    cases unflagged
  · rw [← given]
    exact pool₁.fetchExclusive_clean missing (disk ▸ read₂) unlocked none_free last clean
  · show pool₁.disk.read 1 = _
    rw [disk, frame]
    exact read₁

end CambiumDB
