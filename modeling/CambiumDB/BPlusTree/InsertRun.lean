import CambiumDB.BPlusTree.Invariant

/-!
# What `Insert` does, step by step

For each way through `writeTraversal` that the space checks allow, the store that it
leaves, written out with the transformers of `World`, and the pages it wrote.
-/

namespace CambiumDB

open ByteBuffer HeaderConfig HeaderCodec SlotCodec SlottedPage Router TreeM

open LeafNodeCodec (LeafPage Clean InsertFits UpdateFits NoSpace Half spaceRequired)

open InternalNodeCodec (InternalPage Separators separatorSpace)

namespace World

/-- A record is appended under the next LSN. -/
@[simps!]
def logged (w : World) (nextLSN : List LogEntry → UInt64) (record : WALRecord) : World :=
  w.append (nextLSN w.log) record

/-- A page is checked, the change is logged and the page is rewritten. -/
def rewrite (w : World) (nextLSN : List LogEntry → UInt64) (id : UInt64) (checked : Page)
    (record : WALRecord) (final : Page) : World :=
  ((w.setPage id checked).logged nextLSN record).setPage id final

/-- A new page is obtained and guarded, its creation is logged and stamped on it. -/
def create (w : World) (nextLSN : List LogEntry → UInt64) (type : NodeType) : World :=
  let page := w.nextPage
  ((w.allocate.acquire page).logged nextLSN
    (.createPage w.tree.bPlusTreeId page type .fileExpansion)).setPage page
    (HeaderCodec.setLSN (w.allocate.pages page) (nextLSN w.log))

/-- A leaf gets a new right sibling. -/
def splitInto (w : World) (nextLSN : List LogEntry → UInt64) (left : UInt64) (record : WALRecord)
    (leftPage rightPage : Page) : World :=
  let right := w.nextPage
  ((((w.create nextLSN .leaf).logged nextLSN record).setPage left leftPage).setPage right
    rightPage).release right

/-- `Insert` up to the descent, on a tree that has a root. -/
def begin (w : World) (nextLSN : List LogEntry → UInt64) : World :=
  w.logged nextLSN (.beginOperation w.tree.bPlusTreeId)

def enter (w : World) (nextLSN : List LogEntry → UInt64) : World :=
  (w.begin nextLSN).acquire w.tree.rootNodePageId

/-- The end of `Insert`. -/
def finish (w : World) (nextLSN : List LogEntry → UInt64) (root : UInt64) : World :=
  (w.logged nextLSN (.commitOperation w.tree.bPlusTreeId)).release root

/-- A separator is logged and the page of an internal node is rewritten. -/
def addSeparator (w : World) (nextLSN : List LogEntry → UInt64) (id : UInt64) (separator : Bytes)
    (left right : UInt64) (page : Page) : World :=
  (w.logged nextLSN (.insertInternalNodeEntry w.tree.bPlusTreeId id separator left right)).setPage id
    page

/-- The root moves to `root`. -/
def moveRoot (w : World) (nextLSN : List LogEntry → UInt64) (root : UInt64) : World :=
  ((w.logged nextLSN (.updateRootNodePageId w.tree.bPlusTreeId root)).setMetaLSN
    (nextLSN w.log)).setRoot root

/-- The new root of a leaf root split, before the leaf is split. -/
def createNode (w : World) (nextLSN : List LogEntry → UInt64) : World :=
  (w.create nextLSN .internal).setPage w.nextPage
    (InternalNodeCodec.setNodeType ((w.create nextLSN .internal).pages w.nextPage))

/-- The first leaf of a tree. -/
def plantRoot (w : World) (nextLSN : List LogEntry → UInt64) : World :=
  let root := w.nextPage
  let created := ((w.allocate.logged nextLSN
    (.createPage w.tree.bPlusTreeId root .leaf .fileExpansion)).acquire root).setPage root
    (LeafNodeCodec.setLSN (w.allocate.pages root) (nextLSN w.log))
  let first := (created.logged nextLSN
    (.updateFirstLeafNodePageId w.tree.bPlusTreeId root)).setMetaLSN (nextLSN created.log)
  let planted := (first.logged nextLSN
    (.updateRootNodePageId w.tree.bPlusTreeId root)).setMetaLSN (nextLSN first.log)
  (planted.setFirstLeaf root).setRoot root

section
variable {w : World} {nextLSN : List LogEntry → UInt64} {left id : UInt64} {record : WALRecord}
  {leftPage rightPage : Page}

theorem create_page (alloc : w.Allocating) (type : NodeType) :
    (w.create nextLSN type).pages w.nextPage =
      HeaderCodec.setLSN (Buffer.zero 4096) (nextLSN w.log) := by
  rw [create, setPage_pages_self, alloc.allocate_nextPage]

theorem create_other (alloc : w.Allocating) (type : NodeType)
    (old : id ≤ w.metadata.maxAllocatedPageId) : (w.create nextLSN type).pages id = w.pages id := by
  rw [create, setPage_pages_ne _ (UInt64.ne_of_lt (alloc.lt_nextPage old))]
  exact alloc.allocate_pages old

theorem create_allocating (alloc : w.Allocating) (type : NodeType)
    (space : w.filePages + 16 ≤ maxFilePages) : (w.create nextLSN type).Allocating := by
  refine (alloc.allocate space).congr rfl rfl rfl ?_
  intro id later
  have apart : id ≠ w.nextPage := (UInt64.ne_of_lt later).symm
  rw [create, setPage_pages_ne _ apart]
  rfl

theorem splitInto_right :
    (w.splitInto nextLSN left record leftPage rightPage).pages w.nextPage = rightPage :=
  setPage_pages_self ..

theorem splitInto_left (apart : left ≠ w.nextPage) :
    (w.splitInto nextLSN left record leftPage rightPage).pages left = leftPage := by
  rw [splitInto, release_pages, setPage_pages_ne _ apart, setPage_pages_self]

theorem splitInto_other (alloc : w.Allocating) (old : id ≤ w.metadata.maxAllocatedPageId)
    (apart : id ≠ left) :
    (w.splitInto nextLSN left record leftPage rightPage).pages id = w.pages id := by
  have new : id ≠ w.nextPage := UInt64.ne_of_lt (alloc.lt_nextPage old)
  rw [splitInto, release_pages, setPage_pages_ne _ new, setPage_pages_ne _ apart, logged_pages,
    create, setPage_pages_ne _ new, logged_pages, acquire_pages, alloc.allocate_pages old]

theorem splitInto_faults : (w.splitInto nextLSN left record leftPage rightPage).faults = w.faults :=
  rfl

theorem splitInto_last : (w.splitInto nextLSN left record leftPage
    rightPage).metadata.maxAllocatedPageId = w.nextPage := rfl

theorem splitInto_tree : (w.splitInto nextLSN left record leftPage rightPage).tree = w.tree := rfl

theorem createNode_tree : (w.createNode nextLSN).tree = w.tree := rfl

theorem createNode_faults : (w.createNode nextLSN).faults = w.faults := rfl

theorem createNode_last : (w.createNode nextLSN).metadata.maxAllocatedPageId = w.nextPage := rfl

theorem createNode_filePages : (w.createNode nextLSN).filePages = w.allocate.filePages := rfl

theorem createNode_guards : (w.createNode nextLSN).guards = w.nextPage :: w.guards := rfl

theorem enter_tree : (w.enter nextLSN).tree = w.tree := rfl

theorem enter_faults : (w.enter nextLSN).faults = w.faults := rfl

theorem enter_nextPage : (w.enter nextLSN).nextPage = w.nextPage := rfl

theorem splitInto_guards : (w.splitInto nextLSN left record leftPage rightPage).guards = w.guards :=
  List.erase_cons_head ..

theorem splitInto_allocating (alloc : w.Allocating) (space : w.filePages + 16 ≤ maxFilePages)
    (old : left ≤ w.metadata.maxAllocatedPageId) :
    (w.splitInto nextLSN left record leftPage rightPage).Allocating := by
  refine (alloc.allocate space).congr rfl rfl rfl ?_
  intro id later
  have new : id ≠ w.nextPage := (UInt64.ne_of_lt later).symm
  have apart : id ≠ left :=
    (UInt64.ne_of_lt (UInt64.lt_trans (alloc.lt_nextPage old) later)).symm
  rw [splitInto, release_pages, setPage_pages_ne _ new, setPage_pages_ne _ apart, logged_pages,
    create, setPage_pages_ne _ new, logged_pages, acquire_pages]

end

end World

namespace BPlusTree

variable (nextLSN : List LogEntry → UInt64) {w : World} {id : UInt64} {key value : Bytes}
  {pairs : List LeafNodeElement}

/-- A leaf page that an operation wrote last: its pairs, its LSN and its right neighbour. -/
structure Written (page : Page) (pairs : List LeafNodeElement) (lsn next : UInt64) : Prop where
  leaf : LeafPage page pairs
  lsn : getLSN page = lsn
  next : getNextLeafNodePageId page = next

theorem getLSN_stamp (page : Page) (lsn : UInt64) :
    getLSN (LeafNodeCodec.setLSN page lsn) = lsn := getLSN_setLSN page lsn

theorem getNext_setLSN (page : Page) (lsn : UInt64) :
    getNextLeafNodePageId (LeafNodeCodec.setLSN page lsn) = getNextLeafNodePageId page :=
  getNext_congr fun _ _ upper => byte_setLSN _ _ (by omega)

theorem writeLeaf_update (faults : ∀ n, w.faults n = false) (leaf : LeafPage (w.pages id) pairs)
    {e : LeafNodeElement} (found : SortedList.lookup LeafNodeElement.key key pairs = some e)
    (fits : UpdateFits (w.pages id) key e.value value) :
    ∃ checked final, writeLeaf nextLSN id key value w = (.ok none, w.rewrite nextLSN id checked
        (.updateLeafNodeEntry w.tree.bPlusTreeId id key value) final) ∧
      Written final (SortedList.modify LeafNodeElement.key key (fun x => ⟨x.key, value⟩) pairs)
        (nextLSN w.log) (getNextLeafNodePageId (w.pages id)) := by
  obtain ⟨checked, answer, leaf₁, takes, keeps₁⟩ := leaf.check_update fits
  obtain ⟨final, done, leaf₂, keeps₂⟩ := (leaf₁.setLSN (nextLSN w.log)).setValue found
    (leaf₁.takesUpdate_setLSN takes (nextLSN w.log))
  have look : LeafNodeCodec.findValue (w.pages id) key = some (some e.value) := by
    rw [leaf.findValue, found, Option.map_some]
  refine ⟨checked, final, ?_, leaf₂, ?_, ?_⟩
  · rw [writeLeaf, bind_ok (get_apply _ w), bind_ok (get_apply _ w), look,
      bind_ok (orPanic_some _ w)]
    simp only
    rw [bind_ok (applyPage_ok answer), if_pos rfl,
      bind_ok (logRecord_ok (w := w.setPage id checked) (faults _)),
      bind_ok (modifyPage_apply _ _ _), World.append_pages, World.setPage_pages_self,
      bind_ok (applyPage_setPage (a := ()) ?_)]
    · rfl
    · simp only [World.setPage_log, done, Option.map_some]
  · rw [keeps₂.getLSN, getLSN_stamp]
  · rw [keeps₂.getNext, getNext_setLSN, keeps₁.getNext]

/-- Once the check says yes to a new key the record is logged, and what `InsertElement` leaves
stays, whether it took the entry or not. -/
theorem writeLeaf_checked (faults : ∀ n, w.faults n = false)
    (look : LeafNodeCodec.findValue (w.pages id) key = some none) {checked final : Page}
    {taken : Bool} (answer : LeafNodeCodec.hasEnoughSpaceToInsertElement (w.pages id) key value =
      some (true, checked))
    (done : LeafNodeCodec.insertElement (LeafNodeCodec.setLSN checked (nextLSN w.log)) key value =
      some (taken, final)) :
    writeLeaf nextLSN id key value w = (.ok none, w.rewrite nextLSN id checked
      (.insertLeafNodeEntry w.tree.bPlusTreeId id key value) final) := by
  rw [writeLeaf, bind_ok (get_apply _ w), bind_ok (get_apply _ w), look, bind_ok (orPanic_some _ w)]
  simp only
  rw [bind_ok (applyPage_ok answer), if_pos rfl,
    bind_ok (logRecord_ok (w := w.setPage id checked) (faults _)),
    bind_ok (modifyPage_apply _ _ _), World.append_pages, World.setPage_pages_self,
    bind_ok (applyPage_setPage (a := taken) done)]
  rfl

theorem writeLeaf_insert (faults : ∀ n, w.faults n = false) (leaf : LeafPage (w.pages id) pairs)
    (absent : SortedList.lookup LeafNodeElement.key key pairs = none)
    (fits : InsertFits (w.pages id) key value) :
    ∃ checked final, writeLeaf nextLSN id key value w = (.ok none, w.rewrite nextLSN id checked
        (.insertLeafNodeEntry w.tree.bPlusTreeId id key value) final) ∧
      Written final (SortedList.insert LeafNodeElement.key ⟨key, value⟩ pairs)
        (nextLSN w.log) (getNextLeafNodePageId (w.pages id)) ∧
      (Clean (w.pages id) pairs → spaceRequired key value + slotSize ≤
          packedSpace LeafNodeCodec.elementCodec pairs →
        Clean final (SortedList.insert LeafNodeElement.key ⟨key, value⟩ pairs)) := by
  obtain ⟨checked, answer, leaf₁, takes, keeps₁⟩ := leaf.check_insert fits
  obtain ⟨final, done, leaf₂, keeps₂⟩ := (leaf₁.setLSN (nextLSN w.log)).insertElement
    (leaf₁.takesInsert_setLSN takes (nextLSN w.log)) absent
  have look : LeafNodeCodec.findValue (w.pages id) key = some none := by
    rw [leaf.findValue, absent, Option.map_none]
  refine ⟨checked, final, writeLeaf_checked nextLSN faults look answer done, ⟨leaf₂, ?_, ?_⟩, ?_⟩
  · rw [keeps₂.getLSN, getLSN_stamp]
  · rw [keeps₂.getNext, getNext_setLSN, keeps₁.getNext]
  · intro clean room
    -- a clean page with room is not compacted by the check
    have fits' : spaceRequired key value ≤ LeafNodeCodec.freeSpace (w.pages id) := by
      rw [clean.free]
      omega
    obtain rfl : w.pages id = checked := by
      simpa using (leaf.check_adequate fits').symm.trans answer
    exact (clean.setLSN _).insertElement absent room done

/-- The check says yes to an entry whose slot has no room: the record is logged and the
pairs stay as they were. -/
theorem writeLeaf_refused (faults : ∀ n, w.faults n = false) (leaf : LeafPage (w.pages id) pairs)
    (absent : SortedList.lookup LeafNodeElement.key key pairs = none)
    (fits : spaceRequired key value ≤ LeafNodeCodec.freeSpace (w.pages id))
    (full : LeafNodeCodec.freeSpace (w.pages id) < spaceRequired key value + slotSize)
    (few : (decodePageHeader (w.pages id)).garbageSize < spaceRequired key value + slotSize) :
    ∃ final, writeLeaf nextLSN id key value w = (.ok none, w.rewrite nextLSN id (w.pages id)
        (.insertLeafNodeEntry w.tree.bPlusTreeId id key value) final) ∧ LeafPage final pairs := by
  obtain ⟨free, garbage, _⟩ := leaf.sizes_setLSN (nextLSN w.log)
  rw [← free] at full
  rw [← garbage] at few
  obtain ⟨final, done, leaf'⟩ :=
    (leaf.setLSN (nextLSN w.log)).insertElement_refused (free.symm ▸ fits) full few
  have look : LeafNodeCodec.findValue (w.pages id) key = some none := by
    rw [leaf.findValue, absent, Option.map_none]
  exact ⟨final, writeLeaf_checked nextLSN faults look (leaf.check_adequate fits) done, leaf'⟩

/-- A new key to which the check says no goes on to a split. -/
theorem writeLeaf_unchecked (look : LeafNodeCodec.findValue (w.pages id) key = some none)
    (refused : LeafNodeCodec.hasEnoughSpaceToInsertElement (w.pages id) key value =
      some (false, w.pages id)) :
    writeLeaf nextLSN id key value w = splitLeaf nextLSN id key value w := by
  have same : w.setPage id (w.pages id) = w := w.setPage_same id
  rw [writeLeaf, bind_ok (get_apply _ w), bind_ok (get_apply _ w), look, bind_ok (orPanic_some _ w)]
  simp only
  rw [bind_ok (applyPage_ok refused), if_neg (by decide), same]

/-- A leaf without room for a new key goes on to a split. -/
theorem writeLeaf_full (leaf : LeafPage (w.pages id) pairs)
    (absent : SortedList.lookup LeafNodeElement.key key pairs = none)
    (full : NoSpace (w.pages id) key value) :
    writeLeaf nextLSN id key value w = splitLeaf nextLSN id key value w := by
  have look : LeafNodeCodec.findValue (w.pages id) key = some none := by
    rw [leaf.findValue, absent, Option.map_none]
  exact writeLeaf_unchecked nextLSN look (leaf.check_full full)

/-- So does a leaf without room for a longer value, although the key stays in it. -/
theorem writeLeaf_updateFull (leaf : LeafPage (w.pages id) pairs) {e : LeafNodeElement}
    (found : SortedList.lookup LeafNodeElement.key key pairs = some e)
    (longer : e.value.length < value.length) (full : NoSpace (w.pages id) key value) :
    writeLeaf nextLSN id key value w = splitLeaf nextLSN id key value w := by
  have look : LeafNodeCodec.findValue (w.pages id) key = some (some e.value) := by
    rw [leaf.findValue, found, Option.map_some]
  have refused : LeafNodeCodec.hasEnoughSpaceToUpdateValue (w.pages id) key e.value value =
      some (false, w.pages id) := by
    rw [LeafNodeCodec.hasEnoughSpaceToUpdateValue, if_neg (not_le.mpr longer), leaf.check_full full]
  have same : w.setPage id (w.pages id) = w := w.setPage_same id
  rw [writeLeaf, bind_ok (get_apply _ w), bind_ok (get_apply _ w), look, bind_ok (orPanic_some _ w)]
  simp only
  rw [bind_ok (applyPage_ok refused), if_neg (by decide), same]

theorem writeLeaf_childSplit (leaf : LeafPage (w.pages id) pairs)
    (absent : SortedList.lookup LeafNodeElement.key key pairs = none)
    (full : NoSpace (w.pages id) key value) (child : w.tree.rootNodePageId ≠ id) {w' : World}
    {result : Bytes × UInt64 × UInt64}
    (run : handleLeafNodeSplit nextLSN id key value w = (.ok result, w')) :
    writeLeaf nextLSN id key value w = (.ok (some result), w') := by
  rw [writeLeaf_full nextLSN leaf absent full, splitLeaf, bind_ok (get_apply _ w), if_neg child,
    bind_ok run]
  rfl

/-! ### Leaf splits -/

/-- The pairs left and right of a split at `i`, after the new entry went to its side. -/
def leftPairs (pairs : List LeafNodeElement) (i : Nat) (separator key value : Bytes) :
    List LeafNodeElement :=
  if key < separator then SortedList.insert LeafNodeElement.key ⟨key, value⟩ (pairs.take i)
  else pairs.take i

def rightPairs (pairs : List LeafNodeElement) (i : Nat) (separator key value : Bytes) :
    List LeafNodeElement :=
  if key < separator then pairs.drop i
  else SortedList.insert LeafNodeElement.key ⟨key, value⟩ (pairs.drop i)

/-- Where the code would cut the leaf, and that the half which the key belongs to then has
room for the entry. -/
structure SplitAt (page : Page) (pairs : List LeafNodeElement) (key value : Bytes) (i : Nat)
    (m : LeafNodeElement) : Prop where
  index : LeafNodeCodec.findSplitNodeIndex page = some i
  middle : pairs[i]? = some m
  absent : SortedList.lookup LeafNodeElement.key key pairs = none
  room : spaceRequired key value + slotSize ≤ packedSpace LeafNodeCodec.elementCodec
    (if key < m.key then pairs.take i else pairs.drop i)

theorem Half.insertElement {page : Page} {lsn next : UInt64} (half : Half page pairs lsn next)
    (absent : SortedList.lookup LeafNodeElement.key key pairs = none)
    (room : spaceRequired key value + slotSize ≤ packedSpace LeafNodeCodec.elementCodec pairs) :
    ∃ page', LeafNodeCodec.insertElement page key value = some (true, page') ∧
      Written page' (SortedList.insert LeafNodeElement.key ⟨key, value⟩ pairs) lsn next ∧
      (Clean page pairs →
        Clean page' (SortedList.insert LeafNodeElement.key ⟨key, value⟩ pairs)) := by
  obtain ⟨page', done, leaf, keeps⟩ :=
    half.leaf.insertElement (.inl (half.free.symm ▸ room)) absent
  exact ⟨page', done, ⟨leaf, keeps.getLSN.trans half.lsn, keeps.getNext.trans half.next⟩,
    fun clean => clean.insertElement absent room done⟩

theorem Half.written {page : Page} {lsn next : UInt64} (half : Half page pairs lsn next) :
    Written page pairs lsn next :=
  ⟨half.leaf, half.lsn, half.next⟩

/-- The two pages that a split writes, with the new entry in its half. -/
theorem SplitAt.splitNode {page right : Page} (leaf : LeafPage page pairs)
    (type : right.byte nodeTypeOffset = leafNodeType) (rightId : UInt64) {page' : Page} {i : Nat}
    {m : LeafNodeElement} (split : SplitAt page' pairs key value i m) :
    ∃ left₀ right₀ left₁ right₁,
      LeafNodeCodec.splitNode page right rightId i = some (left₀, right₀, m.key) ∧
      (if key < m.key then LeafNodeCodec.insertElement left₀ key value = some (true, left₁) ∧
          right₁ = right₀
        else LeafNodeCodec.insertElement right₀ key value = some (true, right₁) ∧ left₁ = left₀) ∧
      Written left₁ (leftPairs pairs i m.key key value) (getLSN page) rightId ∧
      Written right₁ (rightPairs pairs i m.key key value) (getLSN right)
        (getNextLeafNodePageId page) ∧
      (Clean page pairs → Clean left₁ (leftPairs pairs i m.key key value) ∧
        Clean right₁ (rightPairs pairs i m.key key value)) := by
  obtain ⟨left₀, right₀, done, leftHalf, rightHalf, halves⟩ := leaf.splitNode type rightId split.middle
  have missing := (SortedList.lookup_eq_none_iff LeafNodeElement.key key pairs).mp split.absent
  have room := split.room
  by_cases less : key < m.key
  · rw [if_pos less] at room
    have absent : SortedList.lookup LeafNodeElement.key key (pairs.take i) = none :=
      (SortedList.lookup_eq_none_iff ..).mpr fun e he => missing e (List.mem_of_mem_take he)
    obtain ⟨left₁, inserted, written, clean⟩ := Half.insertElement leftHalf absent room
    refine ⟨left₀, right₀, left₁, right₀, done, ?_, ?_⟩
    · rw [if_pos less]
      exact ⟨inserted, rfl⟩
    · rw [leftPairs, if_pos less, rightPairs, if_pos less]
      exact ⟨written, Half.written rightHalf,
        fun whole => ⟨clean (halves whole).1, (halves whole).2⟩⟩
  · rw [if_neg less] at room
    have absent : SortedList.lookup LeafNodeElement.key key (pairs.drop i) = none :=
      (SortedList.lookup_eq_none_iff ..).mpr fun e he => missing e (List.mem_of_mem_drop he)
    obtain ⟨right₁, inserted, written, clean⟩ := Half.insertElement rightHalf absent room
    refine ⟨left₀, right₀, left₀, right₁, done, ?_, ?_⟩
    · rw [if_neg less]
      exact ⟨inserted, rfl⟩
    · rw [leftPairs, if_neg less, rightPairs, if_neg less]
      exact ⟨Half.written leftHalf, written,
        fun whole => ⟨(halves whole).1, clean (halves whole).2⟩⟩

def splitRecord (w : World) (left : UInt64) (i : Nat) (key value : Bytes)
    (pairs : List LeafNodeElement) : WALRecord :=
  .splitLeafNode w.tree.bPlusTreeId left w.nextPage (i % 65536)
    (LeafNodeCodec.getNextLeafNodePageId (w.pages left)) key value (pairs.length % 65536)
    (LeafNodeCodec.encodedPairs pairs)

/-- The LSN of the record after the one that creates a page. -/
def splitLSN (nextLSN : List LogEntry → UInt64) (w : World) : UInt64 :=
  nextLSN (w.log ++ [⟨nextLSN w.log,
    .createPage w.tree.bPlusTreeId w.nextPage .leaf .fileExpansion⟩])

/-- The part of a leaf split that follows the creation of the right page. -/
theorem moveToRightLeaf_run (faults : ∀ n, w.faults n = false) {left right : UInt64}
    (apart : left ≠ right) {lsn : UInt64} {fresh : Page}
    (leaf : LeafPage (w.pages left) pairs) (new : w.pages right = fresh) {i : Nat}
    {left₀ right₀ left₁ right₁ : Page} {separator : Bytes} {answer : Bool}
    (lsnEq : nextLSN w.log = lsn)
    (index : LeafNodeCodec.findSplitNodeIndex (w.pages left) = some i)
    (cut : LeafNodeCodec.splitNode (LeafNodeCodec.setLSN (w.pages left) lsn)
      (LeafNodeCodec.setLSN fresh lsn) right i = some (left₀, right₀, separator))
    (inserted : if key < separator then
        LeafNodeCodec.insertElement left₀ key value = some (answer, left₁) ∧ right₁ = right₀
      else LeafNodeCodec.insertElement right₀ key value = some (answer, right₁) ∧ left₁ = left₀) :
    moveToRightLeaf nextLSN left right key value w =
      (.ok (separator, left, right), ((w.logged nextLSN (.splitLeafNode w.tree.bPlusTreeId left
        right (i % 65536) (LeafNodeCodec.getNextLeafNodePageId (w.pages left)) key value
        (pairs.length % 65536) (LeafNodeCodec.encodedPairs pairs))).setPage left left₁).setPage
          right right₁) := by
  subst new lsnEq
  rw [moveToRightLeaf, bind_ok (get_apply _ _), bind_ok (get_apply _ _), index,
    bind_ok (orPanic_some _ _), leaf.encodeAllElements, bind_ok (orPanic_some _ _)]
  simp only
  rw [bind_ok (logRecord_ok (faults _)), bind_ok (modifyPage_apply _ _ _),
    bind_ok (modifyPage_apply _ _ _), bind_ok (get_apply _ _), bind_ok (get_apply _ _)]
  rw [World.setPage_pages_self, World.setPage_pages_ne _ apart,
    World.setPage_pages_ne _ apart.symm, World.setPage_pages_self, World.append_pages,
    World.append_pages, cut,
    bind_ok (orPanic_some _ _)]
  simp only
  rw [bind_ok (modifyPage_apply _ _ _), bind_ok (modifyPage_apply _ _ _), World.setPage_setPage,
    World.setPage_comm _ apart.symm, World.setPage_setPage]
  by_cases less : key < separator
  · rw [if_pos less] at inserted
    obtain ⟨done, rfl⟩ := inserted
    rw [if_pos ((compareBytes_eq_lt _ _).mpr less), World.setPage_comm _ apart,
      bind_ok (applyPage_setPage done), World.setPage_comm _ apart.symm]
    rfl
  · rw [if_neg less] at inserted
    obtain ⟨done, rfl⟩ := inserted
    rw [if_neg (fun lt => less ((compareBytes_eq_lt _ _).mp lt)), bind_ok (applyPage_setPage done)]
    rfl

/-- The pages that a split of `left` starts from, both stamped, and the pages it ends with:
the cut, and the half that took the entry. -/
structure SplitPages (w : World) (left : UInt64) (key value : Bytes) (i : Nat) (separator : Bytes)
    (leftPage rightPage : Page) : Prop where
  index : LeafNodeCodec.findSplitNodeIndex (w.pages left) = some i
  cut : ∃ left₀ right₀, LeafNodeCodec.splitNode
      (LeafNodeCodec.setLSN (w.pages left) (splitLSN nextLSN w))
      (LeafNodeCodec.setLSN (LeafNodeCodec.setLSN (Buffer.zero 4096) (nextLSN w.log))
        (splitLSN nextLSN w)) w.nextPage i = some (left₀, right₀, separator) ∧
    if key < separator then
      LeafNodeCodec.insertElement left₀ key value = some (true, leftPage) ∧ rightPage = right₀
    else LeafNodeCodec.insertElement right₀ key value = some (true, rightPage) ∧ leftPage = left₀

/-- The start of a leaf split, when every call succeeds. -/
theorem handleLeafNodeSplit_created (faults : ∀ n, w.faults n = false) (alloc : w.Allocating)
    (space : w.filePages + 16 ≤ maxFilePages) (free : w.nextPage ∉ w.guards) {left : UInt64}
    {result : Bytes × UInt64 × UInt64} {w' : World}
    (moved : moveToRightLeaf nextLSN left w.nextPage key value (w.create nextLSN .leaf) =
      (.ok result, w')) :
    handleLeafNodeSplit nextLSN left key value w = (.ok result, w'.release w.nextPage) := by
  rw [handleLeafNodeSplit, bind_ok (get_apply _ w), bind_ok (newPage_ok alloc (faults _) space)]
  simp only
  rw [bind_ok (newGuardOrCleanup_ok (w := w.allocate) (faults _) alloc.nextPage_inside free)]
  apply deferDone_ok
  rw [bind_ok (logRecord_ok (w := w.allocate.acquire w.nextPage) (faults _)),
    bind_ok (modifyPage_apply _ _ _)]
  exact moved

theorem handleLeafNodeSplit_pages (faults : ∀ n, w.faults n = false) (alloc : w.Allocating)
    (space : w.filePages + 16 ≤ maxFilePages) (free : w.nextPage ∉ w.guards) {left : UInt64}
    (old : left ≤ w.metadata.maxAllocatedPageId) (leaf : LeafPage (w.pages left) pairs) {i : Nat}
    {separator : Bytes} {leftPage rightPage : Page}
    (done : SplitPages nextLSN w left key value i separator leftPage rightPage) :
    handleLeafNodeSplit nextLSN left key value w = (.ok (separator, left, w.nextPage),
      w.splitInto nextLSN left (splitRecord w left i key value pairs) leftPage rightPage) := by
  have apart : left ≠ w.nextPage := UInt64.ne_of_lt (alloc.lt_nextPage old)
  have fresh : (w.create nextLSN .leaf).pages w.nextPage =
      LeafNodeCodec.setLSN (Buffer.zero 4096) (nextLSN w.log) := World.create_page alloc .leaf
  have same : (w.create nextLSN .leaf).pages left = w.pages left := World.create_other alloc .leaf old
  obtain ⟨index, left₀, right₀, cut, inserted⟩ := done
  have moved := moveToRightLeaf_run nextLSN (w := w.create nextLSN .leaf) faults apart
    (same.symm ▸ leaf) fresh rfl (same.symm ▸ index) (same.symm ▸ cut) inserted
  rw [same] at moved
  exact handleLeafNodeSplit_created nextLSN faults alloc space free moved

theorem SplitAt.pages {left : UInt64} (leaf : LeafPage (w.pages left) pairs) {i : Nat}
    {m : LeafNodeElement} (split : SplitAt (w.pages left) pairs key value i m) :
    ∃ leftPage rightPage, SplitPages nextLSN w left key value i m.key leftPage rightPage ∧
      Written leftPage (leftPairs pairs i m.key key value) (splitLSN nextLSN w) w.nextPage ∧
      Written rightPage (rightPairs pairs i m.key key value) (splitLSN nextLSN w)
        (getNextLeafNodePageId (w.pages left)) ∧
      (Clean (w.pages left) pairs → Clean leftPage (leftPairs pairs i m.key key value) ∧
        Clean rightPage (rightPairs pairs i m.key key value)) := by
  have type := ((LeafNodeCodec.leafPage_zero.setLSN (nextLSN w.log)).setLSN (splitLSN nextLSN w)).type
  obtain ⟨left₀, right₀, left₁, right₁, cut, inserted, writtenLeft, writtenRight, clean⟩ :=
    SplitAt.splitNode (leaf.setLSN (splitLSN nextLSN w)) type w.nextPage split
  rw [getLSN_stamp, getNext_setLSN] at writtenRight
  rw [getLSN_stamp] at writtenLeft
  exact ⟨left₁, right₁, ⟨split.index, left₀, right₀, cut, inserted⟩, writtenLeft, writtenRight,
    fun whole => clean (whole.setLSN _)⟩

/-! ### Internal nodes and roots -/

theorem createNode_page (alloc : w.Allocating) : (w.createNode nextLSN).pages w.nextPage =
    InternalNodeCodec.setNodeType (InternalNodeCodec.setLSN (Buffer.zero 4096) (nextLSN w.log)) := by
  rw [World.createNode, World.setPage_pages_self, World.create_page alloc]
  rfl

theorem createNode_other (alloc : w.Allocating) (old : id ≤ w.metadata.maxAllocatedPageId) :
    (w.createNode nextLSN).pages id = w.pages id := by
  rw [World.createNode, World.setPage_pages_ne _ (UInt64.ne_of_lt (alloc.lt_nextPage old)),
    World.create_other alloc .internal old]

theorem createNode_allocating (alloc : w.Allocating) (space : w.filePages + 16 ≤ maxFilePages) :
    (w.createNode nextLSN).Allocating := by
  refine (alloc.allocate space).congr rfl rfl rfl ?_
  intro id later
  have apart : id ≠ w.nextPage := (UInt64.ne_of_lt later).symm
  rw [World.createNode, World.setPage_pages_ne _ apart, World.create,
    World.setPage_pages_ne _ apart]
  rfl

/-- The separator of a root split is the only one of the new root, whose type stays as it is. -/
theorem installRoot_run (faults : ∀ n, w.faults n = false) {left : UInt64} (right : UInt64)
    {separator : Bytes} (new : Separators (w.pages id) left [])
    (room : separatorSpace separator ≤ 4064) :
    ∃ rootPage, installRoot nextLSN id separator left right w = (.ok (),
        (w.addSeparator nextLSN id separator left right rootPage).moveRoot nextLSN id) ∧
      Separators rootPage left [(separator, right)] ∧
      rootPage.byte nodeTypeOffset = (w.pages id).byte nodeTypeOffset ∧
      getLSN rootPage = nextLSN w.log := by
  have free := (new.setLSN (nextLSN w.log)).space
  have room' : separatorSpace separator ≤
      LeafNodeCodec.freeSpace (InternalNodeCodec.setLSN (w.pages id) (nextLSN w.log)) := by
    simp only [List.map_nil, List.sum_nil, headerSize] at free
    omega
  obtain ⟨rootPage, done, root, keeps⟩ := (new.setLSN (nextLSN w.log)).insertElement [] []
    right (by simp) (by simp) room'
  refine ⟨rootPage, ?_, root, ?_, ?_⟩
  · rw [installRoot, bind_ok (get_apply _ w), bind_ok (logRecord_ok (faults _)),
      bind_ok (modifyPage_apply _ _ _), World.append_pages, bind_ok (applyPage_setPage done),
      bind_ok (logRecord_ok (w := (World.append ..).setPage ..) (faults _)),
      bind_ok (modify_apply _ _)]
    rfl
  · rw [keeps.1]
    exact byte_setLSN _ _ (by decide)
  · rw [keeps.getLSN]
    exact getLSN_setLSN _ _

theorem createNode_guards (alloc : w.Allocating)
    (guarded : ∀ g ∈ w.guards, g ≤ w.metadata.maxAllocatedPageId) :
    ∀ g ∈ (w.createNode nextLSN).guards, g ≤ (w.createNode nextLSN).metadata.maxAllocatedPageId := by
  intro g member
  rcases List.mem_cons.mp member with rfl | before
  · exact UInt64.le_refl _
  · exact UInt64.le_of_lt (alloc.lt_nextPage (guarded g before))

/-- The new root and the split of the old one under it. -/
theorem handleLeafRootNodeSplit_pages (faults : ∀ n, w.faults n = false) (alloc : w.Allocating)
    (space : w.filePages + 32 ≤ maxFilePages)
    (guarded : ∀ g ∈ w.guards, g ≤ w.metadata.maxAllocatedPageId) {left : UInt64}
    (old : left ≤ w.metadata.maxAllocatedPageId) (leaf : LeafPage (w.pages left) pairs) {i : Nat}
    {separator : Bytes} {leftPage rightPage : Page} (room : separatorSpace separator ≤ 4064) :
    let root := w.nextPage
    let w₁ := w.createNode nextLSN
    let w₂ := w₁.splitInto nextLSN left (splitRecord w₁ left i key value pairs) leftPage rightPage
    SplitPages nextLSN w₁ left key value i separator leftPage rightPage →
    ∃ rootPage, handleLeafRootNodeSplit nextLSN left key value w = (.ok (),
        ((w₂.addSeparator nextLSN root separator left w₁.nextPage rootPage).moveRoot nextLSN
          root).release root) ∧
      InternalPage rootPage left [(separator, w₁.nextPage)] ∧ getLSN rootPage = nextLSN w₂.log := by
  intro root w₁ w₂ done
  have free : w.nextPage ∉ w.guards := alloc.nextPage_notMem guarded
  have same : w₁.pages left = w.pages left := createNode_other nextLSN alloc old
  have alloc₁ : w₁.Allocating := createNode_allocating nextLSN alloc (by omega)
  have space₁ : w₁.filePages + 16 ≤ maxFilePages := by
    have grown := w.allocate_filePages_le
    exact (Nat.add_le_add_right grown 16).trans space
  have free₁ : w₁.nextPage ∉ w₁.guards :=
    alloc₁.nextPage_notMem (createNode_guards nextLSN alloc guarded)
  have run := handleLeafNodeSplit_pages nextLSN (w := w₁) faults alloc₁ space₁ free₁
    (UInt64.le_of_lt (alloc.lt_nextPage old)) (same.symm ▸ leaf) done
  have rootNew : w₂.pages root = InternalNodeCodec.setNodeType
      (InternalNodeCodec.setLSN (Buffer.zero 4096) (nextLSN w.log)) := by
    have apart : root ≠ left := (UInt64.ne_of_lt (alloc.lt_nextPage old)).symm
    have kept : w₂.pages root = w₁.pages root :=
      World.splitInto_other alloc₁ (UInt64.le_refl _) apart
    rw [kept]
    exact createNode_page nextLSN alloc
  have new := (InternalNodeCodec.internalPage_new (nextLSN w.log) left).1
  rw [← rootNew] at new
  obtain ⟨rootPage, installed, separators, type, stamp⟩ := installRoot_run nextLSN (w := w₂) faults
    w₁.nextPage new.toSeparators room
  refine ⟨rootPage, ?_, ⟨separators, type.trans new.type⟩, stamp⟩
  rw [handleLeafRootNodeSplit, bind_ok (get_apply _ w),
    bind_ok (newPage_ok alloc (faults _) (by omega))]
  simp only
  rw [bind_ok (newGuardOrCleanup_ok (w := w.allocate) (faults _) alloc.nextPage_inside free)]
  apply deferDone_ok
  rw [bind_ok (logRecord_ok (w := w.allocate.acquire w.nextPage) (faults _)),
    bind_ok (modifyPage_apply _ _ _), bind_ok (modifyPage_apply _ _ _)]
  refine (bind_ok run).trans ?_
  exact installed

/-- An internal node with room takes the separator of its child. -/
theorem writeSeparator_run (faults : ∀ n, w.faults n = false) (parent : Option UInt64)
    {first : UInt64} (right : UInt64) {before after : List (Bytes × UInt64)} {separator : Bytes}
    (node : InternalPage (w.pages id) first (before ++ after))
    (below : ∀ entry ∈ before, entry.1 < separator) (above : ∀ entry ∈ after, separator < entry.1)
    (room : separatorSpace separator ≤ LeafNodeCodec.freeSpace (w.pages id)) :
    let left := route separator first (before ++ after)
    ∃ page, writeSeparator nextLSN id parent separator left right w = (.ok none,
        w.addSeparator nextLSN id separator left right page) ∧
      InternalPage page first (before ++ (separator, right) :: after) ∧
      getLSN page = nextLSN w.log := by
  intro left
  have room' : separatorSpace separator ≤
      LeafNodeCodec.freeSpace (InternalNodeCodec.setLSN (w.pages id) (nextLSN w.log)) := by
    rw [node.freeSpace_setLSN]
    exact room
  obtain ⟨page, done, node', keeps⟩ := (node.setLSN (nextLSN w.log)).insertElement before after
    right below above room'
  have same : w.setPage id (w.pages id) = w := w.setPage_same id
  refine ⟨page, ?_, node', ?_⟩
  · rw [writeSeparator, bind_ok (get_apply _ w), bind_ok (applyPage_ok (node.check room)), same,
      if_pos rfl, bind_ok (logRecord_ok (faults _)), bind_ok (modifyPage_apply _ _ _),
      World.append_pages, bind_ok (applyPage_setPage done)]
    rfl
  · rw [keeps.getLSN]
    exact getLSN_setLSN _ _

theorem createRoot_run (faults : ∀ n, w.faults n = false) (alloc : w.Allocating)
    (space : w.filePages + 16 ≤ maxFilePages) (free : w.nextPage ∉ w.guards) :
    createRoot nextLSN w = (.ok w.nextPage, w.plantRoot nextLSN) := by
  rw [createRoot, bind_ok (get_apply _ w), bind_ok (newPage_ok alloc (faults _) space)]
  simp only
  rw [bind_ok (logRecord_ok (w := w.allocate) (faults _)),
    bind_ok (newGuard_ok (w := w.allocate.append _ _) (faults _) alloc.nextPage_inside free),
    bind_ok (modifyPage_apply _ _ _), bind_ok (logRecord_ok ?_), bind_ok (modify_apply _ _),
    bind_ok (logRecord_ok ?_), bind_ok (modify_apply _ _), bind_ok (modify_apply _ _),
    bind_ok (modify_apply _ _)]
  · rfl
  · exact faults _
  · exact faults _

theorem plantRoot_page (alloc : w.Allocating) : (w.plantRoot nextLSN).pages w.nextPage =
    LeafNodeCodec.setLSN (Buffer.zero 4096) (nextLSN w.log) := by
  rw [← alloc.allocate_nextPage]
  exact Function.update_self ..

/-! ### The descent -/

theorem writeTraversal_leaf {fuel : Nat} {parent : Option UInt64}
    (leaf : LeafPage (w.pages id) pairs) :
    writeTraversal nextLSN key value (fuel + 1) id parent w = writeLeaf nextLSN id key value w := by
  have isLeaf : BPlusTree.isLeafNode id w = (.ok true, w) := by
    rw [BPlusTree.isLeafNode, get_apply, leaf.isLeafNode]
  rw [writeTraversal, bind_ok isLeaf, if_pos rfl]

section
variable {first child : UInt64} {rest : List (Bytes × UInt64)}
  (node : InternalPage (w.pages id) first rest) (nonempty : rest ≠ [])
  (sorted : (rest.map Prod.fst).Pairwise (· < ·)) (routed : route key first rest = child)
  (fault : w.faults w.calls = false) (inside : child.toNat < w.filePages) (free : child ∉ w.guards)
  (leaf : LeafPage (w.pages child) pairs)
include node nonempty sorted routed fault inside free leaf

/-- A node whose child took the entry is left as it is. -/
theorem writeTraversal_node (fuel : Nat) (parent : Option UInt64) {w' : World}
    (run : writeLeaf nextLSN child key value (w.acquire child) = (.ok none, w')) :
    writeTraversal nextLSN key value (fuel + 2) id parent w = (.ok none, w'.release child) := by
  rw [← writeTraversal_leaf (w := w.acquire _) nextLSN leaf] at run
  rw [writeTraversal, bind_ok (isLeafNode_false (node.isLeafNode nonempty)), if_neg (by decide),
    bind_ok (get_apply _ w), node.findNextChild nonempty sorted, routed,
    bind_ok (orPanic_some _ w), bind_ok (newGuard_ok fault inside free), deferDone_ok]
  rw [bind_ok run]
  rfl

/-- A node whose child was split takes the separator. -/
theorem writeTraversal_separator (fuel : Nat) (parent : Option UInt64) {w' w'' : World}
    {separator : Bytes} {left right : UInt64}
    (run : writeLeaf nextLSN child key value (w.acquire child) =
      (.ok (some (separator, left, right)), w'))
    (taken : writeSeparator nextLSN id parent separator left right w' = (.ok none, w'')) :
    writeTraversal nextLSN key value (fuel + 2) id parent w = (.ok none, w''.release child) := by
  rw [← writeTraversal_leaf (w := w.acquire _) nextLSN leaf] at run
  rw [writeTraversal, bind_ok (isLeafNode_false (node.isLeafNode nonempty)), if_neg (by decide),
    bind_ok (get_apply _ w), node.findNextChild nonempty sorted, routed,
    bind_ok (orPanic_some _ w), bind_ok (newGuard_ok fault inside free), deferDone_ok]
  rw [bind_ok run]
  exact taken

end

/-! ### Insert -/

/-- The descent from `root`, the commit record and the release of the root. -/
theorem insertLocked_run {root : UInt64} {start w' : World}
    (entered : guardRoot nextLSN w = (.ok root, start)) {result : Option (Bytes × UInt64 × UInt64)}
    (run : writeTraversal nextLSN key value (start.filePages + 1) root none start =
      (.ok result, w')) (faults : ∀ n, w'.faults n = false) :
    insertLocked nextLSN key value w = (.ok (), w'.finish nextLSN root) := by
  rw [insertLocked, bind_ok entered]
  apply deferDone_ok
  rw [bind_ok (get_apply _ start), bind_ok run, bind_ok (get_apply _ w')]
  exact logIgnored_ok (faults _)

theorem insert_existing (faults : ∀ n, w.faults n = false) (root : w.tree.rootNodePageId ≠ 0)
    (inside : w.tree.rootNodePageId.toNat < w.filePages)
    (free : w.tree.rootNodePageId ∉ w.guards) {result : Option (Bytes × UInt64 × UInt64)}
    {w' : World} (faults' : ∀ n, w'.faults n = false)
    (run : writeTraversal nextLSN key value (w.filePages + 1) w.tree.rootNodePageId none
      (w.enter nextLSN) = (.ok result, w')) :
    insert nextLSN key value w = (.ok (), w'.finish nextLSN w.tree.rootNodePageId) := by
  rw [insert, bind_ok (get_apply _ w), bind_ok (logIgnored_ok (faults _))]
  refine insertLocked_run nextLSN (w := w.begin nextLSN) ?_ run faults'
  have guard := newGuard_ok (w := w.begin nextLSN) (faults _) inside free
  have present : ¬ (w.begin nextLSN).tree.rootNodePageId = 0 := root
  rw [guardRoot, bind_ok (get_apply _ _), if_neg present]
  exact bind_ok guard

/-- A tree without a root gets a first leaf without pairs. -/
theorem plantRoot_leaf (alloc : w.Allocating) :
    LeafPage (((w.begin nextLSN).plantRoot nextLSN).pages w.nextPage) [] := by
  have alloc' : (w.begin nextLSN).Allocating := alloc.congr rfl rfl rfl fun _ _ => rfl
  have fresh := LeafNodeCodec.leafPage_zero.setLSN (nextLSN (w.begin nextLSN).log)
  rw [← plantRoot_page nextLSN alloc'] at fresh
  exact fresh

theorem plantRoot_allocating (alloc : w.Allocating) (space : w.filePages + 16 ≤ maxFilePages) :
    ((w.begin nextLSN).plantRoot nextLSN).Allocating := by
  refine (alloc.allocate space).congr rfl rfl rfl ?_
  intro id later
  have apart : id ≠ w.nextPage := (UInt64.ne_of_lt later).symm
  exact Function.update_of_ne apart ..

theorem guardRoot_first (faults : ∀ n, w.faults n = false) (root : w.tree.rootNodePageId = 0)
    (alloc : w.Allocating) (space : w.filePages + 16 ≤ maxFilePages)
    (free : w.nextPage ∉ w.guards) : guardRoot nextLSN (w.begin nextLSN) =
      (.ok w.nextPage, (w.begin nextLSN).plantRoot nextLSN) := by
  have alloc' : (w.begin nextLSN).Allocating := alloc.congr rfl rfl rfl fun _ _ => rfl
  have none : (w.begin nextLSN).tree.rootNodePageId = 0 := root
  rw [guardRoot, bind_ok (get_apply _ _), if_pos none]
  exact createRoot_run nextLSN faults alloc' space free

theorem insert_first (faults : ∀ n, w.faults n = false) (root : w.tree.rootNodePageId = 0)
    (alloc : w.Allocating) (space : w.filePages + 16 ≤ maxFilePages)
    (free : w.nextPage ∉ w.guards) {w' : World} (faults' : ∀ n, w'.faults n = false)
    {result : Option (Bytes × UInt64 × UInt64)}
    (run : writeLeaf nextLSN w.nextPage key value ((w.begin nextLSN).plantRoot nextLSN) =
      (.ok result, w')) :
    insert nextLSN key value w = (.ok (), w'.finish nextLSN w.nextPage) := by
  rw [insert, bind_ok (get_apply _ w), bind_ok (logIgnored_ok (faults _))]
  exact insertLocked_run nextLSN (w := w.begin nextLSN)
    (guardRoot_first nextLSN faults root alloc space free)
    ((writeTraversal_leaf nextLSN (plantRoot_leaf nextLSN alloc)).trans run) faults'

end BPlusTree

end CambiumDB
