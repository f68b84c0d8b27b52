import CambiumDB.Lib.Linked
import CambiumDB.Lib.Placement
import CambiumDB.PageCodec.LeafPage
import CambiumDB.PageCodec.SpaceAccounting

/-!
# The chain of leaf pages

Leaves that are split and changed page by page, without a tree above them. The separators
that the splits hand out say which leaf a key belongs to. As long as every compaction that
an operation relies on frees the room it is expected to free, the next-leaf pointers lead
through all leaves in the order of their keys.
-/

namespace CambiumDB

theorem mapM_eq_some {α β : Type} {f : α → Option β} {g : α → β} (l : List α)
    (h : ∀ x ∈ l, f x = some (g x)) : l.mapM f = some (l.map g) := by
  induction l with
  | nil => rfl
  | cons x l ih =>
    rw [List.mapM_cons, h x (by simp), ih fun y hy => h y (List.mem_cons_of_mem _ hy)]
    rfl

open ByteBuffer HeaderConfig HeaderCodec SlotCodec SlottedPage Router TransitionSystem

namespace LeafNodeCodec

/-! ### One page -/

def LeafOp.key : LeafOp → Bytes
  | .insert key _ => key
  | .setValue key _ => key
  | .delete key => key

/-- If the operation relies on a compaction, the compaction frees the room it needs. -/
def CompactionSuffices (page : Page) : LeafOp → Prop
  | .insert key value =>
    freeSpace page < spaceRequired key value + slotSize →
      spaceRequired key value + slotSize ≤ (decodePageHeader page).garbageSize →
      spaceRequired key value + slotSize ≤ packedFree page
  | .setValue key value => ∀ old, findValue page key = some (some old) →
    old.length < value.length → freeSpace page < spaceRequired key value →
      spaceRequired key value ≤ (decodePageHeader page).garbageSize →
      spaceRequired key value ≤ packedFree page
  | .delete _ => True

namespace LeafPage

variable {page page' : Page} {pairs : List LeafNodeElement} {key value : Bytes}
  (h : LeafPage page pairs)
include h

theorem updateCRC : LeafPage (updateCRC page) pairs ∧ Keeps page (HeaderCodec.updateCRC page) := by
  obtain ⟨cells, floor, garbage, repr, sorted, same⟩ := h.content
  have keeps : Keeps page (HeaderCodec.updateCRC page) :=
    Keeps.of_bytes fun i bounds => byte_updateCRC _ (by omega)
  exact ⟨⟨h.keeps_type keeps, cells, floor, garbage, repr.updateCRC, sorted, same⟩, keeps⟩

theorem lookup_none (missing : LeafNodeCodec.findValue page key = some none) :
    SortedList.lookup LeafNodeElement.key key pairs = none := by
  obtain ⟨cells, floor, garbage, repr, _, rfl⟩ := h.content
  exact (SortedList.lookup_eq_none_iff ..).mpr (absent_of_findValue repr missing)

theorem lookup_some {old : Bytes} (found : LeafNodeCodec.findValue page key = some (some old)) :
    SortedList.lookup LeafNodeElement.key key pairs = some ⟨key, old⟩ := by
  obtain ⟨cells, floor, garbage, repr, _, rfl⟩ := h.content
  exact lookup_of_findValue repr found

/-- An insert that finds no room, not even by compacting, is refused. -/
theorem insert_refused {added : Bool} (full : ¬ TakesInsert page key value)
    (suffices_ : CompactionSuffices page (.insert key value))
    (run : LeafNodeCodec.insertElement page key value = some (added, page')) :
    LeafPage page' pairs ∧ Keeps page page' := by
  rw [TakesInsert, not_or] at full
  have few : (decodePageHeader page).garbageSize < spaceRequired key value + slotSize := by
    by_contra enough
    exact full.2 ⟨not_lt.mp enough, suffices_ (not_le.mp full.1) (not_lt.mp enough)⟩
  obtain ⟨cells, floor, garbage, repr, _, _⟩ := h.content
  have refused : LeafNodeCodec.insertElement page key value =
      some (false, HeaderCodec.updateCRC page) := by
    by_cases huge : 65536 ≤ 2 + key.length + 2 + value.length + 4
    · rcases insertElement_huge repr huge with panics | refused
      · rw [panics] at run
        cases run
      · exact refused
    · have room := repr.layout.room
      rw [freeSpace_eq repr, spaceRequired, slotSize] at full
      rw [repr.shape.garbageSize, spaceRequired, slotSize] at few
      exact insertElement_full repr (by omega) (by omega) few
  rw [refused] at run
  obtain ⟨_, rfl⟩ := Prod.mk.inj (Option.some.inj run)
  exact h.updateCRC

/-- An update that the check lets through fits: without room and without garbage the check
says no, and a size past the range of `uint16` panics. -/
theorem update_fits {old : Bytes} {checked : Page}
    (suffices_ : CompactionSuffices page (.setValue key value))
    (found : LeafNodeCodec.findValue page key = some (some old))
    (check : hasEnoughSpaceToUpdateValue page key old value = some (true, checked))
    (run : LeafNodeCodec.setValue checked key value = some page') :
    UpdateFits page key old value := by
  have lookup := h.lookup_some found
  by_contra unfit
  rw [UpdateFits, TakesUpdate, not_or, not_or] at unfit
  obtain ⟨⟨longer, full⟩, nogain⟩ := unfit
  have few : (decodePageHeader page).garbageSize < spaceRequired key value := by
    by_contra enough
    exact nogain ⟨not_lt.mp enough,
      suffices_ old found (not_le.mp longer) (not_le.mp full) (not_lt.mp enough)⟩
  obtain ⟨cells, floor, garbage, repr, sorted, rfl⟩ := h.content
  have small := small_of_setValue repr sorted lookup check (not_le.mp longer) run
  have none_left : NoSpace _ key value := ⟨small, not_le.mp full, few⟩
  have refused := h.check_full none_left
  rw [hasEnoughSpaceToUpdateValue, if_neg longer, refused] at check
  cases check

end LeafPage

/-- What a step does to a leaf: the keys stay, but for the key of the operation, and so do
the header's type, next leaf and LSN. -/
theorem LeafStep.keeps_leaf {page page' : Page} {pairs : List LeafNodeElement} {op : LeafOp}
    (leaf : LeafPage page pairs) (suffices_ : CompactionSuffices page op)
    (step : LeafStep page op page') :
    ∃ pairs', LeafPage page' pairs' ∧ Keeps page page' ∧
      ∀ e ∈ pairs', e.key = op.key ∨ ∃ x ∈ pairs, x.key = e.key := by
  cases step with
  | @insert _ key value added missing run =>
    have absent := leaf.lookup_none missing
    by_cases takes : TakesInsert page key value
    · obtain ⟨result, done, leaf', keeps⟩ := leaf.insertElement takes absent
      obtain ⟨_, rfl⟩ := Prod.mk.inj (Option.some.inj (done.symm.trans run))
      refine ⟨_, leaf', keeps, fun e member => ?_⟩
      rcases (SortedList.mem_insert ..).mp member with rfl | old
      · exact .inl rfl
      · exact .inr ⟨e, old, rfl⟩
    · obtain ⟨leaf', keeps⟩ := leaf.insert_refused takes suffices_ run
      exact ⟨pairs, leaf', keeps, fun e member => .inr ⟨e, member, rfl⟩⟩
  | @setValue checked _ key old value found check run =>
    have fits := leaf.update_fits suffices_ found check run
    obtain ⟨checked', answer, leaf', takes, keeps⟩ := leaf.check_update fits
    obtain ⟨_, rfl⟩ := Prod.mk.inj (Option.some.inj (answer.symm.trans check))
    obtain ⟨result, done, leaf'', keeps'⟩ := leaf'.setValue (leaf.lookup_some found) takes
    obtain rfl := Option.some.inj (done.symm.trans run)
    refine ⟨_, leaf'', keeps.trans keeps', fun e member => .inr ?_⟩
    obtain ⟨x, held, rfl⟩ := List.mem_map.mp member
    refine ⟨x, held, ?_⟩
    split <;> rfl
  | @delete _ key removed run =>
    cases lookup : SortedList.lookup LeafNodeElement.key key pairs with
    | none =>
      rw [leaf.deleteElement_absent lookup] at run
      obtain ⟨_, rfl⟩ := Prod.mk.inj (Option.some.inj run)
      exact ⟨pairs, leaf, .refl page, fun e member => .inr ⟨e, member, rfl⟩⟩
    | some e =>
      obtain ⟨result, done, leaf', keeps⟩ := leaf.deleteElement lookup
      obtain ⟨_, rfl⟩ := Prod.mk.inj (Option.some.inj (done.symm.trans run))
      refine ⟨_, leaf', keeps, fun x member => .inr ⟨x, ?_, rfl⟩⟩
      exact ((SortedList.mem_erase ..).mp member).1

/-! ### A page that is overrun -/

theorem getNext_closed {page : Page} {numSlots freeSpaceBegin freeSpaceEnd : Nat} :
    HeaderCodec.getNextLeafNodePageId (HeaderCodec.updateCRC (setIsPageFilled (setNumSlots
      (setFreeSpaceBegin (setFreeSpaceEnd page freeSpaceEnd) freeSpaceBegin) numSlots) true)) =
      HeaderCodec.getNextLeafNodePageId page := by
  refine getNext_congr fun i lower upper => ?_
  rw [byte_updateCRC _ (by omega), setIsPageFilled,
    Buffer.byte_setByte_outside _ _ _ (by simp only [isPageFilledOffset]; omega), setNumSlots,
    Buffer.byte_putLE_outside _ _ _ _ (by simp only [numSlotsOffset]; omega), setFreeSpaceBegin,
    Buffer.byte_putLE_outside _ _ _ _ (by simp only [freeSpaceBeginOffset]; omega),
    setFreeSpaceEnd, Buffer.byte_putLE_outside _ _ _ _ (by simp only [freeSpaceEndOffset]; omega)]

theorem encodeElement_emptyKey {value : Bytes} (size : value.length = 4076) :
    encodeElement ⟨[], value⟩ = 0 :: 0 :: 236 :: 15 :: value := by
  have keyLength : leBytes 2 0 = [0, 0] := by decide
  have valueLength : leBytes 2 4076 = [236, 15] := by decide
  rw [encodeElement, size, List.length_nil, keyLength, valueLength]
  rfl

/-- The two lengths of an element that starts at the next-leaf field make it non-zero. -/
theorem getNext_overwritten (page : Page) {value : Bytes} (size : value.length = 4076) :
    HeaderCodec.getNextLeafNodePageId (page.write 16 (0 :: 0 :: 236 :: 15 :: value)) ≠ 0 := by
  obtain ⟨bytes, start⟩ : ∃ bytes, bytes = (0 :: 0 :: 236 :: 15 :: value : Bytes) := ⟨_, rfl⟩
  have length : bytes.length = 4080 := by
    rw [start]
    simp only [List.length_cons, size]
  rw [← start, HeaderCodec.getNextLeafNodePageId, Buffer.getLE]
  have stored := Buffer.read_write_same page 16 bytes (by rw [length])
  have field : (page.write 16 bytes).read nextLeafNodePageIdOffset 8 = bytes.take 8 := by
    rw [← Buffer.read_take _ 16 8 bytes.length (by omega), stored]
  have bound := leNat_lt (bytes.take 8)
  rw [field]
  intro zero
  have isZero : leNat (bytes.take 8) = 0 := by
    have small : leNat (bytes.take 8) < 2 ^ 64 :=
      lt_of_lt_of_le bound (Nat.pow_le_pow_right (by decide) (List.length_take_le 8 bytes))
    have toNat := congrArg UInt64.toNat zero
    rwa [UInt64.toNat_ofNat_of_lt' small] at toNat
  rw [start] at isZero
  simp [leNat] at isZero

/-- An element of 4080 bytes that is put into a page without entries is appended after a
compaction although it does not fit: it starts inside the header. -/
theorem insertElement_overrun {page : Page} {cells : List (Cell LeafNodeElement)}
    {floor garbage : Nat} (h : LeafRepr page cells floor garbage) (dead : live cells = [])
    (full : floor < headerSize + 4 * (cells.length + 1) + 4080) (enough : 4080 + 4 ≤ garbage)
    {value : Bytes} (size : value.length = 4076) :
    ∃ page', insertElement page [] value = some (true, page') ∧
      HeaderCodec.getNextLeafNodePageId page' ≠ 0 := by
  obtain ⟨packedPage, done, repr, _⟩ := compact_spec h
  have none : elements cells = [] := by rw [← live_map_snd, dead, List.map_nil]
  rw [dead, none] at repr
  have shape : Shape packedPage 0 4096 0 := by simpa [packed, dataSize] using repr.shape
  have start := encodeElement_emptyKey size
  have overwritten := getNext_overwritten packedPage size
  rw [← start] at overwritten
  have width : (encodeElement ⟨[], value⟩).length = 4080 := by
    rw [start]
    simp only [List.length_cons, size]
  have append : appendElement elementCodec packedPage (decodePageHeader packedPage).freeSpaceEnd
      ⟨[], value⟩ = some (packedPage.write 16 (encodeElement ⟨[], value⟩), 16) := by
    have inside : (encodeElement ⟨[], value⟩).length ≤ 4096 ∧ 4096 ≤ frameCapacity :=
      ⟨by omega, by decide⟩
    have encoded : elementCodec.encodeElement ⟨[], value⟩ = encodeElement ⟨[], value⟩ := rfl
    rw [shape.freeSpaceEnd, appendElement, encoded, if_pos inside, width]
  obtain ⟨written, writtenEq⟩ : ∃ written, written = packedPage.write 16 (encodeElement ⟨[], value⟩) :=
    ⟨_, rfl⟩
  rw [← writtenEq] at append overwritten
  have shape' : Shape written 0 4096 0 := by
    rw [writtenEq]
    exact shape.congr fun i _ upper => Buffer.byte_write_outside _ _ _ (.inl (by omega))
  have slotted (slot : Slot) : insertSlot written slot [] =
      some (written.write 32 (encodeSlot slot), 36) := by
    simp [insertSlot, shiftSlots, shape'.numSlots, scanSlots, shape'.freeSpaceBegin, appendSlots,
      appendSlot, headerSize]
  have room := h.layout.room
  have need : 2 + ([] : Bytes).length + 2 + value.length = 4080 := by
    rw [size, List.length_nil]
  have adequate : isAdequate page (2 + ([] : Bytes).length + 2 + value.length + slotSize) = false := by
    rw [h.shape.isAdequate room h.layout.top, decide_eq_false_iff_not, slotSize, need]
    omega
  have compacts : shouldCompact page (2 + ([] : Bytes).length + 2 + value.length + slotSize) = true := by
    rw [h.shape.shouldCompact, decide_eq_true_eq, slotSize, need]
    exact enough
  have run := insertElement_forced (fun page newSlot element =>
    insertSlot page newSlot element.key) adequate compacts done append (slotted _)
  refine ⟨_, run, ?_⟩
  rw [getNext_closed]
  refine ne_of_eq_of_ne (getNext_congr ?_) overwritten
  intro i _ upper
  exact Buffer.byte_write_outside _ _ _ (.inl (by omega))

/-- A value that is shrunk and then deleted is counted as garbage twice. The page is then
compacted for an element that is larger than the whole data region. -/
theorem overrun_steps {page : Page} {value value' : Bytes} (blank : LeafRepr page [] 4096 0)
    (size : value.length = 2046) (size' : value'.length = 4076) :
    ∃ page₁ page₂ page₃ page₄, LeafStep page (.insert [] value) page₁ ∧
      LeafStep page₁ (.setValue [] []) page₂ ∧ LeafStep page₂ (.delete []) page₃ ∧
      LeafStep page₃ (.insert [] value') page₄ ∧
      HeaderCodec.getNextLeafNodePageId page₄ ≠ 0 := by
  obtain ⟨page₁, pre, post, slot, cut, slotSize₁, run₁, repr₁, _⟩ :=
    insertElement_room blank [] value .nil (by simp only [size, headerSize, List.length_nil]; omega)
  obtain ⟨rfl, rfl⟩ := List.append_eq_nil_iff.mp cut.eq.symm
  have shorter : ([] : Bytes).length ≤ value.length := Nat.zero_le _
  obtain ⟨page₂, run₂, repr₂, _⟩ := setValue_shorter repr₁ (by simp [elements]) shorter
  obtain ⟨page₃, run₃, repr₃, _⟩ := deleteElement_live repr₂ (by simp [elements])
  have missing : findValue page [] = some none := findValue_eq blank []
  have found : findValue page₁ [] = some (some value) := findValue_eq repr₁ []
  have missing₃ : findValue page₃ [] = some none := findValue_eq repr₃ []
  have check : hasEnoughSpaceToUpdateValue page₁ [] value [] = some (true, page₁) := by
    rw [hasEnoughSpaceToUpdateValue, if_pos shorter]
  have enough : 4080 + 4 ≤ ((0 + (value.length - ([] : Bytes).length)) % 65536 +
      (slot.elementSize + slotSize)) % 65536 := by
    rw [slotSize₁, size, List.length_nil, slotSize]
    decide
  obtain ⟨page₄, run₄, overwritten⟩ := insertElement_overrun repr₃ rfl
    (by simp only [size, headerSize, List.length_nil]; omega) enough size'
  exact ⟨page₁, page₂, page₃, page₄, .insert missing run₁, .setValue found check run₂, .delete run₃,
    .insert missing₃ run₄, overwritten⟩

end LeafNodeCodec

open LeafNodeCodec

/-! ### The chain -/

/-- Leaf pages, the id of the first one, and the separators that the splits handed out. -/
structure LeafChain where
  pages : UInt64 → Page
  firstLeafNodePageId : UInt64
  separators : List (Bytes × UInt64)

namespace LeafChain

def leaves (c : LeafChain) : List UInt64 := children c.firstLeafNodePageId c.separators

/-- The leaf whose key range contains the key. -/
def leafOf (c : LeafChain) (key : Bytes) : UInt64 := route key c.firstLeafNodePageId c.separators

def nextLeaf (c : LeafChain) (id : UInt64) : UInt64 :=
  LeafNodeCodec.getNextLeafNodePageId (c.pages id)

/-- The live pairs of the leaves in the order of the chain. -/
def entries (c : LeafChain) : Option (List LeafNodeElement) := do
  let lists ← c.leaves.mapM fun id => livePairs (c.pages id)
  some lists.flatten

/-- The state after `SplitNode` moved the pairs from `extraKey` on to the page `new`. -/
def afterSplit (c : LeafChain) (leaf new : UInt64) (leftNode rightNode : Page) (extraKey : Bytes) :
    LeafChain :=
  { c with
    pages := Function.update (Function.update c.pages leaf leftNode) new rightNode
    separators := SortedList.insert Prod.fst (extraKey, new) c.separators }

def afterWrite (c : LeafChain) (leaf : UInt64) (page : Page) : LeafChain :=
  { c with pages := Function.update c.pages leaf page }

theorem afterSplit_pages (c : LeafChain) (leaf new : UInt64) (leftNode rightNode : Page)
    (extraKey : Bytes) : (c.afterSplit leaf new leftNode rightNode extraKey).pages =
      Function.update (Function.update c.pages leaf leftNode) new rightNode := rfl

theorem afterWrite_pages (c : LeafChain) (leaf : UInt64) (page : Page) :
    (c.afterWrite leaf page).pages = Function.update c.pages leaf page := rfl

inductive Op where
  | split (leaf new : UInt64) (splitIndex : Nat)
  | write (op : LeafOp)

inductive Step : LeafChain → Op → LeafChain → Prop
  | split {c : LeafChain} {leaf new : UInt64} {i : Nat} {pairs : List LeafNodeElement}
      {leftNode rightNode : Page} {extraKey : Bytes} :
      leaf ∈ c.leaves → new ∉ c.leaves → new ≠ 0 → Blank (c.pages new) →
      (c.pages new).byte nodeTypeOffset = leafNodeType →
      livePairs (c.pages leaf) = some pairs → 0 < i → i < pairs.length →
      splitNode (c.pages leaf) (c.pages new) new i = some (leftNode, rightNode, extraKey) →
      Step c (.split leaf new i) (c.afterSplit leaf new leftNode rightNode extraKey)
  | write {c : LeafChain} {op : LeafOp} {page : Page} :
      LeafStep (c.pages (c.leafOf op.key)) op page →
      Step c (.write op) (c.afterWrite (c.leafOf op.key) page)

/-- A single leaf page, the last one of its chain. -/
def Single (c : LeafChain) : Prop :=
  c.separators = [] ∧ c.firstLeafNodePageId ≠ 0 ∧ c.nextLeaf c.firstLeafNodePageId = 0 ∧
    ∃ pairs, LeafPage (c.pages c.firstLeafNodePageId) pairs

def Suffices (c : LeafChain) : Op → Prop
  | .split .. => True
  | .write op => CompactionSuffices (c.pages (c.leafOf op.key)) op

/-- Following the next-leaf pointers from the first leaf visits every leaf once and ends at
page 0, and the keys increase on the way. -/
structure InOrder (c : LeafChain) : Prop where
  visits : Linked c.nextLeaf c.firstLeafNodePageId c.leaves 0
  once : c.leaves.Nodup
  nonzero : ∀ id ∈ c.leaves, id ≠ 0
  increasing : ∃ entries, c.entries = some entries ∧
    SortedList.Sorted LeafNodeElement.key entries

/-! ### The invariant -/

structure Intact (c : LeafChain) (pairs : UInt64 → List LeafNodeElement) : Prop where
  placed : Placed LeafNodeElement.key c.firstLeafNodePageId c.separators pairs
  pages : ∀ id ∈ c.leaves, LeafPage (c.pages id) (pairs id)
  nonzero : ∀ id ∈ c.leaves, id ≠ 0
  visits : Linked c.nextLeaf c.firstLeafNodePageId c.leaves 0

section
variable {c c' : LeafChain} {pairs : UInt64 → List LeafNodeElement}

theorem Single.intact (single : Single c) : ∃ pairs, Intact c pairs := by
  obtain ⟨none, nonzero, last, pairs, leaf⟩ := single
  have only : c.leaves = [c.firstLeafNodePageId] := by rw [leaves, none, children, List.map_nil]
  refine ⟨fun _ => pairs, ⟨?_, ?_, ?_⟩, ?_, ?_, ?_⟩
  · rw [none]
    exact .nil
  · rw [← leaves, only]
    exact List.nodup_singleton _
  · intro id member e _
    rw [← leaves, only] at member
    rw [none, route, List.mem_singleton.mp member]
  · intro id member
    rw [only] at member
    rw [List.mem_singleton.mp member]
    exact leaf
  · intro id member
    rw [only] at member
    rw [List.mem_singleton.mp member]
    exact nonzero
  · rw [only]
    exact .cons (last.symm ▸ .nil 0)

theorem Intact.entries_eq (intact : Intact c pairs) :
    c.entries = some (c.leaves.flatMap pairs) := by
  have lists := mapM_eq_some c.leaves fun id member => (intact.pages id member).livePairs
  rw [entries, lists, List.flatMap]
  rfl

theorem Intact.inOrder (intact : Intact c pairs) : InOrder c := by
  refine ⟨intact.visits, intact.placed.nodup, intact.nonzero, _, intact.entries_eq, ?_⟩
  exact intact.placed.sorted_entries fun id member => (intact.pages id member).sorted

theorem Intact.write (intact : Intact c pairs) {op : LeafOp} {page : Page}
    (suffices_ : CompactionSuffices (c.pages (c.leafOf op.key)) op)
    (step : LeafStep (c.pages (c.leafOf op.key)) op page) :
    ∃ pairs', Intact (c.afterWrite (c.leafOf op.key) page) pairs' := by
  have child : c.leafOf op.key ∈ c.leaves := route_mem ..
  obtain ⟨new, leaf, keeps, keys⟩ := step.keeps_leaf (intact.pages _ child) suffices_
  refine ⟨_, intact.placed.rewritten (c := c.leafOf op.key) fun e (member : e ∈ new) => ?_,
    fun id member => ?_, intact.nonzero, intact.visits.congr fun id member => ?_⟩
  · rcases keys e member with same | ⟨x, held, same⟩
    · rw [same]
      rfl
    · rw [← same]
      exact intact.placed.routed _ child x held
  · by_cases same : id = c.leafOf op.key
    · subst same
      rw [afterWrite_pages, Function.update_self, Function.update_self]
      exact leaf
    · rw [afterWrite_pages, Function.update_of_ne same, Function.update_of_ne same]
      exact intact.pages id member
  · by_cases same : id = c.leafOf op.key
    · subst same
      rw [nextLeaf, afterWrite_pages, Function.update_self]
      exact keeps.getNext
    · rw [nextLeaf, afterWrite_pages, Function.update_of_ne same]
      rfl

/-- Where a split takes place: the separators divide around the key that is handed out, and
the new leaf comes right behind the old one. -/
structure SplitPlace (c : LeafChain) (leaf new : UInt64) (extraKey : Bytes)
    (before after : List (Bytes × UInt64)) (front : List UInt64) : Prop where
  separators : c.separators = before ++ after
  below : ∀ entry ∈ before, entry.1 < extraKey
  above : ∀ entry ∈ after, extraKey < entry.1
  separators' : SortedList.insert Prod.fst (extraKey, new) c.separators =
    before ++ (extraKey, new) :: after
  leaves : c.leaves = front ++ leaf :: after.map Prod.snd
  leaves' : children c.firstLeafNodePageId (before ++ (extraKey, new) :: after) =
    front ++ leaf :: new :: after.map Prod.snd

theorem Intact.splitPlace (intact : Intact c pairs) {leaf : UInt64} (new : UInt64) {i : Nat}
    {m : LeafNodeElement} (child : leaf ∈ c.leaves) (middle : (pairs leaf)[i]? = some m)
    (positive : 0 < i) : ∃ before after front, SplitPlace c leaf new m.key before after front := by
  have here : c.leafOf m.key = leaf :=
    intact.placed.routed leaf child m (List.mem_of_getElem? middle)
  obtain ⟨before, after, cutAt, below, above⟩ :=
    intact.placed.exists_cut child (intact.pages leaf child).sorted middle positive
  have notAbove (entry : Bytes × UInt64) (member : entry ∈ before) : entry.1 ≤ m.key :=
    le_of_lt (below entry member)
  obtain ⟨front, cut⟩ := children_cut c.firstLeafNodePageId notAbove above
  rw [← cutAt, ← leafOf, here] at cut
  refine ⟨before, after, front, cutAt, below, above, ?_, ?_, cut ((m.key, new) :: after)⟩
  · rw [cutAt]
    exact SortedList.insert_append _ _ _ _ notAbove above
  · rw [LeafChain.leaves, cutAt]
    exact cut after

section
variable {leaf new : UInt64} {i : Nat} {m : LeafNodeElement} {leftNode rightNode : Page}
  {before after : List (Bytes × UInt64)} {front : List UInt64}

theorem SplitPlace.afterSplit_leaves (place : SplitPlace c leaf new m.key before after front) :
    (c.afterSplit leaf new leftNode rightNode m.key).leaves =
      front ++ leaf :: new :: after.map Prod.snd := by
  rw [LeafChain.leaves, afterSplit, place.separators']
  exact place.leaves'

/-- A leaf after the split is the new one, the one that was split, or another old one. -/
theorem SplitPlace.mem_leaves (place : SplitPlace c leaf new m.key before after front)
    {id : UInt64} (member : id ∈ (c.afterSplit leaf new leftNode rightNode m.key).leaves) :
    id = new ∨ id = leaf ∨ id ≠ new ∧ id ≠ leaf ∧ id ∈ c.leaves := by
  rw [place.afterSplit_leaves] at member
  rw [place.leaves]
  by_cases isNew : id = new
  · exact .inl isNew
  by_cases isLeaf : id = leaf
  · exact .inr (.inl isLeaf)
  exact .inr (.inr ⟨isNew, isLeaf, by simpa [isNew, isLeaf] using member⟩)

/-- The halves of a split, each half with its keys, in the place of the old leaf. -/
theorem Intact.split (intact : Intact c pairs) (child : leaf ∈ c.leaves) (fresh : new ∉ c.leaves)
    (nonzero : new ≠ 0) (middle : (pairs leaf)[i]? = some m)
    (place : SplitPlace c leaf new m.key before after front)
    {leftLSN rightLSN : UInt64} (left : Half leftNode ((pairs leaf).take i) leftLSN new)
    (right : Half rightNode ((pairs leaf).drop i) rightLSN (c.nextLeaf leaf)) :
    Intact (c.afterSplit leaf new leftNode rightNode m.key)
      (Function.update (Function.update pairs leaf ((pairs leaf).take i)) new
        ((pairs leaf).drop i)) := by
  have apart : leaf ≠ new := fun same => fresh (same ▸ child)
  refine ⟨?placed, fun id member => ?pages, fun id member => ?nonzero, ?visits⟩
  case placed =>
    have sides := SortedList.Sorted.cut LeafNodeElement.key (intact.pages leaf child).sorted middle
    have placed := intact.placed
    rw [place.separators] at placed
    rw [LeafChain.leaves, place.separators] at child fresh
    have routed (e : LeafNodeElement) (held : e ∈ pairs leaf) := placed.routed leaf child e held
    rw [afterSplit, place.separators']
    exact placed.split (routed m (List.mem_of_getElem? middle)) place.below place.above fresh
      (fun e held => ⟨sides.1 e held, routed e (List.mem_of_mem_take held)⟩)
      (fun e held => ⟨sides.2 e held, routed e (List.mem_of_mem_drop held)⟩)
  case pages =>
    rw [afterSplit_pages]
    rcases place.mem_leaves member with rfl | rfl | ⟨isOld, other, old⟩
    · rw [Function.update_self, Function.update_self]
      exact right.leaf
    · rw [Function.update_of_ne apart, Function.update_self, Function.update_of_ne apart,
        Function.update_self]
      exact left.leaf
    · rw [Function.update_of_ne isOld, Function.update_of_ne other, Function.update_of_ne isOld,
        Function.update_of_ne other]
      exact intact.pages id old
  case nonzero =>
    rcases place.mem_leaves member with rfl | rfl | ⟨_, _, old⟩
    · exact nonzero
    · exact intact.nonzero id child
    · exact intact.nonzero id old
  case visits =>
    have chain := intact.visits
    have nodup : c.leaves.Nodup := intact.placed.nodup
    rw [place.leaves] at chain nodup
    rw [place.afterSplit_leaves]
    refine chain.insertAfter nodup ?toNew ?fromNew ?same
    case toNew =>
      rw [nextLeaf, afterSplit_pages, Function.update_of_ne apart, Function.update_self]
      exact left.next
    case fromNew =>
      rw [nextLeaf, afterSplit_pages, Function.update_self]
      exact right.next
    case same =>
      intro id member other
      have isOld : id ≠ new := fun same => fresh (same ▸ place.leaves ▸ member)
      rw [nextLeaf, afterSplit_pages, Function.update_of_ne isOld, Function.update_of_ne other]
      rfl

end

theorem Step.split_keeps (intact : Intact c pairs) {leaf new : UInt64} {i : Nat}
    (step : Step c (.split leaf new i) c') :
    (∃ pairs', Intact c' pairs') ∧ c'.entries = c.entries := by
  cases step with
  | @split _ _ _ _ leftNode rightNode extraKey child fresh nonzero _ type live positive bound
      run =>
    have page := intact.pages leaf child
    rw [page.livePairs] at live
    rw [← Option.some.inj live] at bound
    obtain ⟨m, middle⟩ : ∃ m, (pairs leaf)[i]? = some m := ⟨_, List.getElem?_eq_getElem bound⟩
    obtain ⟨left', right', done, left, right, _⟩ := page.splitNode type new middle
    rw [done] at run
    simp only [Option.some.injEq, Prod.mk.injEq] at run
    obtain ⟨rfl, rfl, rfl⟩ := run
    obtain ⟨before, after, front, place⟩ := intact.splitPlace new child middle positive
    have intact' := intact.split child fresh nonzero middle place left right
    refine ⟨⟨_, intact'⟩, ?_⟩
    have nodup : c.leaves.Nodup := intact.placed.nodup
    rw [place.leaves] at nodup fresh
    rw [intact'.entries_eq, intact.entries_eq, place.afterSplit_leaves, place.leaves,
      flatMap_split nodup fresh]

theorem Step.intact {op : Op} (ok : Suffices c op) (step : Step c op c')
    (intact : ∃ pairs, Intact c pairs) : ∃ pairs, Intact c' pairs := by
  obtain ⟨pairs, intact⟩ := intact
  cases op with
  | split leaf new i => exact (step.split_keeps intact).1
  | write op =>
    cases step with
    | write step => exact intact.write ok step

end

/-! ### Runs -/

/-- In a run in which every compaction suffices the chain is in order, and a split keeps the
pairs of the chain as they are. -/
theorem inOrder_of_run (c : LeafChain) (reached : Reach Step Suffices Single c) :
    InOrder c ∧ ∀ leaf new i c', Step c (.split leaf new i) c' → c'.entries = c.entries := by
  obtain ⟨pairs, intact⟩ := reached.invariant (fun c => ∃ pairs, Intact c pairs)
    (fun _ single => single.intact) fun _ _ _ intact ok step => step.intact ok intact
  exact ⟨intact.inOrder, fun leaf new i c' step => (step.split_keeps intact).2⟩

theorem single_blank : Single ⟨fun _ => Buffer.zero 4096, 1, []⟩ := by
  refine ⟨rfl, by decide, ?_, [], leafPage_zero⟩
  have field : HeaderCodec.getNextLeafNodePageId (Buffer.zero 4096) = 0 := by decide
  exact field

/-- A step on the only leaf of a chain. -/
theorem reach_write {allowed : LeafChain → Op → Prop} {c : LeafChain}
    (reached : Reach Step allowed Single c) (only : c.separators = []) {op : LeafOp}
    {page page' : Page} (here : c.pages c.firstLeafNodePageId = page)
    (ok : allowed c (.write op)) (step : LeafStep page op page') :
    ∃ c', Reach Step allowed Single c' ∧ c'.separators = [] ∧
      c'.pages c'.firstLeafNodePageId = page' := by
  have at_ : c.leafOf op.key = c.firstLeafNodePageId := by rw [leafOf, only, route]
  rw [← here, ← at_] at step
  refine ⟨_, .next reached ok (.write step), only, ?_⟩
  have first : (c.afterWrite (c.leafOf op.key) page').firstLeafNodePageId = c.leafOf op.key :=
    at_.symm
  rw [afterWrite_pages, first, Function.update_self]

theorem inOrder_of_insert : ∃ c, Reach Step Suffices Single c ∧ InOrder c ∧
    livePairs (c.pages c.firstLeafNodePageId) = some [⟨[1], [2]⟩] := by
  have roomy : spaceRequired [1] [2] + slotSize ≤ freeSpace (Buffer.zero 4096) := by decide
  obtain ⟨page, run, leaf, _⟩ := leafPage_zero.insertElement (.inl roomy) rfl
  have missing : findValue (Buffer.zero 4096) [1] = some none := by
    rw [leafPage_zero.findValue]
    rfl
  have ok : Suffices ⟨fun _ => Buffer.zero 4096, 1, []⟩ (.write (.insert [1] [2])) :=
    fun full => absurd roomy (not_le.mpr full)
  obtain ⟨c, reached, _, here⟩ := reach_write (.start single_blank) rfl rfl ok (.insert missing run)
  refine ⟨c, reached, (inOrder_of_run c reached).1, ?_⟩
  rw [here]
  exact leaf.livePairs

/-- Four operations on one key after which the only leaf has a next leaf. -/
theorem overrun_breaks_chain : ∃ c, Reach Step (fun _ _ => True) Single c ∧ ¬ InOrder c := by
  obtain ⟨page₁, page₂, page₃, page₄, step₁, step₂, step₃, step₄, overwritten⟩ :=
    overrun_steps blank_zero.exactLeaf.repr (List.length_replicate (a := 0))
      (List.length_replicate (a := 0))
  have start : Reach Step (fun _ _ => True) Single ⟨fun _ => Buffer.zero 4096, 1, []⟩ :=
    .start single_blank
  obtain ⟨c₁, reached₁, only₁, here₁⟩ := reach_write start rfl rfl trivial step₁
  obtain ⟨c₂, reached₂, only₂, here₂⟩ := reach_write reached₁ only₁ here₁ trivial step₂
  obtain ⟨c₃, reached₃, only₃, here₃⟩ := reach_write reached₂ only₂ here₂ trivial step₃
  obtain ⟨c₄, reached₄, only₄, here₄⟩ := reach_write reached₃ only₃ here₃ trivial step₄
  refine ⟨c₄, reached₄, fun inOrder => overwritten ?_⟩
  have visits := inOrder.visits
  rw [leaves, only₄, children, List.map_nil] at visits
  rw [← here₄]
  exact visits.tail.stop

end LeafChain

end CambiumDB
