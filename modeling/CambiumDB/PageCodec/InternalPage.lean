import CambiumDB.Lib.Router
import CambiumDB.PageCodec.InternalSpec
import CambiumDB.PageCodec.LeafPage

/-!
# An internal page and the children it routes to

Each separator carries the children on both of its sides. On the pages of a tree
neighbouring separators agree on the child between them, so a page is a first child and a
list of separators, each with the child to its right.
-/

namespace CambiumDB

open ByteBuffer HeaderConfig HeaderCodec SlotCodec SlottedPage Router LeafNodeCodec

namespace InternalNodeCodec

/-- The separators of an internal node, each with the children on its two sides. -/
def chain (first : UInt64) : List (Bytes × UInt64) → List InternalNodeElement
  | [] => []
  | (key, child) :: rest => ⟨key, first, child⟩ :: chain child rest

/-- The space that a separator and its slot take. -/
def separatorSpace (key : Bytes) : Nat := 2 + key.length + 8 + 8 + slotSize

/-- The entries of a page: the separators in order, each in a slot of its exact size. -/
structure Entries (page : Page) (first : UInt64) (rest : List (Bytes × UInt64))
    (entries : List (Slot × InternalNodeElement)) (floor : Nat) : Prop where
  repr : InternalRepr page entries floor 0
  elements : entries.map Prod.snd = chain first rest
  sizes : (entries.map Prod.fst).map Slot.elementSize = rest.map fun entry => 2 + entry.1.length + 8 + 8

/-- A page that holds separators and nothing else: they are only ever added, so there is no
garbage. -/
structure Separators (page : Page) (first : UInt64) (rest : List (Bytes × UInt64)) : Prop where
  content : ∃ entries floor, Entries page first rest entries floor
  space : freeSpace page + (rest.map fun entry => separatorSpace entry.1).sum = 4096 - headerSize

/-- An internal node of a tree. -/
structure InternalPage (page : Page) (first : UInt64) (rest : List (Bytes × UInt64)) : Prop
    extends Separators page first rest where
  type : page.byte nodeTypeOffset = internalNodeType

theorem chain_keys (first : UInt64) (rest : List (Bytes × UInt64)) :
    (chain first rest).map InternalNodeElement.key = rest.map Prod.fst := by
  induction rest generalizing first with
  | nil => rfl
  | cons entry rest ih => rw [chain, List.map_cons, List.map_cons, ih]

/-- Each separator leads to children of the node. -/
theorem chain_pointers {first : UInt64} {rest : List (Bytes × UInt64)} {e : InternalNodeElement}
    (member : e ∈ chain first rest) : e.leftChildNodePageId ∈ children first rest ∧
      e.rightChildNodePageId ∈ children first rest := by
  induction rest generalizing first with
  | nil => cases member
  | cons entry rest ih =>
    rcases List.mem_cons.1 member with rfl | later
    · simp [children]
    · obtain ⟨left, right⟩ := ih later
      exact ⟨List.mem_cons_of_mem _ left, List.mem_cons_of_mem _ right⟩

theorem length_chain (first : UInt64) (rest : List (Bytes × UInt64)) :
    (chain first rest).length = rest.length := by
  rw [← List.length_map InternalNodeElement.key, chain_keys, List.length_map]

/-- Past separators that are not above `key`, the chain goes on from the child they lead to. -/
theorem chain_append {key : Bytes} {first : UInt64} {before after : List (Bytes × UInt64)}
    (below : ∀ entry ∈ before, entry.1 ≤ key) :
    chain first (before ++ after) = chain first before ++ chain (route key first before) after := by
  induction before generalizing first with
  | nil => rfl
  | cons entry before ih =>
    obtain ⟨sep, child⟩ := entry
    have passed : ¬ key < sep := not_lt.mpr (below (sep, child) (by simp))
    rw [List.cons_append, chain, chain, route, if_neg passed, List.cons_append,
      ih fun e he => below e (by simp [he])]

/-- The last separator that is not above `key` has the child `key` leads to on its right. -/
theorem chain_modifyLast {key : Bytes} {first : UInt64} {before : List (Bytes × UInt64)}
    (below : ∀ entry ∈ before, entry.1 ≤ key) :
    (chain first before).modifyLast
      (fun x => { x with rightChildNodePageId := route key first before }) = chain first before := by
  rcases List.eq_nil_or_concat' before with rfl | ⟨front, ⟨sep, child⟩, rfl⟩
  · rfl
  · have passed : ¬ key < sep := not_lt.mpr (below (sep, child) (by simp))
    have front_below : ∀ entry ∈ front, entry.1 ≤ key := fun e he => below e (by simp [he])
    rw [chain_append front_below, route_append front_below, route, if_neg passed, route, chain,
      chain, List.modifyLast_concat]

theorem splice_chain {key : Bytes} {first new : UInt64} {before after : List (Bytes × UInt64)}
    (below : ∀ entry ∈ before, entry.1 ≤ key) :
    splice (chain first before) ⟨key, route key first before, new⟩
        (chain (route key first before) after) =
      chain first (before ++ (key, new) :: after) := by
  rw [splice, chain_append below, chain_modifyLast below, chain]
  cases after with
  | nil => rfl
  | cons entry after => rfl

/-- The loop of `FindNextChildNodePageId` follows the separators. -/
theorem nextChild_chain (key : Bytes) (first : UInt64) {rest : List (Bytes × UInt64)}
    (sorted : (rest.map Prod.fst).Pairwise (· < ·)) :
    nextChild key (chain first rest) first = route key first rest := by
  induction rest generalizing first with
  | nil => rfl
  | cons entry rest ih =>
    obtain ⟨sep, child⟩ := entry
    rw [List.map_cons, List.pairwise_cons] at sorted
    rw [chain, nextChild, route]
    cases result : compareBytes sep key with
    | eq =>
      -- an equal separator ends the search, and the next one is greater
      rw [compareBytes_eq_eq] at result
      subst result
      rw [if_neg (lt_irrefl sep)]
      refine (route_below fun e he => ?_).symm
      exact sorted.1 e.1 (List.mem_map_of_mem he)
    | gt =>
      rw [compareBytes_eq_gt] at result
      rw [if_pos result]
    | lt =>
      rw [compareBytes_eq_lt] at result
      rw [if_neg (not_lt.mpr (le_of_lt result))]
      exact ih child sorted.2

namespace Separators

variable {page : Page} {first : UInt64} {rest : List (Bytes × UInt64)}

theorem findNextChild (h : Separators page first rest) (nonempty : rest ≠ [])
    (sorted : (rest.map Prod.fst).Pairwise (· < ·)) (key : Bytes) :
    findNextChildNodePageId page key = some (route key first rest) := by
  obtain ⟨entries, floor, repr, elements, _⟩ := h.content
  rw [findNextChild_eq repr, elements, ← nextChild_chain key first sorted]
  -- the start value only matters for a node without separators
  cases rest with
  | nil => exact absurd rfl nonempty
  | cons entry rest => rfl

theorem freeSpace_setLSN (h : Separators page first rest) (lsn : UInt64) :
    freeSpace (InternalNodeCodec.setLSN page lsn) = freeSpace page := by
  obtain ⟨entries, floor, repr, _, _⟩ := h.content
  have repr' := repr.setLSN lsn
  rw [freeSpace, freeSpace, repr.shape.freeSpaceBegin, repr.shape.freeSpaceEnd]
  exact congrArg₂ _ repr'.shape.freeSpaceEnd repr'.shape.freeSpaceBegin

theorem setLSN (h : Separators page first rest) (lsn : UInt64) :
    Separators (setLSN page lsn) first rest := by
  obtain ⟨entries, floor, repr, elements, sizes⟩ := h.content
  refine ⟨⟨entries, floor, repr.setLSN lsn, elements, sizes⟩, ?_⟩
  rw [h.freeSpace_setLSN]
  exact h.space

theorem freeSpace_eq (h : Separators page first rest) :
    ∃ entries floor, Entries page first rest entries floor ∧ entries.length = rest.length ∧
      freeSpace page = floor - (headerSize + 4 * rest.length) := by
  obtain ⟨entries, floor, content⟩ := h.content
  have count := congrArg List.length content.elements
  rw [length_chain, List.length_map] at count
  refine ⟨entries, floor, content, count, ?_⟩
  have repr := content.repr
  rw [freeSpace, repr.shape.freeSpaceBegin, repr.shape.freeSpaceEnd, length_liveCells, count]

theorem check (h : Separators page first rest) {key : Bytes}
    (room : separatorSpace key ≤ freeSpace page) :
    hasEnoughSpaceToInsertElement page key = some (true, page) := by
  obtain ⟨entries, floor, ⟨repr, _, _⟩, count, free⟩ := h.freeSpace_eq
  have top := repr.layout.top
  rw [free, separatorSpace, slotSize] at room
  rw [hasEnoughSpaceToInsertElement, hasEnoughSpace,
    repr.shape.isAdequate repr.layout.room repr.layout.top, if_pos]
  rw [decide_eq_true_eq, length_liveCells, count, Nat.mod_eq_of_lt (by omega)]
  omega

theorem check_full (h : Separators page first rest) {key : Bytes}
    (small : 2 + key.length + 8 + 8 < 65536) (full : freeSpace page < 2 + key.length + 8 + 8) :
    hasEnoughSpaceToInsertElement page key = some (false, page) := by
  obtain ⟨entries, floor, ⟨repr, _, _⟩, count, free⟩ := h.freeSpace_eq
  rw [free] at full
  rw [hasEnoughSpaceToInsertElement, hasEnoughSpace,
    repr.shape.isAdequate repr.layout.room repr.layout.top, if_neg, repr.shape.shouldCompact,
    if_neg]
  · rw [decide_eq_true_eq]
    omega
  · rw [decide_eq_true_eq, length_liveCells, count, Nat.mod_eq_of_lt small]
    omega

/-- There is nothing to reclaim, so the check leaves the page alone. -/
theorem check_answers (h : Separators page first rest) (key : Bytes) :
    ∃ answer, hasEnoughSpaceToInsertElement page key = some (answer, page) := by
  obtain ⟨entries, floor, ⟨repr, _, _⟩, count, free⟩ := h.freeSpace_eq
  rw [hasEnoughSpaceToInsertElement, hasEnoughSpace,
    repr.shape.isAdequate repr.layout.room repr.layout.top]
  split
  · exact ⟨true, rfl⟩
  next full =>
    rw [repr.shape.shouldCompact, if_neg]
    · exact ⟨false, rfl⟩
    · rw [decide_eq_true_eq]
      rw [decide_eq_true_eq] at full
      have top := repr.layout.top
      omega

/-- A separator goes in at its place, with the new child to its right. -/
theorem insertElement (before after : List (Bytes × UInt64))
    (h : Separators page first (before ++ after)) {key : Bytes} (new : UInt64)
    (below : ∀ entry ∈ before, entry.1 < key) (above : ∀ entry ∈ after, key < entry.1)
    (room : separatorSpace key ≤ freeSpace page) :
    ∃ page', insertElement page key (route key first (before ++ after)) new = some (true, page') ∧
      Separators page' first (before ++ (key, new) :: after) ∧ Keeps page page' := by
  obtain ⟨entries, floor, ⟨repr, elements, sizes⟩, count, free⟩ := h.freeSpace_eq
  have reached : ∀ entry ∈ before, entry.1 ≤ key := fun e he => le_of_lt (below e he)
  have left : route key first (before ++ after) = route key first before := by
    rw [route_append reached, route_below above]
  rw [free, separatorSpace, slotSize] at room
  -- cut the entries where the separators are cut
  rw [chain_append reached] at elements
  obtain ⟨front, back, rfl, frontEq, backEq⟩ := List.map_eq_append_iff.mp elements
  have keys (es : List (Slot × InternalNodeElement)) (start : UInt64) (seps : List (Bytes × UInt64))
      (same : es.map Prod.snd = chain start seps) (entry : Slot × InternalNodeElement)
      (member : entry ∈ es) : entry.2.key ∈ seps.map Prod.fst := by
    rw [← chain_keys start, ← same, List.map_map]
    exact List.mem_map_of_mem (f := InternalNodeElement.key ∘ Prod.snd) member
  obtain ⟨page', entries', slot, done, repr', spliced, slots, size, keeps⟩ := insertElement_room repr
    ⟨key, route key first before, new⟩
    (fun entry member => by
      obtain ⟨sep, here, same⟩ := List.mem_map.mp (keys front first before frontEq entry member)
      exact same ▸ below sep here)
    (fun entry member => by
      obtain ⟨sep, here, same⟩ := List.mem_map.mp (keys back _ after backEq entry member)
      exact same ▸ above sep here)
    (show headerSize + 4 * ((front ++ back).length + 1) + (2 + key.length + 8 + 8) ≤ floor by omega)
  rw [frontEq, backEq, splice_chain reached] at spliced
  have count' := congrArg List.length spliced
  rw [length_chain, List.length_map] at count'
  rw [left]
  -- the new slot claims the new element, the others what they claimed before
  have frontCount := congrArg List.length frontEq
  rw [length_chain, List.length_map] at frontCount
  rw [List.map_append, List.map_append, List.map_append] at sizes
  obtain ⟨frontSizes, backSizes⟩ := List.append_inj sizes (by simpa using frontCount)
  have sizes' : (entries'.map Prod.fst).map Slot.elementSize =
      (before ++ (key, new) :: after).map fun entry => 2 + entry.1.length + 8 + 8 := by
    rw [slots, List.map_append, List.map_cons, frontSizes, backSizes, size, List.map_append,
      List.map_cons]
  refine ⟨page', done, ⟨⟨entries', _, repr', spliced, sizes'⟩, ?_⟩, keeps⟩
  have space := h.space
  rw [freeSpace, repr'.shape.freeSpaceBegin, repr'.shape.freeSpaceEnd, length_liveCells, count']
  simp only [List.length_append, List.length_cons, List.map_append, List.map_cons, List.sum_append,
    List.sum_cons, separatorSpace, slotSize] at free room space count count' ⊢
  omega

end Separators

namespace InternalPage

variable {page : Page} {first : UInt64} {rest : List (Bytes × UInt64)}

theorem isLeafNode (h : InternalPage page first rest) (nonempty : rest ≠ []) :
    isLeafNode page = false := by
  obtain ⟨entries, floor, repr, elements, _⟩ := h.content
  apply isLeafNode_internal h.type
  obtain ⟨_, ⟨_, none, _⟩ | ⟨filled, _⟩⟩ := repr.shape
  · have count := congrArg List.length elements
    rw [length_chain, List.length_map, ← length_liveCells, none] at count
    exact absurd (List.length_eq_zero_iff.mp count.symm) nonempty
  · exact filled

theorem setLSN (h : InternalPage page first rest) (lsn : UInt64) :
    InternalPage (setLSN page lsn) first rest := by
  refine ⟨h.toSeparators.setLSN lsn, ?_⟩
  rw [InternalNodeCodec.setLSN, byte_setLSN _ _ (by decide)]
  exact h.type

theorem insertElement (before after : List (Bytes × UInt64))
    (h : InternalPage page first (before ++ after)) {key : Bytes} (new : UInt64)
    (below : ∀ entry ∈ before, entry.1 < key) (above : ∀ entry ∈ after, key < entry.1)
    (room : separatorSpace key ≤ freeSpace page) :
    ∃ page', insertElement page key (route key first (before ++ after)) new = some (true, page') ∧
      InternalPage page' first (before ++ (key, new) :: after) ∧ Keeps page page' := by
  obtain ⟨page', done, separators, keeps⟩ :=
    h.toSeparators.insertElement before after new below above room
  exact ⟨page', done, ⟨separators, keeps.1.trans h.type⟩, keeps⟩

end InternalPage

theorem separators_zero (lsn first : UInt64) :
    Separators (setLSN (Buffer.zero 4096) lsn) first [] ∧
      freeSpace (setLSN (Buffer.zero 4096) lsn) = 4064 := by
  have blank : InternalRepr (Buffer.zero 4096) [] 4096 0 := repr_zero
  have repr : InternalRepr (setLSN (Buffer.zero 4096) lsn) [] 4096 0 := blank.setLSN lsn
  have free : freeSpace (setLSN (Buffer.zero 4096) lsn) = 4064 := by
    rw [freeSpace, repr.shape.freeSpaceBegin, repr.shape.freeSpaceEnd]
    rfl
  refine ⟨⟨⟨[], 4096, repr, rfl, rfl⟩, ?_⟩, free⟩
  rw [free]
  rfl

/-- A zero page whose type was set is an internal node without separators. -/
theorem internalPage_new (lsn first : UInt64) :
    InternalPage (setNodeType (setLSN (Buffer.zero 4096) lsn)) first [] ∧
      freeSpace (setNodeType (setLSN (Buffer.zero 4096) lsn)) = 4064 := by
  obtain ⟨⟨⟨entries, floor, repr, elements, sizes⟩, space⟩, free⟩ := separators_zero lsn first
  have repr' : InternalRepr (setNodeType (setLSN (Buffer.zero 4096) lsn)) entries floor 0 :=
    repr.setNodeType false
  have free' : freeSpace (setNodeType (setLSN (Buffer.zero 4096) lsn)) = 4064 := by
    rw [← free, freeSpace, freeSpace, repr'.shape.freeSpaceBegin, repr'.shape.freeSpaceEnd,
      repr.shape.freeSpaceBegin, repr.shape.freeSpaceEnd]
  refine ⟨⟨⟨⟨entries, floor, repr', elements, sizes⟩, ?_⟩,
    Buffer.byte_setByte_same _ _ _ (by decide)⟩, free'⟩
  rw [free', ← free]
  exact space

/-! ### Splits -/

/-- Where `FindSplitNodeIndex` cuts a node with these separators. -/
def splitIndex (rest : List (Bytes × UInt64)) : Nat :=
  let slots := rest.map fun entry => Slot.mk (2 + entry.1.length + 8 + 8) 0
  splitLoop (getTotalDataRegionSize slots) slots 0 0

theorem take_chain (first : UInt64) (rest : List (Bytes × UInt64)) (i : Nat) :
    (chain first rest).take i = chain first (rest.take i) := by
  induction rest generalizing first i with
  | nil => simp [chain]
  | cons entry rest ih =>
    cases i with
    | zero => rfl
    | succ i => rw [chain, List.take_succ_cons, ih, List.take_succ_cons, chain]

/-- Behind the separator that moves up, the chain starts with its right child. -/
theorem drop_chain {first : UInt64} {rest : List (Bytes × UInt64)} {i : Nat} {key : Bytes}
    {child : UInt64} (middle : rest[i]? = some (key, child)) :
    (chain first rest).drop (i + 1) = chain child (rest.drop (i + 1)) := by
  induction rest generalizing first i with
  | nil => cases middle
  | cons entry rest ih =>
    cases i with
    | zero =>
      obtain rfl : entry = (key, child) := by simpa using middle
      rfl
    | succ i =>
      rw [List.getElem?_cons_succ] at middle
      rw [chain, List.drop_succ_cons, ih middle, List.drop_succ_cons]

theorem getElem?_chain (first : UInt64) {rest : List (Bytes × UInt64)} {i : Nat} {key : Bytes}
    {child : UInt64} (middle : rest[i]? = some (key, child)) :
    ∃ m, (chain first rest)[i]? = some m ∧ m.key = key := by
  have keys := congrArg (·[i]?) (chain_keys first rest)
  simp only [List.getElem?_map, middle, Option.map_some, Option.map_eq_some_iff] at keys
  exact keys

/-- Packing keeps the elements and the claimed sizes. -/
theorem packed_liveCells (stop : Nat) (entries : List (Slot × InternalNodeElement)) :
    ∃ entries', packed elementCodec stop entries = liveCells entries' ∧
      entries'.map Prod.snd = entries.map Prod.snd ∧
      (entries'.map Prod.fst).map Slot.elementSize = (entries.map Prod.fst).map Slot.elementSize := by
  induction entries generalizing stop with
  | nil => exact ⟨[], rfl, rfl, rfl⟩
  | cons entry rest ih =>
    obtain ⟨slot, e⟩ := entry
    obtain ⟨rest', same, elements, sizes⟩ := ih (stop - width elementCodec e)
    refine ⟨(⟨slot.elementSize, stop - width elementCodec e⟩, e) :: rest', ?_, ?_, ?_⟩
    · rw [packed, same]
      rfl
    · rw [List.map_cons, List.map_cons, elements]
    · simp only [List.map_cons, sizes]

theorem dataSize_chain (first : UInt64) (rest : List (Bytes × UInt64)) :
    dataSize elementCodec (chain first rest) + 4 * rest.length =
      (rest.map fun entry => separatorSpace entry.1).sum := by
  induction rest generalizing first with
  | nil => rfl
  | cons entry rest ih =>
    have size := width_eq ⟨entry.1, first, entry.2⟩
    simp only at size
    rw [chain, dataSize_cons, size, List.length_cons, List.map_cons, List.sum_cons, ← ih entry.2,
      separatorSpace, slotSize]
    omega

/-- A half of a split node holds its separators. -/
theorem separators_of_halfOf {page : Page} {entries : List (Slot × InternalNodeElement)}
    {type : UInt8} {lsn next first : UInt64} {rest : List (Bytes × UInt64)}
    (half : HalfOf elementCodec page entries type lsn next)
    (elements : entries.map Prod.snd = chain first rest)
    (sizes : (entries.map Prod.fst).map Slot.elementSize =
      rest.map fun entry => 2 + entry.1.length + 8 + 8) : Separators page first rest := by
  obtain ⟨entries', same, elements', sizes'⟩ := packed_liveCells 4096 entries
  have repr := half.repr
  rw [same] at repr
  have room := repr.layout.repack
  have space := dataSize_chain first rest
  have count := congrArg List.length (elements'.trans elements)
  rw [length_chain, List.length_map] at count
  rw [live_liveCells, elements_liveCells, elements', elements, count] at room
  refine ⟨⟨entries', _, repr, elements'.trans elements, sizes'.trans sizes⟩, ?_⟩
  rw [freeSpace, repr.shape.freeSpaceBegin, repr.shape.freeSpaceEnd, length_liveCells, count,
    elements]
  omega

namespace Separators

variable {page : Page} {first : UInt64} {rest : List (Bytes × UInt64)}
  (h : Separators page first rest)
include h

theorem getAll : ∃ entries, SlottedPage.getAllSlotsAndElements elementCodec page = some entries ∧
    entries.map Prod.snd = chain first rest ∧
    (entries.map Prod.fst).map Slot.elementSize =
      rest.map fun entry => 2 + entry.1.length + 8 + 8 := by
  obtain ⟨entries, floor, repr, elements, sizes⟩ := h.content
  have read := repr.layout.getAll repr.shape.numSlots
  rw [live_liveCells] at read
  exact ⟨entries, read, elements, sizes⟩

theorem findSplitNodeIndex : findSplitNodeIndex page = some (splitIndex rest) := by
  obtain ⟨entries, read, _, sizes⟩ := h.getAll
  simp only [InternalNodeCodec.findSplitNodeIndex, SlottedPage.findSplitNodeIndex, read, bind,
    Option.bind, splitIndex]
  congr 1
  apply splitLoop_congr
  rw [sizes, List.map_map]
  rfl

theorem encodeAllElements : ∃ payload, encodeAllElements page = some (rest.length, payload) := by
  obtain ⟨entries, read, elements, _⟩ := h.getAll
  have count := congrArg List.length elements
  rw [length_chain, List.length_map] at count
  simp only [InternalNodeCodec.encodeAllElements, SlottedPage.encodeAllElements, read, bind,
    Option.bind, count]
  exact ⟨_, rfl⟩

/-- The separator at the cut goes up; the right page keeps whatever type it had. -/
theorem splitNode (right : Page) (rightId : UInt64) {i : Nat} {key : Bytes} {child : UInt64}
    (middle : rest[i]? = some (key, child)) :
    ∃ left' right', splitNode page right rightId i = some (left', right', key) ∧
      Separators left' first (rest.take i) ∧ Separators right' child (rest.drop (i + 1)) := by
  obtain ⟨entries, floor, repr, elements, sizes⟩ := h.content
  obtain ⟨m, here, same⟩ := getElem?_chain first middle
  have here' : (SlottedPage.elements (liveCells entries))[i]? = some m := by
    rw [elements_liveCells, elements, here]
  obtain ⟨left', right', done, left, back⟩ :=
    SlottedPage.splitNode_spec repr 1 right rightId here'
  rw [live_liveCells] at left back
  refine ⟨left', right', ?_, separators_of_halfOf left ?_ ?_, separators_of_halfOf back ?_ ?_⟩
  · rw [← same]
    exact done
  · rw [List.map_take, elements, take_chain]
  · rw [List.map_take, List.map_take, sizes, List.map_take]
  · rw [List.map_drop, elements, drop_chain middle]
  · rw [List.map_drop, List.map_drop, sizes, List.map_drop]

end Separators

end InternalNodeCodec

end CambiumDB
