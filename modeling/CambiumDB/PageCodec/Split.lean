import CambiumDB.PageCodec.LeafAccounting

/-!
# Splitting a page

`SplitNode` deals the live elements out to two pages, each packed from the page's end. The
slots keep the sizes they claimed.
-/

namespace CambiumDB

open ByteBuffer HeaderConfig HeaderCodec SlottedPage

namespace HeaderCodec

theorem byte_setNextLeafNodePageId (page : Page) (id : UInt64) {i : Nat} (h : i < 16 ∨ 24 ≤ i) :
    (setNextLeafNodePageId page id).byte i = page.byte i :=
  Buffer.byte_putLE_outside _ _ _ _ (by simp only [nextLeafNodePageIdOffset]; omega)

theorem getNext_setNext (page : Page) (id : UInt64) :
    getNextLeafNodePageId (setNextLeafNodePageId page id) = id := by
  have wide : id.toNat % 256 ^ 8 = id.toNat := Nat.mod_eq_of_lt id.toNat_lt
  rw [getNextLeafNodePageId, setNextLeafNodePageId, Buffer.getLE_putLE_same _ _ _ _ (by decide),
    wide, UInt64.ofNat_toNat]

theorem byte_setLSN (page : Page) (lsn : UInt64) {i : Nat} (h : i < 24 ∨ 32 ≤ i) :
    (setLSN page lsn).byte i = page.byte i :=
  Buffer.byte_putLE_outside _ _ _ _ (by simp only [lsnOffset]; omega)

theorem getLSN_setLSN (page : Page) (lsn : UInt64) : getLSN (setLSN page lsn) = lsn := by
  have wide : lsn.toNat % 256 ^ 8 = lsn.toNat := Nat.mod_eq_of_lt lsn.toNat_lt
  rw [getLSN, setLSN, Buffer.getLE_putLE_same _ _ _ _ (by decide), wide, UInt64.ofNat_toNat]

theorem byte_setNodeType (page : Page) (isLeafNode : Bool) {i : Nat} (h : i ≠ 4) :
    (setNodeType page isLeafNode).byte i = page.byte i :=
  Buffer.byte_setByte_outside _ _ _ h

/-- The LSN only depends on its own bytes. -/
theorem getLSN_congr {page page' : Page}
    (same : ∀ i, 24 ≤ i → i < 32 → page'.byte i = page.byte i) : getLSN page' = getLSN page := by
  rw [getLSN, getLSN, Buffer.getLE, Buffer.getLE, Buffer.read_congr]
  intro i hi
  exact same _ (by simp only [lsnOffset]; omega) (by simp only [lsnOffset]; omega)

theorem getNext_congr {page page' : Page}
    (same : ∀ i, 16 ≤ i → i < 24 → page'.byte i = page.byte i) :
    getNextLeafNodePageId page' = getNextLeafNodePageId page := by
  rw [getNextLeafNodePageId, getNextLeafNodePageId, Buffer.getLE, Buffer.getLE, Buffer.read_congr]
  intro i hi
  exact same _ (by simp only [nextLeafNodePageIdOffset]; omega)
    (by simp only [nextLeafNodePageIdOffset]; omega)

theorem isLeafNode_of_type {page : Page} (type : page.byte nodeTypeOffset = leafNodeType) :
    isLeafNode page = true := by
  rw [isLeafNode, decodePageHeader]
  split
  · rfl
  · simp [type]

theorem isLeafNode_internal {page : Page} (type : page.byte nodeTypeOffset = internalNodeType)
    (filled : page.byte isPageFilledOffset ≠ pageEmptyType) : isLeafNode page = false := by
  rw [isLeafNode, decodePageHeader, if_neg filled, type]
  rfl

/-- The type is decoded from two bytes. -/
theorem isLeafNode_congr {page page' : Page}
    (type : page'.byte nodeTypeOffset = page.byte nodeTypeOffset)
    (filled : page'.byte isPageFilledOffset = page.byte isPageFilledOffset) :
    isLeafNode page' = isLeafNode page := by
  rw [isLeafNode, isLeafNode, decodePageHeader, decodePageHeader, filled]
  split
  · rfl
  · simp [type]

theorem isLeafNode_setLSN (page : Page) (lsn : UInt64) : isLeafNode (setLSN page lsn) = isLeafNode page :=
  isLeafNode_congr (byte_setLSN page lsn (by decide)) (byte_setLSN page lsn (by decide))

end HeaderCodec

namespace SlottedPage

variable {E : Type} {c : ElementCodec E} {page : Page} {cells : List (Cell E)}
  {floor garbage : Nat}

theorem Repr.setLSN (h : Repr c page cells floor garbage) (lsn : UInt64) :
    Repr c (setLSN page lsn) cells floor garbage :=
  h.of_bytes fun _ bounds => byte_setLSN page lsn (by omega)

theorem Repr.setNext (h : Repr c page cells floor garbage) (id : UInt64) :
    Repr c (setNextLeafNodePageId page id) cells floor garbage :=
  h.of_bytes fun _ bounds => byte_setNextLeafNodePageId page id (by omega)

theorem Repr.setNodeType (h : Repr c page cells floor garbage) (isLeafNode : Bool) :
    Repr c (setNodeType page isLeafNode) cells floor garbage :=
  h.of_bytes fun _ bounds => byte_setNodeType page isLeafNode (by omega)

/-- A page image after a split: what it holds, and the header fields a split sets or keeps. -/
structure HalfOf (c : ElementCodec E) (page : Page) (entries : List (Slot × E)) (type : UInt8)
    (lsn next : UInt64) : Prop where
  repr : Repr c page (packed c 4096 entries) (4096 - dataSize c (entries.map Prod.snd)) 0
  type : page.byte nodeTypeOffset = type
  lsn : HeaderCodec.getLSN page = lsn
  next : HeaderCodec.getNextLeafNodePageId page = next

private theorem half_spec {entries : List (Slot × E)} (sizes : SizesOk (c := c) entries)
    (room : headerSize + 4 * entries.length + dataSize c (entries.map Prod.snd) ≤ 4096)
    (page : Page) (next : UInt64) :
    ∃ page', putAllSlotsAndElements c page entries = some page' ∧
      HalfOf c (updateCRC (HeaderCodec.setNextLeafNodePageId page' next)) entries
        (page.byte nodeTypeOffset) (HeaderCodec.getLSN page) next := by
  obtain ⟨page', done, repr, keeps⟩ := putAll_spec sizes page room
  refine ⟨page', done, (repr.setNext next).updateCRC, ?_, ?_, ?_⟩
  · rw [byte_updateCRC _ (by decide), byte_setNextLeafNodePageId _ _ (by decide)]
    exact keeps.1
  · rw [← keeps.getLSN]
    apply getLSN_congr
    intro i lower _
    rw [byte_updateCRC _ (by omega), byte_setNextLeafNodePageId _ _ (by omega)]
  · refine Eq.trans (getNext_congr ?_) (getNext_setNext page' next)
    intro i lower _
    rw [byte_updateCRC _ (by omega)]

/-- A split past the last element panics. -/
theorem splitNode_past [c.Lawful] (h : Repr c page cells floor garbage) (skip : Nat) (right : Page)
    (rightId : UInt64) {i : Nat} (past : (elements cells)[i]? = none) :
    splitNode c skip page right rightId i = none := by
  have read := h.layout.getAll h.shape.numSlots
  rw [← live_map_snd, List.getElem?_map, Option.map_eq_none_iff] at past
  simp [SlottedPage.splitNode, read, past]

theorem splitNode_spec [c.Lawful] (h : Repr c page cells floor garbage) (skip : Nat) (right : Page)
    (rightId : UInt64) {i : Nat} {m : E} (middle : (elements cells)[i]? = some m) :
    ∃ left' right', splitNode c skip page right rightId i = some (left', right', c.key m) ∧
      HalfOf c left' ((live cells).take i) (page.byte nodeTypeOffset) (HeaderCodec.getLSN page)
        rightId ∧
      HalfOf c right' ((live cells).drop (i + skip)) (right.byte nodeTypeOffset)
        (HeaderCodec.getLSN right) (decodePageHeader page).nextLeafNodePageId := by
  have read := h.layout.getAll h.shape.numSlots
  have sizes := h.layout.sizesOk
  have room := h.layout.repack
  rw [← live_map_snd] at room middle
  -- each part fits because the whole does
  have part (es es' : List (Slot × E)) (cut : es ++ es' = live cells) :
      headerSize + 4 * es.length + dataSize c (es.map Prod.snd) ≤ 4096 ∧
        headerSize + 4 * es'.length + dataSize c (es'.map Prod.snd) ≤ 4096 := by
    rw [← cut, List.map_append, dataSize_append, List.length_append] at room
    omega
  obtain ⟨left', leftDone, leftHalf⟩ := half_spec
    (fun entry member => sizes entry (List.mem_of_mem_take member))
    (part _ _ (List.take_append_drop i (live cells))).1 page rightId
  obtain ⟨right', rightDone, rightHalf⟩ := half_spec
    (fun entry member => sizes entry (List.mem_of_mem_drop member))
    (part _ _ (List.take_append_drop (i + skip) (live cells))).2 right
    (decodePageHeader page).nextLeafNodePageId
  rw [List.getElem?_map, Option.map_eq_some_iff] at middle
  obtain ⟨⟨slot, e⟩, entry, rfl⟩ := middle
  refine ⟨_, _, ?_, leftHalf, rightHalf⟩
  simp only [splitNode, read, bind, Option.bind, entry, leftDone, rightDone]

/-- The bytes of `EncodeAllElements` after the count. -/
def listed (c : ElementCodec E) (es : List E) : Bytes :=
  es.flatMap fun e => leBytes 2 (c.encodeElement e).length ++ c.encodeElement e

theorem decodeLoop_listed [c.Lawful] {es : List E} (small : ∀ e ∈ es, width c e < 65536)
    {payload : Slice} (starts : payload.StartsWith (listed c es)) :
    decodeLoop c es.length payload = some (es.map fun e => (⟨width c e, 0⟩, e)) := by
  induction es generalizing payload with
  | nil => rfl
  | cons e rest ih =>
    have fits := small e (by simp)
    have cut : listed c (e :: rest) =
        leBytes 2 (width c e) ++ (c.encodeElement e ++ listed c rest) := by
      rw [listed, List.flatMap_cons, List.append_assoc]
      rfl
    rw [cut] at starts
    have size : payload.getLE 2 = some (width c e) := by
      rw [starts.getLE, Nat.mod_eq_of_lt (show width c e < 256 ^ 2 from fits)]
    obtain ⟨body, dropped, bodyStarts, _⟩ := starts.drop
    rw [length_leBytes] at dropped
    obtain ⟨elementBytes, taken, elementStarts⟩ := bodyStarts.take
    obtain ⟨later, skipped, laterStarts, _⟩ := bodyStarts.drop
    have lengthE : (c.encodeElement e).length = width c e := rfl
    rw [lengthE] at taken skipped
    have decoded := ElementCodec.Lawful.decode_encode e _ fits elementStarts
    have next := ih (fun e member => small e (by simp [member])) laterStarts
    simp only [List.length_cons, decodeLoop, size, dropped, taken, decoded, skipped, next, bind,
      Option.bind, List.map_cons]

/-- `decodeAllSlotsAndElements` reads back what `EncodeAllElements` wrote, with the true sizes. -/
theorem decodeAll_encodeAll [c.Lawful] (h : Repr c page cells floor garbage) :
    ∃ payload, encodeAllElements c page = some ((elements cells).length, payload) ∧
      decodeAllSlotsAndElements c payload =
        some ((elements cells).map fun e => (⟨width c e, 0⟩, e)) := by
  have read := h.layout.getAll h.shape.numSlots
  have room := h.layout.repack
  have count : (live cells).length = (elements cells).length := by
    rw [← live_map_snd, List.length_map]
  have data : ((live cells).flatMap fun entry =>
      leBytes 2 (c.encodeElement entry.2).length ++ c.encodeElement entry.2) =
      listed c (elements cells) := by
    rw [listed, ← live_map_snd, List.flatMap_map]
  refine ⟨leBytes 2 (elements cells).length ++ listed c (elements cells), ?_, ?_⟩
  · simp only [encodeAllElements, read, bind, Option.bind, count, data]
  · have starts : (Slice.ofBytes (leBytes 2 (elements cells).length ++
        listed c (elements cells))).StartsWith (leBytes 2 (elements cells).length ++
        listed c (elements cells)) := by
      have whole := Slice.StartsWith.ofBytes
        (leBytes 2 (elements cells).length ++ listed c (elements cells)) []
      rwa [List.append_nil] at whole
    have size := starts.getLE
    rw [Nat.mod_eq_of_lt (by omega)] at size
    obtain ⟨body, dropped, bodyStarts, _⟩ := starts.drop
    rw [length_leBytes] at dropped
    have small : ∀ e ∈ elements cells, width c e < 65536 := by
      intro e member
      obtain ⟨slot, inside⟩ := mem_elements.mp member
      have placed : Placed c page floor slot e := h.layout.ok _ inside
      have fits := placed.fits
      have size := placed.size
      omega
    have loop := decodeLoop_listed small bodyStarts
    simp only [decodeAllSlotsAndElements, size, dropped, loop, bind, Option.bind]

/-- Of two elements the first stays when it is the larger one. -/
theorem splitLoop_pair {a b : Nat} (less : b < a) (small : a + b < 65536) :
    splitLoop (getTotalDataRegionSize [⟨a, 0⟩, ⟨b, 0⟩]) [⟨a, 0⟩, ⟨b, 0⟩] 0 0 = 1 := by
  have total : getTotalDataRegionSize [⟨a, 0⟩, ⟨b, 0⟩] = a + b := by
    simp only [getTotalDataRegionSize, List.foldl_cons, List.foldl_nil]
    omega
  have stop : ¬ (0 + a) % 65536 ≤ (a + b) / 2 := by omega
  rw [total, splitLoop, if_pos (Nat.zero_le _), splitLoop, if_neg stop]

/-- The loop never goes back. -/
theorem le_splitLoop (total : Nat) (slots : List Slot) (left index : Nat) :
    index ≤ splitLoop total slots left index := by
  induction slots generalizing left index with
  | nil => exact Nat.le_refl index
  | cons slot rest ih =>
    rw [splitLoop]
    split
    · exact (Nat.le_succ index).trans (ih _ _)
    · exact Nat.le_refl index

/-- The split index depends on the claimed sizes alone. -/
theorem splitLoop_congr {slots slots' : List Slot}
    (same : slots.map Slot.elementSize = slots'.map Slot.elementSize) :
    splitLoop (getTotalDataRegionSize slots) slots 0 0 =
      splitLoop (getTotalDataRegionSize slots') slots' 0 0 := by
  have sums (size : Nat) : slots.foldl (fun size slot => (size + slot.elementSize) % 65536) size =
      slots'.foldl (fun size slot => (size + slot.elementSize) % 65536) size := by
    rw [← List.foldl_map (f := Slot.elementSize) (g := fun size n => (size + n) % 65536), same,
      List.foldl_map]
  have loops (total : Nat) (left index : Nat) :
      splitLoop total slots left index = splitLoop total slots' left index := by
    clear sums
    induction slots generalizing slots' left index with
    | nil =>
      rw [List.map_nil, eq_comm, List.map_eq_nil_iff] at same
      rw [same]
    | cons slot rest ih =>
      cases slots' with
      | nil => cases same
      | cons slot' rest' =>
        rw [List.map_cons, List.map_cons, List.cons.injEq] at same
        rw [splitLoop, splitLoop, same.1, ih same.2]
  rw [getTotalDataRegionSize, getTotalDataRegionSize, sums, loops]

end SlottedPage

namespace LeafNodeCodec

variable {page : Page} {cells : List (Cell LeafNodeElement)} {floor garbage : Nat}

/-- The index that `FindSplitNodeIndex` works out from the claimed sizes. -/
def splitIndexOf (cells : List (Cell LeafNodeElement)) : Nat :=
  splitLoop (getTotalDataRegionSize ((live cells).map Prod.fst)) ((live cells).map Prod.fst) 0 0

theorem findSplitNodeIndex_eq (h : LeafRepr page cells floor garbage) :
    findSplitNodeIndex page = some (splitIndexOf cells) := by
  have read : SlottedPage.getAllSlotsAndElements elementCodec page = some (live cells) := getAll_eq h
  simp only [findSplitNodeIndex, SlottedPage.findSplitNodeIndex, read, bind, Option.bind]
  rfl

/-- The first entry always stays on the left. -/
theorem splitIndexOf_pos (nonempty : elements cells ≠ []) : 0 < splitIndexOf cells := by
  rw [splitIndexOf]
  cases entries : (live cells).map Prod.fst with
  | nil =>
    have none : elements cells = [] := by
      rw [← live_map_snd, List.map_eq_nil_iff.mp entries, List.map_nil]
    exact absurd none nonempty
  | cons slot rest =>
    rw [splitLoop, if_pos (Nat.zero_le _)]
    exact le_splitLoop _ _ _ _

theorem keysSorted_packed {entries : List (Slot × LeafNodeElement)} {stop : Nat}
    (sorted : SortedList.Sorted LeafNodeElement.key (entries.map Prod.snd)) :
    KeysSorted (packed elementCodec stop entries) := by
  rw [KeysSorted, elements_packed]
  exact sorted

end LeafNodeCodec

end CambiumDB
