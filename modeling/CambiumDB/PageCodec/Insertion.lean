import CambiumDB.PageCodec.Represent

/-!
# Inserting into a slotted page

The element goes below the free space's end, then the slots of greater keys move up by
one. Both codecs share the two steps; the internal codec also repoints the neighbours.
-/

namespace CambiumDB

open ByteBuffer HeaderConfig HeaderCodec SlotCodec

namespace SlottedPage

variable {E : Type} {c : ElementCodec E}

/-- The free space of a page right after its live elements were packed. -/
def packedSpace (c : ElementCodec E) (es : List E) : Nat :=
  4096 - (headerSize + 4 * es.length + dataSize c es)

/-- `cells` cut where `key` belongs. -/
structure CutAt (c : ElementCodec E) (key : Bytes) (cells pre post : List (Cell E)) : Prop where
  eq : cells = pre ++ post
  below : ∀ x ∈ elements pre, c.key x ≤ key
  above : ∀ x ∈ elements post, key < c.key x
  front : post = [] ∨ ∃ slot e rest, post = (slot, some e) :: rest

theorem cutAt_of_sorted (key : Bytes) (cells : List (Cell E))
    (sorted : (elements cells).Pairwise fun a b => c.key a ≤ c.key b) :
    ∃ pre post, CutAt c key cells pre post := by
  obtain ⟨pre, post, eq, below, above, front⟩ := exists_cut key cells sorted
  exact ⟨pre, post, eq, below, above, front⟩

/-- `shiftSlots` rewrites the slot array from the cut on and touches nothing else. -/
theorem shiftSlots_spec [c.Lawful] {page : Page} {cells pre post : List (Cell E)}
    {floor stop garbage : Nat} {key : Bytes} (new : Slot) (layout : Layout c page cells floor)
    (shape : Shape page cells.length stop garbage) (cut : CutAt c key cells pre post)
    (room : headerSize + 4 * (cells.length + 1) ≤ floor) (fits : SlotFits new) :
    ∃ page', shiftSlots c page new key = some (page', headerSize + 4 * (cells.length + 1),
        ⟨new :: post.map Prod.fst, !post.isEmpty, post.head?.map Prod.fst, lastSmaller c key pre⟩) ∧
      SlotsAt page' headerSize (pre.map Prod.fst ++ new :: post.map Prod.fst) ∧
      ∀ i, (i < headerSize ∨ floor ≤ i) → page'.byte i = page.byte i := by
  have top := layout.top
  have scanned : scanSlots c page key (decodePageHeader page).numSlots headerSize
      ⟨[new], false, none, none⟩ =
      some ⟨new :: post.map Prod.fst, !post.isEmpty, post.head?.map Prod.fst,
        lastSmaller c key pre⟩ := by
    rw [shape.numSlots, scanSlots_eq key layout.slots layout.ok (layout.room.trans top), cut.eq,
      scanCells_cut cut.below cut.above cut.front]
  have slots := layout.slots
  rw [cut.eq, List.map_append, slotsAt_append, List.length_map] at slots
  have count : cells.length = pre.length + post.length := by rw [cut.eq, List.length_append]
  obtain ⟨page', done, stored, same⟩ := appendSlots_spec (new :: post.map Prod.fst) page
    (headerSize + 4 * pre.length)
    (by simp only [List.length_cons, List.length_map]; omega)
    (by
      intro slot member
      rcases List.mem_cons.mp member with rfl | later
      · exact fits
      · exact slots.2.fits slot later)
  simp only [List.length_cons, List.length_map] at done same
  have start : (headerSize + 4 * cells.length + 65536 -
      ((post.map Prod.fst).length + 1 - 1) * slotSize % 65536) % 65536 =
      headerSize + 4 * pre.length := by
    simp only [List.length_map, slotSize, headerSize] at room ⊢
    omega
  have stop' : headerSize + 4 * pre.length + 4 * (post.length + 1) =
      headerSize + 4 * (cells.length + 1) := by omega
  rw [stop'] at done
  refine ⟨page', ?_, ?_, fun i outside => same i (by omega)⟩
  · simp only [shiftSlots, scanned, bind, Option.bind, List.length_cons, shape.freeSpaceBegin,
      start, done]
  · rw [slotsAt_append, List.length_map]
    refine ⟨slots.1.congr fun i _ upper => same i (.inl ?_), stored⟩
    rwa [List.length_map] at upper

/-- A new element below `floor` and its slot at the cut extend a layout. -/
theorem Layout.place {page page' : Page} {pre post : List (Cell E)} {floor : Nat} {e : E}
    (h : Layout c page (pre ++ post) floor)
    (room : headerSize + 4 * ((pre ++ post).length + 1) + width c e ≤ floor)
    (slots : SlotsAt page' headerSize
      (pre.map Prod.fst ++ ⟨width c e, floor - width c e⟩ :: post.map Prod.fst))
    (bytes : page'.read (floor - width c e) (width c e) = c.encodeElement e)
    (same : ∀ i, floor ≤ i → page'.byte i = page.byte i) :
    Layout c page' (pre ++ (⟨width c e, floor - width c e⟩, some e) :: post)
      (floor - width c e) := by
  have top := h.top
  have old (cell : Cell E) (member : cell ∈ pre ++ post) :
      CellOk c page' (floor - width c e) cell :=
    (h.ok cell member).congr (by omega) fun i lower _ => same i lower
  -- every old element lies at or above `floor`, the new one below it
  have apart (cell : Cell E) (member : cell ∈ pre ++ post) :
      Apart c (⟨width c e, floor - width c e⟩, some e) cell ∧
        Apart c cell (⟨width c e, floor - width c e⟩, some e) := by
    have lower (x : E) (holds : cell.2 = some x) : floor ≤ cell.1.elementPointer := by
      have ok := h.ok cell member
      rw [CellOk, holds] at ok
      exact ok.lower
    constructor
    · intro x y left right
      cases left
      have := lower y right
      exact .inl (by simp only; omega)
    · intro x y left right
      cases right
      have := lower x left
      exact .inr (by simp only; omega)
  refine ⟨by simpa using slots, ?_, ?_, by omega, ?_⟩
  · intro cell member
    rcases List.mem_append.mp member with front | rest
    · exact old cell (by simp [front])
    rcases List.mem_cons.mp rest with rfl | back
    · exact ⟨le_refl _, by simp only; omega, bytes, le_refl _, by simp only; omega⟩
    · exact old cell (by simp [back])
  · simp only [List.length_append, List.length_cons] at room ⊢
    omega
  · have pairs := List.pairwise_append.mp h.apart
    refine List.pairwise_append.mpr ⟨pairs.1, List.pairwise_cons.mpr ⟨?_, pairs.2.1⟩, ?_⟩
    · intro cell member
      exact (apart cell (by simp [member])).1
    · intro a ha b hb
      rcases List.mem_cons.mp hb with rfl | back
      · exact (apart a (by simp [ha])).2
      · exact pairs.2.2 a ha b back

/-- Appending the element and shifting the slots adds one cell at the cut. -/
theorem shiftSlots_placed [c.Lawful] {page : Page} {cells pre post : List (Cell E)}
    {floor garbage : Nat} {e : E} (h : Repr c page cells floor garbage)
    (cut : CutAt c (c.key e) cells pre post)
    (room : headerSize + 4 * (cells.length + 1) + width c e ≤ floor) :
    ∃ page', shiftSlots c (page.write (floor - width c e) (c.encodeElement e))
        ⟨width c e, floor - width c e⟩ (c.key e) =
        some (page', headerSize + 4 * (cells.length + 1),
          ⟨⟨width c e, floor - width c e⟩ :: post.map Prod.fst, !post.isEmpty,
            post.head?.map Prod.fst, lastSmaller c (c.key e) pre⟩) ∧
      Layout c page' (pre ++ (⟨width c e, floor - width c e⟩, some e) :: post)
        (floor - width c e) ∧
      ∀ i, i < headerSize → page'.byte i = page.byte i := by
  have top := h.layout.top
  have length : (c.encodeElement e).length = width c e := rfl
  have away (i : Nat) (outside : i < floor - width c e ∨ floor ≤ i) :
      (page.write (floor - width c e) (c.encodeElement e)).byte i = page.byte i :=
    Buffer.byte_write_outside _ _ _ (by rw [length]; omega)
  -- the appended bytes lie between the slot array and the old elements
  have layout : Layout c (page.write (floor - width c e) (c.encodeElement e)) cells floor :=
    h.layout.congr (fun i _ upper => away i (.inl (by omega))) fun i lower _ => away i (.inr lower)
  have lowered : Layout c (page.write (floor - width c e) (c.encodeElement e)) cells
      (floor - width c e) :=
    ⟨layout.slots, fun cell member => (layout.ok cell member).congr (by omega) fun _ _ _ => rfl,
      by omega, by omega, layout.apart⟩
  have shape : Shape (page.write (floor - width c e) (c.encodeElement e)) cells.length floor
      garbage := by
    refine h.shape.congr fun i _ upper => away i (.inl ?_)
    simp only [headerSize] at room
    omega
  obtain ⟨page', shifted, slots, same⟩ := shiftSlots_spec
    ⟨width c e, floor - width c e⟩ lowered shape cut (by omega)
    ⟨by simp only; omega, by simp only; omega⟩
  have written : page'.read (floor - width c e) (width c e) = c.encodeElement e := by
    have stored := Buffer.read_write_same page (floor - width c e) (c.encodeElement e)
      (by rw [length]; omega)
    rw [length] at stored
    exact Eq.trans (Buffer.read_congr fun i _ => same _ (.inr (by omega))) stored
  refine ⟨page', shifted, ?_, fun i hi => ?_⟩
  · have whole := layout
    rw [cut.eq] at whole
    exact whole.place (by rw [← cut.eq]; exact room) slots written fun i lower =>
      same i (.inr (by omega))
  · rw [same i (.inl hi), away i (.inl (by omega))]

/-! ### The space decision -/

theorem insertElement_refused {insertSlot : Page → Slot → E → Option (Page × Nat)} {page : Page}
    {need : Nat} {e : E} (full : isAdequate page (need + slotSize) = false)
    (clean : shouldCompact page (need + slotSize) = false) :
    insertElement c insertSlot page need e = some (false, updateCRC page) := by
  simp [insertElement, full, clean]

/-- Compacting first and then inserting is what inserting into a page with enough garbage
does. -/
theorem insertElement_compacted {insertSlot : Page → Slot → E → Option (Page × Nat)}
    {page page' : Page} {need : Nat} {e : E} (full : isAdequate page (need + slotSize) = false)
    (garbage : shouldCompact page (need + slotSize) = true)
    (compacted : compact c page = some page') (enough : isAdequate page' (need + slotSize) = true) :
    insertElement c insertSlot page need e = insertElement c insertSlot page' need e := by
  simp [insertElement, full, garbage, compacted, enough]

/-- A page that counts enough garbage is compacted and the element appended, whatever room
the compaction made. -/
theorem insertElement_forced {E : Type} {c : ElementCodec E}
    (insertSlot : Page → Slot → E → Option (Page × Nat)) {page packedPage written slotPage : Page}
    {need freeSpaceBegin freeSpaceEnd : Nat} {e : E}
    (full : isAdequate page (need + slotSize) = false)
    (garbage : shouldCompact page (need + slotSize) = true) (done : compact c page = some packedPage)
    (append : appendElement c packedPage (decodePageHeader packedPage).freeSpaceEnd e =
      some (written, freeSpaceEnd))
    (slotted : insertSlot written ⟨c.calculateElementSize e, freeSpaceEnd⟩ e =
      some (slotPage, freeSpaceBegin)) :
    insertElement c insertSlot page need e = some (true, updateCRC (setIsPageFilled (setNumSlots
      (setFreeSpaceBegin (setFreeSpaceEnd slotPage freeSpaceEnd) freeSpaceBegin)
      ((decodePageHeader packedPage).numSlots + 1)) true)) := by
  simp [insertElement, full, garbage, done, append, slotted]

section
variable [c.Lawful] {page : Page} {cells : List (Cell E)} {floor garbage need : Nat}
  {insertSlot : Page → Slot → E → Option (Page × Nat)} {e : E}
  (h : Repr c page cells floor garbage)
include h

/-- The space check: enough room, or a compaction, or neither. -/
theorem hasEnoughSpace_outcome (need : Nat) :
    let free := floor - (headerSize + 4 * cells.length)
    (need % 65536 ≤ free ∧ hasEnoughSpace c page need = some (true, page)) ∨
      (¬ need % 65536 ≤ free ∧ need ≤ garbage ∧ ∃ page', compact c page = some page' ∧
        hasEnoughSpace c page need = some (true, page') ∧
        Repr c page' (packed c 4096 (live cells)) (4096 - dataSize c (elements cells)) 0 ∧
        Keeps page page') ∨
      (¬ need % 65536 ≤ free ∧ ¬ need ≤ garbage ∧
        hasEnoughSpace c page need = some (false, page)) := by
  intro free
  have adequate := h.shape.isAdequate h.layout.room h.layout.top need
  have compacts := h.shape.shouldCompact need
  by_cases fits : need % 65536 ≤ free
  · left
    refine ⟨fits, ?_⟩
    rw [hasEnoughSpace, adequate, if_pos (by simpa using fits)]
  right
  by_cases enough : need ≤ garbage
  · left
    obtain ⟨page', done, repr, keeps⟩ := compact_spec h
    refine ⟨fits, enough, page', done, ?_, repr, keeps⟩
    rw [hasEnoughSpace, adequate, compacts, if_neg (by simpa using fits),
      if_pos (by simpa using enough)]
    simp only [done, bind, Option.bind]
  · right
    refine ⟨fits, enough, ?_⟩
    rw [hasEnoughSpace, adequate, compacts, if_neg (by simpa using fits),
      if_neg (by simpa using enough)]

omit [c.Lawful] in
theorem insertElement_noRoom (small : need + 4 < 65536)
    (full : floor < headerSize + 4 * (cells.length + 1) + need) (clean : garbage < need + 4) :
    insertElement c insertSlot page need e = some (false, updateCRC page) := by
  apply insertElement_refused
  · rw [h.shape.isAdequate h.layout.room h.layout.top, decide_eq_false_iff_not, slotSize,
      Nat.mod_eq_of_lt small]
    omega
  · rw [h.shape.shouldCompact, decide_eq_false_iff_not, slotSize]
    omega

/-- With too little room but enough garbage, `InsertElement` goes on from the compacted
page. -/
theorem insertElement_packs (full : floor < headerSize + 4 * (cells.length + 1) + need)
    (enough : need + 4 ≤ garbage) (room : need + 4 ≤ packedSpace c (elements cells)) :
    ∃ page', compact c page = some page' ∧
      Repr c page' (packed c 4096 (live cells)) (4096 - dataSize c (elements cells)) 0 ∧
      Keeps page page' ∧
      headerSize + 4 * ((packed c 4096 (live cells)).length + 1) + need ≤
        4096 - dataSize c (elements cells) ∧
      insertElement c insertSlot page need e = insertElement c insertSlot page' need e := by
  obtain ⟨page', done, repr, keeps⟩ := compact_spec h
  have liveCount : (live cells).length = (elements cells).length := by
    rw [← live_map_snd, List.length_map]
  have bounded := h.shape.garbage_lt
  simp only [packedSpace] at room
  have packedRoom : headerSize + 4 * ((packed c 4096 (live cells)).length + 1) + need ≤
      4096 - dataSize c (elements cells) := by
    rw [length_packed, liveCount]
    omega
  refine ⟨page', done, repr, keeps, packedRoom, ?_⟩
  apply insertElement_compacted _ _ done
  · rw [repr.shape.isAdequate repr.layout.room repr.layout.top, decide_eq_true_eq, slotSize]
    omega
  · rw [h.shape.isAdequate h.layout.room h.layout.top, decide_eq_false_iff_not, slotSize,
      Nat.mod_eq_of_lt (by omega)]
    omega
  · rw [h.shape.shouldCompact, decide_eq_true_eq, slotSize]
    omega

omit [c.Lawful] in
/-- An entry past the range of `uint16` is refused, or panics when its wrapped size looks
small enough. -/
theorem insertElement_wraps (size : width c e = need) (huge : 65536 ≤ need + 4) :
    insertElement c insertSlot page need e = none ∨
      insertElement c insertSlot page need e = some (false, updateCRC page) := by
  have bounded := h.shape.garbage_lt
  have top := h.layout.top
  cases adequate : isAdequate page (need + slotSize) with
  | true =>
    left
    have refused := appendElement_none page (c := c) (e := e) (show floor < _ by omega)
    simp only [insertElement, adequate, Bool.not_true, Bool.false_and, Bool.false_eq_true,
      if_false, if_true, bind, Option.bind, h.shape.freeSpaceEnd, refused]
  | false =>
    right
    apply insertElement_refused adequate
    rw [h.shape.shouldCompact, decide_eq_false_iff_not, slotSize]
    omega

end

/-- What an `InsertSlot` has to do for the insertion to succeed. -/
theorem insertElement_placed [c.Lawful] (insertSlot : Page → Slot → E → Option (Page × Nat))
    {page : Page} (page' : Page) {cells cells' : List (Cell E)} {floor garbage : Nat} {e : E}
    (h : Repr c page cells floor garbage)
    (room : headerSize + 4 * (cells.length + 1) + width c e ≤ floor)
    (slot : insertSlot (page.write (floor - width c e) (c.encodeElement e))
      ⟨width c e, floor - width c e⟩ e = some (page', headerSize + 4 * (cells.length + 1)))
    (layout : Layout c page' cells' (floor - width c e))
    (count : cells'.length = cells.length + 1)
    (same : ∀ i, i < headerSize → page'.byte i = page.byte i) :
    ∃ result, insertElement c insertSlot page (width c e) e = some (true, result) ∧
      Repr c result cells' (floor - width c e) garbage ∧ Keeps page result := by
  have top := h.layout.top
  have adequate : isAdequate page (width c e + slotSize) = true := by
    rw [h.shape.isAdequate h.layout.room top, decide_eq_true_eq]
    simp only [slotSize]
    omega
  have size : c.calculateElementSize e = width c e := by
    rw [ElementCodec.Lawful.size_eq]
    exact Nat.mod_eq_of_lt (show width c e < 65536 by omega)
  have closed : setIsPageFilled (setNumSlots (setFreeSpaceBegin (setFreeSpaceEnd page'
      (floor - width c e)) (headerSize + 4 * (cells.length + 1))) (cells.length + 1)) true =
      closeHeader page' (cells.length + 1) (floor - width c e) := by
    simp only [closeHeader, setNumSlots, setFreeSpaceBegin, setFreeSpaceEnd]
    rw [Buffer.putLE_comm page' _ _ (by decide), Buffer.putLE_comm (Buffer.putLE _ _ _ _) _ _
      (by decide), Buffer.putLE_comm page' _ _ (by decide)]
  have field : page'.getLE garbageSizeOffset 2 = garbage := by
    rw [← h.shape.1, Buffer.getLE, Buffer.getLE, Buffer.read_congr]
    intro i hi
    exact same _ (by simp only [headerSize, garbageSizeOffset]; omega)
  refine ⟨updateCRC (closeHeader page' (cells.length + 1) (floor - width c e)), ?_, ?_, ?_⟩
  · simp only [insertElement, adequate, Bool.not_true, Bool.false_and, Bool.false_eq_true, if_false,
      if_true, bind, Option.bind, h.shape.freeSpaceEnd, h.shape.numSlots,
      appendElement_eq page floor e (show width c e ≤ floor by omega) top, size, slot, closed]
  · apply Repr.updateCRC
    have away {i : Nat} (hi : 12 ≤ i) :
        (closeHeader page' (cells.length + 1) (floor - width c e)).byte i = page'.byte i :=
      byte_closeHeader _ _ _ (.inr hi)
    have low := layout.room
    simp only [headerSize] at low
    refine ⟨layout.congr (fun i lower _ => away ?_) fun i lower _ => away (by omega), ?_⟩
    · simp only [headerSize] at lower
      omega
    · rw [count, ← field]
      exact shape_closeHeader page' (by omega) (by omega)
  · apply Keeps.of_bytes
    intro i bounds
    rw [byte_updateCRC _ (by omega), byte_closeHeader _ _ _ (by omega),
      same i (by simp only [headerSize]; omega)]

end SlottedPage

end CambiumDB
