import CambiumDB.PageCodec.Insertion
import CambiumDB.PageCodec.LeafNode

/-!
# The leaf codec on represented pages

One specification for each routine of `LeafNodeCodec` that the tree calls: what it answers
and which cells, free-space end and garbage count the page has afterwards.
-/

namespace CambiumDB

open ByteBuffer HeaderConfig HeaderCodec SlotCodec SlottedPage

namespace LeafNodeCodec

@[simp] theorem key_elementCodec (e : LeafNodeElement) : elementCodec.key e = e.key := rfl

theorem width_eq (e : LeafNodeElement) :
    width elementCodec e = 2 + e.key.length + 2 + e.value.length := by
  simp [width, elementCodec, encodeElement]
  omega

theorem decode_encode (e : LeafNodeElement) (s : Slice) (small : (encodeElement e).length < 65536)
    (starts : s.StartsWith (encodeElement e)) : decodeElement s = some e := by
  simp only [encodeElement, List.length_append, length_leBytes] at small
  have keyLength : s.getLE 2 = some e.key.length := by
    have := Slice.StartsWith.getLE (s := s) 2 e.key.length
      (e.key ++ leBytes 2 e.value.length ++ e.value) (by simpa [encodeElement] using starts)
    rwa [Nat.mod_eq_of_lt (by omega)] at this
  obtain ⟨key, keySlice, keyBytes⟩ := Slice.StartsWith.sub (s := s) (leBytes 2 e.key.length) e.key
    (leBytes 2 e.value.length ++ e.value)
    (by simpa [encodeElement] using starts)
  obtain ⟨rest, dropped, restStarts, _⟩ := Slice.StartsWith.drop (s := s)
    (leBytes 2 e.key.length ++ e.key) (leBytes 2 e.value.length ++ e.value)
    (by simpa [encodeElement] using starts)
  have valueLength : rest.getLE 2 = some e.value.length := by
    have := restStarts.getLE 2 e.value.length _
    rwa [Nat.mod_eq_of_lt (by omega)] at this
  obtain ⟨value, valueSlice, valueBytes⟩ := Slice.StartsWith.sub (s := s)
    (leBytes 2 e.key.length ++ e.key ++ leBytes 2 e.value.length) e.value []
    (by simpa [encodeElement] using starts)
  simp only [List.length_append, length_leBytes] at keySlice dropped valueSlice
  have first : (2 + e.key.length) % 65536 = 2 + e.key.length := Nat.mod_eq_of_lt (by omega)
  have second : (2 + e.key.length + 2) % 65536 = 2 + e.key.length + 2 :=
    Nat.mod_eq_of_lt (by omega)
  have third : (2 + e.key.length + 2 + e.value.length) % 65536 =
      2 + e.key.length + 2 + e.value.length := Nat.mod_eq_of_lt (by omega)
  simp only [decodeElement, keyLength, bind, Option.bind, first, keySlice, dropped, valueLength,
    second, third, valueSlice, keyBytes, valueBytes]

instance : elementCodec.Lawful where
  decode_encode := decode_encode
  size_eq e := by
    simp only [elementCodec, calculateElementSize, encodeElement, List.length_append,
      length_leBytes]

abbrev LeafRepr (page : Page) (cells : List (Cell LeafNodeElement)) (floor garbage : Nat) : Prop :=
  Repr elementCodec page cells floor garbage

/-- Live keys in slot order, strictly increasing. -/
abbrev KeysSorted (cells : List (Cell LeafNodeElement)) : Prop :=
  SortedList.Sorted LeafNodeElement.key (elements cells)

theorem KeysSorted.le {cells : List (Cell LeafNodeElement)} (sorted : KeysSorted cells) :
    (elements cells).Pairwise fun a b => elementCodec.key a ≤ elementCodec.key b :=
  sorted.imp fun less => le_of_lt less

theorem findValue_of_getAll {page : Page} {entries : List (Slot × LeafNodeElement)}
    (read : getAllSlotsAndElements page = some entries) (key : Bytes) :
    findValue page key =
      some ((SortedList.lookup LeafNodeElement.key key (entries.map Prod.snd)).map
        LeafNodeElement.value) := by
  have test (e : LeafNodeElement) : (compareBytes e.key key == .eq) = decide (e.key = key) := by
    rw [Bool.eq_iff_iff, beq_iff_eq, compareBytes_eq_eq, decide_eq_true_eq]
  simp only [findValue, read, bind, Option.bind, test, SortedList.lookup, List.find?_map,
    Option.map_map, Function.comp_def]
  -- the list order brings its own decision procedure for equality of keys
  congr 3
  funext entry
  exact decide_eq_decide.mpr Iff.rfl

section
variable {page : Page} {cells : List (Cell LeafNodeElement)} {floor garbage : Nat}
  (h : LeafRepr page cells floor garbage)
include h

theorem getAll_eq : getAllSlotsAndElements page = some (live cells) :=
  h.layout.getAll h.shape.numSlots

theorem findValue_eq (key : Bytes) :
    findValue page key =
      some ((SortedList.lookup LeafNodeElement.key key (elements cells)).map
        LeafNodeElement.value) := by
  rw [findValue_of_getAll (getAll_eq h), live_map_snd]

/-- The space check: enough room, or a compaction, or neither. -/
theorem hasEnoughSpace_cases (key value : Bytes) :
    let need := 2 + key.length + 2 + value.length
    let free := floor - (headerSize + 4 * cells.length)
    (need % 65536 ≤ free ∧ hasEnoughSpaceToInsertElement page key value = some (true, page)) ∨
      (¬ need % 65536 ≤ free ∧ need ≤ garbage ∧ ∃ page', compact page = some page' ∧
        hasEnoughSpaceToInsertElement page key value = some (true, page') ∧
        LeafRepr page' (packed elementCodec 4096 (live cells))
          (4096 - dataSize elementCodec (elements cells)) 0 ∧ Keeps page page') ∨
      (¬ need % 65536 ≤ free ∧ ¬ need ≤ garbage ∧
        hasEnoughSpaceToInsertElement page key value = some (false, page)) :=
  hasEnoughSpace_outcome h (2 + key.length + 2 + value.length)

/-- With room for the element and its slot, `InsertElement` adds one cell at the cut. -/
theorem insertElement_room (key value : Bytes)
    (sorted : (elements cells).Pairwise fun a b => elementCodec.key a ≤ elementCodec.key b)
    (room : headerSize + 4 * (cells.length + 1) + (2 + key.length + 2 + value.length) ≤ floor) :
    ∃ page' pre post slot, CutAt elementCodec key cells pre post ∧
      slot.elementSize = 2 + key.length + 2 + value.length ∧
      insertElement page key value = some (true, page') ∧
      LeafRepr page' (pre ++ (slot, some ⟨key, value⟩) :: post)
        (floor - (2 + key.length + 2 + value.length)) garbage ∧ Keeps page page' := by
  have size : 2 + key.length + 2 + value.length = width elementCodec ⟨key, value⟩ :=
    (width_eq ⟨key, value⟩).symm
  obtain ⟨pre, post, cut⟩ := cutAt_of_sorted (c := elementCodec) key cells sorted
  rw [size] at room ⊢
  obtain ⟨page', shifted, layout, same⟩ := shiftSlots_placed
    (e := LeafNodeElement.mk key value) h cut room
  have count : cells.length = pre.length + post.length := by rw [cut.eq, List.length_append]
  have slotted : insertSlot (page.write (floor - width elementCodec ⟨key, value⟩)
      (elementCodec.encodeElement ⟨key, value⟩))
      ⟨width elementCodec ⟨key, value⟩, floor - width elementCodec ⟨key, value⟩⟩ key =
      some (page', headerSize + 4 * (cells.length + 1)) := by
    rw [insertSlot]
    exact shifted ▸ rfl
  obtain ⟨result, done, repr, keeps⟩ := insertElement_placed (c := elementCodec)
    (e := LeafNodeElement.mk key value)
    (fun page newSlot element => insertSlot page newSlot element.key) page' h room slotted layout
     (by simp only [List.length_append, List.length_cons]; omega) same
  refine ⟨result, pre, post, _, cut, rfl, ?_, repr, keeps⟩
  rw [insertElement, size]
  exact done

theorem insertElement_full {key value : Bytes}
    (small : 2 + key.length + 2 + value.length + 4 < 65536)
    (full : floor < headerSize + 4 * (cells.length + 1) + (2 + key.length + 2 + value.length))
    (clean : garbage < 2 + key.length + 2 + value.length + 4) :
    insertElement page key value = some (false, updateCRC page) :=
  insertElement_noRoom h small full clean

/-- With too little room but enough garbage, `InsertElement` compacts and then inserts. -/
theorem insertElement_garbage {key value : Bytes}
    (sorted : (elements cells).Pairwise fun a b => elementCodec.key a ≤ elementCodec.key b)
    (full : floor < headerSize + 4 * (cells.length + 1) + (2 + key.length + 2 + value.length))
    (enough : 2 + key.length + 2 + value.length + 4 ≤ garbage)
    (room : 2 + key.length + 2 + value.length + 4 ≤ packedSpace elementCodec (elements cells)) :
    ∃ page' pre post slot,
      CutAt elementCodec key (packed elementCodec 4096 (live cells)) pre post ∧
      slot.elementSize = 2 + key.length + 2 + value.length ∧
      insertElement page key value = some (true, page') ∧
      LeafRepr page' (pre ++ (slot, some ⟨key, value⟩) :: post)
        (4096 - dataSize elementCodec (elements cells) - (2 + key.length + 2 + value.length)) 0 ∧
      Keeps page page' := by
  obtain ⟨page', done, repr, keeps, packedRoom, same⟩ := insertElement_packs h
    (e := LeafNodeElement.mk key value) full enough room
  obtain ⟨result, pre, post, slot, cut, size, inserted, repr', keeps'⟩ :=
    insertElement_room repr key value
      (by rw [elements_packed, live_map_snd]; exact sorted) packedRoom
  refine ⟨result, pre, post, slot, cut, size, ?_, repr', keeps.trans keeps'⟩
  rw [← inserted]
  exact same

/-- An entry past the range of `uint16` is refused, or panics when its wrapped size looks
small enough. -/
theorem insertElement_huge {key value : Bytes}
    (huge : 65536 ≤ 2 + key.length + 2 + value.length + 4) :
    insertElement page key value = none ∨
      insertElement page key value = some (false, updateCRC page) :=
  insertElement_wraps h (width_eq ⟨key, value⟩) huge

end

/-! ### Operations on a live key -/

/-- The page after an element was appended below `floor` and the slot at `off` was pointed at it. -/
def grownPage (page : Page) (off floor garbage : Nat) (old new : LeafNodeElement) : Page :=
  let start := floor - width elementCodec new
  let page := HeaderCodec.setFreeSpaceEnd (page.write start (encodeElement new)) start
  let page := setElementSize (setElementPointer page off start) off (width elementCodec new)
  updateCRC (setGarbageSize page ((garbage + width elementCodec old) % 65536))

theorem byte_grownPage (page : Page) {off floor garbage i : Nat} (old new : LeafNodeElement)
    (lower : 4 ≤ i) (header : i < 10 ∨ 14 ≤ i) (outside : i < off ∨ off + 4 ≤ i) :
    (grownPage page off floor garbage old new).byte i =
      (page.write (floor - width elementCodec new) (encodeElement new)).byte i := by
  rw [grownPage, byte_updateCRC _ lower, byte_setGarbageSize _ _ (by omega), setElementSize,
    setElementPointer, HeaderCodec.setFreeSpaceEnd,
    Buffer.byte_putLE_outside _ _ _ _ (by simp only [elementSizeOffset]; omega),
    Buffer.byte_putLE_outside _ _ _ _ (by simp only [elementPointerOffset]; omega),
    Buffer.byte_putLE_outside _ _ _ _ (by simp only [freeSpaceEndOffset]; omega)]

section
variable {page : Page} {pre post : List (Cell LeafNodeElement)} {slot : Slot}
  {e : LeafNodeElement} {floor garbage : Nat}
  (h : LeafRepr page (pre ++ (slot, some e) :: post) floor garbage)
  (below : ∀ x ∈ elements pre, x.key < e.key)
include h below

theorem linearSearch_live : linearSearch elementCodec page e.key =
    some (.equal (headerSize + 4 * pre.length) slot) := by
  rw [h.layout.linearSearch h.shape.numSlots,
    searchCells_equal (c := elementCodec) e.key below rfl]

/-- Deleting marks the slot and counts its claimed size and the slot itself as garbage. -/
theorem deleteElement_live :
    ∃ page', deleteElement page e.key = some (true, page') ∧
      LeafRepr page' (pre ++ (⟨slot.elementSize, deletedElementPointerVal⟩, none) :: post) floor
        ((garbage + (slot.elementSize + slotSize)) % 65536) ∧ Keeps page page' := by
  set off := headerSize + 4 * pre.length with offEq
  have room := h.layout.room
  have top := h.layout.top
  simp only [List.length_append, List.length_cons, headerSize] at room
  simp only [headerSize] at offEq
  have away {i : Nat} (outside : i < off + 2 ∨ off + 4 ≤ i) :
      (setElementPointer page off deletedElementPointerVal).byte i = page.byte i :=
    Buffer.byte_putLE_outside _ _ _ _ (by simp only [elementPointerOffset]; omega)
  have shape : Shape (setElementPointer page off deletedElementPointerVal)
      (pre ++ (slot, some e) :: post).length floor garbage :=
    h.shape.congr fun i _ upper => away (.inl (by omega))
  have marked : decodeSlot (setElementPointer page off deletedElementPointerVal) off =
      ⟨slot.elementSize, deletedElementPointerVal⟩ := by
    have stored := h.layout.slots
    simp only [List.map_append, List.map_cons, slotsAt_append, List.length_map, SlotsAt] at stored
    have size : (setElementPointer page off deletedElementPointerVal).getLE off 2 =
        slot.elementSize := by
      rw [setElementPointer, Buffer.getLE_putLE_outside _ _ _ _ (by simp [elementPointerOffset]),
        ← stored.2.1]
      rfl
    have pointer : (setElementPointer page off deletedElementPointerVal).getLE (off + 2) 2 =
        deletedElementPointerVal := by
      rw [setElementPointer, Buffer.getLE_putLE_same _ _ _ _
        (by simp only [elementPointerOffset]; omega)]
      rfl
    simp only [decodeSlot, elementSizeOffset, elementPointerOffset, Nat.add_zero, size, pointer]
  have layout : Layout elementCodec (setElementPointer page off deletedElementPointerVal)
      (pre ++ (⟨slot.elementSize, deletedElementPointerVal⟩, none) :: post) floor := by
    refine h.layout.replace h.layout.room top marked (fun i _ _ outside => away (by omega)) rfl
      (fun x member => ?_) fun x _ a b left => by cases left
    refine (h.layout.ok x ?_).congr (le_refl _) fun i lower _ => away (.inr (by omega))
    rcases List.mem_append.mp member with front | back
    · simp [front]
    · simp [back]
  have count : (pre ++ (slot, some e) :: post).length =
      (pre ++ ((⟨slot.elementSize, deletedElementPointerVal⟩ : Slot),
        (none : Option LeafNodeElement)) :: post).length := by
    simp
  refine ⟨updateCRC (setGarbageSize (setElementPointer page off deletedElementPointerVal)
    ((garbage + (slot.elementSize + slotSize)) % 65536)), ?_, ?_, ?_⟩
  · simp only [deleteElement, SlottedPage.deleteElement, linearSearch_live h below, bind,
      Option.bind, ← offEq, shape.garbageSize]
  · apply Repr.updateCRC
    refine ⟨layout.congr (fun i lower _ => ?_) fun i lower _ => ?_, ?_⟩
    · exact byte_setGarbageSize _ _ (.inr (by simp only [headerSize] at lower; omega))
    · exact byte_setGarbageSize _ _ (.inr (by omega))
    · rw [← count]
      exact shape.setGarbageSize (by simp) (Nat.mod_lt _ (by decide))
  · apply Keeps.of_bytes
    intro i bounds
    rw [byte_updateCRC _ (by omega), byte_setGarbageSize _ _ (by omega), away (by omega)]

omit below in
/-- The value field of an element that stays in place. -/
theorem setValueInElement_eq {value : Bytes} (shorter : value.length ≤ e.value.length) :
    setValueInElement page slot value = some (page.write (slot.elementPointer + 2 + e.key.length)
      (leBytes 2 value.length ++ value)) := by
  have placed : Placed elementCodec page floor slot e := h.layout.ok (slot, some e) (by simp)
  have widths := width_eq e
  have upper := placed.upper
  have fits := placed.fits
  have starts : (region page slot).StartsWith (encodeElement e) := placed.startsWith
  have keySize : (region page slot).getLE 2 = some e.key.length := by
    have := Slice.StartsWith.getLE (s := region page slot) 2 e.key.length
      (e.key ++ leBytes 2 e.value.length ++ e.value) (by simpa [encodeElement] using starts)
    rwa [Nat.mod_eq_of_lt (by omega)] at this
  obtain ⟨field, dropped, fieldStarts, _⟩ := Slice.StartsWith.drop (s := region page slot)
    (leBytes 2 e.key.length ++ e.key) (leBytes 2 e.value.length ++ e.value)
    (by simpa [encodeElement] using starts)
  have fieldValue := fieldStarts.getLE 2 e.value.length _
  simp only [List.length_append, length_leBytes] at dropped
  -- the copy is not cut off, since the region still has room for the old value
  have whole : value.take (slot.elementSize - (2 + e.key.length + 2)) = value :=
    List.take_of_length_le (by omega)
  have joined := Buffer.write_append page (slot.elementPointer + 2 + e.key.length)
    (leBytes 2 value.length) value
  rw [length_leBytes] at joined
  have start : slot.elementPointer + (2 + e.key.length) = slot.elementPointer + 2 + e.key.length :=
    by omega
  simp only [setValueInElement, placed.slice, bind, Option.bind, keySize, dropped, fieldValue,
    start, Buffer.putLE]
  rw [show (region page slot).len = slot.elementSize from rfl, whole, joined]

/-- A value that is not longer is written in place. The slot keeps the old size. -/
theorem setValue_shorter {value : Bytes} (shorter : value.length ≤ e.value.length) :
    ∃ page', setValue page e.key value = some page' ∧
      LeafRepr page' (pre ++ (slot, some ⟨e.key, value⟩) :: post) floor
        ((garbage + (e.value.length - value.length)) % 65536) ∧ Keeps page page' := by
  have placed : Placed elementCodec page floor slot e := h.layout.ok (slot, some e) (by simp)
  have room := h.layout.room
  have top := h.layout.top
  simp only [headerSize] at room
  have widths := width_eq e
  have widths' : width elementCodec ⟨e.key, value⟩ = 2 + e.key.length + 2 + value.length :=
    width_eq ⟨e.key, value⟩
  have lower := placed.lower
  have upper := placed.upper
  set start := slot.elementPointer + 2 + e.key.length with startEq
  set written := page.write start (leBytes 2 value.length ++ value) with writtenEq
  have away {i : Nat} (outside : i < start ∨ start + 2 + value.length ≤ i) :
      written.byte i = page.byte i := by
    apply Buffer.byte_write_outside
    rw [List.length_append, length_leBytes]
    omega
  have shape : Shape written (pre ++ (slot, some e) :: post).length floor garbage :=
    h.shape.congr fun i _ below => away (.inl (by omega))
  have bytes : written.read slot.elementPointer (width elementCodec ⟨e.key, value⟩) =
      elementCodec.encodeElement ⟨e.key, value⟩ := by
    have front : page.read slot.elementPointer (2 + e.key.length) =
        leBytes 2 e.key.length ++ e.key := by
      rw [← Buffer.read_take page slot.elementPointer (2 + e.key.length) (width elementCodec e)
        (by omega), placed.bytes]
      simp only [elementCodec, encodeElement, List.append_assoc]
      rw [← List.append_assoc]
      exact List.take_left' (by simp)
    have back := Buffer.read_write_same page start (leBytes 2 value.length ++ value)
      (by rw [List.length_append, length_leBytes]; omega)
    rw [List.length_append, length_leBytes] at back
    rw [widths', Nat.add_assoc (2 + e.key.length), Buffer.read_append,
      Buffer.read_congr fun i hi => away (i := slot.elementPointer + i) (.inl (by omega)), front,
      ← Nat.add_assoc, back]
    simp [elementCodec, encodeElement]
  have layout : Layout elementCodec written (pre ++ (slot, some ⟨e.key, value⟩) :: post) floor :=
    h.layout.rewrite (by omega) bytes fun i outside => away (by omega)
  have count : (pre ++ (slot, some e) :: post).length =
      (pre ++ (slot, some (LeafNodeElement.mk e.key value)) :: post).length := by
    simp
  refine ⟨updateCRC (setGarbageSize written
    ((garbage + (e.value.length - value.length)) % 65536)), ?_, ?_, ?_⟩
  · simp only [setValue, linearSearch_live h below, bind, Option.bind, placed.readElement,
      h.shape.garbageSize, if_pos shorter, setValueInElement_eq h shorter, startEq, writtenEq]
  · apply Repr.updateCRC
    refine ⟨layout.congr (fun i low _ => ?_) fun i low _ => ?_, ?_⟩
    · exact byte_setGarbageSize _ _ (.inr (by simp only [headerSize] at low; omega))
    · exact byte_setGarbageSize _ _ (.inr (by omega))
    · rw [← count]
      exact shape.setGarbageSize (by simp) (Nat.mod_lt _ (by decide))
  · apply Keeps.of_bytes
    intro i bounds
    rw [byte_updateCRC _ (by omega), byte_setGarbageSize _ _ (by omega), away (.inl (by omega))]

omit h below in
/-- Where `linearSearch` stops, at the key or at a greater one. -/
def StopsAt (page : Page) (key : Bytes) (off : Nat) (slot : Slot) : Prop :=
  linearSearch elementCodec page key = some (.equal off slot) ∨
    linearSearch elementCodec page key = some (.greater off slot)

theorem stopsAt_live : StopsAt page e.key (headerSize + 4 * pre.length) slot :=
  .inl (linearSearch_live h below)

/-- A value that is not longer is written over the value that the search stopped at. -/
theorem setValue_inPlace_at {key value : Bytes}
    (stops : StopsAt page key (headerSize + 4 * pre.length) slot)
    (shorter : value.length ≤ e.value.length) : setValue page key value = setValue page e.key value := by
  have placed : Placed elementCodec page floor slot e := h.layout.ok (slot, some e) (by simp)
  rcases stops with search | search <;>
  simp only [setValue, search, linearSearch_live h below, bind, Option.bind, placed.readElement,
    if_pos shorter]

omit below in
/-- A longer value that does not fit below the free space's end panics. -/
theorem setValue_huge_at {key value : Bytes}
    (stops : StopsAt page key (headerSize + 4 * pre.length) slot)
    (longer : e.value.length < value.length)
    (huge : floor < 2 + key.length + 2 + value.length) : setValue page key value = none := by
  have placed : Placed elementCodec page floor slot e := h.layout.ok (slot, some e) (by simp)
  have width := width_eq ⟨key, value⟩
  simp only at width
  have refused := appendElement_none page (c := elementCodec) (e := ⟨key, value⟩)
    (show floor < _ by omega)
  rcases stops with search | search <;>
  simp only [setValue, search, bind, Option.bind, placed.readElement, h.shape.freeSpaceEnd,
    if_neg (not_le.mpr longer), refused]

theorem setValue_huge {value : Bytes} (longer : e.value.length < value.length)
    (huge : floor < 2 + e.key.length + 2 + value.length) : setValue page e.key value = none :=
  setValue_huge_at h (stopsAt_live h below) longer huge

omit below in
/-- A longer value is appended even where its element runs into the slots or the header. -/
theorem setValue_grown_at {key value : Bytes}
    (stops : StopsAt page key (headerSize + 4 * pre.length) slot)
    (longer : e.value.length < value.length)
    (fits : 2 + key.length + 2 + value.length ≤ floor) :
    setValue page key value = some (grownPage page (headerSize + 4 * pre.length) floor garbage e
      ⟨key, value⟩) := by
  have placed : Placed elementCodec page floor slot e := h.layout.ok (slot, some e) (by simp)
  have top := h.layout.top
  have new : width elementCodec ⟨key, value⟩ = 2 + key.length + 2 + value.length :=
    width_eq ⟨key, value⟩
  have upper := placed.upper
  have sizes (x : LeafNodeElement) (small : width elementCodec x ≤ 4096) :
      calculateElementSize x = width elementCodec x := by
    rw [width_eq] at small ⊢
    exact Nat.mod_eq_of_lt (by omega)
  have append := appendElement_eq (c := elementCodec) page floor ⟨key, value⟩ (by omega) top
  rcases stops with search | search <;>
  (simp only [setValue, search, bind, Option.bind, placed.readElement, h.shape.garbageSize,
      h.shape.freeSpaceEnd, if_neg (not_le.mpr longer), append, sizes e (by omega),
      sizes ⟨key, value⟩ (show width elementCodec _ ≤ 4096 by omega)]
   rfl)

theorem setValue_grown {value : Bytes} (longer : e.value.length < value.length)
    (fits : 2 + e.key.length + 2 + value.length ≤ floor) :
    setValue page e.key value = some (grownPage page (headerSize + 4 * pre.length) floor garbage e
      ⟨e.key, value⟩) :=
  setValue_grown_at h (stopsAt_live h below) longer fits

omit below in
/-- With room for it, the new element takes the place of the old one. -/
theorem repr_grownPage (new : LeafNodeElement)
    (fits : headerSize + 4 * (pre ++ (slot, some e) :: post).length + width elementCodec new ≤
      floor) :
    LeafRepr (grownPage page (headerSize + 4 * pre.length) floor garbage e new)
        (pre ++ (⟨width elementCodec new, floor - width elementCodec new⟩, some new) :: post)
        (floor - width elementCodec new) ((garbage + width elementCodec e) % 65536) ∧
      Keeps page (grownPage page (headerSize + 4 * pre.length) floor garbage e new) := by
  have top := h.layout.top
  have base : headerSize = 32 := rfl
  set w := width elementCodec new with wEq
  set off := headerSize + 4 * pre.length with offEq
  have inside : off + 4 ≤ floor - w := by
    simp only [List.length_append, List.length_cons] at fits
    omega
  -- the appended bytes, then the two fields of the slot
  set appended := page.write (floor - w) (elementCodec.encodeElement new)
  set pointed := setElementSize (setElementPointer (HeaderCodec.setFreeSpaceEnd appended (floor - w))
    off (floor - w)) off w with pointedEq
  have length : (elementCodec.encodeElement new).length = w := rfl
  have beyond {i : Nat} (hi : 12 ≤ i) (outside : i < off ∨ off + 4 ≤ i) :
      pointed.byte i = appended.byte i := by
    rw [pointedEq, setElementSize, setElementPointer, HeaderCodec.setFreeSpaceEnd,
      Buffer.byte_putLE_outside _ _ _ _ (by simp only [elementSizeOffset]; omega),
      Buffer.byte_putLE_outside _ _ _ _ (by simp only [elementPointerOffset]; omega),
      Buffer.byte_putLE_outside _ _ _ _ (by simp only [freeSpaceEndOffset]; omega)]
  have away {i : Nat} (outside : i < floor - w ∨ floor ≤ i) : appended.byte i = page.byte i :=
    Buffer.byte_write_outside _ _ _ (by rw [length]; omega)
  have decoded : decodeSlot pointed off = ⟨w, floor - w⟩ := by
    have size : pointed.getLE off 2 = w := by
      rw [pointedEq, setElementSize, elementSizeOffset, Nat.add_zero,
        Buffer.getLE_putLE_same _ _ _ _ (by omega)]
      exact Nat.mod_eq_of_lt (by omega)
    have pointer : pointed.getLE (off + 2) 2 = floor - w := by
      rw [pointedEq, setElementSize, setElementPointer, Buffer.getLE_putLE_outside _ _ _ _
        (by simp only [elementSizeOffset]; omega),
        Buffer.getLE_putLE_same _ _ _ _ (by simp only [elementPointerOffset]; omega)]
      exact Nat.mod_eq_of_lt (by omega)
    simp only [decodeSlot, elementSizeOffset, elementPointerOffset, Nat.add_zero, size, pointer]
  have bytes : pointed.read (floor - w) w = elementCodec.encodeElement new := by
    have stored := Buffer.read_write_same page (floor - w)
      (elementCodec.encodeElement new) (by rw [length]; omega)
    rw [length] at stored
    exact Eq.trans (Buffer.read_congr fun i _ => beyond (by omega) (.inr (by omega))) stored
  have layout : Layout elementCodec pointed
      (pre ++ (⟨w, floor - w⟩, some new) :: post) (floor - w) := by
    have member {x : Cell LeafNodeElement} (hx : x ∈ pre ++ post) :
        x ∈ pre ++ (slot, some e) :: post := by
      rcases List.mem_append.mp hx with front | back
      · simp [front]
      · simp [back]
    refine h.layout.replace (by omega) (by omega) decoded (fun i low high outside => ?_) ?_ ?_ ?_
    · rw [beyond (by omega) outside, away (.inl (by omega))]
    · exact ⟨le_refl _, by simp only; omega, bytes, le_refl _, by simp only; omega⟩
    · intro x hx
      refine (h.layout.ok x (member hx)).congr (by omega) fun i low _ => ?_
      rw [beyond (by omega) (.inr (by omega)), away (.inr low)]
    · intro x hx a b left right
      cases left
      have ok := h.layout.ok x (member hx)
      rw [CellOk, right] at ok
      have := ok.lower
      exact .inl (by simp only; omega)
  have shape : Shape pointed (pre ++ (slot, some e) :: post).length (floor - w) garbage := by
    have appendedShape : Shape appended (pre ++ (slot, some e) :: post).length floor garbage :=
      h.shape.congr fun i _ high => away (.inl (by omega))
    refine (appendedShape.setFreeSpaceEnd (by simp) (by omega)).congr fun i _ high => ?_
    rw [pointedEq, setElementSize, setElementPointer,
      Buffer.byte_putLE_outside _ _ _ _ (by simp only [elementSizeOffset]; omega),
      Buffer.byte_putLE_outside _ _ _ _ (by simp only [elementPointerOffset]; omega)]
  have count : (pre ++ (slot, some e) :: post).length =
      (pre ++ ((⟨w, floor - w⟩ : Slot), some new) :: post).length := by
    simp
  constructor
  · apply Repr.updateCRC
    refine ⟨layout.congr (fun i low _ => ?_) fun i low _ => ?_, ?_⟩
    · exact byte_setGarbageSize _ _ (.inr (by omega))
    · exact byte_setGarbageSize _ _ (.inr (by omega))
    · rw [← count]
      exact shape.setGarbageSize (by simp) (Nat.mod_lt _ (by decide))
  · apply Keeps.of_bytes
    intro i bounds
    exact (byte_grownPage page e new (by omega) (by omega) (by omega)).trans
      (away (.inl (by omega)))

/-- A longer value is appended as a new element and the slot is pointed at it. -/
theorem setValue_longer {value : Bytes} (longer : e.value.length < value.length)
    (fits : headerSize + 4 * (pre ++ (slot, some e) :: post).length +
      (2 + e.key.length + 2 + value.length) ≤ floor) :
    ∃ page' slot', slot'.elementSize = 2 + e.key.length + 2 + value.length ∧
      setValue page e.key value = some page' ∧
      LeafRepr page' (pre ++ (slot', some ⟨e.key, value⟩) :: post)
        (floor - (2 + e.key.length + 2 + value.length))
        ((garbage + width elementCodec e) % 65536) ∧ Keeps page page' := by
  have size : width elementCodec ⟨e.key, value⟩ = 2 + e.key.length + 2 + value.length :=
    width_eq ⟨e.key, value⟩
  obtain ⟨repr, keeps⟩ := repr_grownPage h ⟨e.key, value⟩ (size ▸ fits)
  rw [size] at repr
  exact ⟨_, _, rfl, setValue_grown h below longer (by omega), repr, keeps⟩

end

end LeafNodeCodec

end CambiumDB
