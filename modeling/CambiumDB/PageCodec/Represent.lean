import CambiumDB.PageCodec.Layout

/-!
# Rewriting a slotted page

`Repr` adds the header to a layout. The routines that write a page are then described by
what they do to the cells, to the end of the free space and to the garbage count; the
bytes they do not own (type, next leaf, LSN) are kept.
-/

namespace CambiumDB

open ByteBuffer HeaderConfig HeaderCodec SlotCodec

namespace HeaderCodec

/-- The header describes `n` slots, free space up to `floor` and `garbage` bytes. On a page
that was never filled the garbage field is zero, since no write sets it before the flag. -/
def Shape (page : Page) (n floor garbage : Nat) : Prop :=
  page.getLE garbageSizeOffset 2 = garbage ∧
    (page.byte isPageFilledOffset = pageEmptyType ∧ n = 0 ∧ floor = 4096 ∧ garbage = 0 ∨
      page.byte isPageFilledOffset ≠ pageEmptyType ∧ page.getLE numSlotsOffset 2 = n ∧
        page.getLE freeSpaceBeginOffset 2 = headerSize + 4 * n ∧
        page.getLE freeSpaceEndOffset 2 = floor)

/-- Nothing but the slotted part changed: type, next leaf and LSN are as before. -/
def Keeps (page page' : Page) : Prop :=
  page'.byte nodeTypeOffset = page.byte nodeTypeOffset ∧
    ∀ i, nextLeafNodePageIdOffset ≤ i → i < headerSize → page'.byte i = page.byte i

section
variable {page : Page} {n floor garbage : Nat} (h : Shape page n floor garbage)
include h

theorem Shape.numSlots : (decodePageHeader page).numSlots = n := by
  obtain ⟨_, ⟨blank, rfl, _⟩ | ⟨filled, count, _⟩⟩ := h
  · simp [decodePageHeader, blank]
  · simp [decodePageHeader, filled, count]

theorem Shape.freeSpaceBegin : (decodePageHeader page).freeSpaceBegin = headerSize + 4 * n := by
  obtain ⟨_, ⟨blank, rfl, _⟩ | ⟨filled, _, start, _⟩⟩ := h
  · simp [decodePageHeader, blank]
  · simp [decodePageHeader, filled, start]

theorem Shape.freeSpaceEnd : (decodePageHeader page).freeSpaceEnd = floor := by
  obtain ⟨_, ⟨blank, _, rfl, _⟩ | ⟨filled, _, _, stop⟩⟩ := h
  · simp [decodePageHeader, blank]
  · simp [decodePageHeader, filled, stop]

theorem Shape.garbageSize : (decodePageHeader page).garbageSize = garbage := by
  obtain ⟨count, ⟨blank, _, _, rfl⟩ | ⟨filled, _⟩⟩ := h
  · simp [decodePageHeader, blank]
  · simp [decodePageHeader, filled, count]

theorem Shape.garbage_lt : garbage < 65536 := by
  rw [← h.1]
  exact Buffer.getLE_lt page _ 2

/-- The shape is determined by bytes 5 to 13. -/
theorem Shape.congr {page' : Page} (same : ∀ i, 5 ≤ i → i < 14 → page'.byte i = page.byte i) :
    Shape page' n floor garbage := by
  have field (off : Nat) (lower : 5 ≤ off) (upper : off ≤ 12) :
      page'.getLE off 2 = page.getLE off 2 := by
    rw [Buffer.getLE, Buffer.getLE, Buffer.read_congr]
    intro i hi
    exact same _ (by omega) (by omega)
  rw [Shape, field 12 (by omega) (by omega), field 6 (by omega) (by omega),
    field 8 (by omega) (by omega), field 10 (by omega) (by omega), same 5 (by omega) (by omega)]
  exact h

theorem Shape.isAdequate (room : headerSize + 4 * n ≤ floor) (top : floor ≤ 4096) (need : Nat) :
    isAdequate page need = decide (need % 65536 ≤ floor - (headerSize + 4 * n)) := by
  have space : (floor + 65536 - (headerSize + 4 * n)) % 65536 = floor - (headerSize + 4 * n) := by
    omega
  simp only [HeaderCodec.isAdequate, h.freeSpaceEnd, h.freeSpaceBegin, space]

theorem Shape.shouldCompact (need : Nat) : shouldCompact page need = decide (need ≤ garbage) := by
  rw [HeaderCodec.shouldCompact, h.garbageSize]

end

theorem Keeps.refl (page : Page) : Keeps page page := ⟨rfl, fun _ _ _ => rfl⟩

theorem Keeps.trans {a b d : Page} (first : Keeps a b) (second : Keeps b d) : Keeps a d :=
  ⟨second.1.trans first.1, fun i lower upper =>
    (second.2 i lower upper).trans (first.2 i lower upper)⟩

theorem Keeps.of_bytes {page page' : Page}
    (same : ∀ i, (i = 4 ∨ 16 ≤ i ∧ i < 32) → page'.byte i = page.byte i) : Keeps page page' :=
  ⟨same 4 (.inl rfl), fun i lower upper => same i (.inr ⟨lower, upper⟩)⟩

theorem Keeps.getLSN {page page' : Page} (h : Keeps page page') : getLSN page' = getLSN page := by
  rw [HeaderCodec.getLSN, HeaderCodec.getLSN, Buffer.getLE, Buffer.getLE, Buffer.read_congr]
  intro i hi
  exact h.2 _ (by simp only [nextLeafNodePageIdOffset, lsnOffset]; omega)
    (by simp only [headerSize, lsnOffset]; omega)

theorem Keeps.getNext {page page' : Page} (h : Keeps page page') :
    getNextLeafNodePageId page' = getNextLeafNodePageId page := by
  rw [getNextLeafNodePageId, getNextLeafNodePageId, Buffer.getLE, Buffer.getLE, Buffer.read_congr]
  intro i hi
  exact h.2 _ (by simp only [nextLeafNodePageIdOffset]; omega)
    (by simp only [headerSize, nextLeafNodePageIdOffset]; omega)

/-- The header writes that close `PutAllSlotsAndElements` and `InsertElement`. -/
def closeHeader (page : Page) (n floor : Nat) : Page :=
  setIsPageFilled (setFreeSpaceEnd (setFreeSpaceBegin (setNumSlots page n) (headerSize + 4 * n))
    floor) true

theorem byte_closeHeader (page : Page) (n floor : Nat) {i : Nat} (h : i < 5 ∨ 12 ≤ i) :
    (closeHeader page n floor).byte i = page.byte i := by
  simp only [closeHeader, setIsPageFilled, setFreeSpaceEnd, setFreeSpaceBegin, setNumSlots,
    isPageFilledOffset, freeSpaceEndOffset, freeSpaceBeginOffset, numSlotsOffset]
  rw [Buffer.byte_setByte_outside _ _ _ (by omega), Buffer.byte_putLE_outside _ _ _ _ (by omega),
    Buffer.byte_putLE_outside _ _ _ _ (by omega), Buffer.byte_putLE_outside _ _ _ _ (by omega)]

theorem shape_closeHeader (page : Page) {n floor : Nat} (room : headerSize + 4 * n ≤ floor)
    (top : floor ≤ 4096) :
    Shape (closeHeader page n floor) n floor (page.getLE garbageSizeOffset 2) := by
  have small : n < 65536 := by omega
  refine ⟨?_, .inr ⟨?_, ?_, ?_, ?_⟩⟩
  · rw [Buffer.getLE, Buffer.getLE, Buffer.read_congr]
    intro i _
    exact byte_closeHeader page n floor (by simp only [garbageSizeOffset]; omega)
  · rw [closeHeader, setIsPageFilled, Buffer.byte_setByte_same _ _ _ (by decide)]
    decide
  all_goals
    simp only [closeHeader, setIsPageFilled, setFreeSpaceEnd, setFreeSpaceBegin, setNumSlots,
      isPageFilledOffset, freeSpaceEndOffset, freeSpaceBeginOffset, numSlotsOffset]
    rw [Buffer.getLE_setByte_outside _ _ _ (by omega)]
  · rw [Buffer.getLE_putLE_outside _ _ _ _ (by omega), Buffer.getLE_putLE_outside _ _ _ _ (by omega),
      Buffer.getLE_putLE_same _ _ _ _ (by omega)]
    exact Nat.mod_eq_of_lt small
  · rw [Buffer.getLE_putLE_outside _ _ _ _ (by omega), Buffer.getLE_putLE_same _ _ _ _ (by omega)]
    exact Nat.mod_eq_of_lt (by omega)
  · rw [Buffer.getLE_putLE_same _ _ _ _ (by omega)]
    exact Nat.mod_eq_of_lt (by omega)

/-- On a page with slots the garbage field can be set alone. -/
theorem Shape.setGarbageSize {page : Page} {n floor garbage garbage' : Nat}
    (h : Shape page n floor garbage) (filled : 0 < n) (small : garbage' < 65536) :
    Shape (setGarbageSize page garbage') n floor garbage' := by
  have kept (off : Nat) (below : off + 2 ≤ 12) :
      (HeaderCodec.setGarbageSize page garbage').getLE off 2 = page.getLE off 2 :=
    Buffer.getLE_putLE_outside _ _ _ _ (.inl below)
  have flag : (HeaderCodec.setGarbageSize page garbage').byte isPageFilledOffset =
      page.byte isPageFilledOffset := Buffer.byte_putLE_outside _ _ _ _ (by decide)
  refine ⟨?_, .inr ?_⟩
  · rw [HeaderCodec.setGarbageSize, Buffer.getLE_putLE_same _ _ _ _ (by decide)]
    exact Nat.mod_eq_of_lt small
  · rw [kept 6 (by omega), kept 8 (by omega), kept 10 (by omega), flag]
    rcases h.2 with ⟨_, rfl, _⟩ | fields
    · cases filled
    · exact fields

theorem Shape.setFreeSpaceEnd {page : Page} {n floor floor' garbage : Nat}
    (h : Shape page n floor garbage) (filled : 0 < n) (small : floor' < 65536) :
    Shape (setFreeSpaceEnd page floor') n floor' garbage := by
  have kept (off : Nat) (apart : off + 2 ≤ 10 ∨ 12 ≤ off) :
      (HeaderCodec.setFreeSpaceEnd page floor').getLE off 2 = page.getLE off 2 :=
    Buffer.getLE_putLE_outside _ _ _ _ (by simp only [freeSpaceEndOffset]; omega)
  have flag : (HeaderCodec.setFreeSpaceEnd page floor').byte isPageFilledOffset =
      page.byte isPageFilledOffset := Buffer.byte_putLE_outside _ _ _ _ (by decide)
  have stop : (HeaderCodec.setFreeSpaceEnd page floor').getLE freeSpaceEndOffset 2 = floor' := by
    rw [HeaderCodec.setFreeSpaceEnd, Buffer.getLE_putLE_same _ _ _ _ (by decide)]
    exact Nat.mod_eq_of_lt small
  refine ⟨?_, .inr ?_⟩
  · rw [kept 12 (by omega)]
    exact h.1
  · rw [kept 6 (by omega), kept 8 (by omega), stop, flag]
    rcases h.2 with ⟨_, rfl, _⟩ | ⟨set, count, start, _⟩
    · cases filled
    · exact ⟨set, count, start, rfl⟩

theorem byte_updateCRC (page : Page) {i : Nat} (h : 4 ≤ i) :
    (updateCRC page).byte i = page.byte i :=
  Buffer.byte_putLE_outside _ _ _ _ (by simp only [crcOffset]; omega)

theorem byte_setGarbageSize (page : Page) (g : Nat) {i : Nat} (h : i < 12 ∨ 14 ≤ i) :
    (setGarbageSize page g).byte i = page.byte i :=
  Buffer.byte_putLE_outside _ _ _ _ (by simp only [garbageSizeOffset]; omega)

theorem getLE_setGarbageSize (page : Page) {g : Nat} (small : g < 65536) :
    (setGarbageSize page g).getLE garbageSizeOffset 2 = g := by
  rw [setGarbageSize, Buffer.getLE_putLE_same _ _ _ _ (by decide)]
  exact Nat.mod_eq_of_lt small

end HeaderCodec

namespace SlottedPage

variable {E : Type} (c : ElementCodec E)

/-- The page holds `cells`, its free space ends at `floor` and its header counts `garbage`
bytes of garbage. -/
structure Repr (page : Page) (cells : List (Cell E)) (floor garbage : Nat) : Prop where
  layout : Layout c page cells floor
  shape : Shape page cells.length floor garbage

/-- The bytes of the elements alone. -/
def dataSize (es : List E) : Nat := (es.map (width c)).sum

variable {c}

theorem repr_zero : Repr c (Buffer.zero 4096) [] 4096 0 := by
  refine ⟨⟨trivial, by simp, ?_, le_refl _, .nil⟩, ?_, .inl ⟨Buffer.byte_zero _, rfl, rfl, rfl⟩⟩
  · rw [List.length_nil]
    decide
  · have zero : (Buffer.zero 4096).getLE garbageSizeOffset 2 = 0 := by decide
    exact zero

@[simp] theorem dataSize_nil : dataSize c [] = 0 := rfl

@[simp] theorem dataSize_cons (e : E) (es : List E) :
    dataSize c (e :: es) = width c e + dataSize c es := by
  simp [dataSize]

@[simp] theorem dataSize_append (es fs : List E) :
    dataSize c (es ++ fs) = dataSize c es + dataSize c fs := by
  simp [dataSize]

theorem Layout.dataSize_le {page : Page} {cells : List (Cell E)} {floor : Nat}
    (h : Layout c page cells floor) : dataSize c (elements cells) ≤ 4096 - floor := by
  have apart : (live cells).Pairwise fun a b =>
      a.1.elementPointer + width c a.2 ≤ b.1.elementPointer ∨
        b.1.elementPointer + width c b.2 ≤ a.1.elementPointer := by
    rw [live, List.pairwise_filterMap]
    refine h.apart.imp ?_
    rintro ⟨s, x⟩ ⟨t, y⟩ separate ⟨s', e⟩ left ⟨t', f⟩ right
    simp only [Option.map_eq_some_iff, Prod.mk.injEq] at left right
    obtain ⟨e', rfl, rfl, rfl⟩ := left
    obtain ⟨f', rfl, rfl, rfl⟩ := right
    exact separate e' f' rfl rfl
  have inside : ∀ a ∈ live cells, floor ≤ a.1.elementPointer ∧
      a.1.elementPointer + width c a.2 ≤ 4096 := by
    rintro ⟨slot, e⟩ member
    have placed : Placed c page floor slot e := h.ok _ (mem_live.mp member)
    exact ⟨placed.lower, placed.upper⟩
  have total := Region.sum_width_le _ _ floor 4096 (live cells) inside apart
  have widths : (live cells).map (fun a => width c a.2) = (elements cells).map (width c) := by
    rw [← live_map_snd, List.map_map]
    rfl
  rwa [widths] at total

theorem Repr.of_bytes {page page' : Page} {cells : List (Cell E)} {floor garbage : Nat}
    (h : Repr c page cells floor garbage)
    (same : ∀ i, (5 ≤ i ∧ i < 14 ∨ 32 ≤ i) → page'.byte i = page.byte i) :
    Repr c page' cells floor garbage := by
  have floor_ge := h.layout.room
  refine ⟨h.layout.congr (fun i lower _ => same i (.inr lower)) fun i lower _ => ?_, ?_⟩
  · exact same i (.inr (by simp only [headerSize] at floor_ge; omega))
  · exact h.shape.congr fun i lower upper => same i (.inl ⟨lower, upper⟩)

theorem Repr.updateCRC {page : Page} {cells : List (Cell E)} {floor garbage : Nat}
    (h : Repr c page cells floor garbage) : Repr c (updateCRC page) cells floor garbage :=
  h.of_bytes fun _ bounds => byte_updateCRC page (by omega)

/-! ### Replacing one cell -/

theorem Apart.symm {a b : Cell E} (h : Apart c a b) : Apart c b a :=
  fun e f left right => (h f e right left).symm

/-- One slot is rewritten; the other cells still hold their elements. -/
theorem Layout.replace {page page' : Page} {pre post : List (Cell E)} {cell cell' : Cell E}
    {floor floor' : Nat} (h : Layout c page (pre ++ cell :: post) floor)
    (room : headerSize + 4 * (pre ++ cell :: post).length ≤ floor') (top : floor' ≤ 4096)
    (slot : decodeSlot page' (headerSize + 4 * pre.length) = cell'.1)
    (same : ∀ i, headerSize ≤ i → i < headerSize + 4 * (pre ++ cell :: post).length →
      (i < headerSize + 4 * pre.length ∨ headerSize + 4 * pre.length + 4 ≤ i) →
      page'.byte i = page.byte i)
    (ok : CellOk c page' floor' cell') (others : ∀ x ∈ pre ++ post, CellOk c page' floor' x)
    (apart : ∀ x ∈ pre ++ post, Apart c cell' x) :
    Layout c page' (pre ++ cell' :: post) floor' := by
  have slots := h.slots
  simp only [List.map_append, List.map_cons, slotsAt_append, List.length_map, SlotsAt] at slots
  simp only [List.length_append, List.length_cons] at same room
  have pairs := List.pairwise_append.mp h.apart
  refine ⟨?_, ?_, ?_, top, ?_⟩
  · simp only [List.map_append, List.map_cons, slotsAt_append, List.length_map, SlotsAt]
    refine ⟨slots.1.congr ?_, slot, slots.2.2.congr ?_⟩
    · intro i lower upper
      rw [List.length_map] at upper
      exact same i lower (by omega) (.inl upper)
    · intro i lower upper
      rw [List.length_map] at upper
      exact same i (by omega) (by omega) (.inr lower)
  · intro x member
    rcases List.mem_append.mp member with front | rest
    · exact others x (by simp [front])
    rcases List.mem_cons.mp rest with rfl | back
    · exact ok
    · exact others x (by simp [back])
  · simp only [List.length_append, List.length_cons]
    omega
  · refine List.pairwise_append.mpr ⟨pairs.1, List.pairwise_cons.mpr ⟨?_, ?_⟩, ?_⟩
    · intro x member
      exact apart x (by simp [member])
    · exact (List.pairwise_cons.mp pairs.2.1).2
    · intro a ha b hb
      rcases List.mem_cons.mp hb with rfl | back
      · exact (apart a (by simp [ha])).symm
      · exact pairs.2.2 a ha b (by simp [back])

theorem Layout.apart_others {page : Page} {pre post : List (Cell E)} {cell : Cell E} {floor : Nat}
    (h : Layout c page (pre ++ cell :: post) floor) : ∀ x ∈ pre ++ post, Apart c cell x := by
  have pairs := List.pairwise_append.mp h.apart
  intro x member
  rcases List.mem_append.mp member with front | back
  · exact (pairs.2.2 x front cell (by simp)).symm
  · exact (List.pairwise_cons.mp pairs.2.1).1 x back

/-- An element overwritten in place by one that is not wider. -/
theorem Layout.rewrite {page page' : Page} {pre post : List (Cell E)} {slot : Slot} {e e' : E}
    {floor : Nat} (h : Layout c page (pre ++ (slot, some e) :: post) floor)
    (narrower : width c e' ≤ width c e)
    (bytes : page'.read slot.elementPointer (width c e') = c.encodeElement e')
    (same : ∀ i, (i < slot.elementPointer ∨ slot.elementPointer + width c e ≤ i) →
      page'.byte i = page.byte i) :
    Layout c page' (pre ++ (slot, some e') :: post) floor := by
  have placed : Placed c page floor slot e := h.ok (slot, some e) (by simp)
  obtain ⟨lower, upper, _, fits, size⟩ := placed
  have room := h.room
  have apart := h.apart_others
  have stored := h.slots
  simp only [List.map_append, List.map_cons, slotsAt_append, List.length_map, SlotsAt] at stored
  refine h.replace h.room h.top ?_ (fun i _ inside _ => same i (.inl (by omega)))
    ⟨lower, by simp only; omega, bytes, by simp only; omega, size⟩ ?_ ?_
  · rw [decodeSlot_congr fun i _ inside => same i (.inl ?_)]
    · exact stored.2.1
    · simp only [List.length_append, List.length_cons] at room
      omega
  · -- the rewritten bytes lie inside the old element, away from every other one
    intro x member
    have ok : CellOk c page floor x := h.ok x (by
      rcases List.mem_append.mp member with front | back
      · simp [front]
      · simp [back])
    obtain ⟨s, _ | f⟩ := x
    · have pointer : s.elementPointer = deletedElementPointerVal := ok
      exact pointer
    · have other : Placed c page floor s f := ok
      refine other.congr other.lower fun i low high => same i ?_
      have := apart (s, some f) member e f rfl rfl
      simp only at this
      omega
  · intro x member a b left right
    cases left
    have := apart x member e b rfl right
    simp only at this ⊢
    omega

/-- A field of an element overwritten by one of the same length. -/
theorem Layout.patch {page : Page} {pre post : List (Cell E)} {slot : Slot} {e : E} {floor : Nat}
    (h : Layout c page (pre ++ (slot, some e) :: post) floor) (e' : E)
    (front middle back new : Bytes) (old : c.encodeElement e = front ++ middle ++ back)
    (updated : c.encodeElement e' = front ++ new ++ back) (length : new.length = middle.length) :
    Layout c (page.write (slot.elementPointer + front.length) new)
        (pre ++ (slot, some e') :: post) floor ∧
      ∀ i, i < floor →
        (page.write (slot.elementPointer + front.length) new).byte i = page.byte i := by
  have placed : Placed c page floor slot e := h.ok (slot, some e) (by simp)
  have lower := placed.lower
  have upper := placed.upper
  have wide : width c e = front.length + middle.length + back.length := by
    rw [width, old, List.length_append, List.length_append]
  have wide' : width c e' = front.length + middle.length + back.length := by
    rw [width, updated, List.length_append, List.length_append, length]
  have stored := placed.bytes
  rw [wide, old] at stored
  have bytes := Buffer.read_write_middle page slot.elementPointer front middle back new stored length
    (by omega)
  refine ⟨h.rewrite (by omega) ?_ fun i outside => ?_, fun i hi => ?_⟩
  · rw [wide', updated]
    exact bytes
  · exact Buffer.byte_write_outside _ _ _ (by omega)
  · exact Buffer.byte_write_outside _ _ _ (by omega)

/-! ### Appending -/

theorem appendElement_eq (page : Page) (stop : Nat) (e : E) (room : width c e ≤ stop)
    (top : stop ≤ 4096) :
    appendElement c page stop e =
      some (page.write (stop - width c e) (c.encodeElement e), stop - width c e) := by
  have inside : (c.encodeElement e).length ≤ stop ∧ stop ≤ frameCapacity :=
    ⟨room, top.trans (by decide)⟩
  have stopped : (stop + 65536 - (c.encodeElement e).length % 65536) % 65536 =
      stop - width c e := by
    change (stop + 65536 - width c e % 65536) % 65536 = stop - width c e
    omega
  simp only [appendElement, if_pos inside, stopped]
  rfl

/-- An element that is longer than everything below `stop` is out of range. -/
theorem appendElement_none (page : Page) {stop : Nat} {e : E} (long : stop < width c e) :
    appendElement c page stop e = none := by
  rw [appendElement, if_neg]
  rintro ⟨fits, _⟩
  exact absurd fits (not_le.mpr long)

/-- A slot whose fields survive the two `uint16` writes. -/
def SlotFits (slot : Slot) : Prop := slot.elementSize < 65536 ∧ slot.elementPointer < 65536

theorem slotFits_decodeSlot (page : Page) (off : Nat) : SlotFits (decodeSlot page off) :=
  ⟨Buffer.getLE_lt page _ 2, Buffer.getLE_lt page _ 2⟩

theorem SlotsAt.fits {page : Page} {off : Nat} {slots : List Slot} (h : SlotsAt page off slots) :
    ∀ slot ∈ slots, SlotFits slot := by
  induction slots generalizing off with
  | nil => simp
  | cons slot rest ih =>
    intro s member
    rcases List.mem_cons.mp member with rfl | later
    · rw [← h.1]
      exact slotFits_decodeSlot page off
    · exact ih h.2 s later

theorem length_encodeSlot (slot : Slot) : (encodeSlot slot).length = 4 := by simp [encodeSlot]

theorem decodeSlot_write (page : Page) {off : Nat} {slot : Slot} (room : off + 4 ≤ 4096)
    (fits : SlotFits slot) : decodeSlot (page.write off (encodeSlot slot)) off = slot := by
  have stored := Buffer.read_write_same page off (encodeSlot slot)
    (by rw [length_encodeSlot]; exact room)
  rw [length_encodeSlot, show 4 = 2 + 2 from rfl, Buffer.read_append, encodeSlot] at stored
  obtain ⟨size, pointer⟩ := List.append_inj stored (by simp)
  have first : (page.write off (encodeSlot slot)).getLE off 2 = slot.elementSize := by
    rw [Buffer.getLE, encodeSlot, size, leNat_leBytes]
    exact Nat.mod_eq_of_lt fits.1
  have second : (page.write off (encodeSlot slot)).getLE (off + 2) 2 = slot.elementPointer := by
    rw [Buffer.getLE, encodeSlot, pointer, leNat_leBytes]
    exact Nat.mod_eq_of_lt fits.2
  simp only [decodeSlot, elementSizeOffset, elementPointerOffset, Nat.add_zero, first, second]

theorem appendSlot_eq (page : Page) {off : Nat} (slot : Slot) (room : off + 4 ≤ 4096) :
    appendSlot page off slot = some (page.write off (encodeSlot slot), off + 4) := by
  rw [appendSlot, if_pos (by omega), Nat.mod_eq_of_lt (by omega)]

theorem appendSlots_spec (slots : List Slot) (page : Page) (off : Nat)
    (room : off + 4 * slots.length ≤ 4096) (fits : ∀ slot ∈ slots, SlotFits slot) :
    ∃ page', appendSlots slots page off = some (page', off + 4 * slots.length) ∧
      SlotsAt page' off slots ∧
      ∀ i, (i < off ∨ off + 4 * slots.length ≤ i) → page'.byte i = page.byte i := by
  induction slots generalizing page off with
  | nil => exact ⟨page, rfl, trivial, fun _ _ => rfl⟩
  | cons slot rest ih =>
    simp only [List.length_cons] at room ⊢
    have shift : off + 4 + 4 * rest.length = off + 4 * (rest.length + 1) := by omega
    obtain ⟨page', done, stored, same⟩ := ih (page.write off (encodeSlot slot)) (off + 4)
      (by omega) (fun s hs => fits s (by simp [hs]))
    refine ⟨page', ?_, ⟨?_, stored⟩, fun i outside => ?_⟩
    · simp only [appendSlots, appendSlot_eq page slot (show off + 4 ≤ 4096 by omega), bind,
        Option.bind, done, shift]
    · rw [decodeSlot_congr fun i lower upper => same i (.inl (by omega))]
      exact decodeSlot_write page (by omega) (fits slot (by simp))
    · rw [same i (by omega), Buffer.byte_write_outside _ _ _ (by rw [length_encodeSlot]; omega)]

/-! ### Rewriting the whole page -/

variable (c) in
/-- The cells that `PutAllSlotsAndElements` lays out downwards from `stop`. -/
def packed : Nat → List (Slot × E) → List (Cell E)
  | _, [] => []
  | stop, (slot, e) :: rest =>
    (⟨slot.elementSize, stop - width c e⟩, some e) :: packed (stop - width c e) rest

@[simp] theorem length_packed (stop : Nat) (entries : List (Slot × E)) :
    (packed c stop entries).length = entries.length := by
  induction entries generalizing stop with
  | nil => rfl
  | cons entry rest ih => simp [packed, ih]

@[simp] theorem elements_packed (stop : Nat) (entries : List (Slot × E)) :
    elements (packed c stop entries) = entries.map Prod.snd := by
  induction entries generalizing stop with
  | nil => rfl
  | cons entry rest ih => simp [packed, ih]

theorem packed_below {stop : Nat} {entries : List (Slot × E)}
    (room : dataSize c (entries.map Prod.snd) ≤ stop) :
    ∀ cell ∈ packed c stop entries, ∀ e, cell.2 = some e →
      cell.1.elementPointer + width c e ≤ stop := by
  induction entries generalizing stop with
  | nil => simp [packed]
  | cons entry rest ih =>
    simp only [List.map_cons, dataSize_cons] at room
    intro cell member e holds
    rcases List.mem_cons.mp member with rfl | later
    · cases holds
      simp only
      omega
    · have := ih (show dataSize c (rest.map Prod.snd) ≤ stop - width c entry.2 by omega) cell later
        e holds
      omega

theorem packed_apart {stop : Nat} {entries : List (Slot × E)}
    (room : dataSize c (entries.map Prod.snd) ≤ stop) :
    (packed c stop entries).Pairwise (Apart c) := by
  induction entries generalizing stop with
  | nil => exact .nil
  | cons entry rest ih =>
    simp only [List.map_cons, dataSize_cons] at room
    have small : dataSize c (rest.map Prod.snd) ≤ stop - width c entry.2 := by omega
    refine .cons (fun cell member e f left right => .inr ?_) (ih small)
    cases left
    exact packed_below small cell member f right

/-- `PutAllSlotsAndElements` copies the sizes of the slots it is given. -/
theorem sizes_packed {entries : List (Slot × E)}
    (sizes : ∀ entry ∈ entries, entry.1.elementSize = width c entry.2) {stop : Nat} {slot : Slot}
    {e : E} (member : (slot, some e) ∈ packed c stop entries) : slot.elementSize = width c e := by
  induction entries generalizing stop with
  | nil => cases member
  | cons entry rest ih =>
    rcases List.mem_cons.mp member with same | later
    · cases same
      exact sizes entry (by simp)
    · exact ih (fun x hx => sizes x (by simp [hx])) later

/-- The sizes that slots may claim for their elements. -/
def SizesOk (entries : List (Slot × E)) : Prop :=
  ∀ entry ∈ entries, width c entry.2 ≤ entry.1.elementSize ∧ entry.1.elementSize ≤ 4096

/-- `putLoop` fills the slot array upwards and the data region downwards. -/
theorem putLoop_spec {entries : List (Slot × E)} (sizes : SizesOk (c := c) entries) (page : Page)
    (start stop : Nat) (room : start + 4 * entries.length + dataSize c (entries.map Prod.snd) ≤ stop)
    (top : stop ≤ 4096) :
    ∃ page', putLoop c entries page start stop =
        some (page', start + 4 * entries.length, stop - dataSize c (entries.map Prod.snd)) ∧
      SlotsAt page' start ((packed c stop entries).map Prod.fst) ∧
      (∀ cell ∈ packed c stop entries,
        CellOk c page' (stop - dataSize c (entries.map Prod.snd)) cell) ∧
      ∀ i, (i < start ∨ stop ≤ i) → page'.byte i = page.byte i := by
  induction entries generalizing page start stop with
  | nil => exact ⟨page, rfl, trivial, by simp [packed], fun _ _ => rfl⟩
  | cons entry rest ih =>
    obtain ⟨slot, e⟩ := entry
    simp only [List.map_cons, dataSize_cons, List.length_cons] at room ⊢
    have sized := sizes (slot, e) (by simp)
    simp only at sized
    obtain ⟨page', done, stored, ok, same⟩ := ih (fun entry member => sizes entry (by simp [member]))
      ((page.write (stop - width c e) (c.encodeElement e)).write start
        (encodeSlot ⟨slot.elementSize, stop - width c e⟩))
      (start + 4) (stop - width c e) (by omega) (by omega)
    have lengthE : (c.encodeElement e).length = width c e := rfl
    refine ⟨page', ?_, ⟨?_, stored⟩, ?_, fun i outside => ?_⟩
    · have shift : start + 4 + 4 * rest.length = start + 4 * (rest.length + 1) := by omega
      have drop : stop - width c e - dataSize c (rest.map Prod.snd) =
          stop - (width c e + dataSize c (rest.map Prod.snd)) := by omega
      rw [shift, drop] at done
      simp only [putLoop, appendElement_eq page stop e (show width c e ≤ stop by omega) top, bind,
        Option.bind, appendSlot_eq _ _ (show start + 4 ≤ 4096 by omega), done]
    · -- the later writes start behind this slot and stay below this element
      rw [decodeSlot_congr fun i lower upper => same i (.inl (by omega))]
      refine decodeSlot_write _ (by omega) ⟨?_, ?_⟩
      · simp only
        omega
      · simp only
        omega
    · intro cell member
      rcases List.mem_cons.mp member with rfl | later
      · refine ⟨?_, ?_, ?_, sized.1, sized.2⟩
        · simp only
          omega
        · simp only
          omega
        · have written := Buffer.read_write_same page (stop - width c e) (c.encodeElement e)
            (by rw [lengthE]; omega)
          rw [lengthE] at written
          refine Eq.trans (Buffer.read_congr fun i hi => ?_) written
          simp only at hi ⊢
          rw [same _ (by omega), Buffer.byte_write_outside _ _ _ (by rw [length_encodeSlot]; omega)]
      · exact (ok cell later).congr (by omega) fun _ _ _ => rfl
    · rw [same i (by omega), Buffer.byte_write_outside _ _ _ (by rw [length_encodeSlot]; omega),
        Buffer.byte_write_outside _ _ _ (by rw [lengthE]; omega)]

/-- `PutAllSlotsAndElements` replaces the content of a page. -/
theorem putAll_spec {entries : List (Slot × E)} (sizes : SizesOk (c := c) entries) (page : Page)
    (room : headerSize + 4 * entries.length + dataSize c (entries.map Prod.snd) ≤ 4096) :
    ∃ page', putAllSlotsAndElements c page entries = some page' ∧
      Repr c page' (packed c 4096 entries) (4096 - dataSize c (entries.map Prod.snd)) 0 ∧
      Keeps page page' := by
  obtain ⟨page', done, stored, ok, same⟩ := putLoop_spec sizes page headerSize 4096 room
    (le_refl _)
  set floor := 4096 - dataSize c (entries.map Prod.snd) with floorEq
  have closed : setIsPageFilled (setFreeSpaceEnd (setFreeSpaceBegin (setGarbageSize
      (setNumSlots page' entries.length) 0) (headerSize + 4 * entries.length)) floor) true =
      closeHeader (setGarbageSize page' 0) entries.length floor := by
    rw [closeHeader, setGarbageSize, setNumSlots, setGarbageSize, setNumSlots,
      Buffer.putLE_comm page' _ _ (by decide)]
  have away {i : Nat} (h : i < 5 ∨ 14 ≤ i) :
      (closeHeader (setGarbageSize page' 0) entries.length floor).byte i = page'.byte i := by
    rw [byte_closeHeader _ _ _ (by omega), byte_setGarbageSize _ _ (by omega)]
  have layout : Layout c page' (packed c 4096 entries) floor := by
    refine ⟨stored, ok, ?_, by omega, packed_apart (by omega)⟩
    rw [length_packed]
    omega
  refine ⟨closeHeader (setGarbageSize page' 0) entries.length floor, ?_, ⟨?_, ?_⟩, ?_⟩
  · simp only [putAllSlotsAndElements, done, bind, Option.bind, closed]
  · refine layout.congr (fun i lower _ => away ?_) fun i lower _ => away ?_
    · simp only [headerSize] at lower
      omega
    · simp only [headerSize] at room
      omega
  · have shape : Shape (closeHeader (setGarbageSize page' 0) entries.length floor) entries.length
        floor ((setGarbageSize page' 0).getLE garbageSizeOffset 2) :=
      shape_closeHeader _ (by omega) (by omega)
    rw [getLE_setGarbageSize page' (by decide)] at shape
    rwa [length_packed]
  · apply Keeps.of_bytes
    intro i bounds
    rw [away (by omega), same i (.inl (by simp only [headerSize]; omega))]

theorem Layout.sizesOk {page : Page} {cells : List (Cell E)} {floor : Nat}
    (h : Layout c page cells floor) : SizesOk (c := c) (live cells) := by
  rintro ⟨slot, e⟩ member
  have placed : Placed c page floor slot e := h.ok _ (mem_live.mp member)
  exact ⟨placed.fits, placed.size⟩

/-- The live elements and their slots always fit on an empty page. -/
theorem Layout.repack {page : Page} {cells : List (Cell E)} {floor : Nat}
    (h : Layout c page cells floor) :
    headerSize + 4 * (live cells).length + dataSize c (elements cells) ≤ 4096 := by
  have data := h.dataSize_le
  have count := length_live_le cells
  have := h.room
  have := h.top
  omega

theorem compact_spec [c.Lawful] {page : Page} {cells : List (Cell E)} {floor garbage : Nat}
    (h : Repr c page cells floor garbage) :
    ∃ page', compact c page = some page' ∧
      Repr c page' (packed c 4096 (live cells)) (4096 - dataSize c (elements cells)) 0 ∧
      Keeps page page' := by
  have read := h.layout.getAll h.shape.numSlots
  have room := h.layout.repack
  rw [← live_map_snd] at room
  obtain ⟨page', done, repr, keeps⟩ := putAll_spec h.layout.sizesOk page room
  rw [live_map_snd] at repr
  refine ⟨page', ?_, repr, keeps⟩
  simp only [compact, read, bind, Option.bind, done]

end SlottedPage

end CambiumDB
