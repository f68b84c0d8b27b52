import CambiumDB.PageCodec.LeafRefinement
import CambiumDB.PageCodec.Split

/-!
# A leaf page and the pairs it holds

The view of a leaf that the tree works with: its pairs, and for each write exactly when
the page takes it. No exact sizes are asked for, so the view survives updates by shorter
values, after which a page counts more garbage than a compaction frees.
-/

namespace CambiumDB

open ByteBuffer HeaderConfig HeaderCodec SlotCodec SlottedPage

namespace LeafNodeCodec

/-- A page that decodes as a leaf and holds `pairs`. -/
structure LeafPage (page : Page) (pairs : List LeafNodeElement) : Prop where
  type : page.byte nodeTypeOffset = leafNodeType
  content : ∃ cells floor garbage, LeafRepr page cells floor garbage ∧ KeysSorted cells ∧
    elements cells = pairs

def spaceRequired (key value : Bytes) : Nat := 2 + key.length + 2 + value.length

/-- The free space that the page has once it is compacted. -/
def packedFree (page : Page) : Nat := ((livePairs page).map (packedSpace elementCodec)).getD 0

/-- `InsertElement` finds room for the entry and its slot, if need be by compacting. -/
def TakesInsert (page : Page) (key value : Bytes) : Prop :=
  spaceRequired key value + slotSize ≤ freeSpace page ∨
    spaceRequired key value + slotSize ≤ (decodePageHeader page).garbageSize ∧
      spaceRequired key value + slotSize ≤ packedFree page

/-- `SetValue` overwrites the old value in place or finds room for the new element. -/
def TakesUpdate (page : Page) (key oldValue value : Bytes) : Prop :=
  value.length ≤ oldValue.length ∨ spaceRequired key value ≤ freeSpace page

/-- The space check says yes and the insert that follows it finds room. -/
def InsertFits (page : Page) (key value : Bytes) : Prop :=
  if spaceRequired key value ≤ freeSpace page then TakesInsert page key value
  else spaceRequired key value ≤ (decodePageHeader page).garbageSize ∧
    spaceRequired key value + slotSize ≤ packedFree page

/-- The space check says yes and the update that follows it finds room. -/
def UpdateFits (page : Page) (key oldValue value : Bytes) : Prop :=
  TakesUpdate page key oldValue value ∨
    spaceRequired key value ≤ (decodePageHeader page).garbageSize ∧
      spaceRequired key value ≤ packedFree page

/-- The space check says no. -/
def NoSpace (page : Page) (key value : Bytes) : Prop :=
  spaceRequired key value < 65536 ∧ freeSpace page < spaceRequired key value ∧
    (decodePageHeader page).garbageSize < spaceRequired key value

instance (page : Page) (key value : Bytes) : Decidable (TakesInsert page key value) := by
  unfold TakesInsert; infer_instance

instance (page : Page) (key oldValue value : Bytes) :
    Decidable (TakesUpdate page key oldValue value) := by
  unfold TakesUpdate; infer_instance

instance (page : Page) (key value : Bytes) : Decidable (InsertFits page key value) := by
  unfold InsertFits; infer_instance

instance (page : Page) (key oldValue value : Bytes) :
    Decidable (UpdateFits page key oldValue value) := by
  unfold UpdateFits; infer_instance

instance (page : Page) (key value : Bytes) : Decidable (NoSpace page key value) := by
  unfold NoSpace; infer_instance

section
variable {page : Page} {cells : List (Cell LeafNodeElement)} {floor garbage : Nat}

theorem packedFree_eq (h : LeafRepr page cells floor garbage) :
    packedFree page = packedSpace elementCodec (elements cells) := by
  rw [packedFree, livePairs_eq h, Option.map_some, Option.getD_some]

/-- Compaction leaves a page whose free space is all that the live pairs do not use. -/
theorem freeSpace_packed {page' : Page}
    (h : LeafRepr page' (packed elementCodec 4096 (live cells))
      (4096 - dataSize elementCodec (elements cells)) 0) :
    freeSpace page' = packedSpace elementCodec (elements cells) := by
  rw [freeSpace_eq h, length_packed, length_live, packedSpace]
  omega

end

namespace LeafPage

variable {page : Page} {pairs : List LeafNodeElement} (h : LeafPage page pairs)
include h

theorem isLeafNode : isLeafNode page = true := isLeafNode_of_type h.type

theorem findValue (key : Bytes) : findValue page key =
    some ((SortedList.lookup LeafNodeElement.key key pairs).map LeafNodeElement.value) := by
  obtain ⟨cells, floor, garbage, repr, _, rfl⟩ := h.content
  exact findValue_eq repr key

theorem livePairs : livePairs page = some pairs := by
  obtain ⟨cells, floor, garbage, repr, _, rfl⟩ := h.content
  exact livePairs_eq repr

theorem sorted : SortedList.Sorted LeafNodeElement.key pairs := by
  obtain ⟨_, _, _, _, sorted, rfl⟩ := h.content
  exact sorted

theorem keeps_type {page' : Page} (keeps : Keeps page page') :
    page'.byte nodeTypeOffset = leafNodeType := keeps.1.trans h.type

theorem setLSN (lsn : UInt64) : LeafPage (setLSN page lsn) pairs := by
  obtain ⟨cells, floor, garbage, repr, sorted, same⟩ := h.content
  refine ⟨?_, cells, floor, garbage, repr.setLSN lsn, sorted, same⟩
  rw [LeafNodeCodec.setLSN, byte_setLSN _ _ (by decide)]
  exact h.type

/-- A stamp changes none of the numbers that the space checks read. -/
theorem sizes_setLSN (lsn : UInt64) :
    freeSpace (LeafNodeCodec.setLSN page lsn) = freeSpace page ∧
      (decodePageHeader (LeafNodeCodec.setLSN page lsn)).garbageSize =
        (decodePageHeader page).garbageSize ∧
      packedFree (LeafNodeCodec.setLSN page lsn) = packedFree page := by
  obtain ⟨cells, floor, garbage, repr, _, _⟩ := h.content
  have repr' : LeafRepr (LeafNodeCodec.setLSN page lsn) cells floor garbage := repr.setLSN lsn
  refine ⟨?_, ?_, ?_⟩
  · rw [freeSpace_eq repr, freeSpace_eq repr']
  · rw [repr.shape.garbageSize, repr'.shape.garbageSize]
  · rw [packedFree_eq repr, packedFree_eq repr']

theorem takesUpdate_setLSN {key oldValue value : Bytes} (takes : TakesUpdate page key oldValue value)
    (lsn : UInt64) : TakesUpdate (LeafNodeCodec.setLSN page lsn) key oldValue value := by
  rw [TakesUpdate, (h.sizes_setLSN lsn).1]
  exact takes

theorem takesInsert_setLSN {key value : Bytes} (takes : TakesInsert page key value) (lsn : UInt64) :
    TakesInsert (LeafNodeCodec.setLSN page lsn) key value := by
  obtain ⟨free, garbage, packed⟩ := h.sizes_setLSN lsn
  rw [TakesInsert, free, garbage, packed]
  exact takes

theorem insertFits_setLSN {key value : Bytes} (fits : InsertFits page key value) (lsn : UInt64) :
    InsertFits (LeafNodeCodec.setLSN page lsn) key value := by
  obtain ⟨free, garbage, packed⟩ := h.sizes_setLSN lsn
  rw [InsertFits, TakesInsert, free, garbage, packed]
  exact fits

theorem insertElement {key value : Bytes} (takes : TakesInsert page key value)
    (absent : SortedList.lookup LeafNodeElement.key key pairs = none) :
    ∃ page', insertElement page key value = some (true, page') ∧
      LeafPage page' (SortedList.insert LeafNodeElement.key ⟨key, value⟩ pairs) ∧
      Keeps page page' := by
  obtain ⟨cells, floor, garbage, repr, sorted, rfl⟩ := h.content
  have missing := (SortedList.lookup_eq_none_iff LeafNodeElement.key key _).mp absent
  have sorted' := SortedList.Sorted.insert LeafNodeElement.key (e := ⟨key, value⟩) sorted missing
  have room := repr.layout.room
  rw [TakesInsert, freeSpace_eq repr, packedFree_eq repr, repr.shape.garbageSize, spaceRequired,
    slotSize] at takes
  by_cases fits : headerSize + 4 * (cells.length + 1) + (2 + key.length + 2 + value.length) ≤ floor
  · obtain ⟨page', pre, post, slot, cut, _, done, repr', keeps⟩ :=
      insertElement_room repr key value sorted.le fits
    have inserted := elements_insert cut slot value
    refine ⟨page', done, ⟨h.keeps_type keeps, _, _, _, repr', ?_, inserted⟩, keeps⟩
    rw [KeysSorted, inserted]
    exact sorted'
  · obtain ⟨enough, packed⟩ := takes.resolve_left (by omega)
    obtain ⟨page', pre, post, slot, cut, _, done, repr', keeps⟩ :=
      insertElement_garbage repr sorted.le (not_le.mp fits) enough packed
    have inserted := elements_insert cut slot value
    rw [elements_packed, live_map_snd] at inserted
    refine ⟨page', done, ⟨h.keeps_type keeps, _, _, _, repr', ?_, inserted⟩, keeps⟩
    rw [KeysSorted, inserted]
    exact sorted'

/-- A key that is there already gets a second slot behind the first one. -/
theorem insertElement_again (key value : Bytes)
    (room : spaceRequired key value + slotSize ≤ freeSpace page) :
    ∃ page', LeafNodeCodec.insertElement page key value = some (true, page') ∧
      LeafNodeCodec.livePairs page' =
        some (SortedList.insert LeafNodeElement.key ⟨key, value⟩ pairs) ∧ Keeps page page' := by
  obtain ⟨cells, floor, garbage, repr, sorted, rfl⟩ := h.content
  have bound := repr.layout.room
  rw [freeSpace_eq repr, spaceRequired, slotSize] at room
  obtain ⟨page', pre, post, slot, cut, _, done, repr', keeps⟩ :=
    insertElement_room repr key value sorted.le (by omega)
  refine ⟨page', done, ?_, keeps⟩
  rw [livePairs_eq repr', elements_insert cut slot value]

/-- Without room for the slot and without garbage the element is refused. -/
theorem insertElement_refused {key value : Bytes} (fits : spaceRequired key value ≤ freeSpace page)
    (full : freeSpace page < spaceRequired key value + slotSize)
    (few : (decodePageHeader page).garbageSize < spaceRequired key value + slotSize) :
    ∃ page', LeafNodeCodec.insertElement page key value = some (false, page') ∧
      LeafPage page' pairs := by
  obtain ⟨cells, floor, garbage, repr, sorted, rfl⟩ := h.content
  have room := repr.layout.room
  have top := repr.layout.top
  rw [freeSpace_eq repr, spaceRequired] at fits full
  rw [repr.shape.garbageSize, spaceRequired] at few
  rw [slotSize] at full few
  refine ⟨_, insertElement_full repr (by omega) (by omega) few, ?_, cells, floor, garbage,
    repr.updateCRC, sorted, rfl⟩
  rw [byte_updateCRC _ (by decide)]
  exact h.type

theorem setValue {key value : Bytes} {e : LeafNodeElement}
    (found : SortedList.lookup LeafNodeElement.key key pairs = some e)
    (takes : TakesUpdate page key e.value value) :
    ∃ page', setValue page key value = some page' ∧
      LeafPage page' (SortedList.modify LeafNodeElement.key key (fun x => ⟨x.key, value⟩) pairs) ∧
      Keeps page page' := by
  obtain ⟨cells, floor, garbage, repr, sorted, rfl⟩ := h.content
  have sorted' := SortedList.Sorted.modify LeafNodeElement.key sorted key
    (f := fun x => ⟨x.key, value⟩) fun _ => rfl
  rw [TakesUpdate, freeSpace_eq repr, spaceRequired] at takes
  have room := repr.layout.room
  obtain ⟨pre, slot, post, rfl, below, above⟩ := exists_live_cut sorted found
  obtain rfl := SortedList.key_of_lookup LeafNodeElement.key found
  by_cases shorter : value.length ≤ e.value.length
  · obtain ⟨page', done, repr', keeps⟩ := setValue_shorter repr below shorter
    have modified := elements_modify below above slot slot value
    refine ⟨page', done, ⟨h.keeps_type keeps, _, _, _, repr', ?_, modified⟩, keeps⟩
    rw [KeysSorted, modified]
    exact sorted'
  · obtain ⟨page', slot', _, done, repr', keeps⟩ :=
      setValue_longer repr below (not_le.mp shorter) (by omega)
    have modified := elements_modify below above slot slot' value
    refine ⟨page', done, ⟨h.keeps_type keeps, _, _, _, repr', ?_, modified⟩, keeps⟩
    rw [KeysSorted, modified]
    exact sorted'

theorem deleteElement {key : Bytes} {e : LeafNodeElement}
    (found : SortedList.lookup LeafNodeElement.key key pairs = some e) :
    ∃ page', deleteElement page key = some (true, page') ∧
      LeafPage page' (SortedList.erase LeafNodeElement.key key pairs) ∧ Keeps page page' := by
  obtain ⟨cells, floor, garbage, repr, sorted, rfl⟩ := h.content
  have sorted' := SortedList.Sorted.erase LeafNodeElement.key sorted key
  obtain ⟨pre, slot, post, rfl, below, above⟩ := exists_live_cut sorted found
  obtain rfl := SortedList.key_of_lookup LeafNodeElement.key found
  obtain ⟨page', done, repr', keeps⟩ := deleteElement_live repr below
  have erased := elements_erase below above slot ⟨slot.elementSize, deletedElementPointerVal⟩
  refine ⟨page', done, ⟨h.keeps_type keeps, _, _, _, repr', ?_, erased⟩, keeps⟩
  rw [KeysSorted, erased]
  exact sorted'

theorem deleteElement_absent {key : Bytes}
    (absent : SortedList.lookup LeafNodeElement.key key pairs = none) :
    LeafNodeCodec.deleteElement page key = some (false, page) := by
  obtain ⟨cells, floor, garbage, repr, _, rfl⟩ := h.content
  have missing := searchCells_absent (c := elementCodec)
    ((SortedList.lookup_eq_none_iff LeafNodeElement.key key _).mp absent) headerSize
  have search := repr.layout.linearSearch repr.shape.numSlots key
  simp only [LeafNodeCodec.deleteElement, SlottedPage.deleteElement, search, bind, Option.bind]

/-! ### The space check -/

theorem compact : ∃ page', LeafNodeCodec.compact page = some page' ∧ LeafPage page' pairs ∧
    freeSpace page' = packedFree page ∧ Keeps page page' := by
  obtain ⟨cells, floor, garbage, repr, sorted, rfl⟩ := h.content
  obtain ⟨page', done, repr', keeps⟩ := compact_spec repr
  refine ⟨page', done, ⟨h.keeps_type keeps, _, _, _, repr', ?_, ?_⟩, ?_, keeps⟩
  · rw [KeysSorted, elements_packed, live_map_snd]
    exact sorted
  · rw [elements_packed, live_map_snd]
  · rw [freeSpace_packed repr', packedFree_eq repr]

/-- A page that the check compacts offers all of its packed free space. -/
theorem check_compacts {key value : Bytes} (full : freeSpace page < spaceRequired key value)
    (enough : spaceRequired key value ≤ (decodePageHeader page).garbageSize) :
    ∃ page', hasEnoughSpaceToInsertElement page key value = some (true, page') ∧
      LeafPage page' pairs ∧ freeSpace page' = packedFree page ∧ Keeps page page' := by
  obtain ⟨page', done, leaf, free, keeps⟩ := h.compact
  refine ⟨page', ?_, leaf, free, keeps⟩
  obtain ⟨cells, floor, garbage, repr, _, rfl⟩ := h.content
  have bounded := repr.shape.garbage_lt
  rw [freeSpace_eq repr, spaceRequired] at full
  rw [repr.shape.garbageSize, spaceRequired] at enough
  have small : 2 + key.length + 2 + value.length < 65536 := by omega
  rcases hasEnoughSpace_cases repr key value with
    ⟨fits, _⟩ | ⟨_, _, page₁, run, answer, _⟩ | ⟨_, few, _⟩
  · rw [Nat.mod_eq_of_lt small] at fits
    omega
  · rw [answer, Option.some.inj (run.symm.trans done)]
  · exact absurd enough few

theorem check_adequate {key value : Bytes} (fits : spaceRequired key value ≤ freeSpace page) :
    hasEnoughSpaceToInsertElement page key value = some (true, page) := by
  obtain ⟨cells, floor, garbage, repr, _, rfl⟩ := h.content
  have top := repr.layout.top
  rw [freeSpace_eq repr, spaceRequired] at fits
  have small : 2 + key.length + 2 + value.length < 65536 := by omega
  rcases hasEnoughSpace_cases repr key value with ⟨_, answer⟩ | ⟨full, _⟩ | ⟨full, _⟩
  · exact answer
  · exact absurd ((Nat.mod_eq_of_lt small).symm ▸ fits) full
  · exact absurd ((Nat.mod_eq_of_lt small).symm ▸ fits) full

theorem check_full {key value : Bytes} (full : NoSpace page key value) :
    hasEnoughSpaceToInsertElement page key value = some (false, page) := by
  obtain ⟨cells, floor, garbage, repr, _, rfl⟩ := h.content
  rw [NoSpace, freeSpace_eq repr, repr.shape.garbageSize, spaceRequired] at full
  obtain ⟨small, none, few⟩ := full
  rcases hasEnoughSpace_cases repr key value with ⟨fits, _⟩ | ⟨_, enough, _⟩ | ⟨_, _, answer⟩
  · rw [Nat.mod_eq_of_lt small] at fits
    omega
  · omega
  · exact answer

/-- Whatever the check says, the pairs stay; if it says no, the page does. -/
theorem check_keeps {key value : Bytes} {answer : Bool} {page' : Page}
    (done : hasEnoughSpaceToInsertElement page key value = some (answer, page')) :
    LeafPage page' pairs ∧ (answer = false → page' = page) := by
  obtain ⟨checked, compacted, leaf, _⟩ := h.compact
  obtain ⟨cells, floor, garbage, repr, _, rfl⟩ := h.content
  rcases hasEnoughSpace_cases repr key value with
    ⟨_, adequate⟩ | ⟨_, _, page₁, run, compacts, _⟩ | ⟨_, _, full⟩
  · rw [adequate] at done
    cases done
    exact ⟨h, nofun⟩
  · rw [compacts] at done
    cases done
    obtain rfl := Option.some.inj (run.symm.trans compacted)
    exact ⟨leaf, nofun⟩
  · rw [full] at done
    cases done
    exact ⟨h, fun _ => rfl⟩

@[inherit_doc check_keeps]
theorem check_update_keeps {key oldValue value : Bytes} {answer : Bool} {page' : Page}
    (done : hasEnoughSpaceToUpdateValue page key oldValue value = some (answer, page')) :
    LeafPage page' pairs ∧ (answer = false → page' = page) := by
  rw [hasEnoughSpaceToUpdateValue] at done
  split at done
  · cases done
    exact ⟨h, by simp⟩
  · exact h.check_keeps done

theorem check_insert {key value : Bytes} (fits : InsertFits page key value) :
    ∃ checked, hasEnoughSpaceToInsertElement page key value = some (true, checked) ∧
      LeafPage checked pairs ∧ TakesInsert checked key value ∧ Keeps page checked := by
  rw [InsertFits] at fits
  by_cases room : spaceRequired key value ≤ freeSpace page
  · rw [if_pos room] at fits
    exact ⟨page, h.check_adequate room, h, fits, .refl page⟩
  · rw [if_neg room] at fits
    obtain ⟨page', answer, leaf, free, keeps⟩ := h.check_compacts (not_le.mp room) fits.1
    exact ⟨page', answer, leaf, .inl (free ▸ fits.2), keeps⟩

theorem check_update {key oldValue value : Bytes} (fits : UpdateFits page key oldValue value) :
    ∃ checked, hasEnoughSpaceToUpdateValue page key oldValue value = some (true, checked) ∧
      LeafPage checked pairs ∧ TakesUpdate checked key oldValue value ∧ Keeps page checked := by
  by_cases shorter : value.length ≤ oldValue.length
  · rw [hasEnoughSpaceToUpdateValue, if_pos shorter]
    exact ⟨page, rfl, h, .inl shorter, .refl page⟩
  rw [hasEnoughSpaceToUpdateValue, if_neg shorter]
  by_cases room : spaceRequired key value ≤ freeSpace page
  · exact ⟨page, h.check_adequate room, h, .inr room, .refl page⟩
  · have packed := fits.resolve_left fun takes => takes.elim shorter room
    obtain ⟨page', answer, leaf, free, keeps⟩ := h.check_compacts (not_le.mp room) packed.1
    exact ⟨page', answer, leaf, .inr (free ▸ packed.2), keeps⟩

end LeafPage

theorem leafPage_zero : LeafPage (Buffer.zero 4096) [] :=
  ⟨Buffer.byte_zero _, [], 4096, 0, blank_zero.exactLeaf.repr, .nil, rfl⟩

/-! ### Pages without garbage -/

/-- No garbage is counted and every slot claims exactly its element. -/
def Clean (page : Page) (pairs : List LeafNodeElement) : Prop :=
  ∃ cells floor, ExactLeaf page cells floor 0 0 ∧ elements cells = pairs

/-- Where `FindSplitNodeIndex` cuts a clean page. -/
def splitIndex (pairs : List LeafNodeElement) : Nat :=
  let slots := pairs.map fun e => Slot.mk (width elementCodec e) 0
  splitLoop (getTotalDataRegionSize slots) slots 0 0

theorem clean_zero : Clean (Buffer.zero 4096) [] := ⟨[], 4096, blank_zero.exactLeaf, rfl⟩

namespace Clean

variable {page : Page} {pairs : List LeafNodeElement} (clean : Clean page pairs)
include clean

theorem free : freeSpace page = packedSpace elementCodec pairs := by
  obtain ⟨cells, floor, exact_, rfl⟩ := clean
  have account := exact_.account
  rw [freeSpace_eq exact_.repr]
  omega

theorem garbage : (decodePageHeader page).garbageSize = 0 := by
  obtain ⟨cells, floor, exact_, rfl⟩ := clean
  exact exact_.repr.shape.garbageSize

theorem setLSN (lsn : UInt64) : Clean (setLSN page lsn) pairs := by
  obtain ⟨cells, floor, exact_, rfl⟩ := clean
  exact ⟨cells, floor, ⟨exact_.repr.setLSN lsn, exact_.sizes, exact_.sorted, exact_.account⟩, rfl⟩

/-- The live slots claim the widths of the pairs. -/
theorem sizes {entries : List (Slot × LeafNodeElement)}
    (read : SlottedPage.getAllSlotsAndElements elementCodec page = some entries) :
    ∀ entry ∈ entries, entry.1.elementSize = width elementCodec entry.2 := by
  obtain ⟨cells, floor, exact_, rfl⟩ := clean
  obtain rfl : live cells = entries := Option.some.inj ((getAll_eq exact_.repr).symm.trans read)
  exact fun entry member => exact_.sizes entry.1 entry.2 (mem_live.mp member)

theorem findSplitNodeIndex : findSplitNodeIndex page = some (splitIndex pairs) := by
  obtain ⟨cells, floor, exact_, rfl⟩ := clean
  rw [findSplitNodeIndex_eq exact_.repr, splitIndexOf, splitIndex, ← live_map_snd]
  congr 1
  apply splitLoop_congr
  simp only [List.map_map]
  exact List.map_congr_left fun entry member => exact_.sizes entry.1 entry.2 (mem_live.mp member)

theorem insertElement {page' : Page} {key value : Bytes}
    (absent : SortedList.lookup LeafNodeElement.key key pairs = none)
    (room : spaceRequired key value + slotSize ≤ packedSpace elementCodec pairs)
    (done : LeafNodeCodec.insertElement page key value = some (true, page')) :
    Clean page' (SortedList.insert LeafNodeElement.key ⟨key, value⟩ pairs) := by
  rw [← clean.free] at room
  obtain ⟨cells, floor, exact_, rfl⟩ := clean
  rw [freeSpace_eq exact_.repr, spaceRequired, slotSize] at room
  have fits : headerSize + 4 * (cells.length + 1) + (2 + key.length + 2 + value.length) ≤ floor := by
    omega
  obtain ⟨page'', pre, post, slot, cut, size, done', repr, _⟩ :=
    insertElement_room exact_.repr key value exact_.sorted.le fits
  obtain rfl : page'' = page' := by simpa using done'.symm.trans done
  exact ⟨_, _, exact_.inserted ((SortedList.lookup_eq_none_iff ..).mp absent) fits cut size repr,
    elements_insert cut slot value⟩

/-- The space check leaves a clean page with room as it is. -/
theorem insertFits {key value : Bytes}
    (room : spaceRequired key value + slotSize ≤ packedSpace elementCodec pairs) :
    InsertFits page key value := by
  rw [InsertFits, TakesInsert, clean.free, if_pos (by omega)]
  exact .inl room

theorem room_of_insertFits {key value : Bytes} (fits : InsertFits page key value) :
    spaceRequired key value + slotSize ≤ packedSpace elementCodec pairs := by
  rw [InsertFits, TakesInsert, clean.garbage, clean.free] at fits
  split at fits
  · exact fits.resolve_right fun both => by
      have some_ : 0 < slotSize := by decide
      omega
  · have some_ : 0 < spaceRequired key value := by rw [spaceRequired]; omega
    omega

theorem noSpace {key value : Bytes} (small : spaceRequired key value < 65536)
    (full : packedSpace elementCodec pairs < spaceRequired key value) :
    NoSpace page key value := by
  rw [NoSpace, clean.free, clean.garbage]
  exact ⟨small, full, by omega⟩

end Clean

/-! ### Splits -/

/-- The payload of `EncodeAllElements`. -/
def encodedPairs (pairs : List LeafNodeElement) : Bytes :=
  leBytes 2 pairs.length ++ pairs.flatMap fun e =>
    leBytes 2 (encodeElement e).length ++ encodeElement e

/-- A page right after a split: packed, with the LSN and the next leaf that were set. -/
structure Half (page : Page) (pairs : List LeafNodeElement) (lsn next : UInt64) : Prop where
  leaf : LeafPage page pairs
  free : freeSpace page = packedSpace elementCodec pairs
  lsn : HeaderCodec.getLSN page = lsn
  next : HeaderCodec.getNextLeafNodePageId page = next

theorem half_of_halfOf {page : Page} {entries : List (Slot × LeafNodeElement)} {lsn next : UInt64}
    (h : HalfOf elementCodec page entries leafNodeType lsn next)
    (sorted : SortedList.Sorted LeafNodeElement.key (entries.map Prod.snd)) :
    Half page (entries.map Prod.snd) lsn next := by
  refine ⟨⟨h.type, _, _, _, h.repr, keysSorted_packed sorted, ?_⟩, ?_, h.lsn, h.next⟩
  · rw [elements_packed]
  · rw [freeSpace_eq h.repr, length_packed, packedSpace, List.length_map]
    omega

theorem clean_of_halfOf {page : Page} {entries : List (Slot × LeafNodeElement)} {type : UInt8}
    {lsn next : UInt64} (h : HalfOf elementCodec page entries type lsn next)
    (sorted : SortedList.Sorted LeafNodeElement.key (entries.map Prod.snd))
    (sizes : ∀ entry ∈ entries, entry.1.elementSize = width elementCodec entry.2) :
    Clean page (entries.map Prod.snd) := by
  refine ⟨_, _, ⟨h.repr, exactSizes_packed _ sizes, keysSorted_packed sorted, ?_⟩, ?_⟩
  · rw [elements_packed, length_packed, packedSpace, List.length_map]
    omega
  · rw [elements_packed]

namespace LeafPage

variable {page : Page} {pairs : List LeafNodeElement} (h : LeafPage page pairs)
include h

theorem findSplitNodeIndex : ∃ i, LeafNodeCodec.findSplitNodeIndex page = some i ∧
    (pairs ≠ [] → 0 < i) := by
  obtain ⟨cells, floor, garbage, repr, _, rfl⟩ := h.content
  exact ⟨_, findSplitNodeIndex_eq repr, splitIndexOf_pos⟩

theorem encodeAllElements :
    LeafNodeCodec.encodeAllElements page = some (pairs.length, encodedPairs pairs) := by
  obtain ⟨cells, floor, garbage, repr, _, rfl⟩ := h.content
  have read : SlottedPage.getAllSlotsAndElements elementCodec page = some (live cells) :=
    getAll_eq repr
  simp only [LeafNodeCodec.encodeAllElements, SlottedPage.encodeAllElements, read, bind,
    Option.bind, encodedPairs, ← live_map_snd, List.length_map, List.flatMap_map]
  rfl

/-- A leaf with a pair is filled, so its header decodes the next leaf as it is stored. -/
theorem decoded_next (nonempty : pairs ≠ []) :
    (decodePageHeader page).nextLeafNodePageId = HeaderCodec.getNextLeafNodePageId page := by
  obtain ⟨cells, floor, garbage, repr, _, rfl⟩ := h.content
  obtain ⟨_, ⟨_, none, _⟩ | ⟨filled, _⟩⟩ := repr.shape
  · rw [List.length_eq_zero_iff.mp none] at nonempty
    exact absurd rfl nonempty
  · rw [decodePageHeader, if_neg filled, HeaderCodec.getNextLeafNodePageId]

theorem splitNode_past (right : Page) (rightId : UInt64) {i : Nat} (past : pairs[i]? = none) :
    LeafNodeCodec.splitNode page right rightId i = none := by
  obtain ⟨cells, floor, garbage, repr, _, rfl⟩ := h.content
  exact SlottedPage.splitNode_past repr 0 right rightId past

theorem splitNode {right : Page} (type : right.byte nodeTypeOffset = leafNodeType)
    (rightId : UInt64) {i : Nat} {m : LeafNodeElement} (middle : pairs[i]? = some m) :
    ∃ left' right', LeafNodeCodec.splitNode page right rightId i = some (left', right', m.key) ∧
      Half left' (pairs.take i) (HeaderCodec.getLSN page) rightId ∧
      Half right' (pairs.drop i) (HeaderCodec.getLSN right)
        (HeaderCodec.getNextLeafNodePageId page) ∧
      (Clean page pairs → Clean left' (pairs.take i) ∧ Clean right' (pairs.drop i)) := by
  have nonempty : pairs ≠ [] := by
    rintro rfl
    cases middle
  rw [← h.decoded_next nonempty]
  obtain ⟨cells, floor, garbage, repr, sorted, rfl⟩ := h.content
  obtain ⟨left', right', done, left, back⟩ := SlottedPage.splitNode_spec repr 0 right rightId middle
  rw [h.type] at left
  rw [type] at back
  rw [KeysSorted, ← live_map_snd] at sorted
  rw [← live_map_snd, ← List.map_take, ← List.map_drop]
  have leftSorted : SortedList.Sorted LeafNodeElement.key (((live cells).take i).map Prod.snd) := by
    rw [List.map_take]
    exact SortedList.Sorted.take _ sorted i
  have rightSorted : SortedList.Sorted LeafNodeElement.key (((live cells).drop i).map Prod.snd) := by
    rw [List.map_drop]
    exact SortedList.Sorted.drop _ sorted i
  refine ⟨left', right', done, half_of_halfOf left leftSorted, half_of_halfOf back rightSorted, fun clean => ?_⟩
  have sizes := clean.sizes (getAll_eq repr)
  exact ⟨clean_of_halfOf left leftSorted fun entry member => sizes entry (List.mem_of_mem_take member),
    clean_of_halfOf back rightSorted fun entry member => sizes entry (List.mem_of_mem_drop member)⟩

end LeafPage

end LeafNodeCodec

end CambiumDB
