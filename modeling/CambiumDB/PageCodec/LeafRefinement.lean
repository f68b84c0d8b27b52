import CambiumDB.Lib.Reach
import CambiumDB.PageCodec.LeafAccounting

/-!
# A leaf page refines a sorted association list

The page is well-formed when it is blank or laid out exactly, with strictly increasing keys
and a garbage count that compaction can honour. Each operation of the leaf codec then acts
on the live pairs as the list operation does. An in-place update by a strictly shorter
value is the one that leaves a page that is no longer well-formed: the slot keeps claiming
the old size.
-/

namespace CambiumDB

open ByteBuffer HeaderConfig HeaderCodec SlottedPage

namespace LeafNodeCodec

/-- All zero, except possibly for the checksum, the type, the next leaf and the LSN. -/
def Blank (page : Page) : Prop :=
  ∀ i, 5 ≤ i → (i < 16 ∨ 32 ≤ i) → page.byte i = 0

def freeSpace (page : Page) : Nat :=
  (decodePageHeader page).freeSpaceEnd - (decodePageHeader page).freeSpaceBegin

/-- The bytes that `compact` would add to the free region. -/
def compactionGain (page : Page) : Option Nat :=
  (compact page).map fun page' => freeSpace page' - freeSpace page

/-- The live pairs in slot order. -/
def livePairs (page : Page) : Option (List LeafNodeElement) :=
  (getAllSlotsAndElements page).map fun entries => entries.map Prod.snd

theorem findValue_of_livePairs {page : Page} {pairs : List LeafNodeElement}
    (live : livePairs page = some pairs) (key : Bytes) : findValue page key =
      some ((SortedList.lookup LeafNodeElement.key key pairs).map LeafNodeElement.value) := by
  obtain ⟨entries, read, rfl⟩ := Option.map_eq_some_iff.1 live
  exact findValue_of_getAll read key

structure Filled (page : Page) (cells : List (Cell LeafNodeElement)) : Prop where
  filled : page.byte isPageFilledOffset ≠ pageEmptyType
  numSlots : (decodePageHeader page).numSlots = cells.length
  freeSpaceBegin : (decodePageHeader page).freeSpaceBegin = headerSize + 4 * cells.length
  layout : Layout elementCodec page cells (decodePageHeader page).freeSpaceEnd
  sizes : ExactSizes cells
  sorted : KeysSorted cells
  garbage : ∃ gain, compactionGain page = some gain ∧ (decodePageHeader page).garbageSize ≤ gain

def WellFormed (page : Page) : Prop := Blank page ∨ ∃ cells, Filled page cells

/-! ### Well-formed pages are the exact ones -/

section
variable {page : Page} {cells : List (Cell LeafNodeElement)} {floor garbage slack : Nat}

theorem freeSpace_eq (h : LeafRepr page cells floor garbage) :
    freeSpace page = floor - (headerSize + 4 * cells.length) := by
  rw [freeSpace, h.shape.freeSpaceBegin, h.shape.freeSpaceEnd]

theorem compactionGain_eq (h : LeafRepr page cells floor garbage) :
    compactionGain page = some (packedSpace elementCodec (elements cells) -
      (floor - (headerSize + 4 * cells.length))) := by
  obtain ⟨page', done, repr, _⟩ := compact_spec h
  have compacted : compact page = some page' := done
  have size : 4096 - dataSize elementCodec (elements cells) -
      (headerSize + 4 * (live cells).length) = packedSpace elementCodec (elements cells) := by
    rw [length_live, packedSpace]
    omega
  rw [compactionGain, compacted, Option.map_some, freeSpace_eq repr, freeSpace_eq h, length_packed,
    size]

theorem livePairs_eq (h : LeafRepr page cells floor garbage) :
    livePairs page = some (elements cells) := by
  rw [livePairs, getAll_eq h, Option.map_some, live_map_snd]

theorem Filled.repr (h : Filled page cells) :
    LeafRepr page cells (decodePageHeader page).freeSpaceEnd
      (decodePageHeader page).garbageSize := by
  have count := h.numSlots
  have start := h.freeSpaceBegin
  refine ⟨h.layout, ?_, .inr ⟨h.filled, ?_, ?_, ?_⟩⟩
  all_goals simp only [decodePageHeader, if_neg h.filled] at count start ⊢
  · exact count
  · exact start

theorem Blank.exactLeaf (h : Blank page) : ExactLeaf page [] 4096 0 0 := by
  have garbage : page.getLE garbageSizeOffset 2 = 0 := by
    have zero : page.read garbageSizeOffset 2 = (Buffer.zero 4096).read garbageSizeOffset 2 :=
      Buffer.read_congr fun i hi => by
        rw [Buffer.byte_zero]
        exact h _ (by simp only [garbageSizeOffset]; omega)
          (.inl (by simp only [garbageSizeOffset]; omega))
    rw [Buffer.getLE, zero]
    decide
  refine ⟨⟨⟨trivial, by simp, by decide, le_refl _, .nil⟩, garbage, .inl ?_⟩, ?_, .nil, ?_⟩
  · exact ⟨h 5 (by omega) (.inl (by omega)), rfl, rfl, rfl⟩
  · intro slot e member
    cases member
  · rfl

theorem ExactLeaf.gain (h : ExactLeaf page cells floor garbage slack) :
    compactionGain page = some (garbage + slack) := by
  have account := h.account
  rw [compactionGain_eq h.repr, ← account]
  congr 1
  omega

theorem WellFormed.exactLeaf (h : WellFormed page) :
    ∃ cells floor garbage slack, ExactLeaf page cells floor garbage slack := by
  rcases h with blank | ⟨cells, filled⟩
  · exact ⟨[], 4096, 0, 0, blank.exactLeaf⟩
  · obtain ⟨gain, gained, enough⟩ := filled.garbage
    have repr := filled.repr
    rw [compactionGain_eq repr, Option.some.injEq] at gained
    have packed := repr.layout.repack
    have data := repr.layout.dataSize_le
    have count := length_live_le cells
    have room := repr.layout.room
    have top := repr.layout.top
    rw [length_live] at packed count
    -- the slack is what compaction frees beyond the count
    refine ⟨cells, _, _, gain - (decodePageHeader page).garbageSize, repr, filled.sizes,
      filled.sorted, ?_⟩
    rw [packedSpace] at gained ⊢
    omega

theorem ExactLeaf.wellFormed_of_flag (h : ExactLeaf page cells floor garbage slack)
    (filled : page.byte isPageFilledOffset ≠ pageEmptyType) : WellFormed page := by
  right
  refine ⟨cells, filled, h.repr.shape.numSlots, h.repr.shape.freeSpaceBegin, ?_, h.sizes, h.sorted,
    garbage + slack, h.gain, ?_⟩
  · rw [h.repr.shape.freeSpaceEnd]
    exact h.repr.layout
  · rw [h.repr.shape.garbageSize]
    omega

theorem ExactLeaf.wellFormed (h : ExactLeaf page cells floor garbage slack) (slots : cells ≠ []) :
    WellFormed page := by
  apply h.wellFormed_of_flag
  rcases h.repr.shape.2 with ⟨_, none, _⟩ | ⟨flag, _⟩
  · exact absurd (List.length_eq_zero_iff.mp none) slots
  · exact flag

/-- A change of the checksum alone keeps a page well-formed. -/
theorem WellFormed.updateCRC (h : WellFormed page) : WellFormed (updateCRC page) := by
  rcases h with blank | ⟨cells, filled⟩
  · left
    intro i lower outside
    rw [byte_updateCRC page (by omega)]
    exact blank i lower outside
  · have flag : (HeaderCodec.updateCRC page).byte isPageFilledOffset ≠ pageEmptyType := by
      rw [byte_updateCRC page (by decide)]
      exact filled.filled
    obtain ⟨_, _, _, _, exact_⟩ := WellFormed.exactLeaf (.inr ⟨cells, filled⟩)
    have updated : ExactLeaf (HeaderCodec.updateCRC page) _ _ _ _ :=
      ⟨exact_.repr.updateCRC, exact_.sizes, exact_.sorted, exact_.account⟩
    exact updated.wellFormed_of_flag flag

end

/-! ### The operations -/

/-- `InsertElement` of an absent key adds the pair, or changes nothing but the checksum. -/
def InsertRefines (page : Page) (key value : Bytes) : Prop :=
  findValue page key = some none →
    ∃ page', (insertElement page key value = some (true, page') ∧
        livePairs page' =
          (livePairs page).map (SortedList.insert LeafNodeElement.key ⟨key, value⟩)) ∨
      (insertElement page key value = some (false, page') ∧
        ∀ i, 4 ≤ i → page'.byte i = page.byte i)

/-- `DeleteElement` answers whether the key is live and removes that pair. -/
def DeleteRefines (page : Page) (key : Bytes) : Prop :=
  ∃ removed page', deleteElement page key = some (removed, page') ∧
    (removed = true ↔ ∃ value, findValue page key = some (some value)) ∧
    livePairs page' = (livePairs page).map (SortedList.erase LeafNodeElement.key key)

/-- `SetValue` of a live key, on the page that the space check accepted. -/
def SetValueRefines (page : Page) (key value : Bytes) : Prop :=
  ∀ old checked, findValue page key = some (some old) →
    hasEnoughSpaceToUpdateValue page key old value = some (true, checked) →
    ∃ page', setValue checked key value = some page' ∧
      livePairs page' = (livePairs page).map
        (SortedList.modify LeafNodeElement.key key fun e => ⟨e.key, value⟩)

/-- The page each of the three operations returns is well-formed again. -/
structure StaysWellFormed (page : Page) (key value : Bytes) : Prop where
  insert : ∀ added page', findValue page key = some none →
    insertElement page key value = some (added, page') → WellFormed page'
  delete : ∀ removed page', deleteElement page key = some (removed, page') → WellFormed page'
  setValue : ∀ old checked page', findValue page key = some (some old) →
    hasEnoughSpaceToUpdateValue page key old value = some (true, checked) →
    setValue checked key value = some page' → WellFormed page'

/-- The value, if the key is live, is not replaced by a strictly shorter one. -/
def NotShortened (page : Page) (key value : Bytes) : Prop :=
  ∀ old, findValue page key = some (some old) → old.length ≤ value.length

section
variable {page : Page} {cells : List (Cell LeafNodeElement)} {floor garbage slack : Nat}

theorem absent_of_findValue (h : LeafRepr page cells floor garbage) {key : Bytes}
    (missing : findValue page key = some none) : ∀ x ∈ elements cells, x.key ≠ key := by
  rw [findValue_eq h, Option.some.injEq, Option.map_eq_none_iff] at missing
  exact (SortedList.lookup_eq_none_iff LeafNodeElement.key key _).mp missing

theorem lookup_of_findValue (h : LeafRepr page cells floor garbage) {key old : Bytes}
    (found : findValue page key = some (some old)) :
    SortedList.lookup LeafNodeElement.key key (elements cells) = some ⟨key, old⟩ := by
  rw [findValue_eq h, Option.some.injEq, Option.map_eq_some_iff] at found
  obtain ⟨e, lookup, rfl⟩ := found
  obtain rfl := SortedList.key_of_lookup LeafNodeElement.key lookup
  exact lookup

theorem ExactLeaf.insertRefines (h : ExactLeaf page cells floor garbage slack) (key value : Bytes)
    (small : 2 + key.length + 2 + value.length + 4 < 65536) : InsertRefines page key value := by
  intro missing
  rcases h.insert key value small (absent_of_findValue h.repr missing) with
    ⟨page', cells', _, _, _, done, exact_, _, _, _, added⟩ | refused
  · refine ⟨page', .inl ⟨done, ?_⟩⟩
    rw [livePairs_eq exact_.repr, livePairs_eq h.repr, added, Option.map_some]
  · exact ⟨_, .inr ⟨refused, fun i lower => byte_updateCRC page lower⟩⟩

theorem ExactLeaf.deleteRefines (h : ExactLeaf page cells floor garbage slack) (key : Bytes) :
    DeleteRefines page key := by
  have answer := findValue_eq h.repr key
  cases lookup : SortedList.lookup LeafNodeElement.key key (elements cells) with
  | none =>
    rw [lookup, Option.map_none] at answer
    have absent := (SortedList.lookup_eq_none_iff LeafNodeElement.key key _).mp lookup
    refine ⟨false, page, h.delete_absent absent, ?_, ?_⟩
    · simp [answer]
    · -- removing an absent key is the identity
      have same : SortedList.erase LeafNodeElement.key key (elements cells) = elements cells :=
        List.filter_eq_self.mpr fun e member => by simpa using absent e member
      rw [livePairs_eq h.repr, Option.map_some, same]
  | some e =>
    rw [lookup, Option.map_some] at answer
    obtain ⟨page', cells', _, done, exact_, _, _, erased⟩ := h.delete lookup
    refine ⟨true, page', done, ?_, ?_⟩
    · simp [answer]
    · rw [livePairs_eq exact_.repr, livePairs_eq h.repr, erased, Option.map_some]

/-- What the check and the update do for a value that is not longer than the old one. -/
theorem ExactLeaf.setValue_inPlace (h : ExactLeaf page cells floor garbage slack)
    {key old value : Bytes} (found : findValue page key = some (some old))
    (shorter : value.length ≤ old.length) :
    ∃ page' cells' garbage', setValue page key value = some page' ∧
      LeafRepr page' cells' floor garbage' ∧
      (elements cells' = SortedList.modify LeafNodeElement.key key (fun e => ⟨e.key, value⟩)
        (elements cells)) ∧
      ∃ slot, (slot, some ⟨key, value⟩) ∈ cells' ∧
        slot.elementSize = 2 + key.length + 2 + old.length := by
  have lookup := lookup_of_findValue h.repr found
  obtain ⟨pre, slot, post, rfl, below, above⟩ := exists_live_cut h.sorted lookup
  obtain ⟨page', done, repr, _⟩ := setValue_shorter h.repr below shorter
  refine ⟨page', _, _, done, repr, elements_modify below above slot slot value, slot, by simp, ?_⟩
  rw [h.sizes slot ⟨key, old⟩ (by simp), width_eq]

theorem ExactLeaf.setValueRefines (h : ExactLeaf page cells floor garbage slack)
    (key value : Bytes) (small : 2 + key.length + 2 + value.length + 4 < 65536) :
    SetValueRefines page key value := by
  intro old checked found check
  by_cases shorter : value.length ≤ old.length
  · rw [hasEnoughSpaceToUpdateValue, if_pos shorter] at check
    obtain rfl : page = checked := by simpa using check
    obtain ⟨page', cells', _, done, repr, modified, _⟩ := h.setValue_inPlace found shorter
    refine ⟨page', done, ?_⟩
    rw [livePairs_eq repr, livePairs_eq h.repr, modified, Option.map_some]
  · have lookup := lookup_of_findValue h.repr found
    obtain ⟨page', cells', _, _, _, done, exact_, _, _, modified, _⟩ :=
      h.setValue_checked lookup (not_le.mp shorter) (by omega) check
    refine ⟨page', done, ?_⟩
    rw [livePairs_eq exact_.repr, livePairs_eq h.repr, modified, Option.map_some]

/-- A shrunk element is not the whole region its slot claims. -/
theorem ExactLeaf.shrunk_not_wellFormed (h : ExactLeaf page cells floor garbage slack)
    {key old value : Bytes} (found : findValue page key = some (some old))
    (shorter : value.length < old.length) :
    ∃ page', setValue page key value = some page' ∧ ¬ WellFormed page' := by
  obtain ⟨page', cells', _, done, repr, _, slot, member, size⟩ :=
    h.setValue_inPlace found (le_of_lt shorter)
  refine ⟨page', done, fun wellFormed => ?_⟩
  obtain ⟨cells₂, _, _, _, exact_⟩ := wellFormed.exactLeaf
  -- both descriptions of the page list the same live slots
  have same : live cells' = live cells₂ :=
    Option.some.inj ((getAll_eq repr).symm.trans (getAll_eq exact_.repr))
  have member₂ : (slot, some ⟨key, value⟩) ∈ cells₂ := by
    rw [← mem_live, ← same]
    exact mem_live.mpr member
  have width := exact_.sizes slot _ member₂
  rw [width_eq, size] at width
  simp only at width
  omega

end

/-- On a well-formed page every operation does to the live pairs what the sorted list
operation does, and the result is well-formed again exactly when no live value is replaced
by a strictly shorter one. -/
theorem leafPage_refines_sortedList (page : Page) (wellFormed : WellFormed page)
    (key value : Bytes) (small : 2 + key.length + 2 + value.length + 4 < 65536) :
    InsertRefines page key value ∧ DeleteRefines page key ∧ SetValueRefines page key value ∧
      (StaysWellFormed page key value ↔ NotShortened page key value) := by
  obtain ⟨cells, floor, garbage, slack, h⟩ := wellFormed.exactLeaf
  refine ⟨h.insertRefines key value small, h.deleteRefines key, h.setValueRefines key value small,
    ?_, ?_⟩
  · intro stays old found
    by_contra shorter
    obtain ⟨page', done, broken⟩ := h.shrunk_not_wellFormed found (not_le.mp shorter)
    have check : hasEnoughSpaceToUpdateValue page key old value = some (true, page) := by
      rw [hasEnoughSpaceToUpdateValue, if_pos (le_of_lt (not_le.mp shorter))]
    exact broken (stays.setValue old page page' found check done)
  · intro notShortened
    constructor
    · intro added page' missing done
      rcases h.insert key value small (absent_of_findValue h.repr missing) with
        ⟨_, _, _, _, _, accepted, exact_, _, slots, _, _⟩ | refused
      · rw [accepted, Option.some.injEq, Prod.mk.injEq] at done
        obtain ⟨-, rfl⟩ := done
        exact exact_.wellFormed slots
      · rw [refused, Option.some.injEq, Prod.mk.injEq] at done
        obtain ⟨-, rfl⟩ := done
        exact wellFormed.updateCRC
    · intro removed page' done
      cases lookup : SortedList.lookup LeafNodeElement.key key (elements cells) with
      | none =>
        rw [h.delete_absent ((SortedList.lookup_eq_none_iff LeafNodeElement.key key _).mp lookup),
          Option.some.injEq, Prod.mk.injEq] at done
        obtain ⟨-, rfl⟩ := done
        exact wellFormed
      | some e =>
        obtain ⟨_, _, _, deleted, exact_, slots, _, _⟩ := h.delete lookup
        rw [deleted, Option.some.injEq, Prod.mk.injEq] at done
        obtain ⟨-, rfl⟩ := done
        exact exact_.wellFormed slots
    · intro old checked page' found check done
      have lookup := lookup_of_findValue h.repr found
      rcases (notShortened old found).lt_or_eq with longer | same
      · obtain ⟨_, _, _, _, _, set, exact_, _, slots, _⟩ :=
          h.setValue_checked lookup longer (by omega) check
        obtain rfl := Option.some.inj (set.symm.trans done)
        exact exact_.wellFormed slots
      · rw [hasEnoughSpaceToUpdateValue, if_pos (le_of_eq same.symm)] at check
        obtain rfl : page = checked := by simpa using check
        obtain ⟨_, _, set, exact_, slots, _⟩ := h.setValue_same lookup same.symm
        obtain rfl := Option.some.inj (set.symm.trans done)
        exact exact_.wellFormed slots

theorem blank_zero : Blank (Buffer.zero 4096) := fun i _ _ => Buffer.byte_zero i

theorem leafPage_refines_sortedList_blank :
    WellFormed (Buffer.zero 4096) ∧ InsertRefines (Buffer.zero 4096) [1] [2, 3] ∧
      StaysWellFormed (Buffer.zero 4096) [1] [2, 3] := by
  have refines := leafPage_refines_sortedList (Buffer.zero 4096) (.inl blank_zero) [1] [2, 3]
    (by decide)
  refine ⟨.inl blank_zero, refines.1, refines.2.2.2.mpr ?_⟩
  intro old found
  rw [findValue_eq blank_zero.exactLeaf.repr] at found
  cases found

/-- The first element of a blank page. -/
theorem Blank.insert {page : Page} (h : Blank page) (key value : Bytes)
    (fits : key.length + value.length ≤ 4056) :
    ∃ page' slot, insertElement page key value = some (true, page') ∧
      ExactLeaf page' [(slot, some ⟨key, value⟩)] (4096 - (2 + key.length + 2 + value.length))
        0 0 := by
  have base : headerSize = 32 := rfl
  have start := h.exactLeaf
  obtain ⟨page', pre, post, slot, cut, size, done, repr, _⟩ :=
    insertElement_room start.repr key value start.sorted.le
      (by simp only [List.length_nil]; omega)
  obtain ⟨rfl, rfl⟩ := List.append_eq_nil_iff.mp cut.eq.symm
  have exact_ := start.inserted (by simp) (by simp only [List.length_nil]; omega) cut size repr
  exact ⟨page', slot, done, exact_⟩

/-- A one-byte value set to the empty one: the slot still claims five bytes for an element
of four. -/
theorem shrinkingUpdate_breaks_page :
    ¬ ∀ page, WellFormed page → ∀ key value : Bytes,
      2 + key.length + 2 + value.length + 4 < 65536 →
      InsertRefines page key value ∧ DeleteRefines page key ∧ SetValueRefines page key value ∧
        StaysWellFormed page key value := by
  intro claimed
  obtain ⟨page, slot, _, exact_⟩ := blank_zero.insert [] [0] (by decide)
  have found : findValue page [] = some (some [0]) := by
    rw [findValue_eq exact_.repr]
    rfl
  obtain ⟨page', done, broken⟩ := exact_.shrunk_not_wellFormed found (show ([] : Bytes).length < 1 by decide)
  have stays := (claimed page (exact_.wellFormed (by simp)) [] [] (by decide)).2.2.2
  exact broken (stays.setValue [0] page page' found rfl done)

end LeafNodeCodec

end CambiumDB
