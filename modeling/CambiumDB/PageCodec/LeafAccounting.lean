import CambiumDB.PageCodec.LeafSpec

/-!
# Leaf pages with exact slot sizes

`ExactLeaf` is a represented leaf page on which every slot claims exactly its element and
the header's garbage count, the free space and some `slack` add up to what a compacted
page would have free. Every operation but an in-place shrink keeps such a page, and no
operation adds slack: a page with no slack counts its garbage exactly.
-/

namespace CambiumDB

open ByteBuffer HeaderConfig HeaderCodec SlotCodec SlottedPage

namespace LeafNodeCodec

/-- Every slot claims the bytes of its element and no more. -/
def ExactSizes (cells : List (Cell LeafNodeElement)) : Prop :=
  ∀ slot e, (slot, some e) ∈ cells → slot.elementSize = width elementCodec e

structure ExactLeaf (page : Page) (cells : List (Cell LeafNodeElement)) (floor garbage slack : Nat) :
    Prop where
  repr : LeafRepr page cells floor garbage
  sizes : ExactSizes cells
  sorted : KeysSorted cells
  account : garbage + (floor - (headerSize + 4 * cells.length)) + slack =
    packedSpace elementCodec (elements cells)

theorem length_live (cells : List (Cell LeafNodeElement)) :
    (live cells).length = (elements cells).length := by
  rw [← live_map_snd, List.length_map]

/-- A live key splits the cells at its slot. -/
theorem exists_live_cut {cells : List (Cell LeafNodeElement)} (sorted : KeysSorted cells)
    {key : Bytes} {e : LeafNodeElement}
    (found : SortedList.lookup LeafNodeElement.key key (elements cells) = some e) :
    ∃ pre slot post, cells = pre ++ (slot, some e) :: post ∧
      (∀ x ∈ elements pre, x.key < e.key) ∧ ∀ x ∈ elements post, e.key < x.key := by
  obtain ⟨slot, member⟩ := mem_elements.mp (SortedList.mem_of_lookup LeafNodeElement.key found)
  obtain ⟨pre, post, rfl⟩ := List.append_of_mem member
  rw [KeysSorted, SortedList.Sorted, elements_append, elements_cons_some, List.pairwise_append,
    List.pairwise_cons] at sorted
  exact ⟨pre, slot, post, rfl, fun x hx => sorted.2.2 x hx e (by simp), sorted.2.1.1⟩

theorem elements_insert {cells pre post : List (Cell LeafNodeElement)} {key : Bytes}
    (cut : CutAt elementCodec key cells pre post) (slot : Slot) (value : Bytes) :
    elements (pre ++ (slot, some ⟨key, value⟩) :: post) =
      SortedList.insert LeafNodeElement.key ⟨key, value⟩ (elements cells) := by
  rw [cut.eq, elements_append, elements_append, elements_cons_some]
  exact (SortedList.insert_append LeafNodeElement.key ⟨key, value⟩ _ _ cut.below cut.above).symm

section
variable {pre post : List (Cell LeafNodeElement)} {e : LeafNodeElement}
  (below : ∀ x ∈ elements pre, x.key < e.key) (above : ∀ x ∈ elements post, e.key < x.key)
include below above

theorem elements_erase (slot dead : Slot) : elements (pre ++ (dead, none) :: post) =
    SortedList.erase LeafNodeElement.key e.key (elements (pre ++ (slot, some e) :: post)) := by
  simp only [elements_append, elements_cons_dead, elements_cons_some]
  exact (SortedList.erase_append_cons LeafNodeElement.key rfl (fun a ha => (below a ha).ne)
    fun b hb => (above b hb).ne').symm

theorem elements_modify (slot slot' : Slot) (value : Bytes) :
    elements (pre ++ (slot', some ⟨e.key, value⟩) :: post) =
      SortedList.modify LeafNodeElement.key e.key (fun x => ⟨x.key, value⟩)
        (elements (pre ++ (slot, some e) :: post)) := by
  simp only [elements_append, elements_cons_some]
  exact (SortedList.modify_append_cons (f := fun x => ⟨x.key, value⟩) LeafNodeElement.key rfl
    (fun a ha => (below a ha).ne) fun b hb => (above b hb).ne').symm

end

theorem exactSizes_packed (stop : Nat) {entries : List (Slot × LeafNodeElement)}
    (sizes : ∀ entry ∈ entries, entry.1.elementSize = width elementCodec entry.2) :
    ExactSizes (packed elementCodec stop entries) :=
  fun _ _ member => sizes_packed sizes member

namespace ExactLeaf

variable {page : Page} {cells : List (Cell LeafNodeElement)} {floor garbage slack : Nat}

theorem packed_le (h : ExactLeaf page cells floor garbage slack) :
    headerSize + 4 * (elements cells).length + dataSize elementCodec (elements cells) ≤ 4096 := by
  rw [← length_live]
  exact h.repr.layout.repack

theorem compact (h : ExactLeaf page cells floor garbage slack) :
    ∃ page', compact page = some page' ∧
      ExactLeaf page' (packed elementCodec 4096 (live cells))
        (4096 - dataSize elementCodec (elements cells)) 0 0 ∧ Keeps page page' := by
  obtain ⟨page', done, repr, keeps⟩ := compact_spec h.repr
  have size := h.packed_le
  refine ⟨page', done, ⟨repr, ?_, ?_, ?_⟩, keeps⟩
  · exact exactSizes_packed _ fun entry member => h.sizes entry.1 entry.2 (mem_live.mp member)
  · rw [KeysSorted, elements_packed, live_map_snd]
    exact h.sorted
  · rw [elements_packed, live_map_snd, length_packed, length_live, packedSpace]
    omega

/-- The page after an element was added at the cut. -/
theorem inserted (h : ExactLeaf page cells floor garbage slack) {page' : Page}
    {pre post : List (Cell LeafNodeElement)} {slot : Slot} {key value : Bytes}
    (absent : ∀ x ∈ elements cells, x.key ≠ key)
    (room : headerSize + 4 * (cells.length + 1) + (2 + key.length + 2 + value.length) ≤ floor)
    (cut : CutAt elementCodec key cells pre post)
    (size : slot.elementSize = 2 + key.length + 2 + value.length)
    (repr : LeafRepr page' (pre ++ (slot, some ⟨key, value⟩) :: post)
      (floor - (2 + key.length + 2 + value.length)) garbage) :
    ExactLeaf page' (pre ++ (slot, some ⟨key, value⟩) :: post)
      (floor - (2 + key.length + 2 + value.length)) garbage slack := by
  have added := elements_insert cut slot value
  have count : cells.length = pre.length + post.length := by rw [cut.eq, List.length_append]
  refine ⟨repr, ?_, ?_, ?_⟩
  · intro s e member
    rcases List.mem_append.mp member with front | rest
    · exact h.sizes s e (by rw [cut.eq]; simp [front])
    rcases List.mem_cons.mp rest with same | back
    · cases same
      rw [width_eq]
      exact size
    · exact h.sizes s e (by rw [cut.eq]; simp [back])
  · rw [KeysSorted, added]
    exact SortedList.Sorted.insert LeafNodeElement.key h.sorted absent
  · have account := h.account
    have width := width_eq ⟨key, value⟩
    have size' := repr.layout.repack
    rw [length_live] at size'
    simp only [cut.eq, elements_append, elements_cons_some, List.length_append, List.length_cons,
      dataSize_append, dataSize_cons, packedSpace] at account size' ⊢
    simp only at width
    omega

/-- `InsertElement` of an absent key: accepted, or refused without a change. -/
theorem insert (h : ExactLeaf page cells floor garbage slack) (key value : Bytes)
    (small : 2 + key.length + 2 + value.length + 4 < 65536)
    (absent : ∀ x ∈ elements cells, x.key ≠ key) :
    (∃ page' cells' floor' garbage' slack', insertElement page key value = some (true, page') ∧
        ExactLeaf page' cells' floor' garbage' slack' ∧ slack' ≤ slack ∧ cells' ≠ [] ∧
        Keeps page page' ∧ elements cells' =
          SortedList.insert LeafNodeElement.key ⟨key, value⟩ (elements cells)) ∨
      insertElement page key value = some (false, updateCRC page) := by
  by_cases room : headerSize + 4 * (cells.length + 1) + (2 + key.length + 2 + value.length) ≤ floor
  · left
    obtain ⟨page', pre, post, slot, cut, size, done, repr, keeps⟩ :=
      insertElement_room h.repr key value h.sorted.le room
    exact ⟨page', _, _, _, slack, done, h.inserted absent room cut size repr, le_refl _, by simp,
      keeps, elements_insert cut slot value⟩
  by_cases enough : 2 + key.length + 2 + value.length + 4 ≤ garbage
  · left
    have size := h.packed_le
    have account := h.account
    -- the garbage count never exceeds what compaction frees, so the element fits afterwards
    have fits : 2 + key.length + 2 + value.length + 4 ≤
        packedSpace elementCodec (elements cells) := by omega
    obtain ⟨page', pre, post, slot, cut, size', done, repr, keeps⟩ :=
      insertElement_garbage h.repr h.sorted.le (by omega) enough fits
    obtain ⟨_, _, compacted, _⟩ := h.compact
    rw [packedSpace] at fits
    have result := compacted.inserted
      (by rwa [elements_packed, live_map_snd])
      (by rw [length_packed, length_live]; omega) cut size' repr
    refine ⟨page', _, _, _, 0, done, result, Nat.zero_le _, by simp, keeps, ?_⟩
    rw [elements_insert cut slot value, elements_packed, live_map_snd]
  · right
    exact insertElement_full h.repr small (by omega) (by omega)

theorem delete (h : ExactLeaf page cells floor garbage slack) {key : Bytes} {e : LeafNodeElement}
    (found : SortedList.lookup LeafNodeElement.key key (elements cells) = some e) :
    ∃ page' cells' garbage', deleteElement page key = some (true, page') ∧
      ExactLeaf page' cells' floor garbage' slack ∧ cells' ≠ [] ∧ Keeps page page' ∧
      elements cells' = SortedList.erase LeafNodeElement.key key (elements cells) := by
  obtain ⟨pre, slot, post, rfl, below, above⟩ := exists_live_cut h.sorted found
  obtain rfl := SortedList.key_of_lookup LeafNodeElement.key found
  obtain ⟨page', done, repr, keeps⟩ := deleteElement_live h.repr below
  have erased := elements_erase below above slot
    ⟨slot.elementSize, deletedElementPointerVal⟩
  refine ⟨page', _, _, done, ⟨repr, ?_, ?_, ?_⟩, by simp, keeps, erased⟩
  · intro s f member
    refine h.sizes s f ?_
    rcases List.mem_append.mp member with front | rest
    · simp [front]
    rcases List.mem_cons.mp rest with dead | back
    · cases dead
    · simp [back]
  · rw [KeysSorted, erased]
    exact SortedList.Sorted.erase LeafNodeElement.key h.sorted e.key
  · have account := h.account
    have size := h.packed_le
    have exact_ := h.sizes slot e (by simp)
    simp only [elements_append, elements_cons_some, elements_cons_dead, List.length_append,
      List.length_cons, dataSize_append, dataSize_cons, packedSpace, slotSize] at account size ⊢
    omega

theorem delete_absent (h : ExactLeaf page cells floor garbage slack) {key : Bytes}
    (absent : ∀ x ∈ elements cells, x.key ≠ key) :
    deleteElement page key = some (false, page) := by
  have search := h.repr.layout.linearSearch h.repr.shape.numSlots key
  have missing := searchCells_absent (c := elementCodec) absent headerSize
  simp only [deleteElement, SlottedPage.deleteElement, search, bind, Option.bind]

/-- A value of the same length is overwritten in place. -/
theorem setValue_same (h : ExactLeaf page cells floor garbage slack) {key value : Bytes}
    {e : LeafNodeElement}
    (found : SortedList.lookup LeafNodeElement.key key (elements cells) = some e)
    (length : value.length = e.value.length) :
    ∃ page' cells', setValue page key value = some page' ∧
      ExactLeaf page' cells' floor garbage slack ∧ cells' ≠ [] ∧ Keeps page page' ∧
      elements cells' = SortedList.modify LeafNodeElement.key key (fun x => ⟨x.key, value⟩)
        (elements cells) := by
  obtain ⟨pre, slot, post, rfl, below, above⟩ := exists_live_cut h.sorted found
  obtain rfl := SortedList.key_of_lookup LeafNodeElement.key found
  obtain ⟨page', done, repr, keeps⟩ := setValue_shorter h.repr below (le_of_eq length)
  have bounded := h.repr.shape.garbage_lt
  rw [length, Nat.sub_self, Nat.add_zero, Nat.mod_eq_of_lt bounded] at repr
  have modified := elements_modify below above slot slot value
  have width := width_eq e
  have width' := width_eq ⟨e.key, value⟩
  simp only at width'
  refine ⟨page', _, done, ⟨repr, ?_, ?_, ?_⟩, by simp, keeps, modified⟩
  · intro s f member
    rcases List.mem_append.mp member with front | rest
    · exact h.sizes s f (by simp [front])
    rcases List.mem_cons.mp rest with here | back
    · cases here
      rw [h.sizes slot e (by simp)]
      omega
    · exact h.sizes s f (by simp [back])
  · rw [KeysSorted, modified]
    exact SortedList.Sorted.modify LeafNodeElement.key h.sorted e.key fun _ => rfl
  · have account := h.account
    simp only [elements_append, elements_cons_some, List.length_append, List.length_cons,
      dataSize_append, dataSize_cons, packedSpace] at account ⊢
    omega

/-- A longer value, once there is room for its element. -/
theorem setValue_grown (h : ExactLeaf page cells floor garbage slack) {key value : Bytes}
    {e : LeafNodeElement}
    (found : SortedList.lookup LeafNodeElement.key key (elements cells) = some e)
    (longer : e.value.length < value.length)
    (room : headerSize + 4 * cells.length + (2 + key.length + 2 + value.length) ≤ floor) :
    ∃ page' cells' floor' garbage', setValue page key value = some page' ∧
      ExactLeaf page' cells' floor' garbage' slack ∧ cells' ≠ [] ∧ Keeps page page' ∧
      elements cells' = SortedList.modify LeafNodeElement.key key (fun x => ⟨x.key, value⟩)
        (elements cells) := by
  obtain ⟨pre, slot, post, rfl, below, above⟩ := exists_live_cut h.sorted found
  obtain rfl := SortedList.key_of_lookup LeafNodeElement.key found
  obtain ⟨page', slot', size', done, repr, keeps⟩ := setValue_longer h.repr below longer room
  have modified := elements_modify below above slot slot' value
  have width' := width_eq ⟨e.key, value⟩
  simp only at width'
  refine ⟨page', _, _, _, done, ⟨repr, ?_, ?_, ?_⟩, by simp, keeps, modified⟩
  · intro s f member
    rcases List.mem_append.mp member with front | rest
    · exact h.sizes s f (by simp [front])
    rcases List.mem_cons.mp rest with here | back
    · cases here
      rw [size', width']
    · exact h.sizes s f (by simp [back])
  · rw [KeysSorted, modified]
    exact SortedList.Sorted.modify LeafNodeElement.key h.sorted e.key fun _ => rfl
  · have account := h.account
    have size := h.packed_le
    have repacked := repr.layout.repack
    rw [length_live] at repacked
    simp only [elements_append, elements_cons_some, List.length_append, List.length_cons,
      dataSize_append, dataSize_cons, packedSpace] at account size room repacked ⊢
    omega

/-- A growing update: whenever the space check said yes, the new element fits in the free
space of the page it left behind. -/
theorem setValue_checked (h : ExactLeaf page cells floor garbage slack) {key value : Bytes}
    {e : LeafNodeElement}
    (found : SortedList.lookup LeafNodeElement.key key (elements cells) = some e)
    (longer : e.value.length < value.length)
    (small : 2 + key.length + 2 + value.length < 65536) {checked : Page}
    (check : hasEnoughSpaceToUpdateValue page key e.value value = some (true, checked)) :
    ∃ page' cells' floor' garbage' slack', setValue checked key value = some page' ∧
      ExactLeaf page' cells' floor' garbage' slack' ∧ slack' ≤ slack ∧ cells' ≠ [] ∧
      (elements cells' = SortedList.modify LeafNodeElement.key key (fun x => ⟨x.key, value⟩)
        (elements cells)) ∧
      (decodePageHeader checked).freeSpaceBegin + (2 + key.length + 2 + value.length) ≤
        (decodePageHeader checked).freeSpaceEnd := by
  rw [hasEnoughSpaceToUpdateValue, if_neg (not_le.mpr longer)] at check
  have room := h.repr.layout.room
  rcases hasEnoughSpace_cases h.repr key value with ⟨fits, answer⟩ | ⟨_, enough, page₁, run, answer, _⟩ |
    ⟨_, _, answer⟩
  · rw [answer, Option.some.injEq, Prod.mk.injEq] at check
    obtain ⟨-, rfl⟩ := check
    rw [Nat.mod_eq_of_lt small] at fits
    obtain ⟨page', cells', floor', garbage', done, exact_, nonempty, _, modified⟩ :=
      h.setValue_grown found longer (by omega)
    refine ⟨page', cells', floor', garbage', slack, done, exact_, le_refl _, nonempty, modified, ?_⟩
    rw [h.repr.shape.freeSpaceBegin, h.repr.shape.freeSpaceEnd]
    omega
  · obtain ⟨page₂, done, compacted, _⟩ := h.compact
    rw [answer, Option.some.injEq, Prod.mk.injEq] at check
    obtain rfl : page₁ = page₂ := Option.some.inj (run.symm.trans done)
    obtain ⟨-, rfl⟩ := check
    have account := h.account
    have size := h.packed_le
    have lookup' : SortedList.lookup LeafNodeElement.key key
        (elements (packed elementCodec 4096 (live cells))) = some e := by
      rw [elements_packed, live_map_snd]
      exact found
    have fits : headerSize + 4 * (packed elementCodec 4096 (live cells)).length +
        (2 + key.length + 2 + value.length) ≤ 4096 - dataSize elementCodec (elements cells) := by
      rw [length_packed, length_live]
      rw [packedSpace] at account
      omega
    obtain ⟨page', cells', floor', garbage', done', exact_, nonempty, _, modified⟩ :=
      compacted.setValue_grown lookup' longer fits
    rw [elements_packed, live_map_snd] at modified
    refine ⟨page', cells', floor', garbage', 0, done', exact_, Nat.zero_le _, nonempty, modified, ?_⟩
    rw [compacted.repr.shape.freeSpaceBegin, compacted.repr.shape.freeSpaceEnd]
    exact fits
  · rw [answer] at check
    cases check

end ExactLeaf

end LeafNodeCodec

end CambiumDB
