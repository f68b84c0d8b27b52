import CambiumDB.PageCodec.InternalRouting

/-!
# Where a node is split

`FindSplitNodeIndex` goes through the live slots until they claim more than half of the bytes that
all of them claim. It stops inside the node exactly if some of the slots, but not all, claim that
much.
-/

namespace CambiumDB

open ByteBuffer HeaderConfig HeaderCodec SlotCodec SlottedPage

namespace SlottedPage

variable {E : Type}

/-- The bytes that the first `j` slots claim, added up as the code does it. -/
def claimed (entries : List (Slot × E)) (j : Nat) : Nat :=
  getTotalDataRegionSize ((entries.take j).map Prod.fst)

/-- The loop stops before `m` more slots exactly if fewer of them push it past the half. -/
theorem splitLoop_lt_iff (total : Nat) (slots : List Slot) (left index m : Nat)
    (inside : m ≤ slots.length) : splitLoop total slots left index < index + m ↔
      ∃ j < m, total / 2 <
        (slots.take j).foldl (fun size slot => (size + slot.elementSize) % 65536) left := by
  induction slots generalizing left index m with
  | nil =>
    obtain rfl : m = 0 := Nat.le_zero.1 inside
    simp [splitLoop]
  | cons slot rest ih =>
    cases m with
    | zero =>
      have reached := le_splitLoop total (slot :: rest) left index
      simp only [Nat.add_zero, Nat.not_lt_zero, false_and, exists_false, iff_false, not_lt]
      exact reached
    | succ m =>
      rw [splitLoop]
      split
      next small =>
        have later := ih ((left + slot.elementSize) % 65536) (index + 1) m
          (Nat.le_of_succ_le_succ inside)
        rw [show index + (m + 1) = index + 1 + m by omega, later]
        constructor
        · rintro ⟨j, below, past⟩
          exact ⟨j + 1, Nat.succ_lt_succ below, past⟩
        · rintro ⟨j, below, past⟩
          cases j with
          | zero => exact absurd past (not_lt.2 small)
          | succ j => exact ⟨j, Nat.lt_of_succ_lt_succ below, past⟩
      next past =>
        constructor
        · intro _
          exact ⟨0, Nat.succ_pos m, not_le.1 past⟩
        · intro _
          omega

/-- A split index inside the first `m` slots. -/
theorem findSplitNodeIndex_iff {c : ElementCodec E} {page : Page} {entries : List (Slot × E)}
    (read : getAllSlotsAndElements c page = some entries) {m : Nat} (inside : m ≤ entries.length) :
    ∃ i, findSplitNodeIndex c page = some i ∧
      (0 < i ∧ i < m ↔ ∃ j < m, claimed entries entries.length / 2 < claimed entries j) := by
  have loop := splitLoop_lt_iff (getTotalDataRegionSize (entries.map Prod.fst))
    (entries.map Prod.fst) 0 0 m (by rwa [List.length_map])
  rw [Nat.zero_add] at loop
  have same : ∀ j, claimed entries j =
      ((entries.map Prod.fst).take j).foldl (fun size slot => (size + slot.elementSize) % 65536) 0 := by
    intro j
    rw [claimed, List.map_take]
    rfl
  have all : claimed entries entries.length = getTotalDataRegionSize (entries.map Prod.fst) := by
    rw [claimed, List.take_length]
  refine ⟨_, by rw [findSplitNodeIndex, read]; rfl, ?_⟩
  simp only [same, ← all] at loop ⊢
  rw [← loop, and_iff_right_iff_imp]
  intro below
  -- with a slot in front of `m`, the loop takes at least this one
  cases entries with
  | nil =>
    obtain rfl : m = 0 := Nat.le_zero.1 inside
    exact absurd below (Nat.not_lt_zero _)
  | cons entry rest =>
    rw [List.map_cons, splitLoop, if_pos (Nat.zero_le _)]
    exact le_splitLoop _ _ _ _

end SlottedPage

/-- `FindSplitNodeIndex` stops inside a leaf, with entries on both sides, exactly if some of its
entries, but not all, claim more than half of the bytes. In an internal node one more entry has
to be left, since the one at the index goes up. -/
theorem splitIndex_inRange_iff (page : Page) :
    (∀ entries, LeafNodeCodec.getAllSlotsAndElements page = some entries →
      ∃ i, LeafNodeCodec.findSplitNodeIndex page = some i ∧
        (0 < i ∧ i < entries.length ↔
          ∃ j < entries.length, claimed entries entries.length / 2 < claimed entries j)) ∧
    (∀ entries, InternalNodeCodec.getAllSlotsAndElements page = some entries →
      ∃ i, InternalNodeCodec.findSplitNodeIndex page = some i ∧
        (0 < i ∧ i < entries.length - 1 ↔
          ∃ j < entries.length - 1, claimed entries entries.length / 2 < claimed entries j)) := by
  constructor
  · intro entries read
    exact findSplitNodeIndex_iff read (Nat.le_refl _)
  · intro entries read
    exact findSplitNodeIndex_iff read (Nat.sub_le _ _)

theorem splitIndex_inRange_of_equal_sizes :
    (∃ page entries i, LeafNodeCodec.getAllSlotsAndElements page = some entries ∧
      LeafNodeCodec.findSplitNodeIndex page = some i ∧ 0 < i ∧ i < entries.length) ∧
    (∃ page entries i, InternalNodeCodec.getAllSlotsAndElements page = some entries ∧
      InternalNodeCodec.findSplitNodeIndex page = some i ∧ 0 < i ∧ i < entries.length - 1) := by
  constructor
  · have sizes : SizesOk (c := LeafNodeCodec.elementCodec)
        [(⟨5, 0⟩, ⟨[1], []⟩), (⟨5, 0⟩, ⟨[2], []⟩), (⟨5, 0⟩, ⟨[3], []⟩)] := by
      unfold SizesOk
      decide
    obtain ⟨page, _, repr, _⟩ := putAll_spec sizes (Buffer.zero 4096) (by decide)
    have read := LeafNodeCodec.getAll_eq repr
    obtain ⟨i, index, inRange⟩ := (splitIndex_inRange_iff page).1 _ read
    exact ⟨page, _, i, read, index, inRange.2 ⟨2, by decide, by decide⟩⟩
  · have sizes : SizesOk (c := InternalNodeCodec.elementCodec)
        [(⟨19, 0⟩, ⟨[1], 1, 2⟩), (⟨19, 0⟩, ⟨[2], 2, 3⟩), (⟨19, 0⟩, ⟨[3], 3, 4⟩),
          (⟨19, 0⟩, ⟨[4], 4, 5⟩), (⟨19, 0⟩, ⟨[5], 5, 6⟩)] := by
      unfold SizesOk
      decide
    obtain ⟨page, _, repr, _⟩ := putAll_spec sizes (Buffer.zero 4096) (by decide)
    have read := repr.layout.getAll repr.shape.numSlots
    obtain ⟨i, index, inRange⟩ := (splitIndex_inRange_iff page).2 _ read
    exact ⟨page, _, i, read, index, inRange.2 ⟨3, by decide, by decide⟩⟩

/-- A leaf with one entry of more than half a page, and an internal node with one such separator,
are split for a second one like it. The loop then runs past the only entry. -/
theorem splitIndex_past_only_entry :
    (¬ ∀ page key value checked entries, LeafNodeCodec.WellFormed page →
      LeafNodeCodec.hasEnoughSpaceToInsertElement page key value = some (false, checked) →
      LeafNodeCodec.getAllSlotsAndElements checked = some entries →
      ∃ i, LeafNodeCodec.findSplitNodeIndex checked = some i ∧ 0 < i ∧ i < entries.length) ∧
    (¬ ∀ page key checked entries, InternalNodeCodec.WellFormed page →
      InternalNodeCodec.hasEnoughSpaceToInsertElement page key = some (false, checked) →
      InternalNodeCodec.getAllSlotsAndElements checked = some entries →
      ∃ i, InternalNodeCodec.findSplitNodeIndex checked = some i ∧
        0 < i ∧ i < entries.length - 1) := by
  constructor
  · intro inRange
    obtain ⟨value, long⟩ : ∃ value : Bytes, value.length = 2100 :=
      ⟨List.replicate 2100 0, List.length_replicate⟩
    obtain ⟨page, slot, _, one⟩ := LeafNodeCodec.blank_zero.insert [1] value
      (by rw [long]; decide)
    have read := LeafNodeCodec.getAll_eq one.repr
    have full : LeafNodeCodec.hasEnoughSpaceToInsertElement page [2] value = some (false, page) := by
      rcases LeafNodeCodec.hasEnoughSpace_cases one.repr [2] value with
        ⟨fits, _⟩ | ⟨_, enough, _⟩ | ⟨_, _, answer⟩
      · simp only [long, headerSize, List.length_cons, List.length_nil] at fits
        omega
      · omega
      · exact answer
    obtain ⟨i, index, positive, below⟩ := inRange page [2] value page _
      (one.wellFormed (by simp)) full read
    -- the first entry is on the left, and there is no other
    have only : i < 1 := below
    omega
  · intro inRange
    obtain ⟨key, long⟩ : ∃ key : Bytes, key.length = 2100 :=
      ⟨List.replicate 2100 0, List.length_replicate⟩
    obtain ⟨none, free⟩ := InternalNodeCodec.separators_zero 0 10
    obtain ⟨page, _, one, _⟩ := InternalNodeCodec.Separators.insertElement [] [] none 20
      (by simp) (by simp) (show InternalNodeCodec.separatorSpace key ≤ _ by
        rw [free, InternalNodeCodec.separatorSpace, long]; decide)
    obtain ⟨wellFormed, _⟩ := one.wellFormed (by simp)
    obtain ⟨entries, read, listed, _⟩ := one.getAll
    have count : entries.length = 1 := by
      rw [← List.length_map Prod.snd, listed]
      rfl
    have full : InternalNodeCodec.hasEnoughSpaceToInsertElement page key = some (false, page) := by
      have space := one.space
      simp only [List.nil_append, List.map_cons, List.map_nil, List.sum_cons, List.sum_nil,
        InternalNodeCodec.separatorSpace, long, headerSize, slotSize] at space
      exact one.check_full (by rw [long]; decide) (by rw [long]; omega)
    obtain ⟨i, index, positive, below⟩ := inRange page key page entries wellFormed full read
    rw [count] at below
    omega

end CambiumDB
