import CambiumDB.PageCodec.SpaceCheck

/-!
# Space checks in `uint16` and in exact integers

`isAdequate` converts the size that is asked for to `uint16` before it compares it with the free
space. A size of 2 ^ 16 or more may wrap to one that looks small; the write then starts at a
negative offset. The garbage count is compared as `int`, but nothing makes it agree with what a
compaction frees.
-/

namespace CambiumDB

open ByteBuffer HeaderConfig HeaderCodec SlotCodec

open LeafNodeCodec (freeSpace)

namespace HeaderCodec

/-- The free space begins before it ends, inside the page. -/
structure FreeInside (page : Page) : Prop where
  ordered : (decodePageHeader page).freeSpaceBegin ≤ (decodePageHeader page).freeSpaceEnd
  inside : (decodePageHeader page).freeSpaceEnd ≤ 4096

/-- The decision in exact integers. -/
def exactlyFits (page : Page) (need : Nat) : Bool :=
  decide (need ≤ freeSpace page) || decide (need ≤ (decodePageHeader page).garbageSize)

/-- A size past `uint16` does not look like one that fits. -/
def NoWrap (page : Page) (need : Nat) : Prop := 65536 ≤ need → freeSpace page < need % 65536

instance (page : Page) (need : Nat) : Decidable (NoWrap page need) := by
  unfold NoWrap; infer_instance

theorem garbageSize_lt (page : Page) : (decodePageHeader page).garbageSize < 65536 := by
  rw [decodePageHeader]
  split
  · decide
  · exact Buffer.getLE_lt page garbageSizeOffset 2

section
variable {page : Page} (h : FreeInside page)
include h

theorem isAdequate_eq (need : Nat) : isAdequate page need = decide (need % 65536 ≤ freeSpace page) := by
  have ordered := h.ordered
  have inside := h.inside
  have space : ((decodePageHeader page).freeSpaceEnd + 65536 - (decodePageHeader page).freeSpaceBegin) %
      65536 = freeSpace page := by
    rw [freeSpace]
    omega
  rw [isAdequate]
  simp only [space]

/-- The check decides as exact integers do, unless the size wraps to one that fits. -/
theorem decision_exact_iff (need : Nat) :
    (isAdequate page need || shouldCompact page need) = exactlyFits page need ↔
      NoWrap page need := by
  have garbage := garbageSize_lt page
  have inside := h.inside
  have free : freeSpace page ≤ 4096 := by
    rw [freeSpace]
    omega
  rw [isAdequate_eq h, shouldCompact, exactlyFits, NoWrap]
  by_cases huge : 65536 ≤ need
  · have tooMuch : ¬ need ≤ (decodePageHeader page).garbageSize := by omega
    have tooLong : ¬ need ≤ freeSpace page := by omega
    simp [huge, tooMuch, tooLong]
  · rw [Nat.mod_eq_of_lt (not_le.mp huge)]
    simp [huge]

end

end HeaderCodec

namespace SlottedPage

variable {E : Type} (c : ElementCodec E)

/-- The page that `InsertElement` hands to `appendElement`: the page itself, or what a compaction
made of it. -/
def appendTarget (page : Page) (elementSpaceRequired : Nat) : Option Page :=
  if isAdequate page (elementSpaceRequired + slotSize) then some page
  else if shouldCompact page (elementSpaceRequired + slotSize) then compact c page
  else none

/-- `InsertElement` answers no, or goes on with that page. -/
theorem insertElement_eq_target (insertSlot : Page → Slot → E → Option (Page × Nat)) (page : Page)
    (need : Nat) (e : E) : insertElement c insertSlot page need e =
      if isAdequate page (need + slotSize) || shouldCompact page (need + slotSize) then do
        let target ← appendTarget c page need
        let header := decodePageHeader target
        let (page, freeSpaceEnd) ← appendElement c target header.freeSpaceEnd e
        let (page, freeSpaceBegin) ←
          insertSlot page ⟨c.calculateElementSize e, freeSpaceEnd⟩ e
        let page := setFreeSpaceBegin (setFreeSpaceEnd page freeSpaceEnd) freeSpaceBegin
        some (true, updateCRC (setIsPageFilled (setNumSlots page (header.numSlots + 1)) true))
      else some (false, updateCRC page) := by
  rw [insertElement, appendTarget]
  cases isAdequate page (need + slotSize) with
  | true => rfl
  | false =>
    cases shouldCompact page (need + slotSize) with
    | true => rfl
    | false => rfl

theorem answer_insertElement {insertSlot : Page → Slot → E → Option (Page × Nat)} {page page' : Page}
    {need : Nat} {e : E} {answer : Bool}
    (run : insertElement c insertSlot page need e = some (answer, page')) :
    answer = (isAdequate page (need + slotSize) || shouldCompact page (need + slotSize)) := by
  rw [insertElement_eq_target] at run
  split at run
  next yes =>
    obtain ⟨target, _, run⟩ := Option.bind_eq_some_iff.mp run
    obtain ⟨appended, _, run⟩ := Option.bind_eq_some_iff.mp run
    obtain ⟨slotted, _, run⟩ := Option.bind_eq_some_iff.mp run
    rw [yes]
    exact (Prod.mk.inj (Option.some.inj run)).1.symm
  next no =>
    rw [Bool.not_eq_true] at no
    rw [no]
    exact (Prod.mk.inj (Option.some.inj run)).1.symm

theorem answer_hasEnoughSpace {page page' : Page} {need : Nat} {answer : Bool}
    (run : hasEnoughSpace c page need = some (answer, page')) :
    answer = (isAdequate page need || shouldCompact page need) := by
  rw [hasEnoughSpace] at run
  split at run
  next adequate =>
    rw [adequate]
    exact (Prod.mk.inj (Option.some.inj run)).1.symm
  next narrow =>
    rw [Bool.not_eq_true] at narrow
    rw [narrow, Bool.false_or]
    split at run
    next garbage =>
      obtain ⟨compacted, _, run⟩ := Option.bind_eq_some_iff.mp run
      rw [garbage]
      exact (Prod.mk.inj (Option.some.inj run)).1.symm
    next clean =>
      rw [Bool.not_eq_true] at clean
      rw [clean]
      exact (Prod.mk.inj (Option.some.inj run)).1.symm

/-- What the two calls decide about an element is what exact integers decide, and an element that
is written fits between the slots and the elements, with its lengths stored as they are. -/
structure SpaceExact (check insert : Option (Bool × Page)) (page : Page) (e : E) : Prop where
  check : ∀ answer page', check = some (answer, page') → answer = exactlyFits page (width c e)
  insert : ∀ answer page', insert = some (answer, page') →
    answer = exactlyFits page (width c e + slotSize)
  start : ∀ target, appendTarget c page (width c e) = some target →
    (decodePageHeader target).freeSpaceBegin + slotSize + width c e ≤
      (decodePageHeader target).freeSpaceEnd
  lengths : ∀ target, appendTarget c page (width c e) = some target → width c e < 65536

/-- Where a compaction is needed and the garbage count promises enough, it makes the room. -/
def CompactionFrees (page : Page) (need : Nat) : Prop :=
  freeSpace page < need + slotSize → need + slotSize ≤ (decodePageHeader page).garbageSize →
    ∀ target, compact c page = some target →
      (decodePageHeader target).freeSpaceBegin + slotSize + need ≤
        (decodePageHeader target).freeSpaceEnd

theorem spaceExact_iff {page : Page} (h : FreeInside page)
    (insertSlot : Page → Slot → E → Option (Page × Nat)) (e : E) :
    SpaceExact c (hasEnoughSpace c page (width c e))
        (insertElement c insertSlot page (width c e) e) page e ↔
      NoWrap page (width c e) ∧ NoWrap page (width c e + slotSize) ∧
        CompactionFrees c page (width c e) := by
  have ordered := h.ordered
  have inside := h.inside
  have garbage := garbageSize_lt page
  have free : freeSpace page = (decodePageHeader page).freeSpaceEnd -
      (decodePageHeader page).freeSpaceBegin := rfl
  constructor
  · intro exact_
    refine ⟨fun huge => ?_, fun huge => ?_, fun narrow enough target compacted => ?_⟩
    · -- the check would say yes to a size that is larger than the page
      by_contra wraps
      have adequate : isAdequate page (width c e) = true := by
        rw [isAdequate_eq h, decide_eq_true_eq]
        exact not_lt.mp wraps
      have yes : hasEnoughSpace c page (width c e) = some (true, page) := by
        rw [hasEnoughSpace, if_pos adequate]
      have fits := exact_.check true page yes
      rw [exactlyFits, eq_comm, Bool.or_eq_true, decide_eq_true_eq, decide_eq_true_eq] at fits
      omega
    · -- the write would start below the slots
      by_contra wraps
      have adequate : isAdequate page (width c e + slotSize) = true := by
        rw [isAdequate_eq h, decide_eq_true_eq]
        exact not_lt.mp wraps
      have fits := exact_.start page (by rw [appendTarget, if_pos adequate])
      rw [slotSize] at huge fits
      omega
    · have small : width c e + slotSize < 65536 := lt_of_le_of_lt enough garbage
      have full : ¬ isAdequate page (width c e + slotSize) = true := by
        rw [isAdequate_eq h, decide_eq_true_eq, Nat.mod_eq_of_lt small]
        exact not_le.mpr narrow
      have helps : shouldCompact page (width c e + slotSize) = true := by
        rw [shouldCompact, decide_eq_true_eq]
        exact enough
      exact exact_.start target (by rw [appendTarget, if_neg full, if_pos helps]; exact compacted)
  · rintro ⟨checkExact, insertExact, frees⟩
    -- the page that is written to is this one with room, or the compacted one
    have room (target : Page) (goes : appendTarget c page (width c e) = some target) :
        (decodePageHeader target).freeSpaceBegin + slotSize + width c e ≤
          (decodePageHeader target).freeSpaceEnd ∧ width c e < 65536 := by
      rw [appendTarget] at goes
      split at goes
      next adequate =>
        obtain rfl := Option.some.inj goes
        rw [isAdequate_eq h, decide_eq_true_eq] at adequate
        rw [NoWrap] at insertExact
        rw [slotSize] at *
        omega
      next full =>
        split at goes
        next helps =>
          rw [shouldCompact, decide_eq_true_eq] at helps
          have small : width c e + slotSize < 65536 := lt_of_le_of_lt helps garbage
          rw [isAdequate_eq h, decide_eq_true_eq, Nat.mod_eq_of_lt small] at full
          refine ⟨frees (not_le.mp full) helps target goes, ?_⟩
          rw [slotSize] at small
          omega
        next => cases goes
    refine ⟨fun answer page' run => ?_, fun answer page' run => ?_, fun target goes => ?_,
      fun target goes => ?_⟩
    · rw [answer_hasEnoughSpace c run]
      exact (decision_exact_iff h _).mpr checkExact
    · rw [answer_insertElement c run]
      exact (decision_exact_iff h _).mpr insertExact
    · exact (room target goes).1
    · exact (room target goes).2

end SlottedPage

open SlottedPage

/-- For both codecs: the space arithmetic is exact just if neither the size of the element nor
that of the element with its slot wraps to one that fits, and a compaction frees what the header
counts. -/
theorem spaceArithmetic_exact_iff (page : Page) (h : FreeInside page) (key : Bytes) :
    (∀ value, SpaceExact LeafNodeCodec.elementCodec
        (LeafNodeCodec.hasEnoughSpaceToInsertElement page key value)
        (LeafNodeCodec.insertElement page key value) page ⟨key, value⟩ ↔
      NoWrap page (2 + key.length + 2 + value.length) ∧
        NoWrap page (2 + key.length + 2 + value.length + slotSize) ∧
        CompactionFrees LeafNodeCodec.elementCodec page (2 + key.length + 2 + value.length)) ∧
    ∀ left right, SpaceExact InternalNodeCodec.elementCodec
        (InternalNodeCodec.hasEnoughSpaceToInsertElement page key)
        (InternalNodeCodec.insertElement page key left right) page ⟨key, left, right⟩ ↔
      NoWrap page (2 + key.length + 8 + 8) ∧ NoWrap page (2 + key.length + 8 + 8 + slotSize) ∧
        CompactionFrees InternalNodeCodec.elementCodec page (2 + key.length + 8 + 8) := by
  constructor
  · intro value
    have size := LeafNodeCodec.width_eq ⟨key, value⟩
    have exact_ := spaceExact_iff LeafNodeCodec.elementCodec h
      (fun page newSlot element => LeafNodeCodec.insertSlot page newSlot element.key) ⟨key, value⟩
    rw [size] at exact_
    exact exact_
  · intro left right
    have size := InternalNodeCodec.width_eq ⟨key, left, right⟩
    have exact_ := spaceExact_iff InternalNodeCodec.elementCodec h InternalNodeCodec.insertSlot
      ⟨key, left, right⟩
    rw [size] at exact_
    exact exact_

theorem freeInside_zero : FreeInside (Buffer.zero 4096) := ⟨by decide, by decide⟩

theorem spaceArithmetic_exact_on_blank_page : FreeInside (Buffer.zero 4096) ∧
    SpaceExact LeafNodeCodec.elementCodec
      (LeafNodeCodec.hasEnoughSpaceToInsertElement (Buffer.zero 4096) [1] [2])
      (LeafNodeCodec.insertElement (Buffer.zero 4096) [1] [2]) (Buffer.zero 4096) ⟨[1], [2]⟩ ∧
    SpaceExact InternalNodeCodec.elementCodec
      (InternalNodeCodec.hasEnoughSpaceToInsertElement (Buffer.zero 4096) [1])
      (InternalNodeCodec.insertElement (Buffer.zero 4096) [1] 2 3) (Buffer.zero 4096)
      ⟨[1], 2, 3⟩ := by
  have both := spaceArithmetic_exact_iff _ freeInside_zero [1]
  -- nothing is garbage, so nothing is compacted
  have clean {E : Type} (c : ElementCodec E) (need : Nat) :
      CompactionFrees c (Buffer.zero 4096) need := by
    intro _ enough
    have none : (decodePageHeader (Buffer.zero 4096)).garbageSize = 0 := by decide
    rw [none, slotSize] at enough
    omega
  exact ⟨freeInside_zero, (both.1 [2]).mpr ⟨by decide, by decide, clean _ _⟩,
    (both.2 2 3).mpr ⟨by decide, by decide, clean _ _⟩⟩

/-- A value of 65532 bytes makes an entry of 2 ^ 16 bytes, which the check takes for nothing. -/
theorem spaceArithmetic_wraps :
    ¬ ∀ page key value, FreeInside page → key.length < 2 ^ 32 → value.length < 2 ^ 32 →
      SpaceExact LeafNodeCodec.elementCodec
        (LeafNodeCodec.hasEnoughSpaceToInsertElement page key value)
        (LeafNodeCodec.insertElement page key value) page ⟨key, value⟩ := by
  intro exact_
  obtain ⟨value, long⟩ : ∃ value : Bytes, value.length = 65532 :=
    ⟨_, List.length_replicate (a := 0)⟩
  have kept := exact_ (Buffer.zero 4096) [] value freeInside_zero (by decide) (by rw [long]; decide)
  have size : 2 + ([] : Bytes).length + 2 + value.length = 65536 := by
    rw [long, List.length_nil]
  have yes : LeafNodeCodec.hasEnoughSpaceToInsertElement (Buffer.zero 4096) [] value =
      some (true, Buffer.zero 4096) := by
    rw [LeafNodeCodec.hasEnoughSpaceToInsertElement, size, hasEnoughSpace, if_pos (by decide)]
  have fits := kept.check true _ yes
  rw [LeafNodeCodec.width_eq, size] at fits
  exact absurd fits (by decide)

end CambiumDB
