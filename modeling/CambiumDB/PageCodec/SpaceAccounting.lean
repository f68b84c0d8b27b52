import CambiumDB.PageCodec.LeafRefinement

/-!
# Space accounting over runs of a leaf page

A page that starts blank and is changed by the codec's operations counts its garbage
exactly, as long as no update shrinks a value. What `compact` promises then holds, and an
element is never appended over the slot array.
-/

namespace CambiumDB

open ByteBuffer HeaderConfig HeaderCodec SlotCodec SlottedPage TransitionSystem

namespace LeafNodeCodec

inductive LeafOp where
  | insert (key value : Bytes)
  | setValue (key value : Bytes)
  | delete (key : Bytes)

/-- One call on a page, in the situations in which the tree makes it. -/
inductive LeafStep : Page → LeafOp → Page → Prop
  | insert {page page' : Page} {key value : Bytes} {added : Bool} :
      findValue page key = some none → insertElement page key value = some (added, page') →
      LeafStep page (.insert key value) page'
  | setValue {page checked page' : Page} {key old value : Bytes} :
      findValue page key = some (some old) →
      hasEnoughSpaceToUpdateValue page key old value = some (true, checked) →
      setValue checked key value = some page' → LeafStep page (.setValue key value) page'
  | delete {page page' : Page} {key : Bytes} {removed : Bool} :
      deleteElement page key = some (removed, page') → LeafStep page (.delete key) page'

/-- The step does not replace a live value by a strictly shorter one. -/
def NoShrink (page : Page) : LeafOp → Prop
  | .setValue key value => NotShortened page key value
  | _ => True

/-- The page that `InsertElement` appends to. -/
def appendTarget (page : Page) (elementSize : Nat) : Option Page :=
  if isAdequate page (elementSize + slotSize) then some page else compact page

structure SpaceAccounted (page : Page) : Prop where
  sizes : ∃ entries, getAllSlotsAndElements page = some entries ∧ ∀ entry ∈ entries,
    entry.1.elementSize = (encodeElement entry.2).length ∧
      (decodePageHeader page).freeSpaceEnd ≤ entry.1.elementPointer ∧
      entry.1.elementPointer + entry.1.elementSize ≤ 4096
  garbage : compactionGain page = some (decodePageHeader page).garbageSize
  compacts : ∀ size, shouldCompact page size = true →
    ∃ page', compact page = some page' ∧ size ≤ freeSpace page'
  insertAbove : ∀ key value page', findValue page key = some none →
    insertElement page key value = some (true, page') →
    ∃ target, appendTarget page (encodeElement ⟨key, value⟩).length = some target ∧
      (decodePageHeader target).freeSpaceBegin + slotSize + (encodeElement ⟨key, value⟩).length ≤
        (decodePageHeader target).freeSpaceEnd
  setAbove : ∀ key old value checked page', findValue page key = some (some old) →
    hasEnoughSpaceToUpdateValue page key old value = some (true, checked) →
    old.length < value.length → setValue checked key value = some page' →
    (decodePageHeader checked).freeSpaceBegin + (encodeElement ⟨key, value⟩).length ≤
      (decodePageHeader checked).freeSpaceEnd

section
variable {page : Page} {cells : List (Cell LeafNodeElement)} {floor garbage : Nat}

/-- An update that returned grew the element within the range of `uint16`. -/
theorem small_of_setValue (h : LeafRepr page cells floor garbage) (sorted : KeysSorted cells)
    {key old value : Bytes} {checked page' : Page}
    (lookup : SortedList.lookup LeafNodeElement.key key (elements cells) = some ⟨key, old⟩)
    (check : hasEnoughSpaceToUpdateValue page key old value = some (true, checked))
    (longer : old.length < value.length) (done : setValue checked key value = some page') :
    2 + key.length + 2 + value.length < 65536 := by
  by_contra huge
  have bounded := h.shape.garbage_lt
  rw [hasEnoughSpaceToUpdateValue, if_neg (not_le.mpr longer)] at check
  -- a wrapped size is never enough for a compaction, so the page was not touched
  obtain rfl : page = checked := by
    rcases hasEnoughSpace_cases h key value with ⟨_, answer⟩ | ⟨_, enough, _⟩ | ⟨_, _, answer⟩
    · rw [answer] at check
      simpa using check
    · omega
    · rw [answer] at check
      cases check
  obtain ⟨pre, slot, post, rfl, below, _⟩ := exists_live_cut sorted lookup
  have top := h.layout.top
  have panics := setValue_huge h below longer (by simp only; omega)
  rw [panics] at done
  cases done

theorem ExactLeaf.spaceAccounted (h : ExactLeaf page cells floor garbage 0) :
    SpaceAccounted page := by
  have header := h.repr.shape
  have account := h.account
  constructor
  · refine ⟨live cells, getAll_eq h.repr, ?_⟩
    rintro ⟨slot, e⟩ member
    have placed : Placed elementCodec page floor slot e :=
      h.repr.layout.ok _ (mem_live.mp member)
    have size := h.sizes slot e (mem_live.mp member)
    rw [header.freeSpaceEnd]
    refine ⟨size, placed.lower, ?_⟩
    rw [size]
    exact placed.upper
  · rw [h.gain, header.garbageSize, Nat.add_zero]
  · intro size enough
    rw [header.shouldCompact, decide_eq_true_eq] at enough
    obtain ⟨page', done, compacted, _⟩ := h.compact
    refine ⟨page', done, ?_⟩
    have free := compacted.account
    rw [elements_packed, live_map_snd] at free
    rw [freeSpace_eq compacted.repr]
    omega
  · intro key value page' missing done
    have width : (encodeElement ⟨key, value⟩).length = 2 + key.length + 2 + value.length :=
      width_eq ⟨key, value⟩
    rw [width]
    have room := h.repr.layout.room
    have top := h.repr.layout.top
    have adequate := header.isAdequate room top (2 + key.length + 2 + value.length + slotSize)
    by_cases huge : 65536 ≤ 2 + key.length + 2 + value.length + 4
    · rcases insertElement_huge h.repr huge with panics | refused
      · rw [panics] at done
        cases done
      · rw [refused] at done
        cases done
    rw [Nat.mod_eq_of_lt (by simp only [slotSize]; omega)] at adequate
    by_cases fits : 2 + key.length + 2 + value.length + slotSize ≤
        floor - (headerSize + 4 * cells.length)
    · refine ⟨page, ?_, ?_⟩
      · rw [appendTarget, adequate, if_pos (by simpa using fits)]
      · rw [header.freeSpaceBegin, header.freeSpaceEnd]
        omega
    · -- without room the call was accepted because of the garbage, so it compacted first
      have enough : 2 + key.length + 2 + value.length + slotSize ≤ garbage := by
        by_contra clean
        have refused := insertElement_full h.repr (not_le.mp huge)
          (by simp only [slotSize] at fits; omega) (by simp only [slotSize] at clean; omega)
        rw [refused] at done
        cases done
      obtain ⟨target, compactedPage, compacted, _⟩ := h.compact
      have free := compacted.account
      rw [elements_packed, live_map_snd] at free
      refine ⟨target, ?_, ?_⟩
      · rw [appendTarget, adequate, if_neg (by simpa using fits)]
        exact compactedPage
      · rw [compacted.repr.shape.freeSpaceBegin, compacted.repr.shape.freeSpaceEnd]
        simp only [slotSize] at enough ⊢
        omega
  · intro key old value checked page' found check longer done
    have width : (encodeElement ⟨key, value⟩).length = 2 + key.length + 2 + value.length :=
      width_eq ⟨key, value⟩
    rw [width]
    have lookup := lookup_of_findValue h.repr found
    have small := small_of_setValue h.repr h.sorted lookup check longer done
    obtain ⟨_, _, _, _, _, _, _, _, _, _, above⟩ := h.setValue_checked lookup longer small check
    exact above

/-- One step that shrinks nothing keeps the accounting exact. -/
theorem LeafStep.keeps_exact {op : LeafOp} {page' : Page} (h : ExactLeaf page cells floor garbage 0)
    (allowed : NoShrink page op) (step : LeafStep page op page') :
    ∃ cells' floor' garbage', ExactLeaf page' cells' floor' garbage' 0 := by
  have refused : ExactLeaf (updateCRC page) cells floor garbage 0 :=
    ⟨h.repr.updateCRC, h.sizes, h.sorted, h.account⟩
  cases step with
  | @insert _ key value added missing done =>
    by_cases huge : 65536 ≤ 2 + key.length + 2 + value.length + 4
    · rcases insertElement_huge h.repr huge with panics | unchanged
      · rw [panics] at done
        cases done
      · rw [unchanged] at done
        cases done
        exact ⟨_, _, _, refused⟩
    rcases h.insert key value (not_le.mp huge) (absent_of_findValue h.repr missing) with
      ⟨_, cells', floor', garbage', slack', accepted, exact_, noSlack, _⟩ | unchanged
    · rw [accepted] at done
      cases done
      obtain rfl := Nat.le_zero.mp noSlack
      exact ⟨cells', floor', garbage', exact_⟩
    · rw [unchanged] at done
      cases done
      exact ⟨_, _, _, refused⟩
  | @setValue checked _ key old value found check done =>
    have lookup := lookup_of_findValue h.repr found
    rcases (allowed old found).lt_or_eq with longer | same
    · have small := small_of_setValue h.repr h.sorted lookup check longer done
      obtain ⟨_, cells', floor', garbage', slack', set, exact_, noSlack, _⟩ :=
        h.setValue_checked lookup longer small check
      obtain rfl := Option.some.inj (set.symm.trans done)
      obtain rfl := Nat.le_zero.mp noSlack
      exact ⟨cells', floor', garbage', exact_⟩
    · rw [hasEnoughSpaceToUpdateValue, if_pos (le_of_eq same.symm)] at check
      obtain rfl : page = checked := by simpa using check
      obtain ⟨_, cells', set, exact_, _⟩ := h.setValue_same lookup same.symm
      obtain rfl := Option.some.inj (set.symm.trans done)
      exact ⟨cells', _, _, exact_⟩
  | @delete _ key removed done =>
    cases lookup : SortedList.lookup LeafNodeElement.key key (elements cells) with
    | none =>
      rw [h.delete_absent ((SortedList.lookup_eq_none_iff LeafNodeElement.key key _).mp lookup)]
        at done
      cases done
      exact ⟨_, _, _, h⟩
    | some e =>
      obtain ⟨_, cells', garbage', deleted, exact_, _⟩ := h.delete lookup
      rw [deleted] at done
      cases done
      exact ⟨cells', _, garbage', exact_⟩

end

/-- In every run from a blank page in which no update shrinks a value, the space of the page
is accounted for exactly. -/
theorem spaceAccounted_of_run (page : Page) (reached : Reach LeafStep NoShrink Blank page) :
    SpaceAccounted page := by
  obtain ⟨cells, floor, garbage, exact_⟩ :=
    reached.invariant (fun page => ∃ cells floor garbage, ExactLeaf page cells floor garbage 0)
      (fun _ blank => ⟨[], 4096, 0, blank.exactLeaf⟩)
      (fun _ _ _ ⟨_, _, _, exact_⟩ allowed step => step.keeps_exact exact_ allowed)
  exact exact_.spaceAccounted

theorem spaceAccounted_of_insertion :
    ∃ page, insertElement (Buffer.zero 4096) [] [0] = some (true, page) ∧ SpaceAccounted page := by
  obtain ⟨page, _, done, _⟩ := blank_zero.insert [] [0] (by decide)
  have missing : findValue (Buffer.zero 4096) [] = some none := by
    rw [findValue_eq blank_zero.exactLeaf.repr]
    rfl
  have run : Reach LeafStep NoShrink Blank page :=
    .next (l := .insert [] [0]) (.start blank_zero) trivial (.insert missing done)
  exact ⟨page, done, spaceAccounted_of_run page run⟩

/-- Insert a one-byte value, then set it to the empty one: the slot claims five bytes and
the element has four. -/
theorem shrink_breaks_accounting :
    ¬ ∀ page, Reach LeafStep (fun _ _ => True) Blank page → SpaceAccounted page := by
  intro claimed
  obtain ⟨page, slot, done, exact_⟩ := blank_zero.insert [] [0] (by decide)
  have missing : findValue (Buffer.zero 4096) [] = some none := by
    rw [findValue_eq blank_zero.exactLeaf.repr]
    rfl
  have found : findValue page [] = some (some [0]) := by
    rw [findValue_eq exact_.repr]
    rfl
  obtain ⟨page', cells', _, set, repr, _, slot', member, size⟩ :=
    exact_.setValue_inPlace found (show ([] : Bytes).length ≤ 1 by decide)
  have run : Reach LeafStep (fun _ _ => True) Blank page' :=
    .next (.next (.start blank_zero) trivial (.insert missing done)) trivial
      (.setValue found rfl set)
  obtain ⟨entries, read, sizes⟩ := (claimed page' run).sizes
  rw [getAll_eq repr, Option.some.injEq] at read
  have claimedSize := (sizes (slot', ⟨[], []⟩) (by rw [← read]; exact mem_live.mpr member)).1
  rw [size] at claimedSize
  simp [encodeElement] at claimedSize

end LeafNodeCodec

end CambiumDB
