import CambiumDB.PageCodec.SpaceCheck
import CambiumDB.StorageEngine.Recovery

/-!
# Redoing an entry

Before the tree logs an entry it checks the space of the page, and the check may compact it.
The redo functions repeat the change but not the check. Where the check compacted, an insertion
is repeated only if the insertion itself compacts, and a growing update never compacts.
-/

namespace CambiumDB

open ByteBuffer HeaderConfig HeaderCodec SlotCodec SlottedPage

open LeafNodeCodec (freeSpace)

/-! ### Where an element is written -/

/-- `size` bytes below `freeSpaceEnd` are above the slots and inside the page. -/
def WritesInside (page : Page) (size : Nat) : Prop :=
  (decodePageHeader page).freeSpaceBegin + size ≤ (decodePageHeader page).freeSpaceEnd ∧
    (decodePageHeader page).freeSpaceEnd ≤ 4096

namespace SlottedPage

variable {E : Type} {c : ElementCodec E}

/-- The page that `InsertElement` writes the element and its slot to. -/
def insertTarget (c : ElementCodec E) (page : Page) (need : Nat) : Option Page :=
  if isAdequate page (need + slotSize) then some page
  else if shouldCompact page (need + slotSize) then compact c page
  else none

def InsertsInside (c : ElementCodec E) (page : Page) (need : Nat) : Prop :=
  ∀ target, insertTarget c page need = some target → WritesInside target (need + slotSize)

/-- The check compacts the page and the insertion by itself does not, although the element and
its slot fit the compacted page. -/
def CompactsForCheckOnly (c : ElementCodec E) (page : Page) (need : Nat) : Prop :=
  freeSpace page < need ∧ need ≤ (decodePageHeader page).garbageSize ∧
    (decodePageHeader page).garbageSize < need + slotSize ∧ need + slotSize ≤ compactedFree c page

section
variable [c.Lawful] {page : Page} {cells : List (Cell E)} {floor garbage : Nat}
  {insertSlot : Page → Slot → E → Option (Page × Nat)} {splice : List E → E → List E}

theorem Sound.insertsInside (h : Sound c page cells floor garbage)
    (splices : Splices c insertSlot splice) {e : E}
    (returns : insertElement c insertSlot page (width c e) e ≠ none) :
    InsertsInside c page (width c e) := by
  have room := h.repr.layout.room
  have top := h.repr.layout.top
  have honest := h.honest
  intro target written
  rw [insertTarget, h.repr.shape.isAdequate room top, h.repr.shape.shouldCompact] at written
  rcases h.accounted.insertElement_cases splices e with
    ⟨small, fits, _⟩ | ⟨full, clean, _⟩ | ⟨_, _, panics⟩
  · rw [slotSize, Nat.mod_eq_of_lt small] at written
    by_cases adequate : width c e + 4 ≤ floor - (headerSize + 4 * cells.length)
    · rw [if_pos (by simpa using adequate)] at written
      cases written
      rw [WritesInside, h.repr.shape.freeSpaceBegin, h.repr.shape.freeSpaceEnd, slotSize]
      omega
    · rw [if_neg (by simpa using adequate), if_pos (by simp; omega)] at written
      obtain ⟨page', done, repr, _⟩ := compact_spec h.repr
      cases done.symm.trans written
      have size := h.repr.layout.repack
      have count : (live cells).length = (elements cells).length := by
        rw [← live_map_snd, List.length_map]
      rw [packedSpace] at honest
      rw [WritesInside, repr.shape.freeSpaceBegin, repr.shape.freeSpaceEnd, length_packed, count,
        slotSize]
      omega
  · rw [slotSize, if_neg (by simpa using full), if_neg (by simpa using clean)] at written
    cases written
  · exact absurd panics returns

/-- The insertion redone on a page ends with the elements of the live path exactly if the page
was not compacted for the check only. -/
theorem Sound.redoInsert_iff (h : Sound c page cells floor garbage)
    (splices : Splices c insertSlot splice) (e : E) (lsn : UInt64) :
    (∀ checked after, hasEnoughSpace c page (width c e) = some (true, checked) →
      (insertElement c insertSlot (HeaderCodec.setLSN checked lsn) (width c e) e).map Prod.snd = some after →
      InsertsInside c page (width c e) ∧ ∃ redone,
        (insertElement c insertSlot page (width c e) e).map Prod.snd = some redone ∧
          liveElements c (HeaderCodec.setLSN redone lsn) = liveElements c after) ↔
      ¬ CompactsForCheckOnly c page (width c e) := by
  have honest := h.honest
  have room := h.repr.layout.room
  have bounded := h.repr.shape.garbage_lt
  rw [CompactsForCheckOnly, h.repr.freeSpace, h.repr.compactedFree, h.repr.shape.garbageSize]
  rcases hasEnoughSpace_outcome h.repr (width c e) with
    ⟨fits, answer⟩ | ⟨full, enough, page₁, _, answer, repr, _⟩ | ⟨full, few, answer⟩
  · -- the page is as it was, so both insertions do the same
    constructor
    · intro _ only
      have := Nat.mod_eq_of_lt (show width c e < 65536 by omega)
      omega
    · intro _ checked after check live
      rw [answer] at check
      cases check
      obtain ⟨⟨added, result⟩, done, rfl⟩ := Option.map_eq_some_iff.1 live
      obtain ⟨_, redone, es, again, holds, holds', _⟩ :=
        (h.setLSN lsn).insertElement_alike h rfl rfl splices e done
      refine ⟨h.insertsInside splices (by rw [again]; exact Option.some_ne_none _), redone, ?_, ?_⟩
      · rw [again]
        rfl
      · rw [(holds'.setLSN lsn).liveElements, holds.liveElements]
  · have small : packedSpace c (elements cells) ≤ 4096 := Nat.sub_le _ _
    rw [Nat.mod_eq_of_lt (by omega)] at full
    have compacted := (h.compacted repr).setLSN lsn
    have free := free_compacted (c := c) cells
    have same : elements (packed c 4096 (live cells)) = elements cells := by
      rw [elements_packed, live_map_snd]
    have live := compacted.accounted.insertElement_cases splices e
    rw [free, same] at live
    rcases live with ⟨_, fits, page₂, done, holds, _⟩ | ⟨noRoom, _, done⟩ | ⟨huge, _, _⟩
    · rcases h.accounted.insertElement_cases splices e with
        ⟨_, accepted, page₃, again, holds', _⟩ | ⟨noRoom, clean, again⟩ | ⟨huge, _, _⟩
      · constructor
        · intro _ only
          rw [slotSize] at only
          omega
        · intro _ checked after check live
          rw [answer] at check
          cases check
          rw [done] at live
          cases live
          refine ⟨h.insertsInside splices (by rw [again]; exact Option.some_ne_none _), page₃, ?_,
            ?_⟩
          · rw [again]
            rfl
          · rw [(holds'.setLSN lsn).liveElements, holds.liveElements]
      · -- only the live page got the element
        constructor
        · intro claimed
          obtain ⟨_, redone, again', equal⟩ := claimed page₁ page₂ answer (by rw [done]; rfl)
          rw [again, Option.map_some] at again'
          obtain rfl := Option.some.inj again'
          have unchanged : Contains c (updateCRC page) (elements cells) :=
            ⟨_, _, _, h.repr.updateCRC, rfl⟩
          rw [(unchanged.setLSN lsn).liveElements, holds.liveElements] at equal
          have lengths := congrArg List.length (Option.some.inj equal)
          rw [splices.length] at lengths
          omega
        · intro notOnly
          exact absurd ⟨not_le.1 full, enough, by rw [slotSize]; omega, by rw [slotSize]; omega⟩
            notOnly
      · omega
    · -- neither page gets the element
      rcases h.accounted.insertElement_cases splices e with
        ⟨_, accepted, _⟩ | ⟨_, clean, again⟩ | ⟨huge, _, _⟩
      · rw [Nat.mod_eq_of_lt (by omega)] at noRoom
        omega
      · rw [Nat.mod_eq_of_lt (by omega)] at noRoom
        constructor
        · intro _ only
          rw [slotSize] at only
          omega
        · intro _ checked after check live
          rw [answer] at check
          cases check
          rw [done, Option.map_some] at live
          obtain rfl := Option.some.inj live
          refine ⟨h.insertsInside splices (by rw [again]; exact Option.some_ne_none _), _,
            by rw [again]; rfl, ?_⟩
          have unchanged : Contains c (updateCRC page) (elements cells) :=
            ⟨_, _, _, h.repr.updateCRC, rfl⟩
          have unchanged' : Contains c (updateCRC (HeaderCodec.setLSN page₁ lsn)) (elements cells) :=
            ⟨_, _, _, compacted.repr.updateCRC, same⟩
          rw [(unchanged.setLSN lsn).liveElements, unchanged'.liveElements]
      · omega
    · omega
  · constructor
    · intro _ only
      exact few only.2.1
    · intro _ checked _ check
      rw [answer] at check
      cases check

end

end SlottedPage

namespace LeafNodeCodec

/-- `SetValue` on a key of the page overwrites its element or appends a new one. -/
def UpdatesInside (page : Page) (key value : Bytes) : Prop :=
  ∀ offset slot old, linearSearch elementCodec page key = some (.equal offset slot) →
    readElement elementCodec page slot = some old →
    if value.length ≤ old.value.length then
      (decodePageHeader page).freeSpaceBegin ≤ slot.elementPointer ∧
        slot.elementPointer + slot.elementSize ≤ 4096
    else WritesInside page (2 + key.length + 2 + value.length)

/-- The value grows and its element fits only because the check compacts the page. -/
def GrowsByCompaction (page : Page) (key old value : Bytes) : Prop :=
  old.length < value.length ∧ freeSpace page < 2 + key.length + 2 + value.length ∧
    2 + key.length + 2 + value.length ≤ (decodePageHeader page).garbageSize

section
variable {page : Page} {cells : List (Cell LeafNodeElement)} {floor garbage : Nat}

/-- A page with the key, cut at its element. -/
structure CutAtKey (page : Page) (pre : List (Cell LeafNodeElement)) (slot : Slot)
    (key old : Bytes) (post : List (Cell LeafNodeElement)) (floor garbage : Nat) : Prop where
  repr : LeafRepr page (pre ++ (slot, some ⟨key, old⟩) :: post) floor garbage
  below : ∀ x ∈ elements pre, x.key < key

variable {pre post : List (Cell LeafNodeElement)} {slot : Slot} {key old : Bytes}

theorem CutAtKey.setLSN (h : CutAtKey page pre slot key old post floor garbage) (lsn : UInt64) :
    CutAtKey (setLSN page lsn) pre slot key old post floor garbage :=
  ⟨h.repr.setLSN lsn, h.below⟩

/-- The elements after the value was set. -/
theorem CutAtKey.setValue_shorter (h : CutAtKey page pre slot key old post floor garbage)
    {value : Bytes} (shorter : value.length ≤ old.length) :
    ∃ page', setValue page key value = some page' ∧
      Contains elementCodec page' (elements pre ++ ⟨key, value⟩ :: elements post) := by
  obtain ⟨page', done, repr, _⟩ := LeafNodeCodec.setValue_shorter h.repr h.below shorter
  refine ⟨page', done, _, _, _, repr, ?_⟩
  rw [elements_append, elements_cons_some]

theorem CutAtKey.setValue_longer (h : CutAtKey page pre slot key old post floor garbage)
    {value : Bytes} (longer : old.length < value.length)
    (fits : headerSize + 4 * (pre ++ (slot, some ⟨key, old⟩) :: post).length +
      (2 + key.length + 2 + value.length) ≤ floor) :
    ∃ page', setValue page key value = some page' ∧
      Contains elementCodec page' (elements pre ++ ⟨key, value⟩ :: elements post) := by
  obtain ⟨page', _, _, done, repr, _⟩ := LeafNodeCodec.setValue_longer h.repr h.below longer fits
  refine ⟨page', done, _, _, _, repr, ?_⟩
  rw [elements_append, elements_cons_some]

/-- Overwriting is always inside; a grown element is appended. -/
theorem CutAtKey.updatesInside_iff (h : CutAtKey page pre slot key old post floor garbage)
    (size : slot.elementSize = width elementCodec ⟨key, old⟩) (value : Bytes) :
    UpdatesInside page key value ↔
      (old.length < value.length → WritesInside page (2 + key.length + 2 + value.length)) := by
  have placed : Placed elementCodec page floor slot ⟨key, old⟩ :=
    h.repr.layout.ok (slot, some ⟨key, old⟩) (by simp)
  have search : linearSearch elementCodec page key = some (.equal _ slot) :=
    linearSearch_live h.repr h.below
  constructor
  · intro inside longer
    have written := inside _ slot _ search placed.readElement
    rw [if_neg (not_le.2 longer)] at written
    exact written
  · intro grown offset slot' old' found read
    obtain ⟨rfl, rfl⟩ := SearchResult.equal.inj (Option.some.inj (search.symm.trans found))
    obtain rfl := Option.some.inj (placed.readElement.symm.trans read)
    split
    next =>
      have lower := placed.lower
      have upper := placed.upper
      have room := h.repr.layout.room
      rw [h.repr.shape.freeSpaceBegin, size]
      exact ⟨room.trans lower, upper⟩
    next longer => exact grown (not_le.1 longer)

/-- The update redone on a page ends with the elements of the live path, written inside of the
page, exactly if the value does not grow by a compaction. -/
theorem redoUpdate_iff (h : Sound elementCodec page cells floor garbage) {key old : Bytes}
    (found : findValue page key = some (some old)) (value : Bytes) (lsn : UInt64) :
    (∀ checked after, hasEnoughSpaceToUpdateValue page key old value = some (true, checked) →
      setValue (setLSN checked lsn) key value = some after →
      UpdatesInside page key value ∧ ∃ redone, setValue page key value = some redone ∧
        livePairs (setLSN redone lsn) = livePairs after) ↔
      ¬ GrowsByCompaction page key old value := by
  have honest := h.honest
  have sorted : KeysSorted cells := h.sorted
  have lookup := lookup_of_findValue h.repr found
  obtain ⟨pre, slot, post, rfl, below, _⟩ := exists_live_cut sorted lookup
  have cut : CutAtKey page pre slot key old post floor garbage := ⟨h.repr, below⟩
  have inside := cut.updatesInside_iff (h.sizes slot ⟨key, old⟩ (by simp)) value
  have room := h.repr.layout.room
  have top := h.repr.layout.top
  rw [GrowsByCompaction, freeSpace_eq h.repr, h.repr.shape.garbageSize, hasEnoughSpaceToUpdateValue,
    inside]
  -- the same page is written to, so the same elements result
  have agree {after : Page} {es : List LeafNodeElement}
      (live : ∃ page', setValue (setLSN page lsn) key value = some page' ∧
        Contains elementCodec page' es)
      (redo : ∃ page', setValue page key value = some page' ∧ Contains elementCodec page' es)
      (done : setValue (setLSN page lsn) key value = some after) :
      ∃ redone, setValue page key value = some redone ∧
        livePairs (setLSN redone lsn) = livePairs after := by
    obtain ⟨_, done', holds⟩ := live
    obtain ⟨redone, again, holds'⟩ := redo
    obtain rfl := Option.some.inj (done'.symm.trans done)
    exact ⟨redone, again, (holds'.setLSN lsn).liveElements.trans holds.liveElements.symm⟩
  by_cases shorter : value.length ≤ old.length
  · rw [if_pos shorter]
    constructor
    · intro _ grows
      omega
    · intro _ checked after check done
      cases check
      exact ⟨fun longer => absurd shorter (not_le.2 longer),
        agree ((cut.setLSN lsn).setValue_shorter shorter) (cut.setValue_shorter shorter) done⟩
  rw [if_neg shorter]
  have longer := not_le.1 shorter
  have bounded := h.repr.shape.garbage_lt
  rcases hasEnoughSpace_cases h.repr key value with
    ⟨fits, answer⟩ | ⟨full, enough, page₁, _, answer, repr, _⟩ | ⟨full, few, answer⟩
  · rw [answer]
    constructor
    · intro _ grows
      have := Nat.mod_eq_of_lt (show 2 + key.length + 2 + value.length < 65536 by omega)
      omega
    · intro _ checked after check done
      cases check
      -- a value whose size wraps panics, live as well
      have small : ¬ floor < 2 + key.length + 2 + value.length := by
        intro huge
        have panics : setValue (setLSN page lsn) key value = none :=
          setValue_huge (cut.setLSN lsn).repr below longer huge
        rw [panics] at done
        cases done
      rw [Nat.mod_eq_of_lt (by omega)] at fits
      have space : headerSize + 4 * (pre ++ (slot, some ⟨key, old⟩) :: post).length +
          (2 + key.length + 2 + value.length) ≤ floor := by omega
      refine ⟨fun _ => ?_, agree ((cut.setLSN lsn).setValue_longer longer space)
        (cut.setValue_longer longer space) done⟩
      rw [WritesInside, h.repr.shape.freeSpaceBegin, h.repr.shape.freeSpaceEnd]
      exact ⟨space, top⟩
  · -- the live path writes to the compacted page, the redo below the free space
    rw [answer]
    have packedSmall : packedSpace elementCodec
        (elements (pre ++ (slot, some ⟨key, old⟩) :: post)) ≤ 4096 := Nat.sub_le _ _
    rw [Nat.mod_eq_of_lt (by omega)] at full
    constructor
    · intro claimed _
      have compacted := (h.compacted repr).setLSN lsn
      have free := free_compacted (c := elementCodec) (pre ++ (slot, some ⟨key, old⟩) :: post)
      rw [← live_map_snd, ← elements_packed (c := elementCodec) 4096] at lookup
      obtain ⟨pre', slot', post', same, below', _⟩ := exists_live_cut compacted.sorted lookup
      rw [same] at compacted free
      have cut' : CutAtKey (setLSN page₁ lsn) pre' slot' key old post' _ _ :=
        ⟨compacted.repr, below'⟩
      obtain ⟨after, done, _⟩ := cut'.setValue_longer longer (by
        have := compacted.repr.layout.room
        omega)
      obtain ⟨written, _⟩ := (claimed page₁ after rfl done).1 longer
      rw [h.repr.shape.freeSpaceBegin, h.repr.shape.freeSpaceEnd] at written
      omega
    · intro notGrows
      exact absurd ⟨longer, not_le.1 full, enough⟩ notGrows
  · rw [answer]
    constructor
    · intro _ grows
      exact few grows.2.2
    · rintro _ _ _ ⟨⟩

theorem ExactLeaf.stamped {slack : Nat} (h : ExactLeaf page cells floor garbage slack) :
    ∃ page', getLSN page' = 0 ∧ ExactLeaf page' cells floor garbage slack :=
  ⟨HeaderCodec.setLSN page 0, getLSN_setLSN page 0, h.repr.setLSN 0, h.sizes, h.sorted, h.account⟩

end

end LeafNodeCodec

/-! ### The redo functions -/

namespace StorageEngine

open TreeM

/-- The redo of a record for page `id` leaves the entries that the live path left which logged
it, wherever the check had passed, and writes inside of the page. The live path has set the
LSN of the page before it changes it. -/
def RedoEqualsLive {E : Type} (w : World) (id lsn : UInt64) (check : Page → Option (Bool × Page))
    (change : Page → Option Page) (redo : TreeM Unit) (entries : Page → Option (List E))
    (inside : Page → Prop) : Prop :=
  ∀ checked after, check (w.pages id) = some (true, checked) →
    change (setLSN checked lsn) = some after →
    inside (w.pages id) ∧ ∃ w', redo w = (.ok (), w') ∧ entries (w'.pages id) = entries after

/-- Redoing on a page that can be fetched and is older than the record. -/
theorem redoEntry_iff {w : World} {id lsn : UInt64} (change : Page → Option Page)
    (fetched : newGuard id w = (.ok (), w.acquire id)) (older : getLSN (w.pages id) < lsn)
    (P : Page → Prop) :
    (∃ w', redoEntry lsn id change w = (.ok (), w') ∧ P (w'.pages id)) ↔
      ∃ redone, change (w.pages id) = some redone ∧ P (setLSN redone lsn) := by
  have older' : getLSN ((w.acquire id).pages id) < lsn := older
  have steps : redoOnPage lsn id change (w.acquire id) =
      (do applyPage id fun content => (change content).map ((), ·)
          modifyPage id (setLSN · lsn) : TreeM Unit) (w.acquire id) := by
    rw [redoOnPage, bind_ok (get_apply _ _), if_pos older']
  rw [redoEntry, bind_ok fetched]
  cases changed : change (w.pages id) with
  | none =>
    have panics : applyPage id (fun content => (change content).map ((), ·)) (w.acquire id) =
        (.error .panic, w.acquire id) := by
      rw [applyPage, World.acquire_pages, changed]
      rfl
    rw [deferDone, steps, bind_error panics]
    constructor
    · rintro ⟨w', run, _⟩
      cases run
    · rintro ⟨_, ⟨⟩, _⟩
  | some redone =>
    have applied : applyPage id (fun content => (change content).map ((), ·)) (w.acquire id) =
        (.ok (), (w.acquire id).setPage id redone) :=
      applyPage_ok (by rw [World.acquire_pages, changed]; rfl)
    rw [deferDone, steps, bind_ok applied]
    constructor
    · rintro ⟨w', run, holds⟩
      cases run
      exact ⟨redone, rfl, by simpa using holds⟩
    · rintro ⟨_, ⟨⟩, holds⟩
      exact ⟨_, rfl, by simpa using holds⟩

theorem redoEqualsLive_iff {E : Type} {w : World} {id lsn : UInt64}
    (fetched : newGuard id w = (.ok (), w.acquire id)) (older : getLSN (w.pages id) < lsn)
    (check : Page → Option (Bool × Page)) (change : Page → Option Page)
    (entries : Page → Option (List E)) (inside : Page → Prop) :
    RedoEqualsLive w id lsn check change (redoEntry lsn id change) entries inside ↔
      ∀ checked after, check (w.pages id) = some (true, checked) →
        change (setLSN checked lsn) = some after →
        inside (w.pages id) ∧ ∃ redone, change (w.pages id) = some redone ∧
          entries (setLSN redone lsn) = entries after := by
  constructor
  · intro equal checked after check done
    obtain ⟨written, result⟩ := equal checked after check done
    exact ⟨written,
      (redoEntry_iff change fetched older fun page => entries page = entries after).1 result⟩
  · intro equal checked after check done
    obtain ⟨written, result⟩ := equal checked after check done
    exact ⟨written,
      (redoEntry_iff change fetched older fun page => entries page = entries after).2 result⟩

/-- On every well-formed page older than the record, the redo of an entry equals the live path
exactly if the page is not compacted for the check only (insertions) and the value does not
grow by a compaction (updates). -/
theorem redo_entry_equals_live_iff (w : World) (id lsn : UInt64)
    (fetched : newGuard id w = (.ok (), w.acquire id)) (older : getLSN (w.pages id) < lsn) :
    (LeafNodeCodec.WellFormed (w.pages id) →
      (∀ key value, RedoEqualsLive w id lsn
          (LeafNodeCodec.hasEnoughSpaceToInsertElement · key value)
          (fun page => (LeafNodeCodec.insertElement page key value).map Prod.snd)
          (redoInsertLeafNodeEntry lsn id key value) LeafNodeCodec.livePairs
          (InsertsInside LeafNodeCodec.elementCodec · (2 + key.length + 2 + value.length)) ↔
        ¬ CompactsForCheckOnly LeafNodeCodec.elementCodec (w.pages id)
          (2 + key.length + 2 + value.length)) ∧
      ∀ key old value, LeafNodeCodec.findValue (w.pages id) key = some (some old) →
        (RedoEqualsLive w id lsn (LeafNodeCodec.hasEnoughSpaceToUpdateValue · key old value)
            (LeafNodeCodec.setValue · key value) (redoUpdateLeafNodeEntry lsn id key value)
            LeafNodeCodec.livePairs (LeafNodeCodec.UpdatesInside · key value) ↔
          ¬ LeafNodeCodec.GrowsByCompaction (w.pages id) key old value)) ∧
    (InternalNodeCodec.WellFormed (w.pages id) →
      ∀ key left right, RedoEqualsLive w id lsn
          (InternalNodeCodec.hasEnoughSpaceToInsertElement · key)
          (fun page => (InternalNodeCodec.insertElement page key left right).map Prod.snd)
          (redoInsertInternalNodeEntry lsn id key left right)
          (liveElements InternalNodeCodec.elementCodec)
          (InsertsInside InternalNodeCodec.elementCodec · (2 + key.length + 8 + 8)) ↔
        ¬ CompactsForCheckOnly InternalNodeCodec.elementCodec (w.pages id)
          (2 + key.length + 8 + 8)) := by
  constructor
  · intro wellFormed
    obtain ⟨cells, floor, garbage, sound⟩ := wellFormed.sound
    constructor
    · intro key value
      have result := sound.redoInsert_iff LeafNodeCodec.splices ⟨key, value⟩ lsn
      rw [LeafNodeCodec.width_eq] at result
      exact (redoEqualsLive_iff fetched older _ _ _ _).trans result
    · intro key old value found
      exact (redoEqualsLive_iff fetched older _ _ _ _).trans
        (LeafNodeCodec.redoUpdate_iff sound found value lsn)
  · rintro ⟨cells, floor, garbage, sound⟩ key left right
    have result := sound.redoInsert_iff InternalNodeCodec.splices ⟨key, left, right⟩ lsn
    rw [InternalNodeCodec.width_eq] at result
    exact (redoEqualsLive_iff fetched older _ _ _ _).trans result

/-- A database of one page that nobody holds. -/
def onePage (page : Page) : World where
  tree := ⟨0, 0, 0⟩
  pages _ := page
  filePages := 1
  metadata := ⟨0, 0, [], 0, [], []⟩
  log := []
  guards := []
  history := []
  calls := 0
  faults _ := false

theorem onePage_fetched (page : Page) :
    newGuard 0 (onePage page) = (.ok (), (onePage page).acquire 0) := rfl

theorem redo_entry_equals_live_on_small_pages :
    RedoEqualsLive (onePage (Buffer.zero 4096)) 0 1
        (LeafNodeCodec.hasEnoughSpaceToInsertElement · [] [1])
        (fun page => (LeafNodeCodec.insertElement page [] [1]).map Prod.snd)
        (redoInsertLeafNodeEntry 1 0 [] [1]) LeafNodeCodec.livePairs
        (InsertsInside LeafNodeCodec.elementCodec · 5) ∧
      (∃ page, LeafNodeCodec.findValue page [] = some (some [1]) ∧
        RedoEqualsLive (onePage page) 0 1
          (LeafNodeCodec.hasEnoughSpaceToUpdateValue · [] [1] [2])
          (LeafNodeCodec.setValue · [] [2]) (redoUpdateLeafNodeEntry 1 0 [] [2])
          LeafNodeCodec.livePairs (LeafNodeCodec.UpdatesInside · [] [2])) ∧
      RedoEqualsLive (onePage (Buffer.zero 4096)) 0 1
        (InternalNodeCodec.hasEnoughSpaceToInsertElement · [])
        (fun page => (InternalNodeCodec.insertElement page [] 2 3).map Prod.snd)
        (redoInsertInternalNodeEntry 1 0 [] 2 3) (liveElements InternalNodeCodec.elementCodec)
        (InsertsInside InternalNodeCodec.elementCodec · 18) := by
  have blank : getLSN ((onePage (Buffer.zero 4096)).pages 0) < 1 := by decide
  have onBlank := redo_entry_equals_live_iff (onePage (Buffer.zero 4096)) 0 1 (onePage_fetched _)
    blank
  obtain ⟨filled, slot, done, exact_⟩ := LeafNodeCodec.blank_zero.insert [] [1] (by decide)
  obtain ⟨page, stamped, exact_⟩ := exact_.stamped
  have found : LeafNodeCodec.findValue page [] = some (some [1]) := by
    rw [LeafNodeCodec.findValue_eq exact_.repr]
    rfl
  have older : getLSN ((onePage page).pages 0) < 1 := by
    have small : LeafNodeCodec.getLSN page < 1 := by
      rw [stamped]
      decide
    exact small
  refine ⟨(onBlank.1 (.inl LeafNodeCodec.blank_zero)).1 [] [1] |>.2 ?_, ⟨page, found, ?_⟩,
    onBlank.2 InternalNodeCodec.wellFormed_zero [] 2 3 |>.2 ?_⟩
  · rintro ⟨full, _⟩
    exact absurd full (by decide)
  · refine ((redo_entry_equals_live_iff (onePage page) 0 1 (onePage_fetched page) older).1
      (exact_.wellFormed (by simp))).2 [] [1] [2] found |>.2 ?_
    rintro ⟨longer, _⟩
    exact absurd longer (by decide)
  · rintro ⟨full, _⟩
    exact absurd full (by decide)

/-- A page on which an entry of 2100 bytes was inserted and deleted: 1960 bytes are free and
2104 are garbage. An entry of 2102 bytes is put in by the live path, after a compaction for the
check, and refused by the redo. -/
theorem redo_loses_compacted_insert :
    ¬ ∀ w id lsn key value, newGuard id w = (.ok (), w.acquire id) → getLSN (w.pages id) < lsn →
      LeafNodeCodec.WellFormed (w.pages id) →
      RedoEqualsLive w id lsn (LeafNodeCodec.hasEnoughSpaceToInsertElement · key value)
        (fun page => (LeafNodeCodec.insertElement page key value).map Prod.snd)
        (redoInsertLeafNodeEntry lsn id key value) LeafNodeCodec.livePairs
        (InsertsInside LeafNodeCodec.elementCodec · (2 + key.length + 2 + value.length)) := by
  intro claimed
  obtain ⟨large, largeLength⟩ : ∃ value : Bytes, value.length = 2096 :=
    ⟨List.replicate 2096 0, List.length_replicate⟩
  obtain ⟨value, valueLength⟩ : ∃ value : Bytes, value.length = 2098 :=
    ⟨List.replicate 2098 0, List.length_replicate⟩
  obtain ⟨filled, slot, _, inserted⟩ := LeafNodeCodec.blank_zero.insert [] large
    (by rw [largeLength]; decide)
  obtain ⟨emptied, cells, garbage, deleted, exact_, notBlank, _, nothing⟩ :=
    inserted.delete (e := ⟨[], large⟩) (show SortedList.lookup _ [] _ = some _ from rfl)
  have only : LeafNodeCodec.LeafRepr filled ([] ++ (slot, some ⟨[], large⟩) :: []) _ _ :=
    inserted.repr
  obtain ⟨_, deleted', repr', _⟩ := LeafNodeCodec.deleteElement_live only (by simp)
  cases deleted.symm.trans deleted'
  have one : cells.length = 1 := exact_.repr.shape.numSlots.symm.trans repr'.shape.numSlots
  have account := exact_.account
  have packedAll : packedSpace LeafNodeCodec.elementCodec (elements cells) = 4064 := by
    rw [nothing]
    rfl
  rw [packedAll, one, List.length_nil, largeLength] at account
  simp only [headerSize] at account
  obtain ⟨page, stamped, exact_⟩ := exact_.stamped
  have older : getLSN page < 1 := by
    rw [show getLSN page = 0 from stamped]
    decide
  have wellFormed := exact_.wellFormed notBlank
  obtain ⟨_, _, _, sound⟩ := wellFormed.sound
  have equal := (redoEqualsLive_iff (onePage_fetched page) older _ _ _ _).1
    (claimed (onePage page) 0 1 [] value (onePage_fetched page) older wellFormed)
  apply (sound.redoInsert_iff LeafNodeCodec.splices ⟨[], value⟩ 1).1
    (by rw [LeafNodeCodec.width_eq]; exact equal)
  rw [CompactsForCheckOnly, exact_.repr.freeSpace, exact_.repr.compactedFree, packedAll,
    exact_.repr.shape.garbageSize, LeafNodeCodec.width_eq, one, valueLength, largeLength,
    List.length_nil]
  simp only [headerSize, slotSize]
  omega

end StorageEngine

end CambiumDB
