import Mathlib.Algebra.Order.BigOperators.Group.List
import CambiumDB.PageCodec.LeafChain
import CambiumDB.PageCodec.SpaceArithmetic

/-!
# What the space checks refuse

The checks compare the size that is asked for with the free space, and if that fails with the
garbage count, but never with the two together; an update does not count the entry that it
replaces. An entry that a packed page would hold can be refused, and the tree then splits a leaf
that did not have to be split.
-/

namespace CambiumDB

open ByteBuffer HeaderConfig HeaderCodec SlotCodec SlottedPage TransitionSystem

namespace LeafNodeCodec

/-! ### Pages that calls lead to -/

inductive PageOp where
  | write (op : LeafOp)
  | check
  | split
  | stamp

/-- One call on a leaf page. Both pages of a split are reached from the page that is split. -/
inductive PageStep : Page → PageOp → Page → Prop
  | write {page page' : Page} {op : LeafOp} :
      LeafStep page op page' → PageStep page (.write op) page'
  | check {page page' : Page} {key value : Bytes} {answer : Bool} :
      hasEnoughSpaceToInsertElement page key value = some (answer, page') →
      PageStep page .check page'
  | splitLeft {page right page' right' : Page} {rightId : UInt64} {i : Nat} {key : Bytes} :
      right.byte nodeTypeOffset = leafNodeType →
      splitNode page right rightId i = some (page', right', key) → PageStep page .split page'
  | splitRight {page right page' right' : Page} {rightId : UInt64} {i : Nat} {key : Bytes} :
      right.byte nodeTypeOffset = leafNodeType →
      splitNode page right rightId i = some (page', right', key) → PageStep page .split right'
  | stamp {page : Page} (lsn : UInt64) : PageStep page .stamp (setLSN page lsn)

/-- No write relies on a compaction that frees less than was counted. -/
def WriteSuffices (page : Page) : PageOp → Prop
  | .write op => CompactionSuffices page op
  | _ => True

def BlankLeaf (page : Page) : Prop := Blank page ∧ page.byte nodeTypeOffset = leafNodeType

theorem BlankLeaf.leafPage {page : Page} (blank : BlankLeaf page) : LeafPage page [] :=
  ⟨blank.2, [], 4096, 0, blank.1.exactLeaf.repr, blank.1.exactLeaf.sorted, rfl⟩

theorem LeafPage.keeps_split {page right left' right' : Page} {pairs : List LeafNodeElement}
    (leaf : LeafPage page pairs) (type : right.byte nodeTypeOffset = leafNodeType)
    {rightId : UInt64} {i : Nat} {key : Bytes}
    (done : LeafNodeCodec.splitNode page right rightId i = some (left', right', key)) :
    LeafPage left' (pairs.take i) ∧ LeafPage right' (pairs.drop i) := by
  cases middle : pairs[i]? with
  | none =>
    rw [leaf.splitNode_past right rightId middle] at done
    cases done
  | some m =>
    obtain ⟨_, _, run, left, back, _⟩ := leaf.splitNode type rightId middle
    rw [run] at done
    cases done
    exact ⟨left.leaf, back.leaf⟩

theorem PageStep.keeps_leaf {page page' : Page} {op : PageOp} {pairs : List LeafNodeElement}
    (leaf : LeafPage page pairs) (suffices_ : WriteSuffices page op)
    (step : PageStep page op page') : ∃ pairs', LeafPage page' pairs' := by
  cases step with
  | write step =>
    obtain ⟨pairs', leaf', _⟩ := step.keeps_leaf leaf suffices_
    exact ⟨pairs', leaf'⟩
  | check done => exact ⟨pairs, (leaf.check_keeps done).1⟩
  | splitLeft type done => exact ⟨_, (leaf.keeps_split type done).1⟩
  | splitRight type done => exact ⟨_, (leaf.keeps_split type done).2⟩
  | stamp lsn => exact ⟨pairs, leaf.setLSN lsn⟩

theorem leafPage_of_run {page : Page} (reached : Reach PageStep WriteSuffices BlankLeaf page) :
    ∃ pairs, LeafPage page pairs :=
  reached.invariant (fun page => ∃ pairs, LeafPage page pairs)
    (fun _ blank => ⟨[], blank.leafPage⟩)
    fun _ _ _ ⟨_, leaf⟩ suffices_ step => step.keeps_leaf leaf suffices_

/-! ### Complete checks -/

/-- What the entries and their slots take on a page. -/
def entriesSpace (pairs : List LeafNodeElement) : Nat :=
  (pairs.map fun e => spaceRequired e.key e.value + slotSize).sum

def Accepts (call : Option (Bool × Page)) : Prop := ∃ page', call = some (true, page')

/-- A new entry that fits beside the live ones is accepted by the check and by `InsertElement`. -/
def InsertComplete (page : Page) (key value : Bytes) : Prop :=
  ∀ pairs, livePairs page = some pairs → findValue page key = some none →
    entriesSpace (⟨key, value⟩ :: pairs) ≤ 4096 - headerSize →
    Accepts (hasEnoughSpaceToInsertElement page key value) ∧
      Accepts (insertElement page key value)

/-- A new value that fits in the place of the old one is accepted by the check. -/
def UpdateComplete (page : Page) (key value : Bytes) : Prop :=
  ∀ pairs old, livePairs page = some pairs → findValue page key = some (some old) →
    entriesSpace (pairs.map fun e => if e.key = key then ⟨key, value⟩ else e) ≤
      4096 - headerSize →
    Accepts (hasEnoughSpaceToUpdateValue page key old value)

/-- A new entry that fits beside the live ones has room for it and its slot in the free space,
or as much garbage. -/
def InsertInOnePiece (page : Page) (key value : Bytes) : Prop :=
  ∀ pairs, livePairs page = some pairs → findValue page key = some none →
    entriesSpace (⟨key, value⟩ :: pairs) ≤ 4096 - headerSize →
    spaceRequired key value + slotSize ≤ freeSpace page ∨
      spaceRequired key value + slotSize ≤ (decodePageHeader page).garbageSize

/-- A longer value that fits in the place of the old one has room for the whole entry in the free
space, or as much garbage. -/
def UpdateInOnePiece (page : Page) (key value : Bytes) : Prop :=
  ∀ pairs old, livePairs page = some pairs → findValue page key = some (some old) →
    entriesSpace (pairs.map fun e => if e.key = key then ⟨key, value⟩ else e) ≤
      4096 - headerSize →
    old.length < value.length →
    spaceRequired key value ≤ freeSpace page ∨
      spaceRequired key value ≤ (decodePageHeader page).garbageSize

theorem entriesSpace_eq (pairs : List LeafNodeElement) :
    entriesSpace pairs = dataSize elementCodec pairs + 4 * pairs.length := by
  induction pairs with
  | nil => rfl
  | cons e rest ih =>
    rw [entriesSpace] at ih ⊢
    rw [List.map_cons, List.sum_cons, ih, dataSize_cons, width_eq, List.length_cons, spaceRequired,
      slotSize]
    omega

/-- The entry of the key is one of those that have to fit. -/
theorem le_entriesSpace {pairs : List LeafNodeElement} {key value : Bytes}
    (member : ⟨key, value⟩ ∈ pairs) : spaceRequired key value + slotSize ≤ entriesSpace pairs :=
  List.single_le_sum (by simp) _ (List.mem_map_of_mem (a := LeafNodeElement.mk key value) member)

section
variable {page : Page} {pairs : List LeafNodeElement} {key value : Bytes}
  (leaf : LeafPage page pairs)
include leaf

theorem LeafPage.freeInside : FreeInside page := by
  obtain ⟨cells, floor, garbage, repr, _, _⟩ := leaf.content
  constructor
  · rw [repr.shape.freeSpaceBegin, repr.shape.freeSpaceEnd]
    exact repr.layout.room
  · rw [repr.shape.freeSpaceEnd]
    exact repr.layout.top

theorem LeafPage.check_accepts_iff (small : spaceRequired key value < 65536) :
    Accepts (hasEnoughSpaceToInsertElement page key value) ↔
      spaceRequired key value ≤ freeSpace page ∨
        spaceRequired key value ≤ (decodePageHeader page).garbageSize := by
  constructor
  · rintro ⟨page', accepted⟩
    have answer := answer_hasEnoughSpace _ accepted
    rw [isAdequate_eq leaf.freeInside, shouldCompact] at answer
    rw [spaceRequired] at small ⊢
    simpa [Nat.mod_eq_of_lt small] using answer.symm
  · intro room
    by_cases fits : spaceRequired key value ≤ freeSpace page
    · exact ⟨page, leaf.check_adequate fits⟩
    · obtain ⟨page', accepted, _⟩ :=
        leaf.check_compacts (not_le.1 fits) (room.resolve_left fits)
      exact ⟨page', accepted⟩

theorem LeafPage.fits_packed (fits : entriesSpace (⟨key, value⟩ :: pairs) ≤ 4096 - headerSize) :
    spaceRequired key value + slotSize ≤ packedFree page := by
  obtain ⟨cells, floor, garbage, repr, _, rfl⟩ := leaf.content
  rw [entriesSpace_eq, dataSize_cons, width_eq, List.length_cons] at fits
  rw [packedFree_eq repr, packedSpace, spaceRequired, slotSize]
  dsimp only at fits
  omega

theorem insertComplete_iff :
    InsertComplete page key value ↔ InsertInOnePiece page key value := by
  constructor
  · intro complete pairs' live missing fits
    obtain ⟨_, page', accepted⟩ := complete pairs' live missing fits
    obtain rfl := Option.some.inj (leaf.livePairs.symm.trans live)
    have small : spaceRequired key value + slotSize < 65536 := by
      have part := (le_entriesSpace List.mem_cons_self).trans fits
      omega
    have answer := answer_insertElement _ accepted
    rw [isAdequate_eq leaf.freeInside, shouldCompact] at answer
    rw [spaceRequired] at small ⊢
    rw [Nat.mod_eq_of_lt small] at answer
    simpa using answer.symm
  · intro room pairs' live missing fits
    have here := room pairs' live missing fits
    obtain rfl := Option.some.inj (leaf.livePairs.symm.trans live)
    have packed := leaf.fits_packed fits
    have small := (le_entriesSpace List.mem_cons_self).trans fits
    have takes : TakesInsert page key value := here.imp_right fun enough => ⟨enough, packed⟩
    obtain ⟨page', done, _⟩ := leaf.insertElement takes (leaf.lookup_none missing)
    refine ⟨(leaf.check_accepts_iff ?_).2 ?_, page', done⟩
    · omega
    · exact here.imp (fun room => by omega) fun enough => by omega

theorem updateComplete_iff :
    UpdateComplete page key value ↔ UpdateInOnePiece page key value := by
  have decided : ∀ pairs' old, livePairs page = some pairs' →
      findValue page key = some (some old) →
      entriesSpace (pairs'.map fun e => if e.key = key then ⟨key, value⟩ else e) ≤
        4096 - headerSize →
      (Accepts (hasEnoughSpaceToUpdateValue page key old value) ↔
        (old.length < value.length → spaceRequired key value ≤ freeSpace page ∨
          spaceRequired key value ≤ (decodePageHeader page).garbageSize)) := by
    intro pairs' old live found fits
    obtain rfl := Option.some.inj (leaf.livePairs.symm.trans live)
    have member := SortedList.mem_of_lookup LeafNodeElement.key (leaf.lookup_some found)
    have replaced : (⟨key, value⟩ : LeafNodeElement) ∈
        pairs.map fun e => if e.key = key then ⟨key, value⟩ else e :=
      List.mem_map.2 ⟨_, member, if_pos rfl⟩
    have small := (le_entriesSpace replaced).trans fits
    rw [hasEnoughSpaceToUpdateValue]
    split
    next shorter => exact iff_of_true ⟨page, rfl⟩ fun longer => absurd shorter (not_le.2 longer)
    next longer =>
      rw [leaf.check_accepts_iff (by omega)]
      simp [not_le.1 longer]
  constructor
  · intro complete pairs' old live found fits
    exact (decided pairs' old live found fits).1 (complete pairs' old live found fits)
  · intro room pairs' old live found fits
    exact (decided pairs' old live found fits).2 (room pairs' old live found fits)

end

/-- On a page that calls lead to, with no write relying on a compaction that frees too little, the
checks accept every entry that fits exactly if it fits into the free space or into what is counted
as garbage. -/
theorem spaceChecks_complete_iff {page : Page}
    (reached : Reach PageStep WriteSuffices BlankLeaf page) (key value : Bytes) :
    (InsertComplete page key value ↔ InsertInOnePiece page key value) ∧
      (UpdateComplete page key value ↔ UpdateInOnePiece page key value) := by
  obtain ⟨pairs, leaf⟩ := leafPage_of_run reached
  exact ⟨insertComplete_iff leaf, updateComplete_iff leaf⟩

theorem blankLeaf_zero : BlankLeaf (Buffer.zero 4096) := ⟨blank_zero, rfl⟩

theorem spaceChecks_complete_on_blank_page : BlankLeaf (Buffer.zero 4096) ∧
    InsertComplete (Buffer.zero 4096) [] [1] ∧ UpdateComplete (Buffer.zero 4096) [] [1] := by
  have complete := spaceChecks_complete_iff (.start blankLeaf_zero) [] [1]
  refine ⟨blankLeaf_zero, complete.1.2 ?_, complete.2.2 ?_⟩
  · intro pairs live missing fits
    exact .inl (by decide)
  · intro pairs old live found fits longer
    exact .inl (by decide)

/-- A page whose only entry has a value of 3000 bytes, which is to become one of 3001: 1056 bytes
are free and there is no garbage. -/
theorem spaceChecks_refuse_fitting_update :
    ¬ ∀ page, Reach PageStep (fun _ _ => True) BlankLeaf page →
      ∀ key value, InsertComplete page key value ∧ UpdateComplete page key value := by
  intro claimed
  obtain ⟨old, oldLength⟩ : ∃ value : Bytes, value.length = 3000 :=
    ⟨List.replicate 3000 0, List.length_replicate⟩
  obtain ⟨value, valueLength⟩ : ∃ value : Bytes, value.length = 3001 :=
    ⟨List.replicate 3001 0, List.length_replicate⟩
  obtain ⟨page, slot, done, exact_⟩ := blank_zero.insert [] old
    (by rw [oldLength]; decide)
  have missing : findValue (Buffer.zero 4096) [] = some none := by
    rw [findValue_eq blank_zero.exactLeaf.repr]
    rfl
  have step : PageStep (Buffer.zero 4096) (.write (.insert [] old)) page :=
    .write (.insert missing done)
  have found : findValue page [] = some (some old) := by
    rw [findValue_eq exact_.repr]
    rfl
  obtain ⟨pairs, leaf⟩ := step.keeps_leaf blankLeaf_zero.leafPage (by
    intro full
    rw [freeSpace_eq blank_zero.exactLeaf.repr, spaceRequired, oldLength] at full
    exact absurd full (by decide))
  have same : pairs = [⟨[], old⟩] :=
    Option.some.inj (leaf.livePairs.symm.trans (livePairs_eq exact_.repr))
  have complete := (claimed page (.next (.start blankLeaf_zero) trivial step) [] value).2
  have room := (updateComplete_iff leaf).1 complete pairs old leaf.livePairs found ?_ ?_
  · rw [freeSpace_eq exact_.repr, exact_.repr.shape.garbageSize, spaceRequired, oldLength,
      valueLength] at room
    simp [headerSize] at room
  · simp [same, entriesSpace, spaceRequired, valueLength, slotSize, headerSize]
  · rw [oldLength, valueLength]
    decide

end LeafNodeCodec

end CambiumDB
