import CambiumDB.StorageEngine.RedoPages

/-!
# Redoing an update of a key that need not be there

`SetValue` drops what `linearSearch` says about the key. If the search stopped at a greater key,
the value of that key is overwritten, or its slot is pointed at the new element; if it ran to the
end of the slots, the element that is decoded is nil. The live path calls `SetValue` for a key that
it has found, but a redo may find the page without it.
-/

namespace CambiumDB

open ByteBuffer HeaderConfig HeaderCodec SlottedPage

namespace LeafNodeCodec

/-- `SetValue` returns, and once the LSN is set every other key has the value that it had. -/
def TouchesOnly (page : Page) (lsn : UInt64) (key value : Bytes) : Prop :=
  ∃ page', setValue page key value = some page' ∧
    ∀ k, k ≠ key → findValue (HeaderCodec.setLSN page' lsn) k = findValue page k

/-- The first live pair whose key is not smaller is the one of the key, or has the new value
already. A longer value has room in the free space. Without that room the element is written over
the slots, and the page that this leaves has to read as before for all other keys. -/
def MeetsOnlyKey (page : Page) (lsn : UInt64) (key value : Bytes) : Prop :=
  ∃ pairs e, livePairs page = some pairs ∧ pairs.find? (fun e => key ≤ e.key) = some e ∧
    if value.length ≤ e.value.length then e.key = key ∨ e.value = value
    else if spaceRequired key value ≤ freeSpace page then e.key = key
    else spaceRequired key value ≤ (decodePageHeader page).freeSpaceEnd ∧
      ∃ off slot, StopsAt page key off slot ∧ ∀ k, k ≠ key →
        findValue (HeaderCodec.setLSN (grownPage page off (decodePageHeader page).freeSpaceEnd
          (decodePageHeader page).garbageSize e ⟨key, value⟩) lsn) k = findValue page k

section
variable {page : Page} {pre post : List (Cell LeafNodeElement)} {slot : Slot}
  {e : LeafNodeElement} {floor garbage : Nat} {key value : Bytes} {lsn : UInt64}

theorem StopsAt.unique {off off' : Nat} {slot' : Slot} (stops : StopsAt page key off slot)
    (stops' : StopsAt page key off' slot') : off = off' := by
  rcases stops with here | here <;> rcases stops' with there | there <;>
  · have same := Option.some.inj (here.symm.trans there)
    cases same <;> rfl

/-- Only the value of the key at the cut is replaced. -/
theorem findValue_replaced {page' : Page} {slot' : Slot} {floor' garbage' : Nat}
    (h : LeafRepr page (pre ++ (slot, some e) :: post) floor garbage)
    (h' : LeafRepr page' (pre ++ (slot', some ⟨e.key, value⟩) :: post) floor' garbage')
    {k : Bytes} (other : k ≠ e.key) : findValue page' k = findValue page k := by
  rw [findValue_eq h, findValue_eq h']
  simp [SortedList.lookup_append, SortedList.lookup_cons, Ne.symm other]

/-- The value at the cut. -/
theorem findValue_cut (h : LeafRepr page (pre ++ (slot, some e) :: post) floor garbage)
    (below : ∀ x ∈ elements pre, x.key < e.key) : findValue page e.key = some (some e.value) := by
  have before : SortedList.lookup LeafNodeElement.key e.key (elements pre) = none :=
    (SortedList.lookup_eq_none_iff ..).2 fun x member => (below x member).ne
  rw [findValue_eq h]
  simp [SortedList.lookup_append, SortedList.lookup_cons, before]

variable (h : LeafRepr page (pre ++ (slot, some e) :: post) floor garbage)
  (below : ∀ x ∈ elements pre, x.key < key) (least : key ≤ e.key)
  (stops : StopsAt page key (headerSize + 4 * pre.length) slot)
include h below least stops

theorem touchesOnly_inPlace (shorter : value.length ≤ e.value.length) :
    TouchesOnly page lsn key value ↔ e.key = key ∨ e.value = value := by
  have below' : ∀ x ∈ elements pre, x.key < e.key := fun x member =>
    (below x member).trans_le least
  obtain ⟨page', done, repr, _⟩ := setValue_shorter h below' shorter
  have same := setValue_inPlace_at h below' stops shorter
  have repr := repr.setLSN lsn
  have after := findValue_cut repr below'
  rw [TouchesOnly, same, done]
  simp only [Option.some.injEq, exists_eq_left']
  constructor
  · intro others
    by_cases here : e.key = key
    · exact .inl here
    · have kept := others e.key here
      rw [after, findValue_cut h below'] at kept
      exact .inr (Option.some.inj (Option.some.inj kept)).symm
  · intro ok k other
    by_cases here : k = e.key
    · subst here
      rw [after, findValue_cut h below', ok.resolve_left other]
    · exact findValue_replaced h repr here

theorem touchesOnly_room (sorted : KeysSorted (pre ++ (slot, some e) :: post))
    (longer : e.value.length < value.length)
    (fits : headerSize + 4 * (pre ++ (slot, some e) :: post).length +
      (2 + key.length + 2 + value.length) ≤ floor) :
    TouchesOnly page lsn key value ↔ e.key = key := by
  have below' : ∀ x ∈ elements pre, x.key < e.key := fun x member =>
    (below x member).trans_le least
  have size : width elementCodec ⟨key, value⟩ = 2 + key.length + 2 + value.length :=
    width_eq ⟨key, value⟩
  have repr := (repr_grownPage h ⟨key, value⟩ (size ▸ fits)).1.setLSN lsn
  rw [TouchesOnly, setValue_grown_at h stops longer (by omega)]
  simp only [Option.some.injEq, exists_eq_left']
  constructor
  · -- a greater key is no longer on the page
    intro others
    by_contra other
    have kept := others e.key other
    rw [KeysSorted, SortedList.Sorted, elements_append, elements_cons_some, List.pairwise_append,
      List.pairwise_cons] at sorted
    have before : SortedList.lookup LeafNodeElement.key e.key (elements pre) = none :=
      (SortedList.lookup_eq_none_iff ..).2 fun x member => (below' x member).ne
    have behind : SortedList.lookup LeafNodeElement.key e.key (elements post) = none :=
      (SortedList.lookup_eq_none_iff ..).2 fun x member => (sorted.2.1.1 x member).ne'
    rw [findValue_cut h below', findValue_eq repr] at kept
    simp [SortedList.lookup_append, SortedList.lookup_cons, before, behind, Ne.symm other] at kept
  · rintro rfl k other
    exact findValue_replaced h repr other

omit below least in
theorem touchesOnly_noRoom (longer : e.value.length < value.length) :
    TouchesOnly page lsn key value ↔ 2 + key.length + 2 + value.length ≤ floor ∧
      ∃ off slot, StopsAt page key off slot ∧ ∀ k, k ≠ key →
        findValue (HeaderCodec.setLSN (grownPage page off floor garbage e ⟨key, value⟩) lsn) k =
          findValue page k := by
  by_cases fits : 2 + key.length + 2 + value.length ≤ floor
  · rw [TouchesOnly, setValue_grown_at h stops longer fits]
    simp only [Option.some.injEq, exists_eq_left', fits, true_and]
    constructor
    · intro others
      exact ⟨_, slot, stops, others⟩
    · rintro ⟨off, slot', stops', others⟩
      exact stops'.unique stops ▸ others
  · rw [TouchesOnly, setValue_huge_at h stops longer (not_le.1 fits)]
    simp [fits]

end

theorem touchesOnly_iff {page : Page} {cells : List (Cell LeafNodeElement)} {floor garbage : Nat}
    (h : LeafRepr page cells floor garbage) (sorted : KeysSorted cells) (lsn : UInt64)
    (key value : Bytes) :
    TouchesOnly page lsn key value ↔ MeetsOnlyKey page lsn key value := by
  have live := livePairs_eq h
  have search := h.layout.linearSearch h.shape.numSlots key
  rcases searchCells_cases (c := elementCodec) key cells headerSize with
    ⟨missing, smaller⟩ | ⟨pre, slot, e, post, rfl, below, ends⟩
  · -- the search runs to the end and the element is nil
    rw [missing] at search
    constructor
    · rintro ⟨page', done, _⟩
      simp only [setValue, search, bind, Option.bind] at done
      cases done
    · rintro ⟨pairs, e, read, first, _⟩
      obtain rfl := Option.some.inj (live.symm.trans read)
      have least : key ≤ e.key := by simpa using List.find?_some first
      exact absurd (smaller e (List.mem_of_find?_eq_some first)) least.not_gt
  · have stops : StopsAt page key (headerSize + 4 * pre.length) slot :=
      ends.imp (fun here => search.trans (congrArg some here.2))
        fun here => search.trans (congrArg some here.2)
    have least : key ≤ e.key := ends.elim (fun here => here.1.ge) fun here => here.1.le
    have first : (elements (pre ++ (slot, some e) :: post)).find? (fun e => key ≤ e.key) =
        some e := by
      have before : (elements pre).find? (fun e => key ≤ e.key) = none :=
        List.find?_eq_none.2 fun x member => by simpa using below x member
      rw [elements_append, elements_cons_some, List.find?_append, before]
      simp [least]
    have meets : MeetsOnlyKey page lsn key value ↔
        if value.length ≤ e.value.length then e.key = key ∨ e.value = value
        else if spaceRequired key value ≤ freeSpace page then e.key = key
        else spaceRequired key value ≤ (decodePageHeader page).freeSpaceEnd ∧
          ∃ off slot, StopsAt page key off slot ∧ ∀ k, k ≠ key →
            findValue (HeaderCodec.setLSN (grownPage page off (decodePageHeader page).freeSpaceEnd
              (decodePageHeader page).garbageSize e ⟨key, value⟩) lsn) k = findValue page k := by
      rw [MeetsOnlyKey]
      simp only [live, Option.some.injEq, exists_and_left, exists_eq_left', first]
    rw [meets, h.shape.freeSpaceEnd, h.shape.garbageSize, freeSpace_eq h, spaceRequired]
    have room := h.layout.room
    split
    next shorter => exact touchesOnly_inPlace h below least stops shorter
    next longer =>
      split
      next fits => exact touchesOnly_room h below least stops sorted (not_le.1 longer) (by omega)
      next => exact touchesOnly_noRoom h stops (not_le.1 longer)

end LeafNodeCodec

/-! ### The redo -/

namespace StorageEngine

open TreeM

open LeafNodeCodec (MeetsOnlyKey TouchesOnly touchesOnly_iff findValue setValue)

/-- The redo does not panic, and every other key of the page has the value that it had. -/
def RedoTouchesOnly (w : World) (id lsn : UInt64) (key value : Bytes) : Prop :=
  ∃ result w', redoUpdateLeafNodeEntry lsn id key value w = (result, w') ∧
    result ≠ .error .panic ∧
    ∀ k, k ≠ key → findValue (w'.pages id) k = findValue (w.pages id) k

/-- A redo that does not get its guard leaves the pages. -/
theorem redoEntry_unfetched {w : World} {id : UInt64} (lsn : UInt64) (change : Page → Option Page)
    (refused : (newGuard id w).1 ≠ .ok ()) :
    ∃ result w', redoEntry lsn id change w = (result, w') ∧ result ≠ .error .panic ∧
      w'.pages = w.pages := by
  rw [redoEntry]
  rw [newGuard] at refused
  split_ifs at refused with fails held
  · have guard : newGuard id w = (.error (.error .io), w.countCall) := if_pos fails
    exact ⟨_, _, bind_error guard, by simp, rfl⟩
  · have guard : newGuard id w = (.error .blocked, w) := (if_neg fails).trans (if_pos held)
    exact ⟨_, _, bind_error guard, by simp, rfl⟩
  · exact absurd rfl refused

/-- What a redo that gets its guard makes of the page. -/
theorem redoEntry_fetched {w : World} {id lsn : UInt64} (change : Page → Option Page)
    (fetched : newGuard id w = (.ok (), w.acquire id)) :
    redoEntry lsn id change w =
      match guarded lsn change (w.pages id) with
      | some page => (.ok (), ((w.acquire id).setPage id page).release id)
      | none => (.error .panic, (w.acquire id).release id) := by
  rw [redoEntry, bind_ok fetched]
  split
  next page result => exact deferDone_ok (redoOnPage_of_guarded (w := w.acquire id) result)
  next result =>
    rw [guarded] at result
    split at result
    next older =>
      have panics : applyPage id (fun content => (change content).map ((), ·)) (w.acquire id) =
          (.error .panic, w.acquire id) := by
        rw [applyPage, World.acquire_pages, Option.map_eq_none_iff.1 result]
        rfl
      have older' : getLSN ((w.acquire id).pages id) < lsn := older
      rw [deferDone, redoOnPage, bind_ok (get_apply _ _), if_pos older', bind_error panics]
    next => cases result

theorem redoTouchesOnly_fetched {w : World} {id lsn : UInt64} {key value : Bytes}
    (fetched : newGuard id w = (.ok (), w.acquire id)) :
    RedoTouchesOnly w id lsn key value ↔
      ∃ page', guarded lsn (setValue · key value) (w.pages id) = some page' ∧
        ∀ k, k ≠ key → findValue page' k = findValue (w.pages id) k := by
  rw [RedoTouchesOnly, redoUpdateLeafNodeEntry, redoEntry_fetched _ fetched]
  cases guarded lsn (setValue · key value) (w.pages id) with
  | none => simp
  | some page => simp

theorem redoTouchesOnly_older {w : World} {id lsn : UInt64} {key value : Bytes}
    (fetched : newGuard id w = (.ok (), w.acquire id)) (older : getLSN (w.pages id) < lsn) :
    RedoTouchesOnly w id lsn key value ↔ TouchesOnly (w.pages id) lsn key value := by
  rw [redoTouchesOnly_fetched fetched, TouchesOnly, guarded, if_pos older]
  constructor
  · rintro ⟨page', result, others⟩
    obtain ⟨after, done, rfl⟩ := Option.map_eq_some_iff.1 result
    exact ⟨after, done, others⟩
  · rintro ⟨after, done, others⟩
    exact ⟨_, Option.map_eq_some_iff.2 ⟨after, done, rfl⟩, others⟩

/-- The redo of an update leaves the other keys alone exactly if it gets no guard, if the page has
the record already, or if the search meets only the key. -/
theorem redo_update_touchesOnly_iff (w : World) (id lsn : UInt64) (key value : Bytes)
    (wellFormed : LeafNodeCodec.WellFormed (w.pages id)) :
    RedoTouchesOnly w id lsn key value ↔ (newGuard id w).1 ≠ .ok () ∨
      lsn ≤ getLSN (w.pages id) ∨ MeetsOnlyKey (w.pages id) lsn key value := by
  by_cases refused : (newGuard id w).1 ≠ .ok ()
  · obtain ⟨result, w', run, fine, pages⟩ :=
      redoEntry_unfetched lsn (setValue · key value) refused
    exact iff_of_true ⟨result, w', run, fine, fun k _ => by rw [pages]⟩ (.inl refused)
  obtain ⟨same, _⟩ := newGuard_inv (Prod.ext (not_not.1 refused) rfl)
  have fetched : newGuard id w = (.ok (), w.acquire id) := Prod.ext (not_not.1 refused) same
  by_cases newer : lsn ≤ getLSN (w.pages id)
  · refine iff_of_true ((redoTouchesOnly_fetched fetched).2 ?_) (.inr (.inl newer))
    exact ⟨w.pages id, guarded_newer _ newer, fun _ _ => rfl⟩
  · obtain ⟨cells, floor, garbage, slack, exact_⟩ := wellFormed.exactLeaf
    simp only [refused, newer, false_or]
    rw [redoTouchesOnly_older fetched (UInt64.not_le.1 newer),
      touchesOnly_iff exact_.repr exact_.sorted]

/-- A page of its own with the pair `([2], [7])`. -/
theorem exists_single_pair : ∃ page slot, getLSN page < 1 ∧
    LeafNodeCodec.ExactLeaf page [(slot, some ⟨[2], [7]⟩)] 4090 0 0 := by
  obtain ⟨filled, slot, _, exact_⟩ := LeafNodeCodec.blank_zero.insert [2] [7] (by decide)
  obtain ⟨page, stamped, exact_⟩ := exact_.stamped
  refine ⟨page, slot, ?_, exact_⟩
  rw [show getLSN page = 0 from stamped]
  decide

theorem redo_update_touchesOnly_live_key : ∃ page, LeafNodeCodec.WellFormed page ∧
    findValue page [2] = some (some [7]) ∧ RedoTouchesOnly (onePage page) 0 1 [2] [9] := by
  obtain ⟨page, slot, _, exact_⟩ := exists_single_pair
  have wellFormed := exact_.wellFormed (by simp)
  refine ⟨page, wellFormed, ?_,
    (redo_update_touchesOnly_iff (onePage page) 0 1 [2] [9] wellFormed).2 (.inr (.inr ?_))⟩
  · rw [LeafNodeCodec.findValue_eq exact_.repr]
    rfl
  · exact ⟨_, ⟨[2], [7]⟩, LeafNodeCodec.livePairs_eq exact_.repr, rfl, .inl rfl⟩

/-- The page has only the key `[2]`; redoing an update of `[1]` overwrites its value. -/
theorem redo_update_overwrites_greater_key :
    ¬ ∀ w id lsn key value, LeafNodeCodec.WellFormed (w.pages id) →
      RedoTouchesOnly w id lsn key value := by
  intro claimed
  obtain ⟨page, slot, older, exact_⟩ := exists_single_pair
  have touches := (redoTouchesOnly_older (onePage_fetched page) older).1
    (claimed (onePage page) 0 1 [1] [9] (exact_.wellFormed (by simp)))
  obtain ⟨pairs, e, live, first, meets⟩ :=
    (touchesOnly_iff exact_.repr exact_.sorted 1 [1] [9]).1 touches
  obtain rfl := Option.some.inj ((LeafNodeCodec.livePairs_eq exact_.repr).symm.trans live)
  obtain rfl : (⟨[2], [7]⟩ : LeafNodeElement) = e := Option.some.inj first
  rw [if_pos (by decide)] at meets
  exact absurd meets (by decide)

end StorageEngine

end CambiumDB
