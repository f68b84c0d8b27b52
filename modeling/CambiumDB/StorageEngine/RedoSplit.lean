import CambiumDB.BPlusTree.Allocation
import CambiumDB.PageCodec.SplitPayload
import CambiumDB.StorageEngine.RedoEntry

/-!
# Redoing a split

The live split deals the slots of the left page out to the two pages. The redo starts from the
list of elements in the record and overwrites both pages. On a page whose slots claim the
sizes of their elements, both lay out the same elements with the same room, so the insertion
that follows ends alike.
-/

namespace CambiumDB

open ByteBuffer HeaderConfig HeaderCodec SlottedPage

namespace SlottedPage

variable {E : Type} {c : ElementCodec E}

/-- `SplitNode`, then the insertion into the half that the key belongs to. -/
def splitAndInsert (c : ElementCodec E) (insertSlot : Page → Slot → E → Option (Page × Nat))
    (skip : Nat) (left right : Page) (rightId : UInt64) (splitIndex : Nat) (e : E) :
    Option (Page × Page) := do
  let (left, right, extraKey) ← splitNode c skip left right rightId splitIndex
  if compareBytes (c.key e) extraKey = .lt then
    let (_, left) ← insertElement c insertSlot left (width c e) e
    some (left, right)
  else
    let (_, right) ← insertElement c insertSlot right (width c e) e
    some (left, right)

/-- The page as it is, or with the element put in. -/
def insertIf (c : ElementCodec E) (insertSlot : Page → Slot → E → Option (Page × Nat))
    (inserts : Prop) [Decidable inserts] (e : E) (page : Page) : Option Page :=
  if inserts then (insertElement c insertSlot page (width c e) e).map Prod.snd else some page

theorem splitAndInsert_eq_some {insertSlot : Page → Slot → E → Option (Page × Nat)} {skip i : Nat}
    {left right left₁ right₁ left' right' : Page} {rightId : UInt64} {extraKey : Bytes} {e : E}
    (split : splitNode c skip left right rightId i = some (left₁, right₁, extraKey))
    (done : splitAndInsert c insertSlot skip left right rightId i e = some (left', right')) :
    insertIf c insertSlot (compareBytes (c.key e) extraKey = .lt) e left₁ = some left' ∧
      insertIf c insertSlot (¬ compareBytes (c.key e) extraKey = .lt) e right₁ = some right' := by
  rw [splitAndInsert, split] at done
  simp only [bind, Option.bind] at done
  rw [insertIf, insertIf]
  split at done
  next below =>
    rw [if_pos below, if_neg (not_not.2 below)]
    split at done
    next => cases done
    next added inserted =>
      cases done
      rw [inserted]
      exact ⟨rfl, rfl⟩
  next above =>
    rw [if_neg above, if_pos above]
    split at done
    next => cases done
    next added inserted =>
      cases done
      rw [inserted]
      exact ⟨rfl, rfl⟩

section
variable {page page' : Page} {entries entries' : List (Slot × E)}

/-- A page laid out by `PutAllSlotsAndElements` with exact sizes is sound. -/
theorem sound_packed (sizes : ∀ entry ∈ entries, entry.1.elementSize = width c entry.2)
    (sorted : (entries.map Prod.snd).Pairwise fun a b => c.key a < c.key b)
    (repr : Repr c page (packed c 4096 entries) (4096 - dataSize c (entries.map Prod.snd)) 0) :
    Sound c page (packed c 4096 entries) (4096 - dataSize c (entries.map Prod.snd)) 0 := by
  refine ⟨repr, fun slot e member => sizes_packed sizes member, ?_, ?_⟩
  · rw [elements_packed]
    exact sorted
  · rw [elements_packed, length_packed, packedSpace, List.length_map]
    omega

/-- Every sorted list of elements that fit is the content of a sound page. -/
theorem exists_sound (c : ElementCodec E) (es : List E)
    (sorted : es.Pairwise fun a b => c.key a < c.key b)
    (room : headerSize + 4 * es.length + dataSize c es ≤ 4096) :
    ∃ page cells floor garbage, Sound c page cells floor garbage ∧ elements cells = es := by
  have listed := map_listedEntry (c := c) es
  have sizes : SizesOk (c := c) (es.map (listedEntry c)) := by
    intro entry member
    obtain ⟨e, inside, rfl⟩ := List.mem_map.1 member
    have part : width c e ≤ dataSize c es :=
      List.single_le_sum (by simp) _ (List.mem_map_of_mem inside)
    exact ⟨le_refl _, (show width c e ≤ 4096 by omega)⟩
  obtain ⟨page, _, repr, _⟩ := putAll_spec sizes (Buffer.zero 4096)
    (by rw [listed, List.length_map]; exact room)
  refine ⟨page, _, _, _, sound_packed ?_ (by rw [listed]; exact sorted) repr, ?_⟩
  · intro entry member
    obtain ⟨e, _, rfl⟩ := List.mem_map.1 member
    rfl
  · rw [elements_packed, listed]

variable [c.Lawful] {insertSlot : Page → Slot → E → Option (Page × Nat)}
  {splice : List E → E → List E}

/-- A split of a sound page at one of its elements returns, unless the size of the new element
wraps. -/
theorem Sound.splitAndInsert_returns {cells : List (Cell E)} {floor garbage : Nat}
    (h : Sound c page cells floor garbage) (splices : Splices c insertSlot splice) (skip : Nat)
    (newPage : Page) (right : UInt64) {i : Nat} (inside : i < (elements cells).length) {e : E}
    (small : width c e + 4 < 65536) :
    ∃ left' right', splitAndInsert c insertSlot skip page newPage right i e =
      some (left', right') := by
  obtain ⟨left₁, right₁, split, leftHalf, rightHalf⟩ := splitNode_spec h.repr skip newPage right
    (List.getElem?_eq_getElem inside)
  have returns {half : Page} {entries : List (Slot × E)} (sub : entries.Sublist (live cells))
      (repr : Repr c half (packed c 4096 entries) (4096 - dataSize c (entries.map Prod.snd)) 0) :
      ∃ answer, insertElement c insertSlot half (width c e) e = some answer := by
    have part : (entries.map Prod.snd).Sublist (elements cells) := by
      rw [← live_map_snd]
      exact sub.map _
    have sound := sound_packed
      (fun entry member => h.sizes entry.1 entry.2 (mem_live.1 (sub.subset member)))
      (h.sorted.sublist part) repr
    rcases sound.accounted.insertElement_cases splices e with ⟨_, _, _, done, _⟩ | ⟨_, _, done⟩ | ⟨huge, _⟩
    · exact ⟨_, done⟩
    · exact ⟨_, done⟩
    · omega
  obtain ⟨⟨_, left'⟩, leftDone⟩ := returns (List.take_sublist _ _) leftHalf.repr
  obtain ⟨⟨_, right'⟩, rightDone⟩ := returns (List.drop_sublist _ _) rightHalf.repr
  by_cases below : compareBytes (c.key e) (c.key (elements cells)[i]) = .lt
  · exact ⟨left', right₁, by
      simp only [splitAndInsert, split, leftDone, bind, Option.bind, if_pos below]⟩
  · exact ⟨left₁, right', by
      simp only [splitAndInsert, split, rightDone, bind, Option.bind, if_neg below]⟩

/-- Two pages with the same elements laid out afresh, after the same insertion or none. -/
theorem insertIf_alike (splices : Splices c insertSlot splice)
    (sizes : ∀ entry ∈ entries, entry.1.elementSize = width c entry.2)
    (sizes' : ∀ entry ∈ entries', entry.1.elementSize = width c entry.2)
    (same : entries'.map Prod.snd = entries.map Prod.snd)
    (sorted : (entries.map Prod.snd).Pairwise fun a b => c.key a < c.key b)
    (repr : Repr c page (packed c 4096 entries) (4096 - dataSize c (entries.map Prod.snd)) 0)
    (repr' : Repr c page' (packed c 4096 entries') (4096 - dataSize c (entries'.map Prod.snd)) 0)
    {inserts : Prop} [Decidable inserts] {e : E} {after : Page}
    (done : insertIf c insertSlot inserts e page = some after) :
    ∃ after' es, insertIf c insertSlot inserts e page' = some after' ∧ Contains c after es ∧
      Contains c after' es ∧ Keeps page after ∧ Keeps page' after' := by
  have sound := sound_packed sizes sorted repr
  have sound' := sound_packed sizes' (by rw [same]; exact sorted) repr'
  have sameElements : elements (packed c 4096 entries') = elements (packed c 4096 entries) := by
    rw [elements_packed, elements_packed, same]
  have sameLength : (packed c 4096 entries').length = (packed c 4096 entries).length := by
    rw [length_packed, length_packed, ← List.length_map (f := Prod.snd), same, List.length_map]
  by_cases put : inserts
  · rw [insertIf, if_pos put] at done ⊢
    obtain ⟨⟨added, result⟩, inserted, rfl⟩ := Option.map_eq_some_iff.1 done
    obtain ⟨keeps, result', es, inserted', holds, holds', keeps'⟩ :=
      sound.insertElement_alike sound' sameElements (by rw [same, sameLength]) splices e inserted
    exact ⟨result', es, by rw [inserted']; rfl, holds, holds', keeps, keeps'⟩
  · rw [insertIf, if_neg put] at done ⊢
    cases done
    exact ⟨page', _, rfl, ⟨_, _, _, repr, rfl⟩, ⟨_, _, _, repr', sameElements⟩, .refl _, .refl _⟩

/-- What both redo functions do to one half: overwrite it with its part of the elements, touch
the header, insert or not. -/
theorem rebuilt_half (splices : Splices c insertSlot splice) {source : Page}
    {cells : List (Cell E)} {floor garbage : Nat} (h : Sound c source cells floor garbage)
    {entries : List (Slot × E)} (sub : entries.Sublist (live cells)) {half : Page}
    (repr : Repr c half (packed c 4096 entries) (4096 - dataSize c (entries.map Prod.snd)) 0)
    {inserts : Prop} [Decidable inserts] {e : E} {after : Page}
    (done : insertIf c insertSlot inserts e half = some after) (touch : Page → Page)
    (keepsRepr : ∀ {page cells floor garbage}, Repr c page cells floor garbage →
      Repr c (touch page) cells floor garbage) (page : Page) :
    ∃ put after' es,
      putAllSlotsAndElements c page ((entries.map Prod.snd).map (listedEntry c)) = some put ∧
        insertIf c insertSlot inserts e (touch put) = some after' ∧ Contains c after es ∧
        Contains c after' es ∧ Keeps half after ∧ Keeps (touch put) after' := by
  have part : (entries.map Prod.snd).Sublist (elements cells) := by
    rw [← live_map_snd]
    exact sub.map _
  obtain ⟨put, written, repr', _⟩ := putAll_part h.repr part page
  obtain ⟨after', es, again, holds, holds', keeps, keeps'⟩ := insertIf_alike splices
    (fun entry member => h.sizes entry.1 entry.2 (mem_live.1 (sub.subset member)))
    (fun entry member => by obtain ⟨_, _, rfl⟩ := List.mem_map.1 member; rfl)
    (map_listedEntry _) (h.sorted.sublist part) repr (keepsRepr repr') done
  exact ⟨put, after', es, written, again, holds, holds', keeps, keeps'⟩

end

/-- A sound leaf page with a slot is well-formed. -/
theorem Sound.wellFormed {page : Page} {cells : List (Cell LeafNodeElement)} {floor garbage : Nat}
    (h : Sound LeafNodeCodec.elementCodec page cells floor garbage) (nonempty : cells ≠ []) :
    LeafNodeCodec.WellFormed page := by
  have honest := h.honest
  have exact_ : LeafNodeCodec.ExactLeaf page cells floor garbage
      (packedSpace LeafNodeCodec.elementCodec (elements cells) -
        (garbage + (floor - (headerSize + 4 * cells.length)))) :=
    ⟨h.repr, h.sizes, h.sorted, by omega⟩
  exact exact_.wellFormed nonempty

end SlottedPage

namespace StorageEngine

open TreeM

/-- The page as the redo of a record with this LSN leaves it. -/
def restamped (w : World) (id lsn : UInt64) (page : Page) : World :=
  if getLSN (w.pages id) < lsn then w.setPage id (setLSN page lsn) else w

theorem redoOnPage_ok {w : World} {id lsn : UInt64} {change : Page → Option Page} {page : Page}
    (changed : change (w.pages id) = some page) :
    redoOnPage lsn id change w = (.ok (), restamped w id lsn page) := by
  rw [redoOnPage, bind_ok (get_apply _ _), restamped]
  by_cases older : getLSN (w.pages id) < lsn
  · have applied : applyPage id (fun content => (change content).map ((), ·)) w =
        (.ok (), w.setPage id page) := applyPage_ok (by rw [changed]; rfl)
    rw [if_pos older, if_pos older, bind_ok applied, modifyPage_apply, World.setPage_setPage,
      World.setPage_pages, Function.update_self]
  · rw [if_neg older, if_neg older]
    rfl

theorem restamped_pages_self (w : World) (id lsn : UInt64) (page : Page) :
    (restamped w id lsn page).pages id =
      if getLSN (w.pages id) < lsn then setLSN page lsn else w.pages id := by
  rw [restamped]
  split
  · rw [World.setPage_pages, Function.update_self]
  · rfl

theorem restamped_pages_of_ne (w : World) {id other : UInt64} (lsn : UInt64) (page : Page)
    (ne : other ≠ id) : (restamped w id lsn page).pages other = w.pages other := by
  rw [restamped]
  split
  · rw [World.setPage_pages, Function.update_of_ne ne]
  · rfl

theorem restamped_fetch (w : World) (id lsn : UInt64) (page : Page) :
    (restamped w id lsn page).faults = w.faults ∧ (restamped w id lsn page).calls = w.calls ∧
      (restamped w id lsn page).filePages = w.filePages ∧
      (restamped w id lsn page).guards = w.guards := by
  rw [restamped]
  split
  · exact ⟨rfl, rfl, rfl, rfl⟩
  · exact ⟨rfl, rfl, rfl, rfl⟩

theorem restamped_acquire (w : World) (guard id lsn : UInt64) (page : Page) :
    (restamped (w.acquire guard) id lsn page).pages = (restamped w id lsn page).pages := by
  rw [restamped, restamped, World.acquire_pages]
  split
  · rfl
  · rfl

/-- Both pages of a split can be fetched, one after the other. -/
structure CanFetch (w : World) (left right : UInt64) : Prop where
  distinct : left ≠ right
  leftFault : w.faults w.calls = false
  rightFault : w.faults (w.calls + 1) = false
  leftInside : left.toNat < w.filePages
  rightInside : right.toNat < w.filePages
  leftFree : left ∉ w.guards
  rightFree : right ∉ w.guards

/-- Each of the two pages is rebuilt if it is older than the record and untouched if not. -/
structure SplitRedone (w w' : World) (left right lsn : UInt64) (leftPage rightPage : Page) :
    Prop where
  atLeft : w'.pages left =
    if getLSN (w.pages left) < lsn then setLSN leftPage lsn else w.pages left
  atRight : w'.pages right =
    if getLSN (w.pages right) < lsn then setLSN rightPage lsn else w.pages right
  others : ∀ id, id ≠ left → id ≠ right → w'.pages id = w.pages id

theorem splitRedone_restamped {w w₁ w' : World} {left right lsn : UInt64}
    {leftPage rightPage : Page} (distinct : left ≠ right) (start : w₁.pages = w.pages)
    (either : w'.pages = (restamped (restamped w₁ right lsn rightPage) left lsn leftPage).pages ∨
      w'.pages = (restamped (restamped w₁ left lsn leftPage) right lsn rightPage).pages) :
    SplitRedone w w' left right lsn leftPage rightPage := by
  rcases either with final | final
  · constructor
    · rw [final, restamped_pages_self, restamped_pages_of_ne _ _ _ distinct, start]
    · rw [final, restamped_pages_of_ne _ _ _ distinct.symm, restamped_pages_self, start]
    · intro id notLeft notRight
      rw [final, restamped_pages_of_ne _ _ _ notLeft, restamped_pages_of_ne _ _ _ notRight, start]
  · constructor
    · rw [final, restamped_pages_of_ne _ _ _ distinct, restamped_pages_self, start]
    · rw [final, restamped_pages_self, restamped_pages_of_ne _ _ _ distinct.symm, start]
    · intro id notLeft notRight
      rw [final, restamped_pages_of_ne _ _ _ notRight, restamped_pages_of_ne _ _ _ notLeft, start]

/-- One half of a leaf split as the redo writes it. -/
def rebuildLeaf (entries : List (Slot × LeafNodeElement)) (next : UInt64) (inserts : Prop)
    [Decidable inserts] (key value : Bytes) (content : Page) : Option Page := do
  let content ← LeafNodeCodec.putAllSlotsAndElements content entries
  let content ← insertIf LeafNodeCodec.elementCodec
    (fun page newSlot element => LeafNodeCodec.insertSlot page newSlot element.key) inserts
    ⟨key, value⟩ (setNextLeafNodePageId content next)
  printed content

theorem redoSplitLeafNode_eq (lsn left right : UInt64) (i : Nat) (nextLeaf : UInt64)
    (key value payload : Bytes) :
    redoSplitLeafNode lsn left right i nextLeaf key value payload = (do
      newGuard left
      deferDone left do
        newGuard right
        deferDone right do
          let entries ← orPanic (LeafNodeCodec.decodeAllSlotsAndElements payload)
          let separator ← orPanic entries[i]?
          redoOnPage lsn right (rebuildLeaf (entries.drop i) nextLeaf
            (¬ compareBytes key separator.2.key = .lt) key value)
          redoOnPage lsn left (rebuildLeaf (entries.take i) right
            (compareBytes key separator.2.key = .lt) key value)) := by
  have need : ∀ content, SlottedPage.insertElement LeafNodeCodec.elementCodec
      (fun page newSlot element => LeafNodeCodec.insertSlot page newSlot element.key) content
      (width LeafNodeCodec.elementCodec ⟨key, value⟩) ⟨key, value⟩ =
      LeafNodeCodec.insertElement content key value := by
    intro content
    rw [LeafNodeCodec.width_eq]
    rfl
  have onRight (entries : List (Slot × LeafNodeElement)) (extraKey : Bytes) :
      rebuildLeaf entries nextLeaf (¬ compareBytes key extraKey = .lt) key value =
        (fun content => do
          let content ← LeafNodeCodec.putAllSlotsAndElements content entries
          let content := LeafNodeCodec.setNextLeafNodePageId content nextLeaf
          let content ← if compareBytes key extraKey = .lt then some content
            else (LeafNodeCodec.insertElement content key value).map Prod.snd
          printed content) := by
    funext content
    by_cases below : compareBytes key extraKey = .lt
    · simp only [rebuildLeaf, insertIf, need, below, not_true_eq_false, if_true, if_false]
      rfl
    · simp only [rebuildLeaf, insertIf, need, below, not_false_eq_true, if_true, if_false]
      rfl
  have onLeft (entries : List (Slot × LeafNodeElement)) (extraKey : Bytes) :
      rebuildLeaf entries right (compareBytes key extraKey = .lt) key value =
        (fun content => do
          let content ← LeafNodeCodec.putAllSlotsAndElements content entries
          let content := LeafNodeCodec.setNextLeafNodePageId content right
          let content ← if compareBytes key extraKey = .lt then
              (LeafNodeCodec.insertElement content key value).map Prod.snd
            else some content
          printed content) := by
    funext content
    by_cases below : compareBytes key extraKey = .lt
    · simp only [rebuildLeaf, insertIf, need, below, if_true]
      rfl
    · simp only [rebuildLeaf, insertIf, need, below, if_false]
      rfl
  simp only [onRight, onLeft]
  rfl

theorem redoSplitLeafNode_run {w : World} {left right lsn nextLeaf : UInt64} {i : Nat}
    {key value payload : Bytes} {entries : List (Slot × LeafNodeElement)}
    {separator : Slot × LeafNodeElement} {leftPage rightPage : Page} (fetch : CanFetch w left right)
    (decoded : LeafNodeCodec.decodeAllSlotsAndElements payload = some entries)
    (found : entries[i]? = some separator)
    (onLeft : rebuildLeaf (entries.take i) right (compareBytes key separator.2.key = .lt) key value
      (w.pages left) = some leftPage)
    (onRight : rebuildLeaf (entries.drop i) nextLeaf (¬ compareBytes key separator.2.key = .lt) key
      value (w.pages right) = some rightPage) :
    ∃ w', redoSplitLeafNode lsn left right i nextLeaf key value payload w = (.ok (), w') ∧
      SplitRedone w w' left right lsn leftPage rightPage := by
  have leftGuard := newGuard_ok fetch.leftFault fetch.leftInside fetch.leftFree
  have rightGuard : newGuard right (w.acquire left) = (.ok (), (w.acquire left).acquire right) :=
    newGuard_ok fetch.rightFault fetch.rightInside
      (by simpa using ⟨fetch.distinct.symm, fetch.rightFree⟩)
  obtain ⟨w₂, w₂Eq⟩ : ∃ w₂, w₂ = (w.acquire left).acquire right := ⟨_, rfl⟩
  have pages₂ : w₂.pages = w.pages := by
    rw [w₂Eq]
    rfl
  -- the right page is written first
  have rightStep : redoOnPage lsn right (rebuildLeaf (entries.drop i) nextLeaf
      (¬ compareBytes key separator.2.key = .lt) key value) w₂ =
      (.ok (), restamped w₂ right lsn rightPage) :=
    redoOnPage_ok (by rw [pages₂]; exact onRight)
  have leftStep : redoOnPage lsn left (rebuildLeaf (entries.take i) right
      (compareBytes key separator.2.key = .lt) key value) (restamped w₂ right lsn rightPage) =
      (.ok (), restamped (restamped w₂ right lsn rightPage) left lsn leftPage) :=
    redoOnPage_ok (by rw [restamped_pages_of_ne _ _ _ fetch.distinct, pages₂]; exact onLeft)
  refine ⟨((restamped (restamped w₂ right lsn rightPage) left lsn leftPage).release right).release
    left, ?_, splitRedone_restamped fetch.distinct pages₂ (.inl rfl)⟩
  rw [redoSplitLeafNode_eq, bind_ok leftGuard]
  apply deferDone_ok
  rw [bind_ok rightGuard]
  apply deferDone_ok
  rw [decoded, bind_ok (orPanic_some _ _), found, bind_ok (orPanic_some _ _), ← w₂Eq,
    bind_ok rightStep]
  exact leftStep

/-- One half of an internal split as the redo writes it. -/
def rebuildInternal (entries : List (Slot × InternalNodeElement)) (inserts : Prop)
    [Decidable inserts] (e : InternalNodeElement) (content : Page) : Option Page := do
  let content ← InternalNodeCodec.putAllSlotsAndElements content entries
  insertIf InternalNodeCodec.elementCodec InternalNodeCodec.insertSlot inserts e content

theorem redoSplitInternalNode_eq (lsn left right : UInt64) (i : Nat) (e : InternalNodeElement)
    (payload : Bytes) :
    redoSplitInternalNode lsn left right i e.key e.leftChildNodePageId e.rightChildNodePageId
        payload = (do
      newGuard left
      deferDone left do
        let entries ← orPanic (InternalNodeCodec.decodeAllSlotsAndElements payload)
        let separator ← orPanic entries[i]?
        redoOnPage lsn left (rebuildInternal (entries.take i)
          (compareBytes e.key separator.2.key = .lt) e)
        newGuard right
        deferDone right (redoOnPage lsn right (rebuildInternal (entries.drop (i + 1))
          (¬ compareBytes e.key separator.2.key = .lt) e))) := by
  have need : ∀ content, SlottedPage.insertElement InternalNodeCodec.elementCodec
      InternalNodeCodec.insertSlot content (width InternalNodeCodec.elementCodec e) e =
      InternalNodeCodec.insertElement content e.key e.leftChildNodePageId
        e.rightChildNodePageId := by
    intro content
    rw [InternalNodeCodec.width_eq]
    rfl
  have onLeft (entries : List (Slot × InternalNodeElement)) (extraKey : Bytes) :
      rebuildInternal entries (compareBytes e.key extraKey = .lt) e =
        (fun content => do
          let content ← InternalNodeCodec.putAllSlotsAndElements content entries
          if compareBytes e.key extraKey = .lt then
            (InternalNodeCodec.insertElement content e.key e.leftChildNodePageId
              e.rightChildNodePageId).map Prod.snd
          else some content) := by
    funext content
    simp only [rebuildInternal, insertIf, need]
  have onRight (entries : List (Slot × InternalNodeElement)) (extraKey : Bytes) :
      rebuildInternal entries (¬ compareBytes e.key extraKey = .lt) e =
        (fun content => do
          let content ← InternalNodeCodec.putAllSlotsAndElements content entries
          if compareBytes e.key extraKey = .lt then some content
          else
            (InternalNodeCodec.insertElement content e.key e.leftChildNodePageId
              e.rightChildNodePageId).map Prod.snd) := by
    funext content
    simp only [rebuildInternal, insertIf, need, ite_not]
  simp only [onRight, onLeft]
  rfl

theorem redoSplitInternalNode_run {w : World} {left right lsn : UInt64} {i : Nat}
    {e : InternalNodeElement} {payload : Bytes} {entries : List (Slot × InternalNodeElement)}
    {separator : Slot × InternalNodeElement} {leftPage rightPage : Page}
    (fetch : CanFetch w left right)
    (decoded : InternalNodeCodec.decodeAllSlotsAndElements payload = some entries)
    (found : entries[i]? = some separator)
    (onLeft : rebuildInternal (entries.take i) (compareBytes e.key separator.2.key = .lt) e
      (w.pages left) = some leftPage)
    (onRight : rebuildInternal (entries.drop (i + 1)) (¬ compareBytes e.key separator.2.key = .lt) e
      (w.pages right) = some rightPage) :
    ∃ w', redoSplitInternalNode lsn left right i e.key e.leftChildNodePageId
        e.rightChildNodePageId payload w = (.ok (), w') ∧
      SplitRedone w w' left right lsn leftPage rightPage := by
  have leftGuard := newGuard_ok fetch.leftFault fetch.leftInside fetch.leftFree
  obtain ⟨w₁, w₁Eq⟩ : ∃ w₁, w₁ = restamped (w.acquire left) left lsn leftPage := ⟨_, rfl⟩
  have leftStep : redoOnPage lsn left (rebuildInternal (entries.take i)
      (compareBytes e.key separator.2.key = .lt) e) (w.acquire left) = (.ok (), w₁) := by
    rw [w₁Eq]
    exact redoOnPage_ok onLeft
  obtain ⟨faults, calls, file, guards⟩ := restamped_fetch (w.acquire left) left lsn leftPage
  rw [← w₁Eq] at faults calls file guards
  have rightGuard : newGuard right w₁ = (.ok (), w₁.acquire right) :=
    newGuard_ok (by rw [faults, calls]; exact fetch.rightFault)
      (by rw [file]; exact fetch.rightInside)
      (by rw [guards]; simpa using ⟨fetch.distinct.symm, fetch.rightFree⟩)
  have pagesRight : w₁.pages right = w.pages right := by
    rw [w₁Eq, restamped_pages_of_ne _ _ _ fetch.distinct.symm]
    rfl
  have rightStep : redoOnPage lsn right (rebuildInternal (entries.drop (i + 1))
      (¬ compareBytes e.key separator.2.key = .lt) e) (w₁.acquire right) =
      (.ok (), restamped (w₁.acquire right) right lsn rightPage) :=
    redoOnPage_ok (by rw [World.acquire_pages, pagesRight]; exact onRight)
  have final : (((restamped (w₁.acquire right) right lsn rightPage).release right).release
      left).pages =
      (restamped (restamped (w.acquire left) left lsn leftPage) right lsn rightPage).pages := by
    rw [← w₁Eq, ← restamped_acquire]
    rfl
  have start : (w.acquire left).pages = w.pages := rfl
  refine ⟨((restamped (w₁.acquire right) right lsn rightPage).release right).release left, ?_,
    splitRedone_restamped fetch.distinct start (.inr final)⟩
  rw [redoSplitInternalNode_eq, bind_ok leftGuard]
  apply deferDone_ok
  rw [decoded, bind_ok (orPanic_some _ _), found, bind_ok (orPanic_some _ _), bind_ok leftStep,
    bind_ok rightGuard]
  exact deferDone_ok rightStep

/-! ### The halves are those of the live split -/

theorem printed_of_contains {page : Page} {es : List LeafNodeElement}
    (h : Contains LeafNodeCodec.elementCodec page es) : printed page = some page := by
  have read := h.liveElements
  rw [liveElements, Option.map_eq_some_iff] at read
  obtain ⟨entries, read, _⟩ := read
  have read' : LeafNodeCodec.getAllSlotsAndElements page = some entries := read
  rw [printed, read']
  rfl

/-- The pages of a split hold the same elements in the same order, with the same successor. -/
def SameLeaf (page live : Page) : Prop :=
  ∃ pairs, LeafNodeCodec.livePairs page = some pairs ∧ LeafNodeCodec.livePairs live = some pairs ∧
    getNextLeafNodePageId page = getNextLeafNodePageId live

def SameInternal (page live : Page) : Prop :=
  ∃ es, liveElements InternalNodeCodec.elementCodec page = some es ∧
    liveElements InternalNodeCodec.elementCodec live = some es

/-- A page older than the record ends like the live one, another is untouched. -/
structure Rebuilt (Same : Page → Page → Prop) (lsn : UInt64) (before after live : Page) :
    Prop where
  older : getLSN before < lsn → Same after live
  current : ¬ getLSN before < lsn → after = before

section
variable {source half after : Page} {cells : List (Cell LeafNodeElement)} {floor garbage : Nat}

theorem rebuildLeaf_alike (h : Sound LeafNodeCodec.elementCodec source cells floor garbage)
    {entries : List (Slot × LeafNodeElement)} (sub : entries.Sublist (live cells))
    (repr : Repr LeafNodeCodec.elementCodec half (packed LeafNodeCodec.elementCodec 4096 entries)
      (4096 - dataSize LeafNodeCodec.elementCodec (entries.map Prod.snd)) 0)
    {inserts : Prop} [Decidable inserts] {key value : Bytes} {next : UInt64}
    (isNext : getNextLeafNodePageId half = next)
    (done : insertIf LeafNodeCodec.elementCodec
      (fun page newSlot element => LeafNodeCodec.insertSlot page newSlot element.key) inserts
      ⟨key, value⟩ half = some after) (page : Page) (lsn : UInt64) :
    ∃ after', rebuildLeaf ((entries.map Prod.snd).map (listedEntry LeafNodeCodec.elementCodec)) next
        inserts key value page = some after' ∧ SameLeaf (setLSN after' lsn) after := by
  obtain ⟨put, after', es, written, again, holds, holds', keeps, keeps'⟩ := rebuilt_half
    LeafNodeCodec.splices h sub repr done (setNextLeafNodePageId · next) (fun r => r.setNext next)
    page
  refine ⟨after', ?_, es, (holds'.setLSN lsn).liveElements, holds.liveElements, ?_⟩
  · have written' : LeafNodeCodec.putAllSlotsAndElements page _ = some put := written
    simp only [rebuildLeaf, written', again, printed_of_contains holds', bind, Option.bind]
  · have stamp : getNextLeafNodePageId (setLSN after' lsn) = getNextLeafNodePageId after' :=
      getNext_congr fun i _ upper => byte_setLSN _ _ (by omega)
    rw [stamp, keeps'.getNext, getNext_setNext, keeps.getNext, isNext]

end

theorem rebuildInternal_alike {source half after : Page} {cells : List (Cell InternalNodeElement)}
    {floor garbage : Nat} (h : Sound InternalNodeCodec.elementCodec source cells floor garbage)
    {entries : List (Slot × InternalNodeElement)} (sub : entries.Sublist (live cells))
    (repr : Repr InternalNodeCodec.elementCodec half
      (packed InternalNodeCodec.elementCodec 4096 entries)
      (4096 - dataSize InternalNodeCodec.elementCodec (entries.map Prod.snd)) 0)
    {inserts : Prop} [Decidable inserts] {e : InternalNodeElement}
    (done : insertIf InternalNodeCodec.elementCodec InternalNodeCodec.insertSlot inserts e half =
      some after) (page : Page) (lsn : UInt64) :
    ∃ after', rebuildInternal
        ((entries.map Prod.snd).map (listedEntry InternalNodeCodec.elementCodec)) inserts e page =
        some after' ∧ SameInternal (setLSN after' lsn) after := by
  obtain ⟨put, after', es, written, again, holds, holds', _, _⟩ := rebuilt_half
    InternalNodeCodec.splices h sub repr done (fun page => page) (fun r => r) page
  refine ⟨after', ?_, es, (holds'.setLSN lsn).liveElements, holds.liveElements⟩
  have written' : InternalNodeCodec.putAllSlotsAndElements page _ = some put := written
  simp only [rebuildInternal, written', bind, Option.bind]
  exact again

theorem SplitRedone.rebuilt {w w' : World} {left right lsn : UInt64} {leftPage rightPage : Page}
    (h : SplitRedone w w' left right lsn leftPage rightPage) {Same : Page → Page → Prop}
    {liveLeft liveRight : Page} (sameLeft : Same (setLSN leftPage lsn) liveLeft)
    (sameRight : Same (setLSN rightPage lsn) liveRight) :
    Rebuilt Same lsn (w.pages left) (w'.pages left) liveLeft ∧
      Rebuilt Same lsn (w.pages right) (w'.pages right) liveRight ∧
      ∀ id, id ≠ left → id ≠ right → w'.pages id = w.pages id := by
  refine ⟨⟨?_, ?_⟩, ⟨?_, ?_⟩, h.others⟩
  · intro older
    rw [h.atLeft, if_pos older]
    exact sameLeft
  · intro current
    rw [h.atLeft, if_neg current]
  · intro older
    rw [h.atRight, if_pos older]
    exact sameRight
  · intro current
    rw [h.atRight, if_neg current]

/-- The header of a page with an element has the successor of the page. -/
theorem next_of_filled {E : Type} {c : ElementCodec E} {page : Page} {cells : List (Cell E)}
    {floor garbage : Nat} (h : Repr c page cells floor garbage) (nonempty : cells ≠ []) :
    (decodePageHeader page).nextLeafNodePageId = getNextLeafNodePageId page := by
  obtain ⟨_, ⟨_, empty, _⟩ | ⟨filled, _⟩⟩ := h.shape
  · exact absurd (List.length_eq_zero_iff.1 empty) nonempty
  · rw [decodePageHeader, if_neg filled]
    rfl

/-- The halves that the live split leaves before the insertion, and the list in its record. -/
theorem live_halves {E : Type} {c : ElementCodec E} [c.Lawful] {page newPage : Page}
    {cells : List (Cell E)} {floor garbage : Nat} (h : Sound c page cells floor garbage)
    {insertSlot : Page → Slot → E → Option (Page × Nat)} {skip i count : Nat}
    {right lsn : UInt64} {e : E} {liveLeft liveRight : Page} {payload : Bytes}
    (inside : i < (elements cells).length)
    (encoded : encodeAllElements c page = some (count, payload))
    (live : splitAndInsert c insertSlot skip (setLSN page lsn) (setLSN newPage lsn) right i e =
      some (liveLeft, liveRight)) :
    i % 65536 = i ∧ decodeAllSlotsAndElements c payload =
        some ((elements cells).map (listedEntry c)) ∧
      ∃ m left₁ right₁ next, (elements cells)[i]? = some m ∧
        HalfOf c left₁ ((SlottedPage.live cells).take i) (page.byte nodeTypeOffset) lsn right ∧
        HalfOf c right₁ ((SlottedPage.live cells).drop (i + skip)) (newPage.byte nodeTypeOffset) lsn
          next ∧ next = getNextLeafNodePageId page ∧
        insertIf c insertSlot (compareBytes (c.key e) (c.key m) = .lt) e left₁ = some liveLeft ∧
        insertIf c insertSlot (¬ compareBytes (c.key e) (c.key m) = .lt) e right₁ =
          some liveRight := by
  have room := h.repr.layout.repack
  have count : (SlottedPage.live cells).length = (elements cells).length := by
    rw [← live_map_snd, List.length_map]
  obtain ⟨payload', encoded', decoded⟩ := decodeAll_encodeAll h.repr
  obtain ⟨_, rfl⟩ := Prod.mk.inj (Option.some.inj (encoded'.symm.trans encoded))
  have middle : (elements cells)[i]? = some (elements cells)[i] := List.getElem?_eq_getElem inside
  obtain ⟨left₁, right₁, split, leftHalf, rightHalf⟩ := splitNode_spec (h.repr.setLSN lsn) skip
    (setLSN newPage lsn) right middle
  obtain ⟨leftDone, rightDone⟩ := splitAndInsert_eq_some split live
  have nonempty : cells ≠ [] := by
    rintro rfl
    exact absurd inside (Nat.not_lt_zero i)
  rw [getLSN_setLSN, byte_setLSN _ _ (by decide)] at leftHalf rightHalf
  refine ⟨Nat.mod_eq_of_lt (by omega), decoded, _, left₁, right₁, _, middle, leftHalf, rightHalf, ?_,
    leftDone, rightDone⟩
  rw [next_of_filled (h.repr.setLSN lsn) nonempty]
  exact getNext_congr fun i _ upper => byte_setLSN _ _ (by omega)

/-- For every well-formed page, split index and new entry, the redo of the split that was logged
for it rebuilds the two pages, whatever they hold, as the live split left them; a page that is
not older than the record is left alone. -/
theorem redo_split_equals_live (w : World) (tree left right lsn : UInt64) (page newPage : Page)
    (i : Nat) (fetch : CanFetch w left right) :
    (∀ pairs key value count payload liveLeft liveRight, LeafNodeCodec.WellFormed page →
      LeafNodeCodec.livePairs page = some pairs → i < pairs.length →
      LeafNodeCodec.encodeAllElements page = some (count, payload) →
      splitAndInsert LeafNodeCodec.elementCodec
        (fun page newSlot element => LeafNodeCodec.insertSlot page newSlot element.key) 0
        (setLSN page lsn) (setLSN newPage lsn) right i ⟨key, value⟩ = some (liveLeft, liveRight) →
      ∃ w', redo ⟨lsn, .splitLeafNode tree left right (i % 65536)
          (LeafNodeCodec.getNextLeafNodePageId page) key value (count % 65536) payload⟩ w =
          (.ok (), w') ∧
        Rebuilt SameLeaf lsn (w.pages left) (w'.pages left) liveLeft ∧
        Rebuilt SameLeaf lsn (w.pages right) (w'.pages right) liveRight ∧
        ∀ id, id ≠ left → id ≠ right → w'.pages id = w.pages id) ∧
    (∀ es e count payload liveLeft liveRight, InternalNodeCodec.WellFormed page →
      liveElements InternalNodeCodec.elementCodec page = some es → i < es.length →
      InternalNodeCodec.encodeAllElements page = some (count, payload) →
      splitAndInsert InternalNodeCodec.elementCodec InternalNodeCodec.insertSlot 1
        (setLSN page lsn) (setLSN newPage lsn) right i e = some (liveLeft, liveRight) →
      ∃ w', redo ⟨lsn, .splitInternalNode tree left right (i % 65536) e.key e.leftChildNodePageId
          e.rightChildNodePageId (count % 65536) payload⟩ w = (.ok (), w') ∧
        Rebuilt SameInternal lsn (w.pages left) (w'.pages left) liveLeft ∧
        Rebuilt SameInternal lsn (w.pages right) (w'.pages right) liveRight ∧
        ∀ id, id ≠ left → id ≠ right → w'.pages id = w.pages id) := by
  constructor
  · intro pairs key value count payload liveLeft liveRight wellFormed pairsEq inside encoded live
    obtain ⟨cells, floor, garbage, sound⟩ := wellFormed.sound
    have contains : Contains LeafNodeCodec.elementCodec page (elements cells) :=
      ⟨_, _, _, sound.repr, rfl⟩
    obtain rfl := Option.some.inj (contains.liveElements.symm.trans pairsEq)
    obtain ⟨small, decoded, m, left₁, right₁, _, middle, leftHalf, rightHalf, rfl, leftDone,
      rightDone⟩ := live_halves sound inside encoded live
    obtain ⟨leftPage, onLeft, sameLeft⟩ := rebuildLeaf_alike sound
      (List.take_sublist _ _) leftHalf.repr leftHalf.next leftDone (w.pages left) lsn
    obtain ⟨rightPage, onRight, sameRight⟩ := rebuildLeaf_alike sound
      (List.drop_sublist _ _) rightHalf.repr rightHalf.next rightDone (w.pages right) lsn
    rw [List.map_take, live_map_snd, List.map_take] at onLeft
    rw [List.map_drop, live_map_snd, List.map_drop] at onRight
    have found : ((elements cells).map (listedEntry LeafNodeCodec.elementCodec))[i]? =
        some (listedEntry LeafNodeCodec.elementCodec m) := by
      rw [List.getElem?_map, middle]
      rfl
    obtain ⟨w', run, redone⟩ := redoSplitLeafNode_run fetch decoded found onLeft onRight
    rw [small]
    exact ⟨w', run, redone.rebuilt sameLeft sameRight⟩
  · intro es e count payload liveLeft liveRight wellFormed elementsEq inside encoded live
    obtain ⟨cells, floor, garbage, sound⟩ := wellFormed
    have contains : Contains InternalNodeCodec.elementCodec page (elements cells) :=
      ⟨_, _, _, sound.repr, rfl⟩
    obtain rfl := Option.some.inj (contains.liveElements.symm.trans elementsEq)
    obtain ⟨small, decoded, m, left₁, right₁, _, middle, leftHalf, rightHalf, _, leftDone,
      rightDone⟩ := live_halves sound inside encoded live
    obtain ⟨leftPage, onLeft, sameLeft⟩ := rebuildInternal_alike sound
      (List.take_sublist _ _) leftHalf.repr leftDone (w.pages left) lsn
    obtain ⟨rightPage, onRight, sameRight⟩ := rebuildInternal_alike sound
      (List.drop_sublist _ _) rightHalf.repr rightDone (w.pages right) lsn
    rw [List.map_take, live_map_snd, List.map_take] at onLeft
    rw [List.map_drop, live_map_snd, List.map_drop] at onRight
    have found : ((elements cells).map (listedEntry InternalNodeCodec.elementCodec))[i]? =
        some (listedEntry InternalNodeCodec.elementCodec m) := by
      rw [List.getElem?_map, middle]
      rfl
    obtain ⟨w', run, redone⟩ := redoSplitInternalNode_run fetch decoded found onLeft onRight
    rw [small]
    exact ⟨w', run, redone.rebuilt sameLeft sameRight⟩

theorem redo_split_equals_live_at_index_one :
    ∃ w w' w'' : World, ∃ leaf internal leafLeft leafRight internalLeft internalRight,
      LeafNodeCodec.livePairs leaf = some [⟨[1], [1]⟩, ⟨[3], [3]⟩] ∧
      (∃ count payload, LeafNodeCodec.encodeAllElements leaf = some (count, payload) ∧
        redo ⟨1, .splitLeafNode 0 1 2 1 (LeafNodeCodec.getNextLeafNodePageId leaf) [2] [2]
          (count % 65536) payload⟩ w = (.ok (), w')) ∧
      Rebuilt SameLeaf 1 (w.pages 1) (w'.pages 1) leafLeft ∧
      Rebuilt SameLeaf 1 (w.pages 2) (w'.pages 2) leafRight ∧
      liveElements InternalNodeCodec.elementCodec internal =
        some [⟨[1], 3, 4⟩, ⟨[2], 4, 5⟩, ⟨[3], 5, 6⟩] ∧
      (∃ count payload, InternalNodeCodec.encodeAllElements internal = some (count, payload) ∧
        redo ⟨1, .splitInternalNode 0 1 2 1 [4] 6 7 (count % 65536) payload⟩ w = (.ok (), w'')) ∧
      Rebuilt SameInternal 1 (w.pages 1) (w''.pages 1) internalLeft ∧
      Rebuilt SameInternal 1 (w.pages 2) (w''.pages 2) internalRight := by
  obtain ⟨w, wEq⟩ : ∃ w, w = { onePage (Buffer.zero 4096) with filePages := 3 } := ⟨_, rfl⟩
  have fetch : CanFetch w 1 2 := by
    subst wEq
    exact ⟨by decide, rfl, rfl, by decide, by decide, by decide, by decide⟩
  obtain ⟨leaf, leafCells, _, _, leafSound, leafElements⟩ := exists_sound
    LeafNodeCodec.elementCodec [⟨[1], [1]⟩, ⟨[3], [3]⟩] (by decide) (by decide)
  obtain ⟨internal, internalCells, _, _, internalSound, internalElements⟩ := exists_sound
    InternalNodeCodec.elementCodec [⟨[1], 3, 4⟩, ⟨[2], 4, 5⟩, ⟨[3], 5, 6⟩] (by decide) (by decide)
  have leafPairs : LeafNodeCodec.livePairs leaf = some [⟨[1], [1]⟩, ⟨[3], [3]⟩] :=
    Contains.liveElements ⟨_, _, _, leafSound.repr, leafElements⟩
  have separators : liveElements InternalNodeCodec.elementCodec internal =
      some [⟨[1], 3, 4⟩, ⟨[2], 4, 5⟩, ⟨[3], 5, 6⟩] :=
    Contains.liveElements ⟨_, _, _, internalSound.repr, internalElements⟩
  obtain ⟨leafPayload, leafEncoded, _⟩ := decodeAll_encodeAll leafSound.repr
  obtain ⟨internalPayload, internalEncoded, _⟩ := decodeAll_encodeAll internalSound.repr
  obtain ⟨leafLeft, leafRight, leafLive⟩ := (leafSound.setLSN 1).splitAndInsert_returns
    LeafNodeCodec.splices 0 (setLSN (Buffer.zero 4096) 1) 2 (i := 1) (e := ⟨[2], [2]⟩)
    (by rw [leafElements]; decide) (by decide)
  obtain ⟨internalLeft, internalRight, internalLive⟩ :=
    (internalSound.setLSN 1).splitAndInsert_returns InternalNodeCodec.splices 1
      (setLSN (Buffer.zero 4096) 1) 2 (i := 1) (e := ⟨[4], 6, 7⟩)
      (by rw [internalElements]; decide) (by decide)
  obtain ⟨w', leafRun, left, right, _⟩ := (redo_split_equals_live w 0 1 2 1 leaf
    (Buffer.zero 4096) 1 fetch).1 _ [2] [2] _ _ _ _
    (leafSound.wellFormed (by rintro rfl; cases leafElements)) leafPairs (by decide) leafEncoded
    leafLive
  obtain ⟨w'', internalRun, left', right', _⟩ := (redo_split_equals_live w 0 1 2 1 internal
    (Buffer.zero 4096) 1 fetch).2 _ ⟨[4], 6, 7⟩ _ _ _ _ ⟨_, _, _, internalSound⟩ separators
    (by decide) internalEncoded internalLive
  have one : 1 % 65536 = 1 := rfl
  rw [one] at leafRun internalRun
  exact ⟨w, w', w'', leaf, internal, leafLeft, leafRight, internalLeft, internalRight, leafPairs,
    ⟨_, _, leafEncoded, leafRun⟩, left, right, separators, ⟨_, _, internalEncoded, internalRun⟩,
    left', right'⟩

end StorageEngine

end CambiumDB
