import CambiumDB.PageCodec.InternalSpec
import CambiumDB.PageCodec.LeafRefinement
import CambiumDB.PageCodec.Split

/-!
# Space checks and the insertions they guard

`HasEnoughSpaceToInsertElement` asks for the bytes of the element alone, `InsertElement` for
those of the element and its slot. The check keeps its promise exactly if this difference
does not matter.
-/

namespace CambiumDB

open ByteBuffer HeaderConfig HeaderCodec SlotCodec SlottedPage

open LeafNodeCodec (freeSpace)

namespace SlottedPage

variable {E : Type} {c : ElementCodec E}

/-- A page with its keys in order, of which a compaction frees at least what the header counts as
garbage. A slot may claim more than its element. -/
structure Accounted (c : ElementCodec E) (page : Page) (cells : List (Cell E))
    (floor garbage : Nat) : Prop where
  repr : Repr c page cells floor garbage
  ordered : (elements cells).Pairwise fun a b => c.key a ≤ c.key b
  honest : garbage + (floor - (headerSize + 4 * cells.length)) ≤ packedSpace c (elements cells)

/-- A page whose slots claim exactly their elements, with increasing keys, and of which a
compaction frees at least what the header counts as garbage. -/
structure Sound (c : ElementCodec E) (page : Page) (cells : List (Cell E)) (floor garbage : Nat) :
    Prop where
  repr : Repr c page cells floor garbage
  sizes : ∀ slot e, (slot, some e) ∈ cells → slot.elementSize = width c e
  sorted : (elements cells).Pairwise fun a b => c.key a < c.key b
  honest : garbage + (floor - (headerSize + 4 * cells.length)) ≤ packedSpace c (elements cells)

/-- The free space of the page once it is compacted. -/
def compactedFree (c : ElementCodec E) (page : Page) : Nat :=
  ((getAllSlotsAndElements c page).map fun entries => packedSpace c (entries.map Prod.snd)).getD 0

/-- A check that says yes leaves a page on which the insertion succeeds. -/
def KeepsPromise (check : Option (Bool × Page)) (insert : Page → Option (Bool × Page)) : Prop :=
  ∀ checked, check = some (true, checked) → ∃ page', insert checked = some (true, page')

/-- The four bytes of the slot do not matter. Sizes are compared as the check does it, with
the requirement cut to 16 bits. -/
def SlotCovered (c : ElementCodec E) (page : Page) (need : Nat) : Prop :=
  if need % 65536 ≤ freeSpace page then
    need + slotSize ≤ freeSpace page ∨ need + slotSize ≤ (decodePageHeader page).garbageSize
  else need ≤ (decodePageHeader page).garbageSize → need + slotSize ≤ compactedFree c page

section
variable {page : Page} {cells : List (Cell E)} {floor garbage : Nat}

theorem Repr.freeSpace (h : Repr c page cells floor garbage) :
    freeSpace page = floor - (headerSize + 4 * cells.length) := by
  rw [LeafNodeCodec.freeSpace, h.shape.freeSpaceBegin, h.shape.freeSpaceEnd]

theorem Repr.compactedFree [c.Lawful] (h : Repr c page cells floor garbage) :
    compactedFree c page = packedSpace c (elements cells) := by
  rw [SlottedPage.compactedFree, h.layout.getAll h.shape.numSlots, Option.map_some, Option.getD_some,
    live_map_snd]

/-- The live elements in slot order. -/
def liveElements (c : ElementCodec E) (page : Page) : Option (List E) :=
  (getAllSlotsAndElements c page).map fun entries => entries.map Prod.snd

/-- The page is laid out properly, with just these elements. -/
def Contains (c : ElementCodec E) (page : Page) (es : List E) : Prop :=
  ∃ cells floor garbage, Repr c page cells floor garbage ∧ elements cells = es

theorem Contains.liveElements [c.Lawful] {es : List E} (h : Contains c page es) :
    liveElements c page = some es := by
  obtain ⟨cells, floor, garbage, repr, rfl⟩ := h
  rw [SlottedPage.liveElements, repr.layout.getAll repr.shape.numSlots, Option.map_some,
    live_map_snd]

theorem Contains.setLSN {es : List E} (h : Contains c page es) (lsn : UInt64) :
    Contains c (setLSN page lsn) es := by
  obtain ⟨cells, floor, garbage, repr, same⟩ := h
  exact ⟨cells, floor, garbage, repr.setLSN lsn, same⟩

/-- What a codec's `InsertElement` does to the elements of a page that has room. -/
structure Splices (c : ElementCodec E) (insertSlot : Page → Slot → E → Option (Page × Nat))
    (splice : List E → E → List E) : Prop where
  insert : ∀ page cells floor garbage e, Repr c page cells floor garbage →
    ((elements cells).Pairwise fun a b => c.key a ≤ c.key b) →
    headerSize + 4 * (cells.length + 1) + width c e ≤ floor →
    ∃ page' cells', insertElement c insertSlot page (width c e) e = some (true, page') ∧
      Repr c page' cells' (floor - width c e) garbage ∧
      elements cells' = splice (elements cells) e ∧ Keeps page page'
  length : ∀ es e, (splice es e).length = es.length + 1

variable [c.Lawful] {insertSlot : Page → Slot → E → Option (Page × Nat)}
  {splice : List E → E → List E}

omit [c.Lawful] in
theorem Sound.accounted (h : Sound c page cells floor garbage) :
    Accounted c page cells floor garbage :=
  ⟨h.repr, h.sorted.imp fun less => le_of_lt less, h.honest⟩

/-- `InsertElement` on an accounted page: the element is put in, or refused, or it panics because
its size wraps. -/
theorem Accounted.insertElement_cases (h : Accounted c page cells floor garbage)
    (splices : Splices c insertSlot splice) (e : E) :
    (width c e + 4 < 65536 ∧ (width c e + 4 ≤ floor - (headerSize + 4 * cells.length) ∨
        width c e + 4 ≤ garbage) ∧
      ∃ page', insertElement c insertSlot page (width c e) e = some (true, page') ∧
        Contains c page' (splice (elements cells) e) ∧ Keeps page page') ∨
    (¬ (width c e + 4) % 65536 ≤ floor - (headerSize + 4 * cells.length) ∧
      ¬ width c e + 4 ≤ garbage ∧
      insertElement c insertSlot page (width c e) e = some (false, updateCRC page)) ∨
    (65536 ≤ width c e + 4 ∧
      (width c e + 4) % 65536 ≤ floor - (headerSize + 4 * cells.length) ∧
      insertElement c insertSlot page (width c e) e = none) := by
  have sorted := h.ordered
  have room := h.repr.layout.room
  have top := h.repr.layout.top
  have honest := h.honest
  have bounded := h.repr.shape.garbage_lt
  have adequate := h.repr.shape.isAdequate room top (width c e + slotSize)
  by_cases huge : 65536 ≤ width c e + 4
  · -- no garbage count reaches such a size, so the wrapped comparison decides
    have clean : ¬ width c e + 4 ≤ garbage := by omega
    by_cases fits : (width c e + 4) % 65536 ≤ floor - (headerSize + 4 * cells.length)
    · right; right
      refine ⟨huge, fits, ?_⟩
      have refused := appendElement_none page (c := c) (e := e) (show floor < _ by omega)
      rw [decide_eq_true (by simpa only [slotSize] using fits)] at adequate
      simp only [insertElement, adequate, Bool.not_true, Bool.false_and, Bool.false_eq_true,
        if_false, if_true, bind, Option.bind, h.repr.shape.freeSpaceEnd, refused]
    · right; left
      rw [decide_eq_false (by simpa only [slotSize] using fits)] at adequate
      refine ⟨fits, clean, insertElement_refused adequate ?_⟩
      rw [h.repr.shape.shouldCompact, decide_eq_false_iff_not, slotSize]
      exact clean
  have small : width c e + 4 < 65536 := not_le.1 huge
  by_cases fits : headerSize + 4 * (cells.length + 1) + width c e ≤ floor
  · left
    obtain ⟨page', cells', done, repr, same, keeps⟩ :=
      splices.insert page cells floor garbage e h.repr sorted fits
    exact ⟨small, .inl (by omega), page', done, ⟨_, _, _, repr, same⟩, keeps⟩
  by_cases enough : width c e + 4 ≤ garbage
  · left
    obtain ⟨page₁, _, repr₁, keeps₁, packedRoom, continues⟩ :=
      @insertElement_packs E c _ page cells floor garbage (width c e) insertSlot e h.repr
        (not_le.1 fits) enough (by omega)
    obtain ⟨page', cells', done, repr, same, keeps⟩ := splices.insert page₁ _ _ _ e repr₁
      (by rw [elements_packed, live_map_snd]; exact sorted) packedRoom
    rw [elements_packed, live_map_snd] at same
    exact ⟨small, .inr enough, page', continues.trans done, ⟨_, _, _, repr, same⟩,
      keeps₁.trans keeps⟩
  · right; left
    refine ⟨by omega, enough, insertElement_noRoom h.repr small (by omega) (by omega)⟩

/-- `InsertElement` on a sound page succeeds exactly with room for the element and its slot, or
with as much garbage. -/
theorem Sound.insertElement_iff (h : Sound c page cells floor garbage)
    (splices : Splices c insertSlot splice) (e : E) :
    (∃ page', insertElement c insertSlot page (width c e) e = some (true, page')) ↔
      width c e + 4 ≤ floor - (headerSize + 4 * cells.length) ∨ width c e + 4 ≤ garbage := by
  have room := h.repr.layout.room
  have top := h.repr.layout.top
  have bounded := h.repr.shape.garbage_lt
  rcases h.accounted.insertElement_cases splices e with
    ⟨_, fits, page', done, _⟩ | ⟨full, clean, refused⟩ | ⟨huge, _, panics⟩
  · exact ⟨fun _ => fits, fun _ => ⟨page', done⟩⟩
  · constructor
    · rintro ⟨page', done⟩
      rw [refused] at done
      cases done
    · intro fits
      exfalso
      have small : (width c e + 4) % 65536 ≤ width c e + 4 := Nat.mod_le _ _
      omega
  · constructor
    · rintro ⟨page', done⟩
      rw [panics] at done
      cases done
    · intro fits
      omega

/-- The insertion into two sound pages with the same elements, room and garbage ends alike. -/
theorem Sound.insertElement_alike {page' : Page} {cells' : List (Cell E)} {floor' : Nat}
    (h : Sound c page cells floor garbage) (h' : Sound c page' cells' floor' garbage)
    (same : elements cells' = elements cells)
    (free : floor' - (headerSize + 4 * cells'.length) = floor - (headerSize + 4 * cells.length))
    (splices : Splices c insertSlot splice) (e : E) {answer : Bool} {result : Page}
    (done : insertElement c insertSlot page (width c e) e = some (answer, result)) :
    Keeps page result ∧ ∃ result' es,
      insertElement c insertSlot page' (width c e) e = some (answer, result') ∧
        Contains c result es ∧ Contains c result' es ∧ Keeps page' result' := by
  have crc (page : Page) : Keeps page (updateCRC page) :=
    Keeps.of_bytes fun i bounds => byte_updateCRC _ (by omega)
  have cases' := h'.accounted.insertElement_cases splices e
  rw [free, same] at cases'
  rcases h.accounted.insertElement_cases splices e with
    ⟨small, fits, page₁, done₁, live₁, keeps₁⟩ | ⟨full, clean, done₁⟩ | ⟨huge, fits, done₁⟩
  · obtain ⟨rfl, rfl⟩ := Prod.mk.inj (Option.some.inj (done₁.symm.trans done))
    rcases cases' with ⟨_, _, page₂, done₂, live₂, keeps₂⟩ | ⟨full, clean, _⟩ | ⟨huge, _, _⟩
    · exact ⟨keeps₁, page₂, _, done₂, live₁, live₂, keeps₂⟩
    · omega
    · omega
  · obtain ⟨rfl, rfl⟩ := Prod.mk.inj (Option.some.inj (done₁.symm.trans done))
    rcases cases' with ⟨small, fits, _⟩ | ⟨_, _, done₂⟩ | ⟨_, fits, _⟩
    · omega
    · exact ⟨crc page, _, elements cells, done₂, ⟨_, _, _, h.repr.updateCRC, rfl⟩,
        ⟨_, _, _, h'.repr.updateCRC, same⟩, crc page'⟩
    · omega
  · rw [done₁] at done
    cases done

omit [c.Lawful] in
theorem Sound.setLSN (h : Sound c page cells floor garbage) (lsn : UInt64) :
    Sound c (setLSN page lsn) cells floor garbage :=
  ⟨h.repr.setLSN lsn, h.sizes, h.sorted, h.honest⟩

omit [c.Lawful] in
theorem free_packed (entries : List (Slot × E)) :
    4096 - dataSize c (entries.map Prod.snd) -
        (headerSize + 4 * (packed c 4096 entries).length) =
      packedSpace c (entries.map Prod.snd) := by
  rw [length_packed, packedSpace, List.length_map]
  omega

omit [c.Lawful] in
theorem free_compacted (cells : List (Cell E)) :
    4096 - dataSize c (elements cells) - (headerSize + 4 * (packed c 4096 (live cells)).length) =
      packedSpace c (elements cells) := by
  rw [← live_map_snd, free_packed]

omit [c.Lawful] in
/-- A page that was written anew counts no garbage. -/
theorem accounted_packed {entries : List (Slot × E)}
    (repr : Repr c page (packed c 4096 entries) (4096 - dataSize c (entries.map Prod.snd)) 0)
    (ordered : (entries.map Prod.snd).Pairwise fun a b => c.key a ≤ c.key b) :
    Accounted c page (packed c 4096 entries) (4096 - dataSize c (entries.map Prod.snd)) 0 := by
  refine ⟨repr, ?_, ?_⟩
  · rw [elements_packed]
    exact ordered
  · rw [free_packed, elements_packed, Nat.zero_add]

omit [c.Lawful] in
theorem Accounted.compacted (h : Accounted c page cells floor garbage) {page' : Page}
    (repr : Repr c page' (packed c 4096 (live cells)) (4096 - dataSize c (elements cells)) 0) :
    Accounted c page' (packed c 4096 (live cells)) (4096 - dataSize c (elements cells)) 0 := by
  have ordered := h.ordered
  rw [← live_map_snd] at repr ordered ⊢
  exact accounted_packed repr ordered

omit [c.Lawful] in
/-- A compacted page is sound again and counts no garbage. -/
theorem Sound.compacted (h : Sound c page cells floor garbage) {page' : Page}
    (repr : Repr c page' (packed c 4096 (live cells)) (4096 - dataSize c (elements cells)) 0) :
    Sound c page' (packed c 4096 (live cells)) (4096 - dataSize c (elements cells)) 0 := by
  refine ⟨repr, ?_, ?_, (h.accounted.compacted repr).honest⟩
  · intro slot e member
    exact sizes_packed (fun entry inside => h.sizes entry.1 entry.2 (mem_live.1 inside)) member
  · rw [elements_packed, live_map_snd]
    exact h.sorted

/-- The check keeps its promise on a sound page exactly if the slot is covered. -/
theorem Sound.keepsPromise_iff (h : Sound c page cells floor garbage)
    (splices : Splices c insertSlot splice) (e : E) :
    KeepsPromise (hasEnoughSpace c page (width c e))
        (fun page => insertElement c insertSlot page (width c e) e) ↔
      SlotCovered c page (width c e) := by
  rw [SlotCovered, h.repr.freeSpace, h.repr.compactedFree, h.repr.shape.garbageSize]
  rcases hasEnoughSpace_outcome h.repr (width c e) with
    ⟨fits, answer⟩ | ⟨full, enough, page₁, _, answer, repr, _⟩ | ⟨full, few, answer⟩
  · rw [if_pos fits, KeepsPromise, answer]
    have inserted := h.insertElement_iff splices e
    constructor
    · intro promise
      exact inserted.1 (promise page rfl)
    · rintro covered _ ⟨⟩
      exact inserted.2 covered
  · rw [if_neg full, KeepsPromise, answer]
    have inserted := (h.compacted repr).insertElement_iff splices e
    rw [free_compacted] at inserted
    constructor
    · intro promise _
      have result := inserted.1 (promise page₁ rfl)
      rw [slotSize]
      omega
    · rintro covered _ ⟨⟩
      exact inserted.2 (.inl (covered enough))
  · rw [if_neg full, KeepsPromise, answer]
    constructor
    · intro _ enough
      exact absurd enough few
    · rintro _ _ ⟨⟩

end

end SlottedPage

/-! ### The two codecs -/

/-- A well-formed leaf page is sound. -/
theorem LeafNodeCodec.WellFormed.sound {page : Page} (h : LeafNodeCodec.WellFormed page) :
    ∃ cells floor garbage, Sound LeafNodeCodec.elementCodec page cells floor garbage := by
  obtain ⟨cells, floor, garbage, slack, exact_⟩ := h.exactLeaf
  have account := exact_.account
  exact ⟨cells, floor, garbage, exact_.repr, exact_.sizes, exact_.sorted, by omega⟩

/-- The elements once `e` was put behind the keys that are not greater. -/
def LeafNodeCodec.spliceInto (es : List LeafNodeElement) (e : LeafNodeElement) :
    List LeafNodeElement :=
  (es.filter fun x => decide (x.key ≤ e.key)) ++ e :: es.filter fun x => decide (e.key < x.key)

theorem LeafNodeCodec.spliceInto_perm (es : List LeafNodeElement) (e : LeafNodeElement) :
    (spliceInto es e).Perm (e :: es) := by
  have greater : (es.filter fun x => decide (e.key < x.key)) =
      es.filter fun x => !decide (x.key ≤ e.key) := by
    apply List.filter_congr
    intro x _
    by_cases below : x.key ≤ e.key
    · simp [below]
    · simp [not_le.1 below]
  rw [spliceInto, greater]
  exact List.perm_middle.trans ((List.filter_append_perm _ es).cons e)

theorem LeafNodeCodec.splices : Splices elementCodec
    (fun page newSlot element => insertSlot page newSlot element.key) spliceInto := by
  refine ⟨?_, fun es e => (spliceInto_perm es e).length_eq⟩
  intro page cells floor garbage e repr sorted room
  have size := width_eq e
  obtain ⟨page', pre, post, slot, cut, _, done, repr', keeps⟩ :=
    insertElement_room repr e.key e.value sorted (by rw [size] at room; exact room)
  rw [size]
  refine ⟨page', _, done, repr', ?_, keeps⟩
  have below : ∀ x ∈ elements pre, x.key ≤ e.key := cut.below
  have above : ∀ x ∈ elements post, e.key < x.key := cut.above
  have smaller : (elements cells).filter (fun x => decide (x.key ≤ e.key)) = elements pre := by
    rw [cut.eq, elements_append, List.filter_append,
      List.filter_eq_self.2 fun x member => by simpa using below x member,
      List.filter_eq_nil_iff.2 fun x member => by simpa using above x member, List.append_nil]
  have greater : (elements cells).filter (fun x => decide (e.key < x.key)) = elements post := by
    rw [cut.eq, elements_append, List.filter_append,
      List.filter_eq_nil_iff.2 fun x member => by simpa using below x member,
      List.filter_eq_self.2 fun x member => by simpa using above x member, List.nil_append]
  rw [spliceInto, smaller, greater, elements_append, elements_cons_some]

theorem LeafNodeCodec.keepsPromise_iff {page : Page} (wellFormed : WellFormed page)
    (key value : Bytes) :
    KeepsPromise (hasEnoughSpaceToInsertElement page key value)
        (fun checked => insertElement checked key value) ↔
      SlotCovered elementCodec page (2 + key.length + 2 + value.length) := by
  obtain ⟨cells, floor, garbage, sound⟩ := wellFormed.sound
  have result := sound.keepsPromise_iff splices ⟨key, value⟩
  rw [width_eq] at result
  exact result

/-- Laid out exactly, with increasing keys and an honest garbage count. A blank page is. -/
def InternalNodeCodec.WellFormed (page : Page) : Prop :=
  ∃ cells floor garbage, Sound InternalNodeCodec.elementCodec page cells floor garbage

theorem InternalNodeCodec.wellFormed_zero : WellFormed (Buffer.zero 4096) := by
  have repr : Repr elementCodec (Buffer.zero 4096) [] 4096 0 := repr_zero
  exact ⟨[], 4096, 0, repr, by simp, .nil, by decide⟩

theorem InternalNodeCodec.map_key_modifyLast (f : InternalNodeElement → InternalNodeElement)
    (keeps : ∀ e, (f e).key = e.key) (es : List InternalNodeElement) :
    (es.modifyLast f).map InternalNodeElement.key = es.map InternalNodeElement.key := by
  rcases List.eq_nil_or_concat es with rfl | ⟨front, last, rfl⟩
  · rfl
  · rw [List.concat_eq_append, List.modifyLast_concat, List.map_append, List.map_append,
      List.map_singleton, List.map_singleton, keeps]

theorem InternalNodeCodec.map_key_modifyHead (f : InternalNodeElement → InternalNodeElement)
    (keeps : ∀ e, (f e).key = e.key) (es : List InternalNodeElement) :
    (es.modifyHead f).map InternalNodeElement.key = es.map InternalNodeElement.key := by
  cases es with
  | nil => rfl
  | cons e rest => rw [List.modifyHead_cons, List.map_cons, List.map_cons, keeps]

/-- The separators are the old ones and the new one. -/
theorem InternalNodeCodec.spliceInto_keys (es : List InternalNodeElement)
    (e : InternalNodeElement) : ((spliceInto es e).map InternalNodeElement.key).Perm
      (e.key :: es.map InternalNodeElement.key) := by
  have parts := List.filter_append_perm (fun x => decide (x.key < e.key)) es
  have rest := List.filter_append_perm (fun x => decide (x.key = e.key))
    (es.filter fun x => !decide (x.key < e.key))
  rw [List.filter_filter, List.filter_filter] at rest
  have equal : (es.filter fun x => decide (x.key = e.key) && !decide (x.key < e.key)) =
      es.filter fun x => decide (x.key = e.key) := by
    apply List.filter_congr
    intro x _
    by_cases same : x.key = e.key <;> simp [same]
  have greater : (es.filter fun x => !decide (x.key = e.key) && !decide (x.key < e.key)) =
      es.filter fun x => decide (e.key < x.key) := by
    apply List.filter_congr
    intro x _
    rcases lt_trichotomy x.key e.key with below | same | above
    · simp [below, below.le]
    · simp [same]
    · simp [above, above.ne', above.le]
  rw [equal, greater] at rest
  rw [spliceInto, List.map_append, List.map_append, List.map_cons, map_key_modifyLast,
    map_key_modifyHead, ← List.map_append]
  · refine List.perm_middle.trans (List.Perm.cons _ ?_)
    rw [← List.map_append, List.append_assoc]
    exact ((rest.append_left _).trans parts).map _
  · exact fun _ => rfl
  · exact fun _ => rfl

/-- The children of a separator. -/
def InternalNodeElement.pointers (e : InternalNodeElement) : List UInt64 :=
  [e.leftChildNodePageId, e.rightChildNodePageId]

/-- No pointer comes in but those of the new separator. -/
theorem InternalNodeCodec.spliceInto_pointers {es : List InternalNodeElement}
    {e x : InternalNodeElement} (member : x ∈ spliceInto es e) {child : UInt64}
    (points : child ∈ x.pointers) : (∃ y ∈ es, child ∈ y.pointers) ∨ child ∈ e.pointers := by
  rw [spliceInto, List.mem_append, List.mem_append, List.mem_cons] at member
  rcases member with (smaller | equal) | rfl | greater
  · rcases List.eq_nil_or_concat (es.filter fun x => decide (x.key < e.key)) with none | ⟨front, last, here⟩
    · rw [none] at smaller
      cases smaller
    · rw [here, List.concat_eq_append, List.modifyLast_concat, List.mem_append,
        List.mem_singleton] at smaller
      have old (y : InternalNodeElement) (inside : y ∈ front.concat last) : y ∈ es :=
        List.mem_of_mem_filter (here ▸ inside)
      rcases smaller with before | rfl
      · exact .inl ⟨x, old x (by simp [before]), points⟩
      · simp only [InternalNodeElement.pointers, List.mem_cons] at points ⊢
        rcases points with rfl | rfl | none
        · exact .inl ⟨last, old last (by simp), .inl rfl⟩
        · exact .inr (.inl rfl)
        · cases none
  · exact .inl ⟨x, List.mem_of_mem_filter equal, points⟩
  · exact .inr points
  · cases here : es.filter fun x => decide (e.key < x.key) with
    | nil =>
      rw [here] at greater
      cases greater
    | cons head back =>
      have old (y : InternalNodeElement) (inside : y ∈ head :: back) : y ∈ es :=
        List.mem_of_mem_filter (here ▸ inside)
      rw [here, List.modifyHead_cons, List.mem_cons] at greater
      rcases greater with rfl | after
      · simp only [InternalNodeElement.pointers, List.mem_cons] at points ⊢
        rcases points with rfl | rfl | none
        · exact .inr (.inr (.inl rfl))
        · exact .inl ⟨head, old head (by simp), .inr (.inl rfl)⟩
        · cases none
      · exact .inl ⟨x, old x (List.mem_cons_of_mem _ after), points⟩

theorem InternalNodeCodec.splices : Splices elementCodec insertSlot spliceInto := by
  constructor
  case length =>
    intro es e
    have count := (spliceInto_keys es e).length_eq
    rwa [List.length_map, List.length_cons, List.length_map] at count
  intro page cells floor garbage e repr sorted room
  have size := width_eq e
  rw [size] at room ⊢
  exact insertElement_cells repr e sorted room

theorem InternalNodeCodec.keepsPromise_iff {page : Page} (wellFormed : WellFormed page)
    (key : Bytes) (left right : UInt64) :
    KeepsPromise (hasEnoughSpaceToInsertElement page key)
        (fun checked => insertElement checked key left right) ↔
      SlotCovered elementCodec page (2 + key.length + 8 + 8) := by
  obtain ⟨cells, floor, garbage, sound⟩ := wellFormed
  have result := sound.keepsPromise_iff splices ⟨key, left, right⟩
  rw [width_eq] at result
  exact result

/-- On every well-formed page of either kind, the check keeps its promise exactly if the four
bytes of the slot do not matter. -/
theorem spaceCheck_keepsPromise_iff (page : Page) (key : Bytes) :
    (∀ value, LeafNodeCodec.WellFormed page →
      (KeepsPromise (LeafNodeCodec.hasEnoughSpaceToInsertElement page key value)
          (fun checked => LeafNodeCodec.insertElement checked key value) ↔
        SlotCovered LeafNodeCodec.elementCodec page (2 + key.length + 2 + value.length))) ∧
    ∀ left right, InternalNodeCodec.WellFormed page →
      (KeepsPromise (InternalNodeCodec.hasEnoughSpaceToInsertElement page key)
          (fun checked => InternalNodeCodec.insertElement checked key left right) ↔
        SlotCovered InternalNodeCodec.elementCodec page (2 + key.length + 8 + 8)) :=
  ⟨fun value wellFormed => LeafNodeCodec.keepsPromise_iff wellFormed key value,
    fun left right wellFormed => InternalNodeCodec.keepsPromise_iff wellFormed key left right⟩

theorem spaceCheck_keepsPromise_on_blank_page :
    KeepsPromise (LeafNodeCodec.hasEnoughSpaceToInsertElement (Buffer.zero 4096) [1] [2])
        (fun checked => LeafNodeCodec.insertElement checked [1] [2]) ∧
      KeepsPromise (InternalNodeCodec.hasEnoughSpaceToInsertElement (Buffer.zero 4096) [1])
        (fun checked => InternalNodeCodec.insertElement checked [1] 2 3) := by
  constructor
  · exact ((spaceCheck_keepsPromise_iff _ [1]).1 [2] (.inl LeafNodeCodec.blank_zero)).2
      (by rw [SlotCovered, if_pos (by decide)]; exact .inl (by decide))
  · exact ((spaceCheck_keepsPromise_iff _ [1]).2 2 3 InternalNodeCodec.wellFormed_zero).2
      (by rw [SlotCovered, if_pos (by decide)]; exact .inl (by decide))

/-- On a blank page the slot of a 4064-byte element is never covered. -/
theorem not_slotCovered_of_full {E : Type} (c : ElementCodec E) :
    ¬ SlotCovered c (Buffer.zero 4096) 4064 := by
  rw [SlotCovered, if_pos (by decide)]
  decide

/-- A blank page has 4064 free bytes: an element of that size passes both checks and is then
refused by both insertions. -/
theorem spaceCheck_forgets_slot :
    (¬ ∀ page key value, LeafNodeCodec.WellFormed page →
      KeepsPromise (LeafNodeCodec.hasEnoughSpaceToInsertElement page key value)
        (fun checked => LeafNodeCodec.insertElement checked key value)) ∧
    ¬ ∀ page key left right, InternalNodeCodec.WellFormed page →
      KeepsPromise (InternalNodeCodec.hasEnoughSpaceToInsertElement page key)
        (fun checked => InternalNodeCodec.insertElement checked key left right) := by
  constructor
  · intro claimed
    have blank : LeafNodeCodec.WellFormed (Buffer.zero 4096) := .inl LeafNodeCodec.blank_zero
    obtain ⟨value, long⟩ : ∃ value : Bytes, value.length = 4060 :=
      ⟨List.replicate 4060 0, List.length_replicate⟩
    have covered := (LeafNodeCodec.keepsPromise_iff blank [] value).1 (claimed _ _ _ blank)
    rw [long] at covered
    exact not_slotCovered_of_full _ covered
  · intro claimed
    have blank := InternalNodeCodec.wellFormed_zero
    obtain ⟨key, long⟩ : ∃ key : Bytes, key.length = 4046 :=
      ⟨List.replicate 4046 0, List.length_replicate⟩
    have covered := (InternalNodeCodec.keepsPromise_iff blank key 1 2).1 (claimed _ _ _ _ blank)
    rw [long] at covered
    exact not_slotCovered_of_full _ covered

end CambiumDB
