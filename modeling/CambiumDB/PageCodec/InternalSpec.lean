import Mathlib.Data.List.ModifyLast
import CambiumDB.PageCodec.Insertion
import CambiumDB.PageCodec.InternalNode

/-!
# The internal codec on represented pages

Internal nodes never delete, so their cells are all live and a page is described by its
slots and elements. Inserting a separator repoints the two neighbours at its children.
-/

namespace CambiumDB

open ByteBuffer HeaderConfig HeaderCodec SlottedPage

namespace InternalNodeCodec

theorem width_eq (e : InternalNodeElement) :
    width elementCodec e = 2 + e.key.length + 8 + 8 := by
  simp [width, elementCodec, encodeElement]
  omega

theorem decode_encode (e : InternalNodeElement) (s : Slice)
    (small : (encodeElement e).length < 65536) (starts : s.StartsWith (encodeElement e)) :
    decodeElement s = some e := by
  simp only [encodeElement, List.length_append, length_leBytes] at small
  have keyLength : s.getLE 2 = some e.key.length := by
    have := Slice.StartsWith.getLE (s := s) 2 e.key.length
      (e.key ++ leBytes 8 e.leftChildNodePageId.toNat ++ leBytes 8 e.rightChildNodePageId.toNat)
      (by simpa [encodeElement] using starts)
    rwa [Nat.mod_eq_of_lt (by omega)] at this
  obtain ⟨key, keySlice, keyBytes⟩ := Slice.StartsWith.sub (s := s) (leBytes 2 e.key.length) e.key
    (leBytes 8 e.leftChildNodePageId.toNat ++ leBytes 8 e.rightChildNodePageId.toNat)
    (by simpa [encodeElement] using starts)
  obtain ⟨left, leftSlice, leftStarts, _⟩ := Slice.StartsWith.drop (s := s)
    (leBytes 2 e.key.length ++ e.key)
    (leBytes 8 e.leftChildNodePageId.toNat ++ leBytes 8 e.rightChildNodePageId.toNat)
    (by simpa [encodeElement] using starts)
  obtain ⟨right, rightSlice, rightStarts, _⟩ := Slice.StartsWith.drop (s := s)
    (leBytes 2 e.key.length ++ e.key ++ leBytes 8 e.leftChildNodePageId.toNat)
    (leBytes 8 e.rightChildNodePageId.toNat) (by simpa [encodeElement] using starts)
  have leftValue := leftStarts.getLE 8 e.leftChildNodePageId.toNat _
  have rightValue := Slice.StartsWith.getLE (s := right) 8 e.rightChildNodePageId.toNat []
    (by simpa using rightStarts)
  -- a page id has 64 bits, so the reduction modulo 256 ^ 8 changes nothing
  have wide (id : UInt64) : id.toNat % 256 ^ 8 = id.toNat := Nat.mod_eq_of_lt id.toNat_lt
  rw [wide] at leftValue rightValue
  simp only [List.length_append, length_leBytes] at keySlice leftSlice rightSlice
  have first : (2 + e.key.length) % 65536 = 2 + e.key.length := Nat.mod_eq_of_lt (by omega)
  have second : (2 + e.key.length + 8) % 65536 = 2 + e.key.length + 8 :=
    Nat.mod_eq_of_lt (by omega)
  simp only [decodeElement, keyLength, bind, Option.bind, first, keySlice, leftSlice, leftValue,
    second, rightSlice, rightValue, keyBytes, UInt64.ofNat_toNat]

instance : elementCodec.Lawful where
  decode_encode := decode_encode
  size_eq e := by
    simp only [elementCodec, calculateElementSize, encodeElement, List.length_append,
      length_leBytes]

/-! ### Repointing a child -/

section
variable {page : Page} {pre post : List (Cell InternalNodeElement)} {slot : Slot}
  {e : InternalNodeElement} {floor : Nat}
  (h : Layout elementCodec page (pre ++ (slot, some e) :: post) floor)
include h

theorem childOffset_eq {skip : Nat} (inside : skip ≤ 8) :
    childOffset page slot skip 8 = some (slot.elementPointer + (2 + e.key.length + skip)) := by
  have placed : Placed elementCodec page floor slot e := h.ok (slot, some e) (by simp)
  have fits := placed.fits
  have starts : (region page slot).StartsWith (encodeElement e) := placed.startsWith
  have capacity := starts.2.1
  rw [width_eq] at fits
  have size := placed.size
  have keySize : (region page slot).getLE 2 = some e.key.length := by
    have := Slice.StartsWith.getLE (s := region page slot) 2 e.key.length
      (e.key ++ leBytes 8 e.leftChildNodePageId.toNat ++ leBytes 8 e.rightChildNodePageId.toNat)
      (by simpa [encodeElement] using starts)
    rwa [Nat.mod_eq_of_lt (by omega)] at this
  have length : (region page slot).len = slot.elementSize := rfl
  have dropped : (region page slot).drop (2 + e.key.length + skip) =
      some ⟨fun i => (region page slot).byte (2 + e.key.length + skip + i),
        slot.elementSize - (2 + e.key.length + skip),
        (region page slot).cap - (2 + e.key.length + skip)⟩ := by
    rw [Slice.drop, if_pos (by omega), Slice.sub, if_pos (by omega), length]
  have field : Slice.getLE ⟨fun i => (region page slot).byte (2 + e.key.length + skip + i),
      slot.elementSize - (2 + e.key.length + skip),
      (region page slot).cap - (2 + e.key.length + skip)⟩ 8 ≠ none := by
    rw [Slice.getLE, if_pos (by simp only; omega)]
    simp
  obtain ⟨value, read⟩ := Option.ne_none_iff_exists'.mp field
  simp only [childOffset, placed.slice, bind, Option.bind, keySize, dropped, read]

theorem setRightChild_spec (id : UInt64) :
    ∃ page', setRightChildNodePageId page slot id = some page' ∧
      Layout elementCodec page'
        (pre ++ (slot, some { e with rightChildNodePageId := id }) :: post) floor ∧
      ∀ i, i < floor → page'.byte i = page.byte i := by
  obtain ⟨layout, same⟩ := h.patch { e with rightChildNodePageId := id }
    (leBytes 2 e.key.length ++ e.key ++ leBytes 8 e.leftChildNodePageId.toNat)
    (leBytes 8 e.rightChildNodePageId.toNat) [] (leBytes 8 id.toNat)
    (by simp [elementCodec, encodeElement]) (by simp [elementCodec, encodeElement]) (by simp)
  refine ⟨_, ?_, layout, same⟩
  simp only [setRightChildNodePageId, childOffset_eq h (le_refl 8), bind, Option.bind, Buffer.putLE,
    List.length_append, length_leBytes]

theorem setLeftChild_spec (id : UInt64) :
    ∃ page', setLeftChildNodePageId page slot id = some page' ∧
      Layout elementCodec page'
        (pre ++ (slot, some { e with leftChildNodePageId := id }) :: post) floor ∧
      ∀ i, i < floor → page'.byte i = page.byte i := by
  obtain ⟨layout, same⟩ := h.patch { e with leftChildNodePageId := id }
    (leBytes 2 e.key.length ++ e.key) (leBytes 8 e.leftChildNodePageId.toNat)
    (leBytes 8 e.rightChildNodePageId.toNat) (leBytes 8 id.toNat)
    (by simp [elementCodec, encodeElement]) (by simp [elementCodec, encodeElement]) (by simp)
  refine ⟨_, ?_, layout, same⟩
  simp only [setLeftChildNodePageId, childOffset_eq h (Nat.zero_le 8), bind, Option.bind,
    Buffer.putLE, List.length_append, length_leBytes, Nat.add_zero]

end

/-! ### Pages of live separators -/

/-- The cells of a page without deleted slots. -/
def liveCells (entries : List (Slot × InternalNodeElement)) : List (Cell InternalNodeElement) :=
  entries.map fun entry => (entry.1, some entry.2)

abbrev InternalRepr (page : Page) (entries : List (Slot × InternalNodeElement))
    (floor garbage : Nat) : Prop :=
  Repr elementCodec page (liveCells entries) floor garbage

@[simp] theorem live_liveCells (entries : List (Slot × InternalNodeElement)) :
    live (liveCells entries) = entries := by
  induction entries with
  | nil => rfl
  | cons entry rest ih => simpa [liveCells] using ih

@[simp] theorem elements_liveCells (entries : List (Slot × InternalNodeElement)) :
    elements (liveCells entries) = entries.map Prod.snd := by
  rw [← live_map_snd, live_liveCells]

@[simp] theorem length_liveCells (entries : List (Slot × InternalNodeElement)) :
    (liveCells entries).length = entries.length := by
  simp [liveCells]

/-- The separators after `e` was put between `before` and `after`: the neighbours point at
the children of `e`. -/
def splice (before : List InternalNodeElement) (e : InternalNodeElement)
    (after : List InternalNodeElement) : List InternalNodeElement :=
  before.modifyLast (fun x => { x with rightChildNodePageId := e.leftChildNodePageId }) ++
    e :: after.modifyHead fun x => { x with leftChildNodePageId := e.rightChildNodePageId }

theorem findNextChild_eq {page : Page} {entries : List (Slot × InternalNodeElement)}
    {floor garbage : Nat} (h : InternalRepr page entries floor garbage) (key : Bytes) :
    findNextChildNodePageId page key = some (nextChild key (entries.map Prod.snd) 0) := by
  have read : getAllSlotsAndElements page = some entries := by
    have all := h.layout.getAll h.shape.numSlots
    rwa [live_liveCells] at all
  simp only [findNextChildNodePageId, read, bind, Option.bind]

/-! ### Inserting a separator -/

/-- The first greater separator is pointed at the new right child. -/
private theorem repoint_greater {page : Page} {pre : List (Cell InternalNodeElement)}
    {after : List (Slot × InternalNodeElement)} {floor : Nat}
    (h : Layout elementCodec page (pre ++ liveCells after) floor) (id : UInt64) :
    ∃ page' after',
      (match (liveCells after).head?.map Prod.fst with
        | some slot => setLeftChildNodePageId page slot id
        | none => some page) = some page' ∧
      Layout elementCodec page' (pre ++ liveCells after') floor ∧
      (after'.map Prod.snd =
        (after.map Prod.snd).modifyHead fun x => { x with leftChildNodePageId := id }) ∧
      after'.map Prod.fst = after.map Prod.fst ∧ ∀ i, i < floor → page'.byte i = page.byte i := by
  cases after with
  | nil => exact ⟨page, [], rfl, h, rfl, rfl, fun _ _ => rfl⟩
  | cons entry rest =>
    obtain ⟨slot, x⟩ := entry
    obtain ⟨page', done, layout, same⟩ := setLeftChild_spec h id
    exact ⟨page', (slot, { x with leftChildNodePageId := id }) :: rest, done, layout, rfl, rfl,
      same⟩

theorem lastSmaller_append {key : Bytes} {before : List (Slot × InternalNodeElement)} {slot : Slot}
    {x : InternalNodeElement} (less : x.key < key) :
    lastSmaller elementCodec key (liveCells (before ++ [(slot, x)])) = some slot := by
  have kept : decide (elementCodec.key x < key) = true := decide_eq_true less
  simp [lastSmaller, List.filter_append, kept]

/-- The last smaller separator is pointed at the new left child. -/
private theorem repoint_smaller {page : Page} {before : List (Slot × InternalNodeElement)}
    {post : List (Cell InternalNodeElement)} {key : Bytes} {floor : Nat}
    (h : Layout elementCodec page (liveCells before ++ post) floor)
    (below : ∀ entry ∈ before, entry.2.key < key) (id : UInt64) :
    ∃ page' before',
      (match lastSmaller elementCodec key (liveCells before) with
        | some slot => setRightChildNodePageId page slot id
        | none => some page) = some page' ∧
      Layout elementCodec page' (liveCells before' ++ post) floor ∧
      (before'.map Prod.snd =
        (before.map Prod.snd).modifyLast fun x => { x with rightChildNodePageId := id }) ∧
      before'.map Prod.fst = before.map Prod.fst ∧ ∀ i, i < floor → page'.byte i = page.byte i := by
  rcases List.eq_nil_or_concat' before with rfl | ⟨front, ⟨slot, x⟩, rfl⟩
  · exact ⟨page, [], rfl, h, rfl, rfl, fun _ _ => rfl⟩
  · have shape : liveCells (front ++ [(slot, x)]) ++ post =
        liveCells front ++ (slot, some x) :: post := by
      simp [liveCells]
    rw [shape] at h
    obtain ⟨page', done, layout, same⟩ := setRightChild_spec h id
    refine ⟨page', front ++ [(slot, { x with rightChildNodePageId := id })], ?_, ?_, ?_, by simp,
      same⟩
    · rw [lastSmaller_append (below (slot, x) (by simp))]
      exact done
    · simpa [liveCells] using layout
    · simp [List.modifyLast_concat]

/-- The three steps of `InsertSlot`; the first separator has no neighbours. -/
private theorem insertSlot_eq {page page₁ page₂ page₃ : Page} {newSlot : Slot}
    {e : InternalNodeElement} {n stop : Nat} {scan : Scan}
    (count : (decodePageHeader page).numSlots = n)
    (shifted : shiftSlots elementCodec page newSlot e.key = some (page₁, stop, scan))
    (first : n = 0 → scan.greaterElement = none ∧ scan.smallerElement = none)
    (greater : (match scan.greaterElement with
      | some slot => setLeftChildNodePageId page₁ slot e.rightChildNodePageId
      | none => some page₁) = some page₂)
    (smaller : (match scan.smallerElement with
      | some slot => setRightChildNodePageId page₂ slot e.leftChildNodePageId
      | none => some page₂) = some page₃) :
    insertSlot page newSlot e = some (page₃, stop) := by
  simp only [insertSlot, count, shifted, bind, Option.bind]
  split
  next empty =>
    obtain ⟨noGreater, noSmaller⟩ := first empty
    rw [noGreater] at greater
    rw [noSmaller] at smaller
    cases greater
    cases smaller
    rfl
  next =>
    cases greaterSlot : scan.greaterElement with
    | none =>
      rw [greaterSlot] at greater
      cases greater
      cases smallerSlot : scan.smallerElement with
      | none =>
        rw [smallerSlot] at smaller
        cases smaller
        rfl
      | some slot =>
        rw [smallerSlot] at smaller
        simp only [smaller]
    | some slot =>
      rw [greaterSlot] at greater
      simp only [greater]
      cases smallerSlot : scan.smallerElement with
      | none =>
        rw [smallerSlot] at smaller
        cases smaller
        rfl
      | some slot =>
        rw [smallerSlot] at smaller
        simp only [smaller]

/-- With room for the element and its slot, `InsertElement` splices the separator in. -/
theorem insertElement_room {page : Page} {before after : List (Slot × InternalNodeElement)}
    {floor garbage : Nat} (h : InternalRepr page (before ++ after) floor garbage)
    (e : InternalNodeElement) (below : ∀ entry ∈ before, entry.2.key < e.key)
    (above : ∀ entry ∈ after, e.key < entry.2.key)
    (room : headerSize + 4 * ((before ++ after).length + 1) + (2 + e.key.length + 8 + 8) ≤ floor) :
    ∃ page' entries' slot, insertElement page e.key e.leftChildNodePageId
        e.rightChildNodePageId = some (true, page') ∧
      InternalRepr page' entries' (floor - (2 + e.key.length + 8 + 8)) garbage ∧
      (entries'.map Prod.snd = splice (before.map Prod.snd) e (after.map Prod.snd)) ∧
      (entries'.map Prod.fst = before.map Prod.fst ++ slot :: after.map Prod.fst) ∧
      slot.elementSize = 2 + e.key.length + 8 + 8 ∧ Keeps page page' := by
  have size : 2 + e.key.length + 8 + 8 = width elementCodec e := (width_eq e).symm
  rw [size] at room ⊢
  have cut : CutAt elementCodec e.key (liveCells (before ++ after)) (liveCells before)
      (liveCells after) := by
    refine ⟨by simp [liveCells], ?_, ?_, ?_⟩
    · intro x member
      rw [elements_liveCells, List.mem_map] at member
      obtain ⟨entry, here, rfl⟩ := member
      exact le_of_lt (below entry here)
    · intro x member
      rw [elements_liveCells, List.mem_map] at member
      obtain ⟨entry, here, rfl⟩ := member
      exact above entry here
    · cases after with
      | nil => exact .inl rfl
      | cons entry rest => exact .inr ⟨entry.1, entry.2, liveCells rest, rfl⟩
  rw [← length_liveCells] at room
  obtain ⟨page₁, shifted, layout₁, same₁⟩ := shiftSlots_placed h cut room
  -- repoint the neighbours, the greater one first
  have layout₁' : Layout elementCodec page₁ ((liveCells before ++
      [(⟨width elementCodec e, floor - width elementCodec e⟩, some e)]) ++ liveCells after)
      (floor - width elementCodec e) := by
    simpa using layout₁
  obtain ⟨page₂, after', done₂, layout₂, spliced₂, slots₂, same₂⟩ :=
    repoint_greater layout₁' e.rightChildNodePageId
  rw [List.append_assoc] at layout₂
  obtain ⟨page₃, before', done₃, layout₃, spliced₃, slots₃, same₃⟩ :=
    repoint_smaller layout₂ below e.leftChildNodePageId
  have low : headerSize ≤ floor - width elementCodec e := by omega
  have slotted : insertSlot (page.write (floor - width elementCodec e)
      (elementCodec.encodeElement e))
      ⟨width elementCodec e, floor - width elementCodec e⟩ e =
      some (page₃, headerSize + 4 * ((liveCells (before ++ after)).length + 1)) := by
    have count : (decodePageHeader (page.write (floor - width elementCodec e)
        (elementCodec.encodeElement e))).numSlots = (liveCells (before ++ after)).length := by
      refine Shape.numSlots (h.shape.congr fun i _ upper => ?_)
      exact Buffer.byte_write_outside _ _ _ (.inl (by simp only [headerSize] at low; omega))
    refine insertSlot_eq count shifted (fun empty => ?_) done₂ done₃
    obtain ⟨rfl, rfl⟩ : before = [] ∧ after = [] := by simpa using empty
    exact ⟨rfl, rfl⟩
  have final : Layout elementCodec page₃ (liveCells (before' ++
      (⟨width elementCodec e, floor - width elementCodec e⟩, e) :: after'))
      (floor - width elementCodec e) := by
    simpa [liveCells] using layout₃
  have count₂ : after'.length = after.length := by simpa using congrArg List.length slots₂
  have count₃ : before'.length = before.length := by simpa using congrArg List.length slots₃
  obtain ⟨result, done, repr, keeps⟩ := insertElement_placed (c := elementCodec) (e := e) insertSlot
    page₃ h room slotted final (by simp; omega) fun i hi => by
      rw [same₃ i (by omega), same₂ i (by omega), same₁ i hi]
  refine ⟨result, _, ⟨width elementCodec e, floor - width elementCodec e⟩, ?_, repr, ?_, ?_, rfl,
    keeps⟩
  · rw [insertElement, size]
    exact done
  · simp [splice, spliced₂, spliced₃]
  · simp [slots₂, slots₃]

/-! ### Inserting into pages with deleted slots -/

/-- The separators after `e` was put into a sorted list that may already have its key: the last
smaller and the first greater one point at the children of `e`. -/
def spliceInto (es : List InternalNodeElement) (e : InternalNodeElement) :
    List InternalNodeElement :=
  (es.filter fun x => decide (x.key < e.key)).modifyLast
      (fun x => { x with rightChildNodePageId := e.leftChildNodePageId }) ++
    (es.filter fun x => decide (x.key = e.key)) ++
    e :: (es.filter fun x => decide (e.key < x.key)).modifyHead
      fun x => { x with leftChildNodePageId := e.rightChildNodePageId }

/-- The last smaller cell, if there is one: what follows it is not smaller. -/
theorem lastSmaller_cases (key : Bytes) (cells : List (Cell InternalNodeElement)) :
    (lastSmaller elementCodec key cells = none ∧ ∀ x ∈ elements cells, ¬ x.key < key) ∨
      ∃ front slot x back, cells = front ++ (slot, some x) :: back ∧ x.key < key ∧
        (∀ y ∈ elements back, ¬ y.key < key) ∧
        lastSmaller elementCodec key cells = some slot := by
  induction cells using List.reverseRecOn with
  | nil => exact .inl ⟨rfl, by simp⟩
  | append_singleton cells cell ih =>
    obtain ⟨slot, _ | x⟩ := cell
    · -- a deleted cell does not count
      have same : lastSmaller elementCodec key (cells ++ [(slot, none)]) =
          lastSmaller elementCodec key cells := by
        simp [lastSmaller, live]
      rw [same]
      rcases ih with ⟨none, least⟩ | ⟨front, slot', x, back, rfl, less, least, found⟩
      · exact .inl ⟨none, by simpa [elements] using least⟩
      · refine .inr ⟨front, slot', x, back ++ [(slot, none)], by simp, less, ?_, found⟩
        simpa [elements] using least
    · by_cases less : x.key < key
      · refine .inr ⟨cells, slot, x, [], rfl, less, by simp, ?_⟩
        have kept : decide (elementCodec.key x < key) = true := decide_eq_true less
        simp [lastSmaller, live, List.filter_append, kept]
      · have dropped : decide (elementCodec.key x < key) = false := decide_eq_false less
        have same : lastSmaller elementCodec key (cells ++ [(slot, some x)]) =
            lastSmaller elementCodec key cells := by
          simp [lastSmaller, live, List.filter_append, dropped]
        rw [same]
        rcases ih with ⟨none, least⟩ | ⟨front, slot', y, back, rfl, smaller, least, found⟩
        · refine .inl ⟨none, ?_⟩
          rw [elements_append]
          intro z member
          rcases List.mem_append.1 member with old | new
          · exact least z old
          · obtain rfl : z = x := by simpa [elements] using new
            exact less
        · refine .inr ⟨front, slot', y, back ++ [(slot, some x)], by simp, smaller, ?_, found⟩
          rw [elements_append]
          intro z member
          rcases List.mem_append.1 member with old | new
          · exact least z old
          · obtain rfl : z = x := by simpa [elements] using new
            exact less

section
variable {page : Page} {pre post : List (Cell InternalNodeElement)} {floor : Nat}

/-- The first greater cell is pointed at the new right child. -/
theorem repoint_head (h : Layout elementCodec page (pre ++ post) floor)
    (front : post = [] ∨ ∃ slot x rest, post = (slot, some x) :: rest) (id : UInt64) :
    ∃ page' post',
      (match post.head?.map Prod.fst with
        | some slot => setLeftChildNodePageId page slot id
        | none => some page) = some page' ∧
      Layout elementCodec page' (pre ++ post') floor ∧
      elements post' = (elements post).modifyHead (fun x => { x with leftChildNodePageId := id }) ∧
      post'.length = post.length ∧ ∀ i, i < floor → page'.byte i = page.byte i := by
  rcases front with rfl | ⟨slot, x, rest, rfl⟩
  · exact ⟨page, [], rfl, h, rfl, rfl, fun _ _ => rfl⟩
  · obtain ⟨page', done, layout, same⟩ := setLeftChild_spec h id
    exact ⟨page', (slot, some { x with leftChildNodePageId := id }) :: rest, done, layout,
      by simp, by simp, same⟩

/-- The last smaller cell is pointed at the new left child. -/
theorem repoint_last (h : Layout elementCodec page (pre ++ post) floor) {key : Bytes}
    (sorted : (elements pre).Pairwise fun a b => a.key ≤ b.key)
    (below : ∀ x ∈ elements pre, x.key ≤ key) (id : UInt64) :
    ∃ page' pre',
      (match lastSmaller elementCodec key pre with
        | some slot => setRightChildNodePageId page slot id
        | none => some page) = some page' ∧
      Layout elementCodec page' (pre' ++ post) floor ∧
      elements pre' = ((elements pre).filter fun x => decide (x.key < key)).modifyLast
        (fun x => { x with rightChildNodePageId := id }) ++
          (elements pre).filter (fun x => decide (x.key = key)) ∧
      pre'.length = pre.length ∧ ∀ i, i < floor → page'.byte i = page.byte i := by
  have equal {y : InternalNodeElement} (member : y ∈ elements pre) (least : ¬ y.key < key) :
      y.key = key := (below y member).lt_or_eq.resolve_left least
  rcases lastSmaller_cases key pre with ⟨none, least⟩ | ⟨front, slot, x, back, rfl, less, least, found⟩
  · refine ⟨page, pre, by rw [none], h, ?_, rfl, fun _ _ => rfl⟩
    have smaller : (elements pre).filter (fun x => decide (x.key < key)) = [] := by
      rw [List.filter_eq_nil_iff]
      intro y member
      simpa using least y member
    have rest : (elements pre).filter (fun x => decide (x.key = key)) = elements pre := by
      rw [List.filter_eq_self]
      intro y member
      simpa using equal member (least y member)
    rw [smaller, rest]
    rfl
  · rw [List.append_assoc, List.cons_append] at h
    obtain ⟨page', done, layout, same⟩ := setRightChild_spec h id
    refine ⟨page', front ++ (slot, some { x with rightChildNodePageId := id }) :: back,
      by rw [found]; exact done, by simpa using layout, ?_, by simp, same⟩
    rw [elements_append, elements_cons_some] at sorted below equal
    rw [elements_append, elements_cons_some, elements_append, elements_cons_some]
    -- all of `front` is smaller, all of `back` has the key itself
    have frontLess : ∀ y ∈ elements front, y.key < key := by
      intro y member
      exact lt_of_le_of_lt ((List.pairwise_append.1 sorted).2.2 y member x (by simp)) less
    have backEqual : ∀ y ∈ elements back, y.key = key := by
      intro y member
      exact equal (by simp [member]) (least y member)
    have smaller : (elements front ++ x :: elements back).filter (fun y => decide (y.key < key)) =
        elements front ++ [x] := by
      have first : (elements front).filter (fun y => decide (y.key < key)) = elements front := by
        rw [List.filter_eq_self]
        intro y member
        simpa using frontLess y member
      have last : (elements back).filter (fun y => decide (y.key < key)) = [] := by
        rw [List.filter_eq_nil_iff]
        intro y member
        simp [backEqual y member]
      rw [List.filter_append, List.filter_cons_of_pos (by simpa using less), first, last]
    have rest : (elements front ++ x :: elements back).filter (fun y => decide (y.key = key)) =
        elements back := by
      have first : (elements front).filter (fun y => decide (y.key = key)) = [] := by
        rw [List.filter_eq_nil_iff]
        intro y member
        simpa using (frontLess y member).ne
      have last : (elements back).filter (fun y => decide (y.key = key)) = elements back := by
        rw [List.filter_eq_self]
        intro y member
        simpa using backEqual y member
      rw [List.filter_append, List.filter_cons_of_neg (by simpa using less.ne), first, last,
        List.nil_append]
    rw [smaller, rest, List.modifyLast_concat]
    simp

end

/-- With room for the element and its slot, `InsertElement` adds the separator to any sorted
page. -/
theorem insertElement_cells {page : Page} {cells : List (Cell InternalNodeElement)}
    {floor garbage : Nat} (h : Repr elementCodec page cells floor garbage)
    (e : InternalNodeElement) (sorted : (elements cells).Pairwise fun a b => a.key ≤ b.key)
    (room : headerSize + 4 * (cells.length + 1) + (2 + e.key.length + 8 + 8) ≤ floor) :
    ∃ page' cells', insertElement page e.key e.leftChildNodePageId e.rightChildNodePageId =
        some (true, page') ∧
      Repr elementCodec page' cells' (floor - (2 + e.key.length + 8 + 8)) garbage ∧
      elements cells' = spliceInto (elements cells) e ∧ Keeps page page' := by
  have size : 2 + e.key.length + 8 + 8 = width elementCodec e := (width_eq e).symm
  rw [size] at room ⊢
  obtain ⟨pre, post, cut⟩ := cutAt_of_sorted (c := elementCodec) e.key cells sorted
  obtain ⟨page₁, shifted, layout₁, same₁⟩ := shiftSlots_placed (e := e) h cut room
  have count : cells.length = pre.length + post.length := by rw [cut.eq, List.length_append]
  rw [cut.eq, elements_append] at sorted
  have preSorted := (List.pairwise_append.1 sorted).1
  -- repoint the neighbours, the greater one first
  have layout₁' : Layout elementCodec page₁ ((pre ++
      [(⟨width elementCodec e, floor - width elementCodec e⟩, some e)]) ++ post)
      (floor - width elementCodec e) := by
    simpa using layout₁
  obtain ⟨page₂, post', done₂, layout₂, elements₂, length₂, same₂⟩ :=
    repoint_head layout₁' cut.front e.rightChildNodePageId
  rw [List.append_assoc] at layout₂
  obtain ⟨page₃, pre', done₃, layout₃, elements₃, length₃, same₃⟩ :=
    repoint_last layout₂ preSorted cut.below e.leftChildNodePageId
  have low : headerSize ≤ floor - width elementCodec e := by omega
  have slotted : insertSlot (page.write (floor - width elementCodec e)
      (elementCodec.encodeElement e))
      ⟨width elementCodec e, floor - width elementCodec e⟩ e =
      some (page₃, headerSize + 4 * (cells.length + 1)) := by
    have slots : (decodePageHeader (page.write (floor - width elementCodec e)
        (elementCodec.encodeElement e))).numSlots = cells.length := by
      refine Shape.numSlots (h.shape.congr fun i _ upper => ?_)
      exact Buffer.byte_write_outside _ _ _ (.inl (by simp only [headerSize] at low; omega))
    refine insertSlot_eq slots shifted (fun empty => ?_) done₂ done₃
    obtain ⟨rfl, rfl⟩ : pre = [] ∧ post = [] := by
      rw [empty] at count
      exact ⟨List.eq_nil_of_length_eq_zero (by omega), List.eq_nil_of_length_eq_zero (by omega)⟩
    exact ⟨rfl, rfl⟩
  obtain ⟨result, done, repr, keeps⟩ := insertElement_placed (c := elementCodec) (e := e) insertSlot
    page₃ h room slotted layout₃ (by simp; omega) fun i hi => by
      rw [same₃ i (by omega), same₂ i (by omega), same₁ i hi]
  refine ⟨result, _, ?_, repr, ?_, keeps⟩
  · rw [insertElement, size]
    exact done
  · -- the cut separates what is not greater from what is
    have above : ∀ x ∈ elements post, e.key < x.key := cut.above
    have below : ∀ x ∈ elements pre, x.key ≤ e.key := cut.below
    have noGreater : (elements pre).filter (fun x => decide (e.key < x.key)) = [] := by
      rw [List.filter_eq_nil_iff]
      intro x member
      simpa using below x member
    have allGreater : (elements post).filter (fun x => decide (e.key < x.key)) =
        elements post := by
      rw [List.filter_eq_self]
      intro x member
      simpa using above x member
    have noSmaller : (elements post).filter (fun x => decide (x.key < e.key)) = [] := by
      rw [List.filter_eq_nil_iff]
      intro x member
      simpa using (above x member).le
    have noEqual : (elements post).filter (fun x => decide (x.key = e.key)) = [] := by
      rw [List.filter_eq_nil_iff]
      intro x member
      simpa using (above x member).ne'
    rw [elements_append, elements_append, elements_cons_some, elements_nil, elements₂, elements₃,
      spliceInto, cut.eq, elements_append, List.filter_append, List.filter_append,
      List.filter_append, noGreater, allGreater, noSmaller, noEqual]
    simp

end InternalNodeCodec

end CambiumDB
