import CambiumDB.Lib.SortedList
import CambiumDB.PageCodec.SlottedPage

/-!
# The layout of a slotted page

A page is described by its cells: the slots in order, each with the element it points
to, or with nothing when it is deleted. `Layout` says that the page's bytes are such a
description: slots grow from the header up, elements sit above `floor`, and no two live
elements overlap. A slot may claim more bytes than its element has; that is the state an
in-place update leaves behind.

The routines that only read are determined by the cells.
-/

namespace CambiumDB

open ByteBuffer HeaderConfig HeaderCodec SlotCodec

/-- The laws of an element layout that the page routines rely on. -/
class ElementCodec.Lawful {E : Type} (c : ElementCodec E) : Prop where
  decode_encode : ∀ (e : E) (s : Slice), (c.encodeElement e).length < 65536 →
    s.StartsWith (c.encodeElement e) → c.decodeElement s = some e
  size_eq : ∀ e : E, c.calculateElementSize e = (c.encodeElement e).length % 65536

namespace SlottedPage

variable {E : Type} (c : ElementCodec E)

abbrev Cell (E : Type) := Slot × Option E

def width (e : E) : Nat := (c.encodeElement e).length

/-- `slot` points at the encoding of `e`, at or above `floor`. -/
structure Placed (page : Page) (floor : Nat) (slot : Slot) (e : E) : Prop where
  lower : floor ≤ slot.elementPointer
  upper : slot.elementPointer + width c e ≤ 4096
  bytes : page.read slot.elementPointer (width c e) = c.encodeElement e
  fits : width c e ≤ slot.elementSize
  size : slot.elementSize ≤ 4096

def CellOk (page : Page) (floor : Nat) (cell : Cell E) : Prop :=
  match cell.2 with
  | none => cell.1.elementPointer = deletedElementPointerVal
  | some e => Placed c page floor cell.1 e

/-- The slots stored from offset `off` on. -/
def SlotsAt (page : Page) : Nat → List Slot → Prop
  | _, [] => True
  | off, slot :: rest => decodeSlot page off = slot ∧ SlotsAt page (off + 4) rest

/-- The elements of two live cells occupy different bytes. -/
def Apart (a b : Cell E) : Prop :=
  ∀ e f, a.2 = some e → b.2 = some f →
    a.1.elementPointer + width c e ≤ b.1.elementPointer ∨
      b.1.elementPointer + width c f ≤ a.1.elementPointer

structure Layout (page : Page) (cells : List (Cell E)) (floor : Nat) : Prop where
  slots : SlotsAt page headerSize (cells.map Prod.fst)
  ok : ∀ cell ∈ cells, CellOk c page floor cell
  room : headerSize + 4 * cells.length ≤ floor
  top : floor ≤ 4096
  apart : cells.Pairwise (Apart c)

/-- The live slots with their elements, in slot order. -/
def live (cells : List (Cell E)) : List (Slot × E) :=
  cells.filterMap fun cell => cell.2.map fun e => (cell.1, e)

def elements (cells : List (Cell E)) : List E := cells.filterMap Prod.snd

theorem live_map_snd (cells : List (Cell E)) : (live cells).map Prod.snd = elements cells := by
  induction cells with
  | nil => rfl
  | cons cell cells ih =>
    obtain ⟨slot, _ | e⟩ := cell
    · simpa [live, elements] using ih
    · simpa [live, elements] using ih

@[simp] theorem live_append (as bs : List (Cell E)) : live (as ++ bs) = live as ++ live bs := by
  simp [live]

@[simp] theorem elements_append (as bs : List (Cell E)) :
    elements (as ++ bs) = elements as ++ elements bs := by
  simp [elements]

@[simp] theorem live_cons_dead (slot : Slot) (cells : List (Cell E)) :
    live ((slot, none) :: cells) = live cells := by
  simp [live]

@[simp] theorem live_cons_some (slot : Slot) (e : E) (cells : List (Cell E)) :
    live ((slot, some e) :: cells) = (slot, e) :: live cells := by
  simp [live]

@[simp] theorem elements_cons_dead (slot : Slot) (cells : List (Cell E)) :
    elements ((slot, none) :: cells) = elements cells := by
  simp [elements]

@[simp] theorem elements_cons_some (slot : Slot) (e : E) (cells : List (Cell E)) :
    elements ((slot, some e) :: cells) = e :: elements cells := by
  simp [elements]

@[simp] theorem live_nil : live ([] : List (Cell E)) = [] := rfl

@[simp] theorem elements_nil : elements ([] : List (Cell E)) = [] := rfl

theorem mem_live {cells : List (Cell E)} {slot : Slot} {e : E} :
    (slot, e) ∈ live cells ↔ (slot, some e) ∈ cells := by
  simp only [live, List.mem_filterMap, Option.map_eq_some_iff, Prod.mk.injEq]
  constructor
  · rintro ⟨⟨s, o⟩, member, f, rfl, rfl, rfl⟩
    exact member
  · intro member
    exact ⟨(slot, some e), member, e, rfl, rfl, rfl⟩

theorem mem_elements {cells : List (Cell E)} {e : E} :
    e ∈ elements cells ↔ ∃ slot, (slot, some e) ∈ cells := by
  rw [← live_map_snd, List.mem_map]
  constructor
  · rintro ⟨⟨slot, f⟩, member, rfl⟩
    exact ⟨slot, mem_live.mp member⟩
  · rintro ⟨slot, member⟩
    exact ⟨(slot, e), mem_live.mpr member, rfl⟩

theorem length_live_le (cells : List (Cell E)) : (live cells).length ≤ cells.length :=
  List.length_filterMap_le _ _

/-! ### What a write must leave alone -/

variable {c}

theorem decodeSlot_congr {page page' : Page} {off : Nat}
    (same : ∀ i, off ≤ i → i < off + 4 → page'.byte i = page.byte i) :
    decodeSlot page' off = decodeSlot page off := by
  have half (k : Nat) (h : k ≤ 2) : page'.getLE (off + k) 2 = page.getLE (off + k) 2 := by
    rw [Buffer.getLE, Buffer.getLE, Buffer.read_congr]
    intro i hi
    exact same _ (by omega) (by omega)
  rw [decodeSlot, decodeSlot, half 0 (by omega), half 2 (le_refl _)]

theorem SlotsAt.congr {page page' : Page} {off : Nat} {slots : List Slot}
    (h : SlotsAt page off slots)
    (same : ∀ i, off ≤ i → i < off + 4 * slots.length → page'.byte i = page.byte i) :
    SlotsAt page' off slots := by
  induction slots generalizing off with
  | nil => trivial
  | cons slot rest ih =>
    obtain ⟨here, later⟩ := h
    simp only [List.length_cons] at same
    refine ⟨?_, ih later fun i lower upper => same i (by omega) (by omega)⟩
    rw [decodeSlot_congr fun i lower upper => same i lower (by omega)]
    exact here

theorem slotsAt_append {page : Page} {off : Nat} {as bs : List Slot} :
    SlotsAt page off (as ++ bs) ↔ SlotsAt page off as ∧ SlotsAt page (off + 4 * as.length) bs := by
  induction as generalizing off with
  | nil => simp [SlotsAt]
  | cons a as ih =>
    simp only [List.cons_append, SlotsAt, ih, List.length_cons, and_assoc]
    rw [show off + 4 * (as.length + 1) = off + 4 + 4 * as.length by omega]

/-- A page that agrees on the element's own bytes still holds the element. -/
theorem Placed.congr {page page' : Page} {floor floor' : Nat} {slot : Slot} {e : E}
    (h : Placed c page floor slot e) (lower : floor' ≤ slot.elementPointer)
    (same : ∀ i, slot.elementPointer ≤ i → i < slot.elementPointer + width c e →
      page'.byte i = page.byte i) : Placed c page' floor' slot e := by
  refine ⟨lower, h.upper, ?_, h.fits, h.size⟩
  rw [← h.bytes]
  apply Buffer.read_congr
  intro i hi
  exact same _ (by omega) (by omega)

theorem CellOk.congr {page page' : Page} {floor floor' : Nat} {cell : Cell E}
    (h : CellOk c page floor cell) (lower : floor' ≤ floor)
    (same : ∀ i, floor ≤ i → i < 4096 → page'.byte i = page.byte i) :
    CellOk c page' floor' cell := by
  obtain ⟨slot, _ | e⟩ := cell
  · exact h
  · have placed : Placed c page floor slot e := h
    refine placed.congr (lower.trans placed.lower) fun i below above => ?_
    exact same i (placed.lower.trans below) (by have := placed.upper; omega)

/-- A layout only depends on the slot array and on the bytes from `floor` on. -/
theorem Layout.congr {page page' : Page} {cells : List (Cell E)} {floor : Nat}
    (h : Layout c page cells floor)
    (slots : ∀ i, headerSize ≤ i → i < headerSize + 4 * cells.length → page'.byte i = page.byte i)
    (data : ∀ i, floor ≤ i → i < 4096 → page'.byte i = page.byte i) :
    Layout c page' cells floor := by
  refine ⟨?_, fun cell member => (h.ok cell member).congr (le_refl _) data, h.room, h.top, h.apart⟩
  apply h.slots.congr
  rw [List.length_map]
  exact slots

/-! ### Reading -/

theorem Placed.notDeleted {page : Page} {floor : Nat} {slot : Slot} {e : E}
    (h : Placed c page floor slot e) : isElementDeleted slot = false := by
  have := h.upper
  simp only [isElementDeleted, beq_eq_false_iff_ne, deletedElementPointerVal]
  omega

/-- The bytes a slot claims, as a slice of the page. -/
def region (page : Page) (slot : Slot) : Slice :=
  ⟨fun i => page.byte (slot.elementPointer + i), slot.elementSize,
    frameCapacity - slot.elementPointer⟩

/-- The claimed region may run past its element, but not past the frame. -/
theorem Placed.slice {page : Page} {floor : Nat} {slot : Slot} {e : E}
    (h : Placed c page floor slot e) :
    page.slice slot.elementPointer ((slot.elementPointer + slot.elementSize) % 65536) =
      some (region page slot) := by
  obtain ⟨_, upper, _, _, size⟩ := h
  rw [Nat.mod_eq_of_lt (by omega), Page.slice, Slice.sub, if_pos]
  · simp [region]
  · simp only [frameCapacity]
    omega

theorem Placed.startsWith {page : Page} {floor : Nat} {slot : Slot} {e : E}
    (h : Placed c page floor slot e) : (region page slot).StartsWith (c.encodeElement e) := by
  obtain ⟨_, upper, bytes, fits, size⟩ := h
  refine ⟨fits, ?_, fun i hi => ?_⟩
  · simp only [region, frameCapacity]
    omega
  · have inside : i < width c e := hi
    rw [← bytes, Buffer.getD_read _ _ _ inside]
    rfl

variable [c.Lawful]

theorem Placed.readElement {page : Page} {floor : Nat} {slot : Slot} {e : E}
    (h : Placed c page floor slot e) : readElement c page slot = some e := by
  have small : width c e < 65536 := by
    have := h.upper
    omega
  simp only [SlottedPage.readElement, h.slice, bind, Option.bind]
  exact ElementCodec.Lawful.decode_encode e _ small h.startsWith

theorem readSlot_eq (page : Page) (off : Nat) (h : off + 4 ≤ frameCapacity) :
    readSlot page off = some (decodeSlot page off) := by
  have sliced : page.slice off (off + slotSize) =
      some ⟨fun i => page.byte (off + i), off + slotSize - off, frameCapacity - off⟩ := by
    rw [Page.slice, Slice.sub, if_pos]
    exact ⟨by omega, h⟩
  rw [readSlot, sliced]
  rfl

/-- The slot loop of `getAllSlotsAndElements` yields the live cells. -/
theorem readSlots_eq {page : Page} {floor off : Nat} {cells : List (Cell E)}
    (slots : SlotsAt page off (cells.map Prod.fst)) (ok : ∀ cell ∈ cells, CellOk c page floor cell)
    (inside : off + 4 * cells.length ≤ 4096) :
    readSlots c page cells.length off = some (live cells) := by
  induction cells generalizing off with
  | nil => rfl
  | cons cell cells ih =>
    simp only [List.map_cons, SlotsAt, List.length_cons] at slots inside
    have rest := ih slots.2 (fun x hx => ok x (by simp [hx])) (by omega)
    have here := ok cell (by simp)
    obtain ⟨slot, _ | e⟩ := cell
    · -- a deleted slot
      have pointer : slot.elementPointer = deletedElementPointerVal := here
      have deleted : isElementDeleted slot = true := by simp [isElementDeleted, pointer]
      simp only [List.length_cons, readSlots, readSlot_eq page off (by simp [frameCapacity]; omega),
        slots.1, bind, Option.bind, deleted, if_true, live_cons_dead]
      exact rest
    · have placed : Placed c page floor slot e := here
      simp only [List.length_cons, readSlots, readSlot_eq page off (by simp [frameCapacity]; omega),
        slots.1, bind, Option.bind, placed.notDeleted, placed.readElement, rest, live_cons_some,
        Bool.false_eq_true, if_false]

theorem Layout.getAll {page : Page} {cells : List (Cell E)} {floor : Nat}
    (h : Layout c page cells floor) (count : (decodePageHeader page).numSlots = cells.length) :
    getAllSlotsAndElements c page = some (live cells) := by
  rw [getAllSlotsAndElements, count]
  exact readSlots_eq h.slots h.ok (h.room.trans h.top)

/-! ### Searching -/

variable (c) in
/-- `linearSearch` on the cells from offset `off` on. -/
def searchCells (key : Bytes) : List (Cell E) → Nat → SearchResult
  | [], _ => .missing
  | (_, none) :: rest, off => searchCells key rest (off + 4)
  | (slot, some e) :: rest, off =>
    match compareBytes (c.key e) key with
    | .eq => .equal off slot
    | .gt => .greater off slot
    | .lt => searchCells key rest (off + 4)

theorem searchLoop_eq {page : Page} {floor off : Nat} {cells : List (Cell E)} (key : Bytes)
    (slots : SlotsAt page off (cells.map Prod.fst)) (ok : ∀ cell ∈ cells, CellOk c page floor cell)
    (inside : off + 4 * cells.length ≤ 4096) :
    searchLoop c page key cells.length off = some (searchCells c key cells off) := by
  induction cells generalizing off with
  | nil => rfl
  | cons cell cells ih =>
    simp only [List.map_cons, SlotsAt, List.length_cons] at slots inside
    have rest := ih slots.2 (fun x hx => ok x (by simp [hx])) (by omega)
    have here := ok cell (by simp)
    have read := readSlot_eq page off (by simp only [frameCapacity]; omega)
    obtain ⟨slot, _ | e⟩ := cell
    · have pointer : slot.elementPointer = deletedElementPointerVal := here
      have deleted : isElementDeleted slot = true := by simp [isElementDeleted, pointer]
      simp only [List.length_cons, searchLoop, read, slots.1, bind, Option.bind, deleted, if_true,
        searchCells]
      exact rest
    · have placed : Placed c page floor slot e := here
      simp only [List.length_cons, searchLoop, read, slots.1, bind, Option.bind,
        placed.notDeleted, placed.readElement, rest, searchCells, Bool.false_eq_true, if_false]
      cases compareBytes (c.key e) key <;> rfl

theorem Layout.linearSearch {page : Page} {cells : List (Cell E)} {floor : Nat}
    (h : Layout c page cells floor) (count : (decodePageHeader page).numSlots = cells.length)
    (key : Bytes) :
    linearSearch c page key = some (searchCells c key cells headerSize) := by
  rw [SlottedPage.linearSearch, count]
  exact searchLoop_eq key h.slots h.ok (h.room.trans h.top)

omit [c.Lawful] in
/-- The search stops at the first cell that is not smaller. -/
theorem searchCells_equal (key : Bytes) {pre post : List (Cell E)} {slot : Slot} {e : E}
    (below : ∀ x ∈ elements pre, c.key x < key) (same : c.key e = key) (off : Nat) :
    searchCells c key (pre ++ (slot, some e) :: post) off = .equal (off + 4 * pre.length) slot := by
  induction pre generalizing off with
  | nil =>
    have result : compareBytes (c.key e) key = .eq := by simpa using same
    simp [searchCells, result]
  | cons cell pre ih =>
    have shift : off + 4 + 4 * pre.length = off + 4 * (pre.length + 1) := by omega
    obtain ⟨s, _ | x⟩ := cell
    · rw [List.cons_append, searchCells, ih (fun y hy => below y (by simpa using hy)), shift,
        List.length_cons]
    · have result : compareBytes (c.key x) key = .lt := by simpa using below x (by simp)
      simp only [List.cons_append, searchCells, result, List.length_cons]
      rw [ih (fun y hy => below y (by simp [hy])), shift]

omit [c.Lawful] in
/-- A search ends behind smaller keys: at the end of the cells, at the key, or at a greater one. -/
theorem searchCells_cases (key : Bytes) (cells : List (Cell E)) (off : Nat) :
    (searchCells c key cells off = .missing ∧ ∀ x ∈ elements cells, c.key x < key) ∨
    ∃ pre slot e post, cells = pre ++ (slot, some e) :: post ∧
      (∀ x ∈ elements pre, c.key x < key) ∧
      (c.key e = key ∧ searchCells c key cells off = .equal (off + 4 * pre.length) slot ∨
        key < c.key e ∧ searchCells c key cells off = .greater (off + 4 * pre.length) slot) := by
  induction cells generalizing off with
  | nil => exact .inl ⟨rfl, by simp⟩
  | cons cell cells ih =>
    have shift (n : Nat) : off + 4 + 4 * n = off + 4 * (n + 1) := by omega
    -- a cell that the search passes goes to the front
    have passed (s : Slot) (x : Option E) (small : ∀ y ∈ x, c.key y < key)
        (step : searchCells c key ((s, x) :: cells) off = searchCells c key cells (off + 4)) :
        (searchCells c key ((s, x) :: cells) off = .missing ∧
          ∀ y ∈ elements ((s, x) :: cells), c.key y < key) ∨
        ∃ pre slot e post, (s, x) :: cells = pre ++ (slot, some e) :: post ∧
          (∀ y ∈ elements pre, c.key y < key) ∧
          (c.key e = key ∧ searchCells c key ((s, x) :: cells) off =
              .equal (off + 4 * pre.length) slot ∨
            key < c.key e ∧ searchCells c key ((s, x) :: cells) off =
              .greater (off + 4 * pre.length) slot) := by
      have front (rest : List (Cell E)) (smaller : ∀ y ∈ elements rest, c.key y < key) :
          ∀ y ∈ elements ((s, x) :: rest), c.key y < key := by
        cases x with
        | none => simpa using smaller
        | some x => simpa using ⟨small x rfl, smaller⟩
      rw [step]
      rcases ih (off + 4) with ⟨missing, smaller⟩ | ⟨pre, slot, e, post, rfl, below, ends⟩
      · exact .inl ⟨missing, front cells smaller⟩
      · refine .inr ⟨(s, x) :: pre, slot, e, post, rfl, front pre below, ?_⟩
        rwa [List.length_cons, ← shift]
    obtain ⟨s, _ | x⟩ := cell
    · exact passed s none (by simp) rfl
    · cases result : compareBytes (c.key x) key with
      | lt => exact passed s (some x) (by simpa using result) (by simp only [searchCells, result])
      | eq =>
        refine .inr ⟨[], s, x, cells, rfl, by simp, .inl ⟨by simpa using result, ?_⟩⟩
        simp only [searchCells, result, List.length_nil, Nat.mul_zero, Nat.add_zero]
      | gt =>
        refine .inr ⟨[], s, x, cells, rfl, by simp, .inr ⟨by simpa using result, ?_⟩⟩
        simp only [searchCells, result, List.length_nil, Nat.mul_zero, Nat.add_zero]

omit [c.Lawful] in
theorem searchCells_absent {key : Bytes} {cells : List (Cell E)}
    (absent : ∀ x ∈ elements cells, c.key x ≠ key) (off : Nat) :
    ∀ offset slot, searchCells c key cells off ≠ .equal offset slot := by
  induction cells generalizing off with
  | nil => simp [searchCells]
  | cons cell cells ih =>
    obtain ⟨s, _ | x⟩ := cell
    · exact ih (fun y hy => absent y (by simpa using hy)) (off + 4)
    · have other : compareBytes (c.key x) key ≠ .eq := by simpa using absent x (by simp)
      have later := ih (fun y hy => absent y (by simp [hy])) (off + 4)
      simp only [searchCells]
      cases result : compareBytes (c.key x) key with
      | eq => exact absurd result other
      | gt => simp
      | lt => exact later

/-! ### Scanning for the greater keys -/

variable (c) in
/-- The slot loop of `InsertSlot` on the cells. -/
def scanCells (key : Bytes) : List (Cell E) → Scan → Scan
  | [], scan => scan
  | (slot, none) :: rest, scan =>
    if scan.greaterFound then
      scanCells key rest { scan with greaterSlots := scan.greaterSlots ++ [slot] }
    else scanCells key rest scan
  | (slot, some e) :: rest, scan =>
    match compareBytes (c.key e) key with
    | .gt => scanCells key rest
      { scan with
        greaterSlots := scan.greaterSlots ++ [slot]
        greaterFound := true
        greaterElement := if scan.greaterFound then scan.greaterElement else some slot }
    | .lt => scanCells key rest { scan with smallerElement := some slot }
    | .eq => scanCells key rest scan

theorem scanSlots_eq {page : Page} {floor off : Nat} {cells : List (Cell E)} (key : Bytes)
    (slots : SlotsAt page off (cells.map Prod.fst)) (ok : ∀ cell ∈ cells, CellOk c page floor cell)
    (inside : off + 4 * cells.length ≤ 4096) (scan : Scan) :
    scanSlots c page key cells.length off scan = some (scanCells c key cells scan) := by
  induction cells generalizing off scan with
  | nil => rfl
  | cons cell cells ih =>
    simp only [List.map_cons, SlotsAt, List.length_cons] at slots inside
    have rest := ih slots.2 (fun x hx => ok x (by simp [hx])) (by omega)
    have here := ok cell (by simp)
    have read := readSlot_eq page off (by simp only [frameCapacity]; omega)
    obtain ⟨slot, _ | e⟩ := cell
    · have pointer : slot.elementPointer = deletedElementPointerVal := here
      have deleted : isElementDeleted slot = true := by simp [isElementDeleted, pointer]
      simp only [List.length_cons, scanSlots, read, slots.1, bind, Option.bind, deleted, if_true,
        scanCells]
      split
      · exact rest _
      · exact rest _
    · have placed : Placed c page floor slot e := here
      simp only [List.length_cons, scanSlots, read, slots.1, bind, Option.bind,
        placed.notDeleted, placed.readElement, rest, scanCells, Bool.false_eq_true, if_false]
      cases compareBytes (c.key e) key <;> rfl

omit [c.Lawful] in
/-- Where a new key belongs: behind every live key that is not greater, and right in front
of the first one that is. Deleted cells before that point stay in front. -/
theorem exists_cut (key : Bytes) (cells : List (Cell E))
    (sorted : (elements cells).Pairwise fun a b => c.key a ≤ c.key b) :
    ∃ pre post, cells = pre ++ post ∧ (∀ x ∈ elements pre, c.key x ≤ key) ∧
      (∀ x ∈ elements post, key < c.key x) ∧
      (post = [] ∨ ∃ slot e rest, post = (slot, some e) :: rest) := by
  induction cells with
  | nil => exact ⟨[], [], rfl, by simp, by simp, .inl rfl⟩
  | cons cell cells ih =>
    obtain ⟨slot, _ | e⟩ := cell
    · obtain ⟨pre, post, rfl, below, above, front⟩ := ih (by simpa using sorted)
      exact ⟨(slot, none) :: pre, post, rfl, by simpa using below, above, front⟩
    · rw [elements_cons_some, List.pairwise_cons] at sorted
      by_cases greater : key < c.key e
      · refine ⟨[], (slot, some e) :: cells, rfl, by simp, ?_, .inr ⟨slot, e, cells, rfl⟩⟩
        intro x hx
        rw [elements_cons_some] at hx
        rcases List.mem_cons.mp hx with rfl | tail
        · exact greater
        · exact greater.trans_le (sorted.1 x tail)
      · obtain ⟨pre, post, rfl, below, above, front⟩ := ih sorted.2
        refine ⟨(slot, some e) :: pre, post, rfl, ?_, above, front⟩
        intro x hx
        rw [elements_cons_some] at hx
        rcases List.mem_cons.mp hx with rfl | tail
        · exact not_lt.mp greater
        · exact below x tail

omit [c.Lawful] in
/-- Past the first greater key every slot is collected. -/
private theorem scanCells_found {key : Bytes} {cells : List (Cell E)}
    (above : ∀ x ∈ elements cells, key < c.key x) {scan : Scan} (found : scan.greaterFound = true) :
    scanCells c key cells scan =
      { scan with greaterSlots := scan.greaterSlots ++ cells.map Prod.fst } := by
  induction cells generalizing scan with
  | nil => simp [scanCells]
  | cons cell cells ih =>
    obtain ⟨slot, _ | e⟩ := cell
    · rw [scanCells, if_pos found, ih (fun x hx => above x (by simpa using hx)) (by simpa using found)]
      simp
    · have result : compareBytes (c.key e) key = .gt := by simpa using above e (by simp)
      simp only [scanCells, result, found, if_true]
      rw [ih (fun x hx => above x (by simp [hx])) (by simp)]
      simp

variable (c) in
/-- The slot of the last live cell whose key is smaller. -/
def lastSmaller (key : Bytes) (cells : List (Cell E)) : Option Slot :=
  ((live cells).filter fun entry => decide (c.key entry.2 < key)).getLast?.map Prod.fst

omit [c.Lawful] in
private theorem scanCells_below {key : Bytes} {cells : List (Cell E)}
    (below : ∀ x ∈ elements cells, c.key x ≤ key) {scan : Scan} (notFound : scan.greaterFound = false) :
    scanCells c key cells scan =
      { scan with smallerElement := (lastSmaller c key cells).or scan.smallerElement } := by
  induction cells generalizing scan with
  | nil => simp [scanCells, lastSmaller]
  | cons cell cells ih =>
    obtain ⟨slot, _ | e⟩ := cell
    · have rest := ih (fun x hx => below x (by simpa using hx)) notFound
      simp only [scanCells, notFound, Bool.false_eq_true, if_false, rest, lastSmaller, live_cons_dead]
    · have rest (s : Scan) (h : s.greaterFound = false) := ih (fun x hx => below x (by simp [hx])) h
      rcases (below e (by simp)).lt_or_eq with less | same
      · have result : compareBytes (c.key e) key = .lt := by simpa using less
        simp only [scanCells, result]
        rw [rest { scan with smallerElement := some slot } notFound]
        simp only [lastSmaller, live_cons_some, List.filter_cons, less, decide_true, if_true,
          List.getLast?_cons, Option.map_some, Option.some_or]
        cases ((live cells).filter fun entry => decide (c.key entry.2 < key)).getLast? <;> simp
      · have result : compareBytes (c.key e) key = .eq := by simpa using same
        simp only [scanCells, result]
        rw [rest _ notFound]
        simp [lastSmaller, same]

omit [c.Lawful] in
/-- What the scan finds on cells cut at the key. -/
theorem scanCells_cut {key : Bytes} {pre post : List (Cell E)} {new : Slot}
    (below : ∀ x ∈ elements pre, c.key x ≤ key) (above : ∀ x ∈ elements post, key < c.key x)
    (front : post = [] ∨ ∃ slot e rest, post = (slot, some e) :: rest) :
    scanCells c key (pre ++ post) ⟨[new], false, none, none⟩ =
      ⟨new :: post.map Prod.fst, !post.isEmpty, post.head?.map Prod.fst,
        lastSmaller c key pre⟩ := by
  have split (scan : Scan) : scanCells c key (pre ++ post) scan =
      scanCells c key post (scanCells c key pre scan) := by
    induction pre generalizing scan with
    | nil => rfl
    | cons cell pre ih =>
      have ih' := ih fun x hx => below x (by
        obtain ⟨slot, _ | e⟩ := cell
        · simpa using hx
        · simp [hx])
      obtain ⟨slot, _ | e⟩ := cell
      · simp only [List.cons_append, scanCells]
        split <;> exact ih' _
      · simp only [List.cons_append, scanCells]
        cases compareBytes (c.key e) key <;> exact ih' _
  rw [split, scanCells_below below rfl]
  rcases front with rfl | ⟨slot, e, rest, rfl⟩
  · simp [scanCells]
  · have result : compareBytes (c.key e) key = .gt := by simpa using above e (by simp)
    simp only [scanCells, result]
    rw [scanCells_found (fun x hx => above x (by simp [hx])) rfl]
    simp

end SlottedPage

end CambiumDB
