import Mathlib.Algebra.Order.BigOperators.Group.List
import CambiumDB.PageCodec.InternalSpec
import CambiumDB.PageCodec.Split

/-!
# The payload of a split

A split logs all live elements of its page, each behind its encoded length. They are read back as
they were, and any run of them is laid out again from both ends of a page: slots upwards from the
header, elements downwards from the end, without meeting.
-/

namespace CambiumDB

open ByteBuffer HeaderConfig HeaderCodec

namespace SlottedPage

variable {E : Type} (c : ElementCodec E)

/-- The page is laid out as slots and elements, in whatever order and with whatever slack. -/
def LaidOut (page : Page) : Prop := ∃ cells floor garbage, Repr c page cells floor garbage

/-- The page holds these entries and nothing else, its header says so, and every element lies
behind the slots. -/
structure PutBack (page : Page) (entries : List (Slot × E)) : Prop where
  live : ∃ slots, getAllSlotsAndElements c page = some slots ∧
    slots.map Prod.snd = entries.map Prod.snd ∧
    slots.map (fun entry => entry.1.elementSize) = entries.map (fun entry => entry.1.elementSize) ∧
    ∀ entry ∈ slots, headerSize + 4 * entries.length ≤ entry.1.elementPointer ∧
      entry.1.elementPointer + width c entry.2 ≤ 4096
  garbageSize : (decodePageHeader page).garbageSize = 0
  freeSpaceBegin : (decodePageHeader page).freeSpaceBegin = headerSize + 4 * entries.length
  freeSpaceEnd : (decodePageHeader page).freeSpaceEnd =
    4096 - dataSize c (entries.map Prod.snd)
  disjoint : headerSize + 4 * entries.length + dataSize c (entries.map Prod.snd) ≤ 4096

variable {c}

theorem sizes_live_packed (stop : Nat) (entries : List (Slot × E)) :
    (live (packed c stop entries)).map (fun entry => entry.1.elementSize) =
      entries.map fun entry => entry.1.elementSize := by
  induction entries generalizing stop with
  | nil => rfl
  | cons entry rest ih => simp [packed, ih]

/-- An element with the slot that the record's list gives it. -/
def listedEntry (c : ElementCodec E) (e : E) : Slot × E := (⟨width c e, 0⟩, e)

theorem map_listedEntry (es : List E) : (es.map (listedEntry c)).map Prod.snd = es := by
  rw [List.map_map]
  exact List.map_id es

/-- Any page can be overwritten with a part of the elements of another one. -/
theorem putAll_part {source : Page} {cells : List (Cell E)} {floor garbage : Nat}
    (h : Repr c source cells floor garbage) {part : List E} (sub : part.Sublist (elements cells))
    (page : Page) :
    ∃ put, putAllSlotsAndElements c page (part.map (listedEntry c)) = some put ∧
      Repr c put (packed c 4096 (part.map (listedEntry c)))
        (4096 - dataSize c ((part.map (listedEntry c)).map Prod.snd)) 0 ∧ Keeps page put := by
  apply putAll_spec
  · intro entry member
    obtain ⟨e, inside, rfl⟩ := List.mem_map.1 member
    obtain ⟨slot, inCells⟩ := mem_elements.mp (sub.subset inside)
    have placed : Placed c source floor slot e := h.layout.ok _ inCells
    exact ⟨le_refl _, placed.fits.trans placed.size⟩
  · have room := h.layout.repack
    have count : (live cells).length = (elements cells).length := by
      rw [← live_map_snd, List.length_map]
    have fewer := sub.length_le
    have smaller : dataSize c part ≤ dataSize c (elements cells) :=
      (sub.map (width c)).sum_le_sum fun _ _ => Nat.zero_le _
    rw [map_listedEntry, List.length_map]
    omega

theorem putBack_of_repr [c.Lawful] {page : Page} {entries : List (Slot × E)}
    (repr : Repr c page (packed c 4096 entries) (4096 - dataSize c (entries.map Prod.snd)) 0)
    (room : headerSize + 4 * entries.length + dataSize c (entries.map Prod.snd) ≤ 4096) :
    PutBack c page entries := by
  refine ⟨⟨_, repr.layout.getAll repr.shape.numSlots, ?_, sizes_live_packed _ _, ?_⟩,
    repr.shape.garbageSize, ?_, repr.shape.freeSpaceEnd, room⟩
  · rw [live_map_snd, elements_packed]
  · rintro ⟨slot, e⟩ member
    have placed : Placed c page _ slot e := repr.layout.ok _ (mem_live.mp member)
    have lower := placed.lower
    exact ⟨by simp only; omega, placed.upper⟩
  · rw [repr.shape.freeSpaceBegin, length_packed]

/-- What `EncodeAllElements` writes is read back, and any run of it can be put onto any page. -/
theorem payload_roundTrip [c.Lawful] {page : Page} {es : List E} (laidOut : LaidOut c page)
    (holds : (getAllSlotsAndElements c page).map (fun entries => entries.map Prod.snd) = some es) :
    ∃ payload, encodeAllElements c page = some (es.length, payload) ∧
      decodeAllSlotsAndElements c payload = some (es.map (listedEntry c)) ∧
      ∀ before part after, es = before ++ part ++ after → ∀ target, ∃ page',
        putAllSlotsAndElements c target (part.map (listedEntry c)) = some page' ∧
        PutBack c page' (part.map (listedEntry c)) := by
  obtain ⟨cells, floor, garbage, repr⟩ := laidOut
  rw [repr.layout.getAll repr.shape.numSlots, Option.map_some, live_map_snd,
    Option.some.injEq] at holds
  subst holds
  obtain ⟨payload, encoded, decoded⟩ := decodeAll_encodeAll repr
  refine ⟨payload, encoded, decoded, fun before part after whole target => ?_⟩
  have sub : part.Sublist (elements cells) := by
    rw [whole]
    exact (List.sublist_append_right before part).trans (List.sublist_append_left _ after)
  obtain ⟨page', done, repr', _⟩ := putAll_part repr sub target
  refine ⟨page', done, putBack_of_repr repr' ?_⟩
  have room := repr'.layout.room
  rw [length_packed, headerSize] at room
  rw [headerSize]
  omega

end SlottedPage

open SlottedPage

/-- For both codecs, on every page that is laid out as slots and elements: the payload of a split
is read back as the live elements with their encoded lengths, and any run of them put onto any
page is what that page then holds. -/
theorem split_payload_roundTrip (page : Page) :
    (∀ es, LaidOut LeafNodeCodec.elementCodec page →
      (LeafNodeCodec.getAllSlotsAndElements page).map (fun entries => entries.map Prod.snd) = some es →
      ∃ payload, LeafNodeCodec.encodeAllElements page = some (es.length, payload) ∧
        LeafNodeCodec.decodeAllSlotsAndElements payload =
          some (es.map fun e => (⟨(LeafNodeCodec.encodeElement e).length, 0⟩, e)) ∧
        ∀ before part after, es = before ++ part ++ after → ∀ target, ∃ page',
          LeafNodeCodec.putAllSlotsAndElements target
            (part.map fun e => (⟨(LeafNodeCodec.encodeElement e).length, 0⟩, e)) = some page' ∧
          PutBack LeafNodeCodec.elementCodec page'
            (part.map fun e => (⟨(LeafNodeCodec.encodeElement e).length, 0⟩, e))) ∧
    ∀ es, LaidOut InternalNodeCodec.elementCodec page →
      (InternalNodeCodec.getAllSlotsAndElements page).map (fun entries => entries.map Prod.snd) =
        some es →
      ∃ payload, InternalNodeCodec.encodeAllElements page = some (es.length, payload) ∧
        InternalNodeCodec.decodeAllSlotsAndElements payload =
          some (es.map fun e => (⟨(InternalNodeCodec.encodeElement e).length, 0⟩, e)) ∧
        ∀ before part after, es = before ++ part ++ after → ∀ target, ∃ page',
          InternalNodeCodec.putAllSlotsAndElements target
            (part.map fun e => (⟨(InternalNodeCodec.encodeElement e).length, 0⟩, e)) = some page' ∧
          PutBack InternalNodeCodec.elementCodec page'
            (part.map fun e => (⟨(InternalNodeCodec.encodeElement e).length, 0⟩, e)) := by
  constructor
  · intro es laidOut holds
    exact payload_roundTrip laidOut holds
  · intro es laidOut holds
    exact payload_roundTrip laidOut holds

/-- A leaf with two entries, of which the second one is put onto a blank page. -/
theorem split_payload_of_two_entries : ∃ page payload page',
    LeafNodeCodec.encodeAllElements page = some (2, payload) ∧
    LeafNodeCodec.decodeAllSlotsAndElements payload =
      some [(⟨5, 0⟩, ⟨[1], []⟩), (⟨5, 0⟩, ⟨[2], []⟩)] ∧
    LeafNodeCodec.putAllSlotsAndElements (Buffer.zero 4096) [(⟨5, 0⟩, ⟨[2], []⟩)] = some page' ∧
    PutBack LeafNodeCodec.elementCodec page' [(⟨5, 0⟩, ⟨[2], []⟩)] := by
  have sizes : SizesOk (c := LeafNodeCodec.elementCodec)
      [(⟨5, 0⟩, ⟨[1], []⟩), (⟨5, 0⟩, ⟨[2], []⟩)] := by
    unfold SizesOk
    decide
  obtain ⟨page, _, repr, _⟩ := putAll_spec sizes (Buffer.zero 4096) (by decide)
  have holds : (LeafNodeCodec.getAllSlotsAndElements page).map (fun entries => entries.map Prod.snd) =
      some [⟨[1], []⟩, ⟨[2], []⟩] := by
    rw [LeafNodeCodec.getAll_eq repr]
    rfl
  obtain ⟨payload, encoded, decoded, puts⟩ :=
    (split_payload_roundTrip page).1 _ ⟨_, _, _, repr⟩ holds
  obtain ⟨page', done, back⟩ := puts [⟨[1], []⟩] [⟨[2], []⟩] [] rfl (Buffer.zero 4096)
  exact ⟨page, payload, page', encoded, decoded, done, back⟩

end CambiumDB
