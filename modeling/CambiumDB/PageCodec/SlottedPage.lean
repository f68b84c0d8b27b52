import CambiumDB.PageCodec.Slot

/-!
# The slotted page shared by the two node codecs

`leaf_node_codec.go` and `internal_node_codec.go` repeat the same page routines over
two element layouts. They are written once here, over an `ElementCodec`; the two codecs
instantiate them under the source's names.

`none` stands for a run-time panic: a slice expression or an index out of range.
-/

namespace CambiumDB

open ByteBuffer HeaderConfig HeaderCodec SlotCodec

/-- What the page routines use of an element layout. -/
structure ElementCodec (E : Type) where
  key : E → Bytes
  encodeElement : E → Bytes
  decodeElement : Slice → Option E
  calculateElementSize : E → Nat

namespace SlottedPage

variable {E : Type} (c : ElementCodec E)

/-- `decodeElement(page[slot.elementPointer : slot.elementPointer+slot.elementSize])`. -/
def readElement (page : Page) (slot : Slot) : Option E := do
  let elementBytes ← page.slice slot.elementPointer
    ((slot.elementPointer + slot.elementSize) % 65536)
  c.decodeElement elementBytes

/-- `slotBytes := page[pointer : pointer+4]`, decoded. -/
def readSlot (page : Page) (pointer : Nat) : Option Slot := do
  let _ ← page.slice pointer (pointer + slotSize)
  some (decodeSlot page pointer)

/-- The slot loop of `getAllSlotsAndElements`: deleted slots are skipped. -/
def readSlots (page : Page) : Nat → Nat → Option (List (Slot × E))
  | 0, _ => some []
  | n + 1, pointer => do
    let slot ← readSlot page pointer
    if isElementDeleted slot then readSlots page n (pointer + 4)
    else
      let element ← readElement c page slot
      let rest ← readSlots page n (pointer + 4)
      some ((slot, element) :: rest)

/-- The two parallel lists of the source, as one list of pairs. -/
def getAllSlotsAndElements (page : Page) : Option (List (Slot × E)) :=
  readSlots c page (decodePageHeader page).numSlots headerSize

/-- The bytes end just below `freeSpaceEnd`; a negative start is out of range. -/
def appendElement (page : Page) (freeSpaceEnd : Nat) (element : E) : Option (Page × Nat) :=
  let elementBytes := c.encodeElement element
  if elementBytes.length ≤ freeSpaceEnd ∧ freeSpaceEnd ≤ frameCapacity then
    some (page.write (freeSpaceEnd - elementBytes.length) elementBytes,
      (freeSpaceEnd + 65536 - elementBytes.length % 65536) % 65536)
  else none

/-- The loop of `PutAllSlotsAndElements`. Every slot keeps its `elementSize`. -/
def putLoop : List (Slot × E) → Page → Nat → Nat → Option (Page × Nat × Nat)
  | [], page, freeSpaceBegin, freeSpaceEnd => some (page, freeSpaceBegin, freeSpaceEnd)
  | (slot, element) :: rest, page, freeSpaceBegin, freeSpaceEnd => do
    let (page, freeSpaceEnd) ← appendElement c page freeSpaceEnd element
    let (page, freeSpaceBegin) ←
      appendSlot page freeSpaceBegin { slot with elementPointer := freeSpaceEnd }
    putLoop rest page freeSpaceBegin freeSpaceEnd

def putAllSlotsAndElements (page : Page) (entries : List (Slot × E)) : Option Page := do
  let (page, freeSpaceBegin, freeSpaceEnd) ← putLoop c entries page headerSize 4096
  let page := setNumSlots page entries.length
  let page := setGarbageSize page 0
  let page := setFreeSpaceBegin page freeSpaceBegin
  let page := setFreeSpaceEnd page freeSpaceEnd
  some (setIsPageFilled page true)

def compact (page : Page) : Option Page := do
  let entries ← getAllSlotsAndElements c page
  putAllSlotsAndElements c page entries

/-- What `linearSearch` returns: the offset of a slot and the slot, with the result of the
last comparison, or nothing when every live key is smaller. -/
inductive SearchResult where
  | equal (offset : Nat) (slot : Slot)
  | greater (offset : Nat) (slot : Slot)
  | missing
  deriving DecidableEq

def searchLoop (page : Page) (key : Bytes) : Nat → Nat → Option SearchResult
  | 0, _ => some .missing
  | n + 1, pointer => do
    let slot ← readSlot page pointer
    if isElementDeleted slot then searchLoop page key n (pointer + 4)
    else
      let element ← readElement c page slot
      match compareBytes (c.key element) key with
      | .eq => some (.equal pointer slot)
      | .gt => some (.greater pointer slot)
      | .lt => searchLoop page key n (pointer + 4)

def linearSearch (page : Page) (key : Bytes) : Option SearchResult :=
  searchLoop c page key (decodePageHeader page).numSlots headerSize

def deleteElement (page : Page) (key : Bytes) : Option (Bool × Page) := do
  match ← linearSearch c page key with
  | .equal offset slot =>
    let page := setElementPointer page offset deletedElementPointerVal
    let header := decodePageHeader page
    -- `len(elementBytes)` is the slot's `elementSize`
    let page := setGarbageSize page ((header.garbageSize + (slot.elementSize + slotSize)) % 65536)
    some (true, updateCRC page)
  | _ => some (false, page)

/-- `HasEnoughSpaceToInsertElement` after the space has been worked out: a page that
compaction would help is compacted on the way. -/
def hasEnoughSpace (page : Page) (totalSpaceRequired : Nat) : Option (Bool × Page) :=
  if isAdequate page totalSpaceRequired then some (true, page)
  else if shouldCompact page totalSpaceRequired then do
    let page ← compact c page
    some (true, page)
  else some (false, page)

/-- What the slot loop of `InsertSlot` collects. -/
structure Scan where
  greaterSlots : List Slot
  greaterFound : Bool
  greaterElement : Option Slot
  smallerElement : Option Slot

def scanSlots (page : Page) (key : Bytes) : Nat → Nat → Scan → Option Scan
  | 0, _, scan => some scan
  | n + 1, pointer, scan => do
    let existingSlot ← readSlot page pointer
    if isElementDeleted existingSlot then
      -- a deleted slot after the first greater key is written back with the others
      if scan.greaterFound then
        scanSlots page key n (pointer + 4)
          { scan with greaterSlots := scan.greaterSlots ++ [existingSlot] }
      else scanSlots page key n (pointer + 4) scan
    else
      let existingElement ← readElement c page existingSlot
      match compareBytes (c.key existingElement) key with
      | .gt =>
        scanSlots page key n (pointer + 4)
          { scan with
            greaterSlots := scan.greaterSlots ++ [existingSlot]
            greaterFound := true
            greaterElement :=
              if scan.greaterFound then scan.greaterElement else some existingSlot }
      | .lt => scanSlots page key n (pointer + 4) { scan with smallerElement := some existingSlot }
      | .eq => scanSlots page key n (pointer + 4) scan

def appendSlots : List Slot → Page → Nat → Option (Page × Nat)
  | [], page, freeSpaceBegin => some (page, freeSpaceBegin)
  | slot :: rest, page, freeSpaceBegin => do
    let (page, freeSpaceBegin) ← appendSlot page freeSpaceBegin slot
    appendSlots rest page freeSpaceBegin

/-- The part of `InsertSlot` that both codecs share: shift the slots of greater keys by
one and write the new slot in front of them. -/
def shiftSlots (page : Page) (newSlot : Slot) (key : Bytes) : Option (Page × Nat × Scan) := do
  let header := decodePageHeader page
  let scan ← scanSlots c page key header.numSlots headerSize ⟨[newSlot], false, none, none⟩
  let numSlotsGreater := scan.greaterSlots.length - 1
  let freeSpaceBegin := (header.freeSpaceBegin + 65536 - numSlotsGreater * slotSize % 65536) % 65536
  let (page, freeSpaceBegin) ← appendSlots scan.greaterSlots page freeSpaceBegin
  some (page, freeSpaceBegin, scan)

/-- `InsertElement`, over the codec's own `InsertSlot`. The checksum is updated last
(`defer`), also when the element is refused. -/
def insertElement (insertSlot : Page → Slot → E → Option (Page × Nat)) (page : Page)
    (elementSpaceRequired : Nat) (newElement : E) : Option (Bool × Page) := do
  let spaceRequired := elementSpaceRequired + slotSize
  let adequate := isAdequate page spaceRequired
  if !adequate && !shouldCompact page spaceRequired then some (false, updateCRC page)
  else
    let page ← if adequate then some page else compact c page
    let header := decodePageHeader page
    let (page, freeSpaceEnd) ← appendElement c page header.freeSpaceEnd newElement
    let newSlot : Slot := ⟨c.calculateElementSize newElement, freeSpaceEnd⟩
    let (page, freeSpaceBegin) ← insertSlot page newSlot newElement
    let page := setFreeSpaceEnd page freeSpaceEnd
    let page := setFreeSpaceBegin page freeSpaceBegin
    let page := setNumSlots page (header.numSlots + 1)
    let page := setIsPageFilled page true
    some (true, updateCRC page)

/-- The loop of `FindSplitNodeIndex`, on the slots from `index` on. -/
def splitLoop (total : Nat) : List Slot → Nat → Nat → Nat
  | [], _, index => index
  | slot :: rest, left, index =>
    if left ≤ total / 2 then splitLoop total rest ((left + slot.elementSize) % 65536) (index + 1)
    else index

def findSplitNodeIndex (leftNode : Page) : Option Nat := do
  let entries ← getAllSlotsAndElements c leftNode
  let slots := entries.map Prod.fst
  some (splitLoop (getTotalDataRegionSize slots) slots 0 0)

/-- `SplitNode`: `skip` is 0 when the middle element moves to the right node and 1 when
it only moves up. -/
def splitNode (skip : Nat) (leftNode rightNode : Page) (rightNodePageId : UInt64)
    (splitIndex : Nat) : Option (Page × Page × Bytes) := do
  let leftNodeHeader := decodePageHeader leftNode
  let entries ← getAllSlotsAndElements c leftNode
  let middle ← entries[splitIndex]?
  let extraKey := c.key middle.2
  let leftNode ← putAllSlotsAndElements c leftNode (entries.take splitIndex)
  let rightNode ← putAllSlotsAndElements c rightNode (entries.drop (splitIndex + skip))
  let rightNode := setNextLeafNodePageId rightNode leftNodeHeader.nextLeafNodePageId
  let leftNode := setNextLeafNodePageId leftNode rightNodePageId
  some (updateCRC leftNode, updateCRC rightNode, extraKey)

/-- `EncodeAllElements`: the number of elements, then each with its length in front. -/
def encodeAllElements (page : Page) : Option (Nat × Bytes) := do
  let entries ← getAllSlotsAndElements c page
  let data := entries.flatMap fun entry =>
    leBytes 2 (c.encodeElement entry.2).length ++ c.encodeElement entry.2
  some (entries.length, leBytes 2 entries.length ++ data)

def decodeLoop : Nat → Slice → Option (List (Slot × E))
  | 0, _ => some []
  | n + 1, payload => do
    let elementSize ← payload.getLE 2
    let payload ← payload.drop 2
    let elementBytes ← payload.sub 0 elementSize
    let element ← c.decodeElement elementBytes
    let payload ← payload.drop elementSize
    let rest ← decodeLoop n payload
    some ((⟨elementSize, 0⟩, element) :: rest)

def decodeAllSlotsAndElements (payload : Bytes) : Option (List (Slot × E)) := do
  let payload := Slice.ofBytes payload
  let elementListSize ← payload.getLE 2
  let payload ← payload.drop 2
  decodeLoop c elementListSize payload

end SlottedPage

end CambiumDB
