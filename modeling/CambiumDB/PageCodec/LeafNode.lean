import CambiumDB.PageCodec.SlottedPage

/-! # `pagecodec/leaf_node_codec.go` -/

namespace CambiumDB

open ByteBuffer HeaderCodec SlotCodec SlottedPage

structure LeafNodeElement where
  key : Bytes
  value : Bytes
  deriving DecidableEq

namespace LeafNodeCodec

def decodeElement (elementBytes : Slice) : Option LeafNodeElement := do
  -- `pointer` is a `uint16`, so it wraps
  let keyLength ← elementBytes.getLE 2
  let pointer := (2 + keyLength) % 65536
  let key ← elementBytes.sub 2 pointer
  let rest ← elementBytes.drop pointer
  let valueLength ← rest.getLE 2
  let pointer := (pointer + 2) % 65536
  let value ← elementBytes.sub pointer ((pointer + valueLength) % 65536)
  some ⟨key.toBytes, value.toBytes⟩

def encodeElement (element : LeafNodeElement) : Bytes :=
  leBytes 2 element.key.length ++ element.key ++
    leBytes 2 element.value.length ++ element.value

def calculateElementSize (element : LeafNodeElement) : Nat :=
  (2 + element.key.length + 2 + element.value.length) % 65536

def elementCodec : ElementCodec LeafNodeElement where
  key := LeafNodeElement.key
  encodeElement := encodeElement
  decodeElement := decodeElement
  calculateElementSize := calculateElementSize

def getAllSlotsAndElements (page : Page) : Option (List (Slot × LeafNodeElement)) :=
  SlottedPage.getAllSlotsAndElements elementCodec page

def putAllSlotsAndElements (page : Page) (entries : List (Slot × LeafNodeElement)) :
    Option Page :=
  SlottedPage.putAllSlotsAndElements elementCodec page entries

def compact (page : Page) : Option Page := SlottedPage.compact elementCodec page

def encodeAllElements (page : Page) : Option (Nat × Bytes) :=
  SlottedPage.encodeAllElements elementCodec page

def decodeAllSlotsAndElements (payload : Bytes) : Option (List (Slot × LeafNodeElement)) :=
  SlottedPage.decodeAllSlotsAndElements elementCodec payload

def setNodeType (page : Page) : Page := HeaderCodec.setNodeType page true

def setLSN (page : Page) (lsn : UInt64) : Page := HeaderCodec.setLSN page lsn

def getLSN (page : Page) : UInt64 := HeaderCodec.getLSN page

def setNextLeafNodePageId (page : Page) (id : UInt64) : Page :=
  HeaderCodec.setNextLeafNodePageId page id

def getNextLeafNodePageId (page : Page) : UInt64 := HeaderCodec.getNextLeafNodePageId page

/-- The first live element with the key, if any. -/
def findValue (page : Page) (key : Bytes) : Option (Option Bytes) := do
  let entries ← getAllSlotsAndElements page
  some ((entries.find? fun entry => compareBytes entry.2.key key == .eq).map
    fun entry => entry.2.value)

/-- Writes the value over the old one; `elementBytes` is the region of `slot`. -/
def setValueInElement (page : Page) (slot : Slot) (value : Bytes) : Option Page := do
  let elementBytes ← page.slice slot.elementPointer
    ((slot.elementPointer + slot.elementSize) % 65536)
  let keySize ← elementBytes.getLE 2
  let pointer := 2 + keySize
  let field ← elementBytes.drop pointer
  let _ ← field.getLE 2
  let page := page.putLE (slot.elementPointer + pointer) 2 value.length
  -- `copy` stops at the end of `elementBytes`
  some (page.write (slot.elementPointer + pointer + 2)
    (value.take (elementBytes.len - (pointer + 2))))

def hasEnoughSpaceToInsertElement (page : Page) (key value : Bytes) : Option (Bool × Page) :=
  -- the four bytes of the slot are not part of the requirement
  hasEnoughSpace elementCodec page (2 + key.length + 2 + value.length)

def hasEnoughSpaceToUpdateValue (page : Page) (key oldValue newValue : Bytes) :
    Option (Bool × Page) :=
  if newValue.length ≤ oldValue.length then some (true, page)
  else hasEnoughSpaceToInsertElement page key newValue

/-- The slot and the element that `linearSearch` stopped at are used whether or not the
key was equal. -/
def setValue (page : Page) (key value : Bytes) : Option Page := do
  match ← linearSearch elementCodec page key with
  | .missing => none
  | .equal offset slot | .greater offset slot =>
    let oldElement ← readElement elementCodec page slot
    let header := decodePageHeader page
    if value.length ≤ oldElement.value.length then
      -- the slot's `elementSize` stays as it was
      let page ← setValueInElement page slot value
      let page := setGarbageSize page
        ((header.garbageSize + (oldElement.value.length - value.length)) % 65536)
      some (updateCRC page)
    else
      let newElement : LeafNodeElement := ⟨key, value⟩
      let (page, freeSpaceEnd) ← appendElement elementCodec page header.freeSpaceEnd newElement
      let page := setFreeSpaceEnd page freeSpaceEnd
      let page := setElementPointer page offset freeSpaceEnd
      let page := setElementSize page offset (calculateElementSize newElement)
      let page := setGarbageSize page
        ((header.garbageSize + calculateElementSize oldElement) % 65536)
      some (updateCRC page)

def insertSlot (page : Page) (newSlot : Slot) (key : Bytes) : Option (Page × Nat) := do
  let (page, freeSpaceBegin, _) ← shiftSlots elementCodec page newSlot key
  some (page, freeSpaceBegin)

def insertElement (page : Page) (key value : Bytes) : Option (Bool × Page) :=
  SlottedPage.insertElement elementCodec
    (fun page newSlot element => insertSlot page newSlot element.key) page
    (2 + key.length + 2 + value.length) ⟨key, value⟩

def deleteElement (page : Page) (key : Bytes) : Option (Bool × Page) :=
  SlottedPage.deleteElement elementCodec page key

def findSplitNodeIndex (leftNode : Page) : Option Nat :=
  SlottedPage.findSplitNodeIndex elementCodec leftNode

/-- The element at `splitIndex` moves to the right node and its key moves up. -/
def splitNode (leftNode rightNode : Page) (rightNodePageId : UInt64) (splitIndex : Nat) :
    Option (Page × Page × Bytes) :=
  SlottedPage.splitNode elementCodec 0 leftNode rightNode rightNodePageId splitIndex

/-- `slots` has the live slots only, so an index past them is out of range. -/
def isSlotDeleted (page : Page) (index : Nat) : Option Bool := do
  let entries ← getAllSlotsAndElements page
  let entry ← entries[index]?
  some (SlotCodec.isElementDeleted entry.1)

/-- All slots, deleted ones included. -/
def getNumSlots (page : Page) : Nat := (HeaderCodec.decodePageHeader page).numSlots

def getValueCorrespondingToSlot (page : Page) (index : Nat) : Option Bytes := do
  let entries ← getAllSlotsAndElements page
  let entry ← entries[index]?
  some entry.2.value

end LeafNodeCodec

end CambiumDB
