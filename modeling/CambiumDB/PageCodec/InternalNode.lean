import CambiumDB.PageCodec.SlottedPage

/-! # `pagecodec/internal_node_codec.go` -/

namespace CambiumDB

open ByteBuffer HeaderCodec SlottedPage

structure InternalNodeElement where
  key : Bytes
  leftChildNodePageId : UInt64
  rightChildNodePageId : UInt64
  deriving DecidableEq

namespace InternalNodeCodec

def decodeElement (elementBytes : Slice) : Option InternalNodeElement := do
  let keyLength ← elementBytes.getLE 2
  let pointer := (2 + keyLength) % 65536
  let key ← elementBytes.sub 2 pointer
  let left ← elementBytes.drop pointer
  let leftChildNodePageId ← left.getLE 8
  let pointer := (pointer + 8) % 65536
  let right ← elementBytes.drop pointer
  let rightChildNodePageId ← right.getLE 8
  some ⟨key.toBytes, UInt64.ofNat leftChildNodePageId, UInt64.ofNat rightChildNodePageId⟩

def encodeElement (element : InternalNodeElement) : Bytes :=
  leBytes 2 element.key.length ++ element.key ++
    leBytes 8 element.leftChildNodePageId.toNat ++ leBytes 8 element.rightChildNodePageId.toNat

def calculateElementSize (element : InternalNodeElement) : Nat :=
  (2 + element.key.length + 8 + 8) % 65536

def elementCodec : ElementCodec InternalNodeElement where
  key := InternalNodeElement.key
  encodeElement := encodeElement
  decodeElement := decodeElement
  calculateElementSize := calculateElementSize

def getAllSlotsAndElements (page : Page) : Option (List (Slot × InternalNodeElement)) :=
  SlottedPage.getAllSlotsAndElements elementCodec page

def putAllSlotsAndElements (page : Page) (entries : List (Slot × InternalNodeElement)) :
    Option Page :=
  SlottedPage.putAllSlotsAndElements elementCodec page entries

def compact (page : Page) : Option Page := SlottedPage.compact elementCodec page

def encodeAllElements (page : Page) : Option (Nat × Bytes) :=
  SlottedPage.encodeAllElements elementCodec page

def decodeAllSlotsAndElements (payload : Bytes) : Option (List (Slot × InternalNodeElement)) :=
  SlottedPage.decodeAllSlotsAndElements elementCodec payload

def setNodeType (page : Page) : Page := HeaderCodec.setNodeType page false

def setLSN (page : Page) (lsn : UInt64) : Page := HeaderCodec.setLSN page lsn

def getLSN (page : Page) : UInt64 := HeaderCodec.getLSN page

/-- The offset of the child pointers inside the element of `slot`, once `width` bytes are
known to follow it. -/
def childOffset (page : Page) (slot : Slot) (skip width : Nat) : Option Nat := do
  let elementBytes ← page.slice slot.elementPointer
    ((slot.elementPointer + slot.elementSize) % 65536)
  let keySize ← elementBytes.getLE 2
  let field ← elementBytes.drop (2 + keySize + skip)
  let _ ← field.getLE width
  some (slot.elementPointer + (2 + keySize + skip))

def setRightChildNodePageId (page : Page) (slot : Slot) (id : UInt64) : Option Page := do
  let offset ← childOffset page slot 8 8
  some (page.putLE offset 8 id.toNat)

def setLeftChildNodePageId (page : Page) (slot : Slot) (id : UInt64) : Option Page := do
  let offset ← childOffset page slot 0 8
  some (page.putLE offset 8 id.toNat)

/-- The loop of `FindNextChildNodePageId`. -/
def nextChild (key : Bytes) : List InternalNodeElement → UInt64 → UInt64
  | [], nextChildNodePageId => nextChildNodePageId
  | element :: rest, _ =>
    match compareBytes element.key key with
    | .eq => element.rightChildNodePageId
    | .gt => element.leftChildNodePageId
    | .lt => nextChild key rest element.rightChildNodePageId

def findNextChildNodePageId (page : Page) (key : Bytes) : Option UInt64 := do
  let entries ← getAllSlotsAndElements page
  some (nextChild key (entries.map Prod.snd) 0)

def hasEnoughSpaceToInsertElement (page : Page) (key : Bytes) : Option (Bool × Page) :=
  -- the four bytes of the slot are not part of the requirement
  hasEnoughSpace elementCodec page (2 + key.length + 8 + 8)

/-- After the shift, the neighbours of the new element are pointed at its children. -/
def insertSlot (page : Page) (newSlot : Slot) (element : InternalNodeElement) :
    Option (Page × Nat) := do
  let numSlots := (decodePageHeader page).numSlots
  let (page, freeSpaceBegin, scan) ← shiftSlots elementCodec page newSlot element.key
  if numSlots = 0 then some (page, freeSpaceBegin)
  else
    let page ← match scan.greaterElement with
      | some slot => setLeftChildNodePageId page slot element.rightChildNodePageId
      | none => some page
    let page ← match scan.smallerElement with
      | some slot => setRightChildNodePageId page slot element.leftChildNodePageId
      | none => some page
    some (page, freeSpaceBegin)

def insertElement (page : Page) (key : Bytes)
    (leftChildNodePageId rightChildNodePageId : UInt64) : Option (Bool × Page) :=
  SlottedPage.insertElement elementCodec insertSlot page (2 + key.length + 8 + 8)
    ⟨key, leftChildNodePageId, rightChildNodePageId⟩

def findSplitNodeIndex (leftNode : Page) : Option Nat :=
  SlottedPage.findSplitNodeIndex elementCodec leftNode

/-- The element at `splitIndex` stays in neither node: only its key moves up. -/
def splitNode (leftNode rightNode : Page) (rightNodePageId : UInt64) (splitIndex : Nat) :
    Option (Page × Page × Bytes) :=
  SlottedPage.splitNode elementCodec 1 leftNode rightNode rightNodePageId splitIndex

end InternalNodeCodec

end CambiumDB
