import CambiumDB.PageCodec.Header

/-! # `pagecodec/slot_codec.go` -/

namespace CambiumDB

open ByteBuffer

structure Slot where
  elementSize : Nat
  elementPointer : Nat
  deriving DecidableEq, Repr

namespace SlotCodec

abbrev elementSizeOffset : Nat := 0
abbrev elementPointerOffset : Nat := 2
abbrev slotSize : Nat := 4
abbrev deletedElementPointerVal : Nat := 0xFFFF

/-- The slot whose four bytes start at `off`. -/
def decodeSlot (page : Page) (off : Nat) : Slot :=
  ⟨page.getLE (off + elementSizeOffset) 2, page.getLE (off + elementPointerOffset) 2⟩

def encodeSlot (slot : Slot) : Bytes :=
  leBytes 2 slot.elementSize ++ leBytes 2 slot.elementPointer

def setElementPointer (page : Page) (off p : Nat) : Page :=
  page.putLE (off + elementPointerOffset) 2 p

def setElementSize (page : Page) (off s : Nat) : Page :=
  page.putLE (off + elementSizeOffset) 2 s

def isElementDeleted (slot : Slot) : Bool := slot.elementPointer == deletedElementPointerVal

/-- `page[freeSpaceBegin:]` is refused past the end of the page. -/
def appendSlot (page : Page) (freeSpaceBegin : Nat) (slot : Slot) : Option (Page × Nat) :=
  if freeSpaceBegin ≤ 4096 then
    some (page.write freeSpaceBegin (encodeSlot slot), (freeSpaceBegin + 4) % 65536)
  else none

end SlotCodec

/-- `HeaderCodec.getTotalDataRegionSize`, a `uint16` sum. -/
def HeaderCodec.getTotalDataRegionSize (slots : List Slot) : Nat :=
  slots.foldl (fun size slot => (size + slot.elementSize) % 65536) 0

end CambiumDB
