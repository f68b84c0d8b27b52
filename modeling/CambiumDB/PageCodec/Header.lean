import CambiumDB.Lib.ByteOrder

/-!
# `pagecodec/header_codec.go`

The 32-byte header of a slotted page. `uint16` fields are natural numbers below
`65536`; every write of such a field keeps its low 16 bits and every sum of two of
them is reduced modulo `65536`, as in the source.
-/

namespace CambiumDB

open ByteBuffer

/-- A page as the buffer pool hands it out. -/
abbrev Page := Buffer 4096

/-- `AllocateAlignedBuffer` returns the first half of an 8192-byte allocation, so a
slice expression on a page is refused only past this capacity. Bytes past 4096 stay zero. -/
def frameCapacity : Nat := 8192

/-- `page[lo:hi]`. -/
def Page.slice (page : Page) (lo hi : Nat) : Option Slice :=
  (⟨page.byte, 4096, frameCapacity⟩ : Slice).sub lo hi

/-- The fields of `Header` that some caller reads. -/
structure Header where
  isLeafNode : Bool
  numSlots : Nat
  freeSpaceBegin : Nat
  freeSpaceEnd : Nat
  garbageSize : Nat
  nextLeafNodePageId : UInt64
  deriving DecidableEq

namespace HeaderConfig

abbrev crcOffset : Nat := 0
abbrev nodeTypeOffset : Nat := 4
abbrev isPageFilledOffset : Nat := 5
abbrev numSlotsOffset : Nat := 6
abbrev freeSpaceBeginOffset : Nat := 8
abbrev freeSpaceEndOffset : Nat := 10
abbrev garbageSizeOffset : Nat := 12
abbrev nextLeafNodePageIdOffset : Nat := 16
abbrev lsnOffset : Nat := 24
abbrev headerSize : Nat := 32
abbrev pageFilledType : UInt8 := 1
abbrev pageEmptyType : UInt8 := 0
abbrev leafNodeType : UInt8 := 0
abbrev internalNodeType : UInt8 := 1

end HeaderConfig

open HeaderConfig

namespace HeaderCodec

def decodePageHeader (page : Page) : Header :=
  if page.byte isPageFilledOffset = pageEmptyType then
    -- the next-leaf field of an empty page is not decoded
    { isLeafNode := true, numSlots := 0, freeSpaceBegin := headerSize, freeSpaceEnd := 4096,
      garbageSize := 0, nextLeafNodePageId := 0 }
  else
    { isLeafNode := page.byte nodeTypeOffset == leafNodeType
      numSlots := page.getLE numSlotsOffset 2
      freeSpaceBegin := page.getLE freeSpaceBeginOffset 2
      freeSpaceEnd := page.getLE freeSpaceEndOffset 2
      garbageSize := page.getLE garbageSizeOffset 2
      nextLeafNodePageId := UInt64.ofNat (page.getLE nextLeafNodePageIdOffset 8) }

def setCRC (page : Page) (crc : UInt32) : Page := page.putLE crcOffset 4 crc.toNat

def setNodeType (page : Page) (isLeafNode : Bool) : Page :=
  page.setByte nodeTypeOffset (if isLeafNode then leafNodeType else internalNodeType)

def setIsPageFilled (page : Page) (isPageFilled : Bool) : Page :=
  page.setByte isPageFilledOffset (if isPageFilled then pageFilledType else pageEmptyType)

def setNumSlots (page : Page) (numSlots : Nat) : Page := page.putLE numSlotsOffset 2 numSlots

def setGarbageSize (page : Page) (garbageSize : Nat) : Page :=
  page.putLE garbageSizeOffset 2 garbageSize

def setFreeSpaceBegin (page : Page) (freeSpaceBegin : Nat) : Page :=
  page.putLE freeSpaceBeginOffset 2 freeSpaceBegin

def setFreeSpaceEnd (page : Page) (freeSpaceEnd : Nat) : Page :=
  page.putLE freeSpaceEndOffset 2 freeSpaceEnd

def setNextLeafNodePageId (page : Page) (nextLeafNodePageId : UInt64) : Page :=
  page.putLE nextLeafNodePageIdOffset 8 nextLeafNodePageId.toNat

def getNextLeafNodePageId (page : Page) : UInt64 :=
  UInt64.ofNat (page.getLE nextLeafNodePageIdOffset 8)

def setLSN (page : Page) (lsn : UInt64) : Page := page.putLE lsnOffset 8 lsn.toNat

def getLSN (page : Page) : UInt64 := UInt64.ofNat (page.getLE lsnOffset 8)

/-- One bit of the reflected CRC-32 with the IEEE polynomial. -/
def crcShift (crc : UInt32) : UInt32 :=
  if crc &&& 1 = 1 then (crc >>> 1) ^^^ 0xEDB88320 else crc >>> 1

/-- `crc32.ChecksumIEEE`. -/
def checksumIEEE (data : Bytes) : UInt32 :=
  (data.foldl (fun crc b => Nat.iterate crcShift 8 (crc ^^^ b.toUInt32)) 0xFFFFFFFF) ^^^ 0xFFFFFFFF

def generateCRC (data : Bytes) : UInt32 := checksumIEEE data

def updateCRC (page : Page) : Page := setCRC page (generateCRC (page.read 4 4092))

def isLeafNode (page : Page) : Bool := (decodePageHeader page).isLeafNode

/-- The difference and the requirement are both `uint16`. -/
def isAdequate (page : Page) (spaceRequired : Nat) : Bool :=
  let header := decodePageHeader page
  let freeSpace := (header.freeSpaceEnd + 65536 - header.freeSpaceBegin) % 65536
  decide (spaceRequired % 65536 ≤ freeSpace)

/-- Compared as `int`, so nothing wraps here. -/
def shouldCompact (page : Page) (size : Nat) : Bool :=
  decide (size ≤ (decodePageHeader page).garbageSize)

end HeaderCodec

end CambiumDB
