import CambiumDB.PageCodec.Header

/-!
# `pagecodec/metadata_codec.go`

A Go map is the list of its entries in the order in which `range` yields them; an absent
key reads as zero.
-/

namespace CambiumDB

open ByteBuffer

/-- `map[uint64]uint64`. -/
abbrev PageMap := List (UInt64 × UInt64)

namespace PageMap

def get : PageMap → UInt64 → UInt64
  | [], _ => 0
  | entry :: rest, id => if entry.1 = id then entry.2 else get rest id

def set : PageMap → UInt64 → UInt64 → PageMap
  | [], id, page => [(id, page)]
  | entry :: rest, id, page =>
    if entry.1 = id then (id, page) :: rest else entry :: set rest id page

theorem get_set (m : PageMap) (id page other : UInt64) :
    (m.set id page).get other = if other = id then page else m.get other := by
  induction m with
  | nil => simp [set, get, eq_comm]
  | cons entry rest ih =>
    by_cases here : entry.1 = id
    · by_cases same : other = id
      · simp [set, get, here, same]
      · simp [set, get, here, same, Ne.symm same]
    · by_cases first : entry.1 = other
      · subst first
        simp [set, get, here]
      · simp [set, get, here, first, ih]

end PageMap

structure MetaData where
  LSN : UInt64
  currBPlusTreeId : UInt64
  rootPages : PageMap
  maxAllocatedPageId : UInt64
  deallocatedPageIdList : List UInt64
  firstLeafNodePages : PageMap
  deriving DecidableEq

namespace MetaDataCodec

def encodeEntries (m : PageMap) : Bytes :=
  m.flatMap fun entry => leBytes 8 entry.1.toNat ++ leBytes 8 entry.2.toNat

/-- The bytes that `EncodeMetaDataPage` writes from the start of its 4096-byte buffer. -/
def metaDataBytes (metadata : MetaData) : Bytes :=
  leBytes 8 metadata.LSN.toNat ++ leBytes 8 metadata.currBPlusTreeId.toNat ++
    leBytes 8 metadata.rootPages.length ++ encodeEntries metadata.rootPages ++
    leBytes 8 metadata.maxAllocatedPageId.toNat ++
    leBytes 8 metadata.deallocatedPageIdList.length ++
    metadata.deallocatedPageIdList.flatMap (fun id => leBytes 8 id.toNat) ++
    leBytes 8 metadata.firstLeafNodePages.length ++ encodeEntries metadata.firstLeafNodePages

/-- A slice past the end of the buffer panics. -/
def encodeMetaDataPage (metadata : MetaData) : Option Page :=
  if (metaDataBytes metadata).length ≤ 4096 then
    some ((Buffer.zero 4096).write 0 (metaDataBytes metadata))
  else none

/-- `binary.LittleEndian.Uint64(data[pointer : pointer+8])`, for a page read from the file. -/
def readUint64 (page : Page) (pointer : Nat) : Option UInt64 :=
  if pointer + 8 ≤ 4096 then some (UInt64.ofNat (page.getLE pointer 8)) else none

def decodeEntries (page : Page) : Nat → Nat → PageMap → Option (PageMap × Nat)
  | 0, pointer, m => some (m, pointer)
  | n + 1, pointer, m => do
    let id ← readUint64 page pointer
    let value ← readUint64 page (pointer + 8)
    decodeEntries page n (pointer + 16) (m.set id value)

def decodeIds (page : Page) : Nat → Nat → Option (List UInt64 × Nat)
  | 0, pointer => some ([], pointer)
  | n + 1, pointer => do
    let id ← readUint64 page pointer
    let (rest, stop) ← decodeIds page n (pointer + 8)
    some (id :: rest, stop)

def decodeMetaDataPage (page : Page) : Option MetaData := do
  let LSN ← readUint64 page 0
  let currBPlusTreeId ← readUint64 page 8
  let rootPagesLength ← readUint64 page 16
  let (rootPages, pointer) ← decodeEntries page rootPagesLength.toNat 24 []
  let maxAllocatedPageId ← readUint64 page pointer
  let deallocatedLength ← readUint64 page (pointer + 8)
  let (deallocatedPageIdList, pointer) ← decodeIds page deallocatedLength.toNat (pointer + 16)
  let firstLeafLength ← readUint64 page pointer
  let (firstLeafNodePages, _) ← decodeEntries page firstLeafLength.toNat (pointer + 8) []
  some ⟨LSN, currBPlusTreeId, rootPages, maxAllocatedPageId, deallocatedPageIdList,
    firstLeafNodePages⟩

end MetaDataCodec

end CambiumDB
