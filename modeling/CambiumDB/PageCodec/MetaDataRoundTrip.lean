import CambiumDB.PageCodec.MetaDataSpec

/-!
# The metadata page, written with a running pointer

The encoder writes 8 bytes at a time and moves its pointer; a slice past the buffer panics. It
writes the sections of `metaDataBytes` one after the other, so a page is decoded to the metadata
it was encoded from, whatever the order in which the two maps were iterated.
-/

namespace CambiumDB

open ByteBuffer

/-- Two lists of entries, in any order, of one Go map. -/
structure PageMap.SameMap (m m' : PageMap) : Prop where
  distinct : m.Distinct
  distinct' : m'.Distinct
  entries : ∀ entry, entry ∈ m ↔ entry ∈ m'

theorem PageMap.SameMap.of_perm {m m' : PageMap} (order : m.Perm m') (distinct : m'.Distinct) :
    m.SameMap m' where
  distinct := (order.map Prod.fst).nodup_iff.mpr distinct
  distinct' := distinct
  entries _ := order.mem_iff

namespace MetaDataCodec

/-! ### The encoder -/

/-- The buffer of `EncodeMetaDataPage` and its pointer. -/
structure Writer where
  data : Page
  pointer : Nat

/-- `binary.LittleEndian.PutUint64(data[pointer:pointer+8], n)`, then `pointer += 8`. -/
def putUint64 (n : Nat) (w : Writer) : Option Writer :=
  if w.pointer + 8 ≤ 4096 then some ⟨w.data.putLE w.pointer 8 n, w.pointer + 8⟩ else none

/-- The loop over a map, in the order in which `range` yields the entries. -/
def putEntries : PageMap → Writer → Option Writer
  | [], w => some w
  | entry :: rest, w => do
    let w ← putUint64 entry.1.toNat w
    let w ← putUint64 entry.2.toNat w
    putEntries rest w

def putIds : List UInt64 → Writer → Option Writer
  | [], w => some w
  | id :: rest, w => do
    let w ← putUint64 id.toNat w
    putIds rest w

def putMetaData (metadata : MetaData) (w : Writer) : Option Writer := do
  let w ← putUint64 metadata.LSN.toNat w
  let w ← putUint64 metadata.currBPlusTreeId.toNat w
  let w ← putUint64 metadata.rootPages.length w
  let w ← putEntries metadata.rootPages w
  let w ← putUint64 metadata.maxAllocatedPageId.toNat w
  let w ← putUint64 metadata.deallocatedPageIdList.length w
  let w ← putIds metadata.deallocatedPageIdList w
  let w ← putUint64 metadata.firstLeafNodePages.length w
  putEntries metadata.firstLeafNodePages w

/-- `EncodeMetaDataPage`, write by write. -/
def writeMetaDataPage (metadata : MetaData) : Option Page :=
  (putMetaData metadata ⟨Buffer.zero 4096, 0⟩).map Writer.data

/-! ### What it writes -/

/-- `put` writes `bytes` at the pointer, or panics if they do not fit behind it. -/
def Writes (put : Writer → Option Writer) (bytes : Bytes) : Prop :=
  ∀ w : Writer, w.pointer ≤ 4096 → put w =
    if w.pointer + bytes.length ≤ 4096 then
      some ⟨w.data.write w.pointer bytes, w.pointer + bytes.length⟩
    else none

theorem writes_nil : Writes some [] := by
  intro w inside
  rw [List.length_nil, Nat.add_zero, if_pos inside, Buffer.write_nil]

theorem Writes.append {first second : Writer → Option Writer} {a b : Bytes}
    (h : Writes first a) (h' : Writes second b) : Writes (fun w => first w >>= second) (a ++ b) := by
  intro w inside
  simp only [h w inside, List.length_append]
  by_cases room : w.pointer + a.length ≤ 4096
  · rw [if_pos room, ← Buffer.write_append, ← Nat.add_assoc]
    exact h' ⟨w.data.write w.pointer a, w.pointer + a.length⟩ room
  · rw [if_neg room, if_neg (by omega)]
    rfl

theorem writes_putUint64 (n : Nat) : Writes (putUint64 n) (leBytes 8 n) := by
  intro w _
  rw [putUint64, length_leBytes]
  rfl

theorem writes_putEntries (m : PageMap) : Writes (putEntries m) (encodeEntries m) := by
  induction m with
  | nil => exact writes_nil
  | cons entry rest ih =>
    have written := (writes_putUint64 entry.1.toNat).append
      ((writes_putUint64 entry.2.toNat).append ih)
    rw [← List.append_assoc] at written
    exact written

theorem writes_putIds (ids : List UInt64) : Writes (putIds ids) (encodeIds ids) := by
  induction ids with
  | nil => exact writes_nil
  | cons id rest ih => exact (writes_putUint64 id.toNat).append ih

theorem writes_putMetaData (metadata : MetaData) :
    Writes (putMetaData metadata) (metaDataBytes metadata) := by
  have written := (writes_putUint64 metadata.LSN.toNat).append
    ((writes_putUint64 metadata.currBPlusTreeId.toNat).append
    ((writes_putUint64 metadata.rootPages.length).append
    ((writes_putEntries metadata.rootPages).append
    ((writes_putUint64 metadata.maxAllocatedPageId.toNat).append
    ((writes_putUint64 metadata.deallocatedPageIdList.length).append
    ((writes_putIds metadata.deallocatedPageIdList).append
    ((writes_putUint64 metadata.firstLeafNodePages.length).append
    (writes_putEntries metadata.firstLeafNodePages))))))))
  simp only [← List.append_assoc] at written
  exact written

/-- The pointer moves over the sections of `metaDataBytes`. -/
theorem writeMetaDataPage_eq (metadata : MetaData) :
    writeMetaDataPage metadata = encodeMetaDataPage metadata := by
  have run := writes_putMetaData metadata ⟨Buffer.zero 4096, 0⟩ (Nat.zero_le _)
  rw [writeMetaDataPage, run, encodeMetaDataPage, Nat.zero_add]
  by_cases fits : (metaDataBytes metadata).length ≤ 4096
  · rw [if_pos fits, if_pos fits]
    rfl
  · rw [if_neg fits, if_neg fits]
    rfl

/-! ### Round trip -/

/-- The fields of two metadata agree, the maps as Go maps. -/
structure SameMetaData (m m' : MetaData) : Prop where
  LSN : m.LSN = m'.LSN
  currBPlusTreeId : m.currBPlusTreeId = m'.currBPlusTreeId
  rootPages : m.rootPages.SameMap m'.rootPages
  maxAllocatedPageId : m.maxAllocatedPageId = m'.maxAllocatedPageId
  deallocatedPageIdList : m.deallocatedPageIdList = m'.deallocatedPageIdList
  firstLeafNodePages : m.firstLeafNodePages.SameMap m'.firstLeafNodePages

/-- Metadata that needs no more than a page is encoded without leaving the buffer, in whatever
order its maps are iterated, and is decoded as it was. -/
theorem metaData_roundTrip (metadata : MetaData) (rootOrder leafOrder : PageMap)
    (roots : metadata.rootPages.Distinct) (leaves : metadata.firstLeafNodePages.Distinct)
    (rootsOnce : rootOrder.Perm metadata.rootPages)
    (leavesOnce : leafOrder.Perm metadata.firstLeafNodePages)
    (fits : 48 + 16 * metadata.rootPages.length + 16 * metadata.firstLeafNodePages.length +
      8 * metadata.deallocatedPageIdList.length ≤ 4096) :
    ∃ page decoded,
      writeMetaDataPage { metadata with
        rootPages := rootOrder, firstLeafNodePages := leafOrder } = some page ∧
      page.data.toList.length = 4096 ∧ decodeMetaDataPage page = some decoded ∧
      SameMetaData decoded metadata := by
  have sameRoots := PageMap.SameMap.of_perm rootsOnce roots
  have sameLeaves := PageMap.SameMap.of_perm leavesOnce leaves
  obtain ⟨ordered, here⟩ : ∃ ordered : MetaData, ordered = { metadata with
    rootPages := rootOrder, firstLeafNodePages := leafOrder } := ⟨_, rfl⟩
  have size : encodedSize ordered ≤ 4096 := by
    rw [encodedSize, here]
    have rootCount := rootsOnce.length_eq
    have leafCount := leavesOnce.length_eq
    simp only
    omega
  obtain ⟨page, encoded⟩ := Option.isSome_iff_exists.mp ((encode_isSome_iff ordered).mpr size)
  rw [← here]
  refine ⟨page, ordered, (writeMetaDataPage_eq ordered).trans encoded, by simp, ?_, ?_⟩
  · apply decode_encode _ _ encoded
    · rw [here]
      exact sameRoots.distinct
    · rw [here]
      exact sameLeaves.distinct
  · subst here
    exact ⟨rfl, rfl, sameRoots, rfl, rfl, sameLeaves⟩

/-- Two trees whose roots are written in the other order than they were added. -/
theorem metaData_roundTrip_swapped : ∃ page decoded,
    writeMetaDataPage ⟨7, 2, [(2, 5), (1, 3)], 6, [4], [(1, 1)]⟩ = some page ∧
      page.data.toList.length = 4096 ∧ decodeMetaDataPage page = some decoded ∧
      SameMetaData decoded ⟨7, 2, [(1, 3), (2, 5)], 6, [4], [(1, 1)]⟩ :=
  metaData_roundTrip ⟨7, 2, [(1, 3), (2, 5)], 6, [4], [(1, 1)]⟩ [(2, 5), (1, 3)] [(1, 1)]
    (by unfold PageMap.Distinct; decide) (by unfold PageMap.Distinct; decide) (.swap ..) .rfl
    (by decide)

end MetaDataCodec

end CambiumDB
