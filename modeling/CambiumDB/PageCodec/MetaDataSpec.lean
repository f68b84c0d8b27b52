import Mathlib.Data.List.Nodup
import CambiumDB.PageCodec.MetaData

/-!
# The metadata page: size and round trip

`EncodeMetaDataPage` needs 48 bytes, 16 for each entry of its two maps and 8 for each free
page. What fits into the page is decoded as it was.
-/

namespace CambiumDB

open ByteBuffer

namespace PageMap

/-- No key occurs twice, as in a Go map. -/
def Distinct (m : PageMap) : Prop := (m.map Prod.fst).Nodup

theorem set_of_absent {m : PageMap} {id : UInt64} (page : UInt64) (absent : id ∉ m.map Prod.fst) :
    m.set id page = m ++ [(id, page)] := by
  induction m with
  | nil => rfl
  | cons entry rest ih =>
    simp only [List.map_cons, List.mem_cons, not_or] at absent
    rw [set, if_neg (Ne.symm absent.1), ih absent.2]
    rfl

theorem keys_set_of_present {m : PageMap} {id : UInt64} (page : UInt64)
    (present : id ∈ m.map Prod.fst) : (m.set id page).map Prod.fst = m.map Prod.fst := by
  induction m with
  | nil => cases present
  | cons entry rest ih =>
    by_cases here : entry.1 = id
    · rw [set, if_pos here, List.map_cons, List.map_cons, here]
    · have later : id ∈ rest.map Prod.fst := by
        rcases List.mem_cons.mp present with same | later
        · exact absurd same.symm here
        · exact later
      rw [set, if_neg here, List.map_cons, List.map_cons, ih later]

theorem Distinct.set {m : PageMap} (distinct : m.Distinct) (id page : UInt64) :
    (m.set id page).Distinct := by
  rw [Distinct] at distinct ⊢
  by_cases present : id ∈ m.map Prod.fst
  · rw [keys_set_of_present page present]
    exact distinct
  · rw [set_of_absent page present, List.map_append, List.nodup_append]
    refine ⟨distinct, List.nodup_singleton _, ?_⟩
    rintro key member _ (_ | ⟨_, ⟨⟩⟩) rfl
    exact present member

theorem mem_keys_set {m : PageMap} {id page key : UInt64} :
    key ∈ (m.set id page).map Prod.fst ↔ key = id ∨ key ∈ m.map Prod.fst := by
  by_cases present : id ∈ m.map Prod.fst
  · rw [keys_set_of_present page present]
    constructor
    · exact Or.inr
    · rintro (rfl | member)
      · exact present
      · exact member
  · rw [set_of_absent page present, List.map_append, List.mem_append, List.map_singleton,
      List.mem_singleton, or_comm]

/-- Entries that are set one by one, as the decoder does it. -/
theorem foldl_set {m : PageMap} (acc : PageMap) (distinct : (acc ++ m).Distinct) :
    m.foldl (fun acc entry => acc.set entry.1 entry.2) acc = acc ++ m := by
  induction m generalizing acc with
  | nil => simp
  | cons entry rest ih =>
    have absent : entry.1 ∉ acc.map Prod.fst := by
      rw [Distinct, List.map_append, List.nodup_append] at distinct
      exact fun member => distinct.2.2 _ member _ (by simp) rfl
    have distinct' : (acc ++ [(entry.1, entry.2)] ++ rest).Distinct := by simpa using distinct
    rw [List.foldl_cons, set_of_absent entry.2 absent, ih _ distinct', List.append_assoc]
    rfl

section
variable {α : Type} (key value : α → UInt64)

/-- One entry is set for each element of a list. -/
def setAll (m : PageMap) (list : List α) : PageMap :=
  list.foldl (fun m a => m.set (key a) (value a)) m

theorem get_setAll_of_not_mem {list : List α} {id : UInt64} (m : PageMap)
    (absent : id ∉ list.map key) : (m.setAll key value list).get id = m.get id := by
  induction list generalizing m with
  | nil => rfl
  | cons a rest ih =>
    simp only [List.map_cons, List.mem_cons, not_or] at absent
    have tail := ih (m.set (key a) (value a)) absent.2
    rw [get_set, if_neg absent.1] at tail
    exact tail

theorem get_setAll_of_mem {list : List α} (m : PageMap) (distinct : (list.map key).Nodup) {a : α}
    (member : a ∈ list) : (m.setAll key value list).get (key a) = value a := by
  induction list generalizing m with
  | nil => cases member
  | cons b rest ih =>
    rw [List.map_cons, List.nodup_cons] at distinct
    rcases List.mem_cons.1 member with rfl | later
    · have tail := get_setAll_of_not_mem key value (m.set (key a) (value a)) distinct.1
      rw [get_set, if_pos rfl] at tail
      exact tail
    · exact ih (m.set (key b) (value b)) distinct.2 later

theorem length_set (m : PageMap) (id page : UInt64) :
    (m.set id page).length = m.length + if id ∈ m.map Prod.fst then 0 else 1 := by
  by_cases present : id ∈ m.map Prod.fst
  · have same := congrArg List.length (keys_set_of_present page present)
    rw [List.length_map, List.length_map] at same
    rw [if_pos present, same, Nat.add_zero]
  · rw [if_neg present, set_of_absent page present, List.length_append, List.length_singleton]

/-- Each key that is not there yet takes one more entry. -/
theorem length_setAll {list : List α} (m : PageMap) (distinct : (list.map key).Nodup) :
    (m.setAll key value list).length =
      m.length + (list.filter fun a => key a ∉ m.map Prod.fst).length := by
  induction list generalizing m with
  | nil => rfl
  | cons a rest ih =>
    rw [List.map_cons, List.nodup_cons] at distinct
    have same : (rest.filter fun b => key b ∉ (m.set (key a) (value a)).map Prod.fst) =
        rest.filter fun b => key b ∉ m.map Prod.fst := by
      apply List.filter_congr
      intro b member
      have other : key b ≠ key a := by
        intro equal
        exact distinct.1 (equal ▸ List.mem_map_of_mem member)
      rw [decide_eq_decide, mem_keys_set, or_iff_right other]
    have tail := ih (m.set (key a) (value a)) distinct.2
    rw [same, length_set] at tail
    rw [show m.setAll key value (a :: rest) = (m.set (key a) (value a)).setAll key value rest
      from rfl, tail, List.filter_cons]
    by_cases present : key a ∈ m.map Prod.fst
    · simp [present]
    · simp only [present, not_false_eq_true, decide_true, if_true, if_false, List.length_cons]
      omega

end

end PageMap

namespace MetaDataCodec

/-! ### Size -/

theorem length_encodeEntries (m : PageMap) : (encodeEntries m).length = 16 * m.length := by
  induction m with
  | nil => rfl
  | cons entry rest ih =>
    rw [encodeEntries] at ih ⊢
    rw [List.flatMap_cons, List.length_append, ih, List.length_append, length_leBytes,
      length_leBytes, List.length_cons]
    omega

def encodeIds (ids : List UInt64) : Bytes := ids.flatMap fun id => leBytes 8 id.toNat

theorem length_encodeIds (ids : List UInt64) : (encodeIds ids).length = 8 * ids.length := by
  induction ids with
  | nil => rfl
  | cons id rest ih =>
    rw [encodeIds] at ih ⊢
    rw [List.flatMap_cons, List.length_append, ih, length_leBytes, List.length_cons]
    omega

/-- The bytes that the metadata needs. -/
def encodedSize (metadata : MetaData) : Nat :=
  48 + 16 * metadata.rootPages.length + 8 * metadata.deallocatedPageIdList.length +
    16 * metadata.firstLeafNodePages.length

theorem length_metaDataBytes (metadata : MetaData) :
    (metaDataBytes metadata).length = encodedSize metadata := by
  have ids := length_encodeIds metadata.deallocatedPageIdList
  rw [encodeIds] at ids
  simp only [metaDataBytes, List.length_append, length_leBytes, length_encodeEntries, ids,
    encodedSize]
  omega

theorem encode_isSome_iff (metadata : MetaData) :
    (encodeMetaDataPage metadata).isSome ↔ encodedSize metadata ≤ 4096 := by
  rw [encodeMetaDataPage, length_metaDataBytes]
  by_cases fits : encodedSize metadata ≤ 4096 <;> simp [fits]

/-! ### Round trip -/

section
variable {page : Page} {off : Nat}

theorem readUint64_stored {n : Nat} (stored : page.HasAt off (leBytes 8 n)) (room : off + 8 ≤ 4096) :
    readUint64 page off = some (UInt64.ofNat n) := by
  rw [Buffer.HasAt, length_leBytes] at stored
  rw [readUint64, if_pos room, Buffer.getLE, stored, leNat_leBytes]
  congr 1
  apply UInt64.toNat_inj.mp
  simp

theorem readUint64_id {id : UInt64} (stored : page.HasAt off (leBytes 8 id.toNat))
    (room : off + 8 ≤ 4096) : readUint64 page off = some id := by
  rw [readUint64_stored stored room, UInt64.ofNat_toNat]

theorem decodeEntries_stored {m : PageMap} (acc : PageMap) (stored : page.HasAt off (encodeEntries m))
    (room : off + 16 * m.length ≤ 4096) : decodeEntries page m.length off acc =
      some (m.foldl (fun acc entry => acc.set entry.1 entry.2) acc, off + 16 * m.length) := by
  induction m generalizing off acc with
  | nil => rfl
  | cons entry rest ih =>
    rw [List.length_cons] at room
    rw [encodeEntries, List.flatMap_cons, Buffer.hasAt_append, Buffer.hasAt_append,
      List.length_append, length_leBytes, length_leBytes] at stored
    obtain ⟨⟨key, value⟩, later⟩ := stored
    have tail := ih (acc.set entry.1 entry.2) later (by omega)
    rw [List.length_cons, decodeEntries, readUint64_id key (by omega),
      readUint64_id value (by omega)]
    simp only [bind, Option.bind, tail, List.foldl_cons]
    congr 2
    omega

theorem decodeIds_stored {ids : List UInt64} (stored : page.HasAt off (encodeIds ids))
    (room : off + 8 * ids.length ≤ 4096) :
    decodeIds page ids.length off = some (ids, off + 8 * ids.length) := by
  induction ids generalizing off with
  | nil => rfl
  | cons id rest ih =>
    rw [List.length_cons] at room
    rw [encodeIds, List.flatMap_cons, Buffer.hasAt_append, length_leBytes] at stored
    have tail := ih stored.2 (by omega)
    rw [List.length_cons, decodeIds, readUint64_id stored.1 (by omega)]
    simp only [bind, Option.bind, tail]
    congr 2
    omega

end

theorem decode_stored {metadata : MetaData} {page : Page} (roots : metadata.rootPages.Distinct)
    (leaves : metadata.firstLeafNodePages.Distinct) (fits : encodedSize metadata ≤ 4096)
    (stored : page.HasAt 0 (metaDataBytes metadata)) :
    decodeMetaDataPage page = some metadata := by
  rw [encodedSize] at fits
  have free : (metadata.deallocatedPageIdList.flatMap fun id => leBytes 8 id.toNat) =
      encodeIds metadata.deallocatedPageIdList := rfl
  rw [metaDataBytes, free] at stored
  simp only [Buffer.hasAt_append, List.length_append, length_leBytes, length_encodeEntries,
    length_encodeIds, Nat.zero_add] at stored
  obtain ⟨⟨⟨⟨⟨⟨⟨⟨lsn, current⟩, rootCount⟩, rootEntries⟩, last⟩, freeCount⟩, freeIds⟩, leafCount⟩,
    leafEntries⟩ := stored
  have count {n : Nat} (small : n ≤ 4096) : (UInt64.ofNat n).toNat = n :=
    UInt64.toNat_ofNat_of_lt' (lt_of_le_of_lt small (by decide))
  have rootsRead := decodeEntries_stored [] rootEntries (by omega)
  have freeRead := decodeIds_stored freeIds (by omega)
  have leavesRead := decodeEntries_stored [] leafEntries (by omega)
  rw [PageMap.foldl_set [] roots, List.nil_append] at rootsRead
  rw [PageMap.foldl_set [] leaves, List.nil_append] at leavesRead
  have lastRead := readUint64_id last (by omega)
  have freeCountRead := readUint64_stored freeCount (by omega)
  have leafCountRead := readUint64_stored leafCount (by omega)
  simp only [decodeMetaDataPage, readUint64_id lsn (by omega), readUint64_id current (by omega),
    readUint64_stored rootCount (by omega), count (show metadata.rootPages.length ≤ 4096 by omega),
    rootsRead, lastRead, freeCountRead,
    count (show metadata.deallocatedPageIdList.length ≤ 4096 by omega), freeRead, leafCountRead,
    count (show metadata.firstLeafNodePages.length ≤ 4096 by omega), leavesRead, bind, Option.bind]

theorem decode_encode {metadata : MetaData} {page : Page} (roots : metadata.rootPages.Distinct)
    (leaves : metadata.firstLeafNodePages.Distinct)
    (encoded : encodeMetaDataPage metadata = some page) :
    decodeMetaDataPage page = some metadata := by
  rw [encodeMetaDataPage] at encoded
  split at encoded
  case isFalse => cases encoded
  case isTrue fits =>
    obtain rfl := Option.some.inj encoded
    have room : 0 + (metaDataBytes metadata).length ≤ 4096 := by omega
    have stored := Buffer.read_write_same (Buffer.zero 4096) 0 (metaDataBytes metadata) room
    rw [length_metaDataBytes] at fits
    exact decode_stored roots leaves fits stored

end MetaDataCodec

end CambiumDB
