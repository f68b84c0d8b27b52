import CambiumDB.Lib.FoldHash
import CambiumDB.PageCodec.InternalNode
import CambiumDB.PageCodec.LeafNode
import CambiumDB.PageCodec.Represent

/-!
# The checksum of a page

Bytes 0 to 3 of a page hold the checksum of bytes 4 to 4095, as `CheckCRC` would test it. The
functions that insert, update, delete and split end with `updateCRC`; those that write the LSN,
the node type or the next leaf do not.
-/

namespace CambiumDB

open ByteBuffer HeaderConfig

namespace HeaderCodec

/-- `CheckCRC`. -/
def checkCRC (data : Bytes) (crc : UInt32) : Bool := checksumIEEE data == crc

/-- The CRC field of the header. -/
def getCRC (page : Page) : UInt32 := UInt32.ofNat (page.getLE crcOffset 4)

/-- What the CRC field should hold. -/
def pageCRC (page : Page) : UInt32 := generateCRC (page.read 4 4092)

def CrcValid (page : Page) : Prop := checkCRC (page.read 4 4092) (getCRC page) = true

theorem crcValid_iff (page : Page) : CrcValid page ↔ getCRC page = pageCRC page := by
  rw [CrcValid, checkCRC, beq_iff_eq, eq_comm]
  rfl

theorem pageCRC_congr {page page' : Page} (same : ∀ i, 4 ≤ i → page'.byte i = page.byte i) :
    pageCRC page' = pageCRC page := by
  have read : page'.read 4 4092 = page.read 4 4092 :=
    Buffer.read_congr fun i _ => same (4 + i) (by omega)
  rw [pageCRC, pageCRC, read]

theorem getCRC_setCRC (page : Page) (crc : UInt32) : getCRC (setCRC page crc) = crc := by
  rw [getCRC, setCRC, Buffer.getLE_putLE_same _ _ _ _ (by decide)]
  have small : crc.toNat % 256 ^ 4 = crc.toNat := Nat.mod_eq_of_lt crc.toNat_lt
  rw [small, UInt32.ofNat_toNat]

/-- `updateCRC` makes the checksum right. -/
theorem crcValid_updateCRC (page : Page) : CrcValid (updateCRC page) := by
  rw [crcValid_iff, pageCRC_congr fun i lower => byte_updateCRC page lower]
  exact getCRC_setCRC page _

end HeaderCodec

open HeaderCodec

/-! ### What ends with `updateCRC` -/

namespace SlottedPage

variable {E : Type} {c : ElementCodec E}

/-- Also where the element is refused. -/
theorem crcValid_insertElement {insertSlot : Page → Slot → E → Option (Page × Nat)}
    {page page' : Page} {need : Nat} {e : E} {answer : Bool}
    (done : insertElement c insertSlot page need e = some (answer, page')) : CrcValid page' := by
  rw [insertElement.eq_def] at done
  dsimp only at done
  split at done
  · obtain ⟨rfl, rfl⟩ := Prod.mk.inj (Option.some.inj done)
    exact crcValid_updateCRC _
  · split at done
    · obtain ⟨_, _, done⟩ := Option.bind_eq_some_iff.1 done
      obtain ⟨⟨appended, freeSpaceEnd⟩, _, done⟩ := Option.bind_eq_some_iff.1 done
      obtain ⟨⟨slotted, freeSpaceBegin⟩, _, done⟩ := Option.bind_eq_some_iff.1 done
      obtain ⟨rfl, rfl⟩ := Prod.mk.inj (Option.some.inj done)
      exact crcValid_updateCRC _
    · obtain ⟨_, _, done⟩ := Option.bind_eq_some_iff.1 done
      obtain ⟨⟨appended, freeSpaceEnd⟩, _, done⟩ := Option.bind_eq_some_iff.1 done
      obtain ⟨⟨slotted, freeSpaceBegin⟩, _, done⟩ := Option.bind_eq_some_iff.1 done
      obtain ⟨rfl, rfl⟩ := Prod.mk.inj (Option.some.inj done)
      exact crcValid_updateCRC _

/-- A key that is not there leaves the page as it is. -/
theorem crcValid_deleteElement {page page' : Page} {key : Bytes} {found : Bool}
    (done : deleteElement c page key = some (found, page')) : CrcValid page' ∨ page' = page := by
  rw [deleteElement.eq_def] at done
  obtain ⟨result, _, done⟩ := Option.bind_eq_some_iff.1 done
  cases result with
  | equal offset slot =>
    obtain ⟨rfl, rfl⟩ := Prod.mk.inj (Option.some.inj done)
    exact .inl (crcValid_updateCRC _)
  | greater offset slot =>
    obtain ⟨rfl, rfl⟩ := Prod.mk.inj (Option.some.inj done)
    exact .inr rfl
  | missing =>
    obtain ⟨rfl, rfl⟩ := Prod.mk.inj (Option.some.inj done)
    exact .inr rfl

theorem crcValid_splitNode {skip : Nat} {left right left' right' : Page} {id : UInt64}
    {splitIndex : Nat} {extraKey : Bytes}
    (done : splitNode c skip left right id splitIndex = some (left', right', extraKey)) :
    CrcValid left' ∧ CrcValid right' := by
  rw [splitNode.eq_def] at done
  obtain ⟨entries, _, done⟩ := Option.bind_eq_some_iff.1 done
  obtain ⟨middle, _, done⟩ := Option.bind_eq_some_iff.1 done
  obtain ⟨leftHalf, _, done⟩ := Option.bind_eq_some_iff.1 done
  obtain ⟨rightHalf, _, done⟩ := Option.bind_eq_some_iff.1 done
  obtain ⟨rfl, rest⟩ := Prod.mk.inj (Option.some.inj done)
  obtain ⟨rfl, _⟩ := Prod.mk.inj rest
  exact ⟨crcValid_updateCRC _, crcValid_updateCRC _⟩

end SlottedPage

namespace LeafNodeCodec

open SlottedPage

theorem crcValid_setValue {page page' : Page} {key value : Bytes}
    (done : setValue page key value = some page') : CrcValid page' := by
  rw [setValue.eq_def] at done
  obtain ⟨result, _, done⟩ := Option.bind_eq_some_iff.1 done
  -- both branches of both results end in `updateCRC`
  have ends {offset : Nat} {slot : Slot} (done : (do
      let oldElement ← readElement elementCodec page slot
      let header := decodePageHeader page
      if value.length ≤ oldElement.value.length then
        let page ← setValueInElement page slot value
        let page := setGarbageSize page
          ((header.garbageSize + (oldElement.value.length - value.length)) % 65536)
        some (updateCRC page)
      else
        let newElement : LeafNodeElement := ⟨key, value⟩
        let appended ← appendElement elementCodec page header.freeSpaceEnd newElement
        let page := setFreeSpaceEnd appended.1 appended.2
        let page := SlotCodec.setElementPointer page offset appended.2
        let page := SlotCodec.setElementSize page offset (calculateElementSize newElement)
        let page := setGarbageSize page
          ((header.garbageSize + calculateElementSize oldElement) % 65536)
        some (updateCRC page)) = some page') : CrcValid page' := by
    obtain ⟨old, _, done⟩ := Option.bind_eq_some_iff.1 done
    dsimp only at done
    split at done
    · obtain ⟨written, _, done⟩ := Option.bind_eq_some_iff.1 done
      obtain rfl := Option.some.inj done
      exact crcValid_updateCRC _
    · obtain ⟨appended, _, done⟩ := Option.bind_eq_some_iff.1 done
      obtain rfl := Option.some.inj done
      exact crcValid_updateCRC _
  cases result with
  | missing => cases done
  | equal offset slot => exact ends done
  | greater offset slot => exact ends done

end LeafNodeCodec

end CambiumDB
