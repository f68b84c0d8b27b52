import CambiumDB.PageCodec.Checksum
import CambiumDB.StorageEngine.Restart

/-!
# Checksums after recovery

An insertion or an update of a redo computes the checksum of the page, and then the redo writes
the LSN. A half of a split without the new entry and a node type are written without a checksum.
`Origin` remembers the page from which the CRC field was computed, and the field is right if the
page has the same checksum in the end.
-/

namespace CambiumDB

open ByteBuffer HeaderConfig HeaderCodec

namespace StorageEngine

/-! ### What the changes do to the CRC field -/

inductive Origin where
  /-- It was computed from this page. -/
  | computed (source : Page)
  /-- It was never computed, or elements were written over it. -/
  | other

/-- The checksum is still the one that the field was computed from. -/
def Origin.Agrees : Origin → Page → Prop
  | .computed source, page => pageCRC page = pageCRC source
  | .other, page => getCRC page = pageCRC page

/-- The origin after a change that is applied. -/
def Origin.next (origin : Origin) (change : PageChange) (content after : Page) : Origin :=
  if change.computesCRC then .computed after
  else if getCRC after = getCRC content then origin
  else .other

/-- The record writes to the page: it sets the type, or it changes the page and is newer. -/
def Writes (entry : LogEntry) (id : UInt64) (content : Page) : Prop :=
  createdType entry.record id ≠ none ∨
    pageChange entry.record id ≠ none ∧ getLSN content < entry.lsn

def Origin.step (origin : Origin) (entry : LogEntry) (id : UInt64) (content : Page) : Origin :=
  match pageChange entry.record id with
  | none => origin
  | some change =>
    if getLSN content < entry.lsn then
      match change.apply content with
      | some after => origin.next change content after
      | none => origin
    else origin

/-- Some record writes to the page. -/
def Written : List LogEntry → UInt64 → Page → Prop
  | [], _, _ => False
  | entry :: rest, id, content =>
    Writes entry id content ∨ ∃ content', redoPage entry id content = some content' ∧
      Written rest id content'

end StorageEngine

end CambiumDB
