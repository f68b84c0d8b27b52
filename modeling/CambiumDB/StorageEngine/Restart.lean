import CambiumDB.StorageEngine.RedoPages

/-!
# Recovery that is repeated or cut off

The LSN of a page keeps a record from being redone on it twice, and the LSN of the metadata does
the same for the metadata. What is redone every time is the node type of a created page. So a
recovery that starts over does to each page what the first one did, except that it sets the type
byte again on a page that already has later changes.
-/

namespace CambiumDB

open ByteBuffer HeaderConfig HeaderCodec

namespace StorageEngine

open TreeM

/-! ### Replaying records on a page that has them -/

/-- The record has had its effect on the metadata and on the size of the file. -/
def Settled (m : MetaData) (filePages : Nat) (entry : LogEntry) : Prop :=
  entry.lsn ≤ m.LSN ∨
    match entry.record with
    | .createPage _ page _ .fileExpansion =>
      page ≤ m.maxAllocatedPageId ∧ page.toNat < filePages
    | .createPage _ _ _ .freelist | .updateRootNodePageId _ _ | .updateFirstLeafNodePageId _ _ =>
      False
    | _ => True

theorem Settled.redoMeta {m : MetaData} {filePages : Nat} {entry : LogEntry}
    (settled : Settled m filePages entry) : redoMeta m entry = m := by
  rcases settled with covered | settled
  · rw [StorageEngine.redoMeta, if_neg (UInt64.not_lt.2 covered)]
  · obtain ⟨lsn, record⟩ := entry
    rw [StorageEngine.redoMeta]
    split
    next =>
      cases record with
      | createPage tree page type source =>
        cases source with
        | fileExpansion =>
          have allocated : ¬ m.maxAllocatedPageId < page := UInt64.not_lt.2 settled.1
          dsimp only
          rw [if_neg allocated]
        | freelist => exact absurd settled id
      | updateRootNodePageId tree page => exact absurd settled id
      | updateFirstLeafNodePageId tree page => exact absurd settled id
      | _ => rfl
    next => rfl

theorem redoMeta_grows (m : MetaData) (entry : LogEntry) :
    m.LSN ≤ (redoMeta m entry).LSN ∧ m.maxAllocatedPageId ≤ (redoMeta m entry).maxAllocatedPageId := by
  obtain ⟨lsn, record⟩ := entry
  rw [redoMeta]
  split
  next newer =>
    have older : m.LSN ≤ lsn := UInt64.le_of_lt newer
    cases record with
    | createPage tree page type source =>
      cases source with
      | fileExpansion =>
        refine ⟨UInt64.le_refl _, ?_⟩
        dsimp only
        split
        next below => exact UInt64.le_of_lt below
        next => exact UInt64.le_refl _
      | freelist => exact ⟨older, UInt64.le_refl _⟩
    | updateRootNodePageId tree page => exact ⟨older, UInt64.le_refl _⟩
    | updateFirstLeafNodePageId tree page => exact ⟨older, UInt64.le_refl _⟩
    | _ => exact ⟨UInt64.le_refl _, UInt64.le_refl _⟩
  next => exact ⟨UInt64.le_refl _, UInt64.le_refl _⟩

theorem redoFilePages_grows (entry : LogEntry) (m : MetaData) (filePages : Nat) :
    filePages ≤ redoFilePages entry m filePages := by
  rw [redoFilePages]
  split
  next =>
    split
    · exact le_max_left _ _
    · exact le_rfl
  next => exact le_rfl

/-- A record that was redone is settled once the pages it names are in the file. -/
theorem settled_redoMeta {m : MetaData} {filePages : Nat} {entry : LogEntry}
    (named : ∀ id, Names entry.record id → id.toNat < redoFilePages entry m filePages) :
    Settled (redoMeta m entry) (redoFilePages entry m filePages) entry := by
  obtain ⟨lsn, record⟩ := entry
  by_cases newer : m.LSN < lsn
  · cases record with
    | createPage tree page type source =>
      cases source with
      | fileExpansion =>
        right
        refine ⟨?_, named page (.inl (by rw [createdType, if_pos rfl]; simp))⟩
        rw [redoMeta, if_pos newer]
        dsimp only
        split
        next => exact UInt64.le_refl _
        next above => exact UInt64.not_lt.1 above
      | freelist =>
        left
        rw [redoMeta, if_pos newer]
        exact UInt64.le_refl _
    | updateRootNodePageId tree page =>
      left
      rw [redoMeta, if_pos newer]
      exact UInt64.le_refl _
    | updateFirstLeafNodePageId tree page =>
      left
      rw [redoMeta, if_pos newer]
      exact UInt64.le_refl _
    | _ => exact .inr trivial
  · exact .inl (UInt64.le_trans (UInt64.not_lt.1 newer) (redoMeta_grows m ⟨lsn, record⟩).1)

/-- Later records do not unsettle it. -/
theorem Settled.keep {m : MetaData} {filePages : Nat} {entry : LogEntry}
    (settled : Settled m filePages entry) (next : LogEntry) :
    Settled (StorageEngine.redoMeta m next) (StorageEngine.redoFilePages next m filePages) entry := by
  obtain ⟨lsnGrows, maxGrows⟩ := redoMeta_grows m next
  have fileGrows := redoFilePages_grows next m filePages
  obtain ⟨lsn, record⟩ := entry
  rcases settled with covered | settled
  · exact .inl (UInt64.le_trans covered lsnGrows)
  · right
    cases record with
    | createPage tree page type source =>
      cases source with
      | fileExpansion => exact ⟨UInt64.le_trans settled.1 maxGrows, settled.2.trans_le fileGrows⟩
      | freelist => exact settled
    | _ => exact settled

/-- The file does not grow for a page that is in it. -/
theorem redoFilePages_of_named {entry : LogEntry} {filePages : Nat}
    (named : ∀ id, Names entry.record id → id.toNat < filePages) (m : MetaData) :
    redoFilePages entry m filePages = filePages := by
  obtain ⟨lsn, record⟩ := entry
  cases record with
  | createPage tree page type source =>
    cases source with
    | fileExpansion =>
      have inside : page.toNat < filePages := named page (.inl (by rw [createdType, if_pos rfl]; simp))
      show (if m.LSN < lsn then max filePages (page.toNat + 1) else filePages) = filePages
      split
      next => exact max_eq_left inside
      next => rfl
    | freelist => rfl
  | _ => rfl

/-! ### Runs -/

section
variable {w w' d : World} {entries : List LogEntry}

/-- What is left of each record after the redo of all. -/
structure Settles (w' : World) (entry : LogEntry) : Prop where
  redoable : Redoable entry.record
  settled : Settled w'.metadata w'.filePages entry
  named : ∀ id, Names entry.record id → id.toNat < w'.filePages

theorem Settles.keep {next entry : LogEntry} (settles : Settles w entry)
    (run : redo next w = (.ok (), w')) : Settles w' entry := by
  have redone := redone_of_ok run
  refine ⟨settles.redoable, ?_, ?_⟩
  · rw [(redo_metadata run).1, redone.file]
    exact settles.settled.keep next
  · intro id names
    rw [redone.file]
    exact (settles.named id names).trans_le (redoFilePages_grows next _ _)

theorem settles_redoAll (run : redoAll entries w = (.ok (), w')) :
    (∀ entry ∈ entries, Settles w' entry) ∧ ∀ entry, Settles w entry → Settles w' entry := by
  induction entries generalizing w with
  | nil =>
    obtain rfl := (Prod.mk.inj run).2
    exact ⟨by simp, fun _ settles => settles⟩
  | cons entry rest ih =>
    obtain ⟨_, w₁, first, later⟩ := bind_eq_ok run
    obtain ⟨settles, keeps⟩ := ih later
    have redone := redone_of_ok first
    have own : Settles w₁ entry := by
      refine ⟨redone.redoable, ?_, redone.named⟩
      rw [(redo_metadata first).1, redone.file]
      exact settled_redoMeta fun id names => by rw [← redone.file]; exact redone.named id names
    constructor
    · intro e member
      rcases List.mem_cons.1 member with rfl | member
      · exact keeps e own
      · exact settles e member
    · exact fun e settled => keeps e (settled.keep first)

theorem Idle.keep {entry : LogEntry} (idle : Idle w) (run : redo entry w = (.ok (), w')) :
    Idle w' := by
  have redone := redone_of_ok run
  exact ⟨redone.guards.trans idle.guards, fun n => by rw [redone.faults]; exact idle.faults n⟩

/-- Redoing records whose pages are all in the file returns if no change panics. -/
theorem redoAll_returns (idle : Idle w) (redoable : ∀ entry ∈ entries, Redoable entry.record)
    (named : ∀ entry ∈ entries, ∀ id, Names entry.record id → id.toNat < w.filePages)
    (pages : ∀ id, ∃ page, redoPages entries id (w.view id) = some page) :
    ∃ w', redoAll entries w = (.ok (), w') ∧ Idle w' ∧ w'.filePages = w.filePages := by
  induction entries generalizing w with
  | nil => exact ⟨w, rfl, idle, rfl⟩
  | cons entry rest ih =>
    have size : redoFilePages entry w.metadata w.filePages = w.filePages :=
      redoFilePages_of_named (named entry (by simp)) w.metadata
    have step (id : UInt64) : ∃ page, redoPage entry id (w.view id) = some page := by
      obtain ⟨page, redone⟩ := pages id
      rw [redoPages_cons] at redone
      obtain ⟨next, first, _⟩ := Option.bind_eq_some_iff.1 redone
      exact ⟨next, first⟩
    have can : CanRedo entry w :=
      ⟨redoable entry (by simp), fun id names => by rw [size]; exact named entry (by simp) id names,
        by rw [size]; exact le_max_right _ _, step⟩
    obtain ⟨w₁, first⟩ := redo_returns idle can
    have redone := redone_of_ok first
    have file : w₁.filePages = w.filePages := redone.file.trans size
    obtain ⟨w', later, idle', file'⟩ := ih (idle.keep first)
      (fun e member => redoable e (List.mem_cons_of_mem _ member))
      (fun e member id names => by
        rw [file]
        exact named e (List.mem_cons_of_mem _ member) id names)
      (fun id => by
        obtain ⟨page, all⟩ := pages id
        rw [redoPages_cons, redone.pages id] at all
        exact ⟨page, all⟩)
    refine ⟨w', ?_, idle', file'.trans file⟩
    rw [redoAll, bind_ok first]
    exact later

/-- So does recovery. -/
theorem recover_returns (idle : Idle w) (redone : committed w.log = some entries)
    (redoable : ∀ entry ∈ entries, Redoable entry.record)
    (named : ∀ entry ∈ entries, ∀ id, Names entry.record id → id.toNat < w.filePages)
    (pages : ∀ id, ∃ page, redoPages entries id (w.view id) = some page) :
    ∃ w', recover w = (.ok (), w') ∧ Idle w' ∧ w'.filePages = w.filePages := by
  obtain ⟨w', run, idle', file⟩ := redoAll_returns idle redoable named pages
  exact ⟨w'.countCall, recover_of_redoAll redone run (idle'.faults _),
    ⟨idle'.guards, idle'.faults⟩, file⟩

/-- A recovery that started over: the same metadata, and a file that is at least as long. -/
structure Follows (base : Nat) (w d : World) : Prop where
  idle : Idle d
  metadata : d.metadata = w.metadata
  file : d.filePages = max base w.filePages

theorem redoFilePages_max (entry : LogEntry) (m : MetaData) (base filePages : Nat) :
    redoFilePages entry m (max base filePages) = max base (redoFilePages entry m filePages) := by
  rw [redoFilePages, redoFilePages]
  split
  next =>
    split
    · exact max_assoc _ _ _
    · rfl
  next => rfl

theorem Follows.redoAll {base : Nat} (follows : Follows base w d)
    (run : redoAll entries w = (.ok (), w'))
    (pages : ∀ id, ∃ page, redoPages entries id (d.view id) = some page) :
    ∃ d', redoAll entries d = (.ok (), d') ∧ Follows base w' d' := by
  induction entries generalizing w d with
  | nil =>
    obtain rfl := (Prod.mk.inj run).2
    exact ⟨d, rfl, follows⟩
  | cons entry rest ih =>
    obtain ⟨_, w₁, first, later⟩ := bind_eq_ok run
    have redone := redone_of_ok first
    have size : redoFilePages entry d.metadata d.filePages = max base w₁.filePages := by
      rw [follows.metadata, follows.file, redoFilePages_max, ← redone.file]
    have step (id : UInt64) : ∃ page, redoPage entry id (d.view id) = some page := by
      obtain ⟨page, all⟩ := pages id
      rw [redoPages_cons] at all
      obtain ⟨next, one, _⟩ := Option.bind_eq_some_iff.1 all
      exact ⟨next, one⟩
    have can : CanRedo entry d := by
      refine ⟨redone.redoable, ?_, ?_, step⟩
      · intro id names
        rw [size]
        exact (redone.named id names).trans_le (le_max_right _ _)
      · have limit := redone.limit
        rw [size, follows.file]
        omega
    obtain ⟨d₁, again⟩ := redo_returns follows.idle can
    have redone' := redone_of_ok again
    have follows₁ : Follows base w₁ d₁ :=
      ⟨follows.idle.keep again,
        by rw [(redo_metadata again).1, follows.metadata, (redo_metadata first).1],
        redone'.file.trans size⟩
    obtain ⟨d', rest', follows'⟩ := ih follows₁ later (fun id => by
      obtain ⟨page, all⟩ := pages id
      rw [redoPages_cons, redone'.pages id] at all
      exact ⟨page, all⟩)
    refine ⟨d', ?_, follows'⟩
    rw [StorageEngine.redoAll, bind_ok again]
    exact rest'

theorem Idle.redoAll (idle : Idle w) (run : redoAll entries w = (.ok (), w')) : Idle w' := by
  induction entries generalizing w with
  | nil =>
    obtain rfl := (Prod.mk.inj run).2
    exact idle
  | cons entry rest ih =>
    obtain ⟨_, w₁, first, later⟩ := bind_eq_ok run
    exact ih (idle.keep first) later

/-- What a reader of a page finds, by the type of the page. -/
inductive LiveEntries where
  | leaf (entries : Option (List LeafNodeElement))
  | internal (entries : Option (List InternalNodeElement))

def liveEntries (page : Page) : LiveEntries :=
  if isLeafNode page then .leaf (SlottedPage.liveElements LeafNodeCodec.elementCodec page)
  else .internal (SlottedPage.liveElements InternalNodeCodec.elementCodec page)

end

/-- A database of one page with one operation in its log. -/
def logged (page : Page) (entries : List LogEntry) : World :=
  { onePage page with log := ⟨1, .beginOperation 0⟩ :: entries ++ [⟨9, .commitOperation 0⟩] }

theorem redoPages_unnamed {entries : List LogEntry} {id : UInt64}
    (unnamed : ∀ e ∈ entries, ¬ Names e.record id) (content : Page) :
    redoPages entries id content = some content := by
  induction entries with
  | nil => rfl
  | cons entry rest ih =>
    have here := unnamed entry (by simp)
    simp only [Names, not_or, not_not] at here
    rw [redoPages_cons, redoPage_other here.1 here.2]
    exact ih fun e member => unnamed e (List.mem_cons_of_mem _ member)

section
variable {page : Page} {slot : Slot} {floor garbage : Nat} {old : Bytes} (value : Bytes)
  (lsn : UInt64) (h : LeafNodeCodec.LeafRepr page [(slot, some ⟨[1], old⟩)] floor garbage)
  (older : getLSN page < lsn) (longer : old.length < value.length)

include h older longer

end

end StorageEngine

end CambiumDB
