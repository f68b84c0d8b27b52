import CambiumDB.StorageEngine.LatestMetaData
import CambiumDB.StorageEngine.TreeIds
import CambiumDB.BPlusTree.FailedInsert

/-!
# Can recovery give a page away twice?

A page in use is at most `MaxAllocatedPageId` and not on the free list. Both are persisted by
`Close` only. Recovery moves the maximum for the pages that come from the end of the file, and
takes the pages off the free list that come from there. A page that an operation without a
commit record took from the end of the file and gave back is on the free list of the process
only: when another operation takes it from there, recovery does not know where it came from.
-/

namespace CambiumDB

open ByteBuffer TransitionSystem

namespace StorageEngine

/-- The page that a record creates. -/
def createdPage (entry : LogEntry) : Option UInt64 :=
  match entry.record with
  | .createPage _ page _ _ => some page
  | _ => none

/-- The page that a record takes from the free list. -/
def reusedPage (entry : LogEntry) : Option UInt64 :=
  match entry.record with
  | .createPage _ page _ .freelist => some page
  | _ => none

/-- No page of the records can be handed out again. -/
def StayAllocated (entries : List LogEntry) (m : MetaData) : Prop :=
  ∀ page ∈ entries.filterMap createdPage,
    page ∉ m.deallocatedPageIdList ∧ page ≤ m.maxAllocatedPageId

/-- Each page of the records is below the persisted maximum or below a page that is redone as
taken from the end of the file, and it is redone as taken from the free list as often as the
persisted list has it. -/
def AccountedFor (m : MetaData) (entries : List LogEntry) : Prop :=
  ∀ page ∈ entries.filterMap createdPage,
    m.deallocatedPageIdList.count page ≤
      ((surviving m.LSN [] entries).filterMap reusedPage).count page ∧
    (page ≤ m.maxAllocatedPageId ∨
      ∃ other ∈ (surviving m.LSN [] entries).filterMap expansion, page ≤ other)

/-! ### The free list -/

theorem swapRemove_perm (list : List UInt64) (page : UInt64) :
    (swapRemove list page).Perm (list.erase page) := by
  rw [swapRemove]
  split
  next absent =>
    have missing : page ∉ list := by simpa using absent
    rw [List.erase_of_not_mem missing]
  next i found =>
    have listed : page ∈ list := by
      by_contra missing
      rw [List.idxOf?_eq_none_iff.2 missing] at found
      cases found
    obtain ⟨before, after, first, rfl, erased⟩ := List.exists_erase_eq listed
    obtain rfl : i = before.length := by
      have none : before.findIdx? (· == page) = none := List.idxOf?_eq_none_iff.2 first
      rw [List.idxOf?, List.findIdx?_append, none, List.findIdx?_cons] at found
      simpa using found.symm
    rw [erased, List.set_append_right _ _ le_rfl, Nat.sub_self, List.set_cons_zero]
    -- the last page of the list moves to the place of the removed one
    rcases List.eq_nil_or_concat after with rfl | ⟨middle, last, rfl⟩
    · simp
    · have last' : (before ++ page :: middle.concat last).getLastD 0 = last := by
        rw [List.concat_eq_append, ← List.cons_append, ← List.append_assoc, List.getLastD_concat]
      rw [last', List.concat_eq_append, ← List.cons_append, ← List.append_assoc,
        List.dropLast_concat]
      have moved : ([last] ++ middle).Perm (middle ++ [last]) := List.perm_append_comm
      exact moved.append_left before

theorem count_swapRemove (list : List UInt64) (page other : UInt64) :
    (swapRemove list page).count other = list.count other - if page = other then 1 else 0 := by
  rw [(swapRemove_perm list page).count_eq, List.count_erase]
  simp only [beq_iff_eq]

section
variable {m : MetaData}

theorem count_redoMeta {entry : LogEntry} (newer : m.LSN < entry.lsn) (page : UInt64) :
    (redoMeta m entry).deallocatedPageIdList.count page =
      m.deallocatedPageIdList.count page - (reusedPage entry).toList.count page := by
  obtain ⟨lsn, record⟩ := entry
  rw [redoMeta, if_pos newer]
  cases record with
  | createPage tree created type source =>
    cases source with
    | fileExpansion => rfl
    | freelist =>
      rw [count_swapRemove, reusedPage, Option.toList_some, List.count_singleton]
      simp only [beq_iff_eq]
  | _ => rfl

/-- A page leaves the free list once for each record that takes it from there. -/
theorem count_foldl_redoMeta (before rest : List LogEntry) (page : UInt64) :
    (rest.foldl redoMeta (before.foldl redoMeta m)).deallocatedPageIdList.count page =
      (before.foldl redoMeta m).deallocatedPageIdList.count page -
        ((surviving m.LSN before rest).filterMap reusedPage).count page := by
  induction rest generalizing before with
  | nil => rfl
  | cons entry rest ih =>
    have here := guard_iff_not_overtaken (m := m) before entry
    have step := ih (before ++ [entry])
    rw [List.foldl_append, List.foldl_cons, List.foldl_nil] at step
    rw [List.foldl_cons, step, surviving]
    by_cases overtaken : Overtaken m.LSN before entry
    · rw [if_pos overtaken, redoMeta_overtaken fun guard => here.1 guard overtaken]
    · rw [if_neg overtaken, count_redoMeta (here.2 overtaken), List.filterMap_cons]
      cases found : reusedPage entry with
      | none => rfl
      | some other =>
        dsimp only
        rw [Option.toList_some, Nat.sub_sub, ← List.count_append, List.singleton_append]

theorem stayAllocated_iff (m : MetaData) (entries : List LogEntry) :
    StayAllocated entries (entries.foldl redoMeta m) ↔ AccountedFor m entries := by
  have free (page : UInt64) : page ∉ (entries.foldl redoMeta m).deallocatedPageIdList ↔
      m.deallocatedPageIdList.count page ≤
        ((surviving m.LSN [] entries).filterMap reusedPage).count page := by
    rw [← List.count_eq_zero]
    have count := count_foldl_redoMeta (m := m) [] entries page
    rw [List.foldl_nil] at count
    rw [count, Nat.sub_eq_zero_iff_le]
  have last (page : UInt64) := le_foldl_redoMeta_max (m := m) [] entries page
  rw [List.foldl_nil] at last
  apply forall₂_congr
  intro page _
  rw [free, last]

end

/-! ### Crashes -/

theorem crash_metadata {e crashed started : StorageEngine} {faults : Nat → Bool} {w : World}
    (page : crashed.metaDataPage = e.metaDataPage)
    (start : crashed.newStorageEngine = some started)
    (run : recover (started.recovering faults) = (.ok (), w)) {m : MetaData}
    (read : MetaDataCodec.decodeMetaDataPage e.metaDataPage = some m) {entries : List LogEntry}
    (redone : committed (started.recovered w).world.log = some entries) :
    (started.recovered w).world.metadata = entries.foldl redoMeta m := by
  obtain ⟨m', read', _, _, metadata, _⟩ := newStorageEngine_spec start
  rw [page] at read'
  obtain rfl : m = m' := Option.some.inj (read.symm.trans read')
  obtain ⟨entries', redone', metadata', log⟩ := recover_metadata run
  have same : (started.recovered w).world.log = (started.recovering faults).log := log
  rw [same] at redone
  obtain rfl := Option.some.inj (redone.symm.trans redone')
  have before : (started.recovering faults).metadata = m := metadata
  rw [before] at metadata'
  exact metadata'

/-- Whatever the history and the crash, a recovery that succeeds keeps the pages of the committed
operations exactly if the persisted metadata and the redone records account for them. -/
theorem recovered_pages_stay_allocated_iff (nextLSN : List LogEntry → UInt64) {e e' : StorageEngine}
    (crash : Step nextLSN e .crash e') {m : MetaData}
    (read : MetaDataCodec.decodeMetaDataPage e.metaDataPage = some m) {entries : List LogEntry}
    (redone : committed e'.world.log = some entries) :
    StayAllocated entries e'.world.metadata ↔ AccountedFor m entries := by
  have metadata : e'.world.metadata = entries.foldl redoMeta m := by
    cases crash with
    | crash start run => exact crash_metadata rfl start run read redone
    | crashInside _ _ _ _ _ _ start run =>
      exact crash_metadata (by rw [crashedAt]) start run read redone
  rw [metadata]
  exact stayAllocated_iff m entries

/-- The page of the first insert into a new database. -/
theorem first_page_stays_allocated : ∃ e e' entries, Step recordLSN e .crash e' ∧
    committed e'.world.log = some entries ∧ entries.filterMap createdPage = [1] ∧
      StayAllocated entries e'.world.metadata := by
  have room : LeafNodeCodec.spaceRequired [1] [2] + SlotCodec.slotSize ≤ 4064 := by decide
  obtain ⟨e, first⟩ := exists_afterFirstInsert room
  obtain ⟨redone, w, crash, _, log⟩ := first.exists_crash room
  rw [← log] at redone
  refine ⟨e, _, _, crash, redone, rfl, ?_⟩
  rw [recovered_pages_stay_allocated_iff recordLSN crash first.read redone]
  intro page member
  obtain rfl : page = 1 := List.mem_singleton.1 member
  have current : ¬ Overtaken 0 [] ⟨2, .createPage 1 1 .leaf .fileExpansion⟩ := by
    simp [Overtaken]
  refine ⟨Nat.zero_le _, .inr ⟨1, ?_, UInt64.le_refl 1⟩⟩
  rw [firstRecords, surviving, if_neg current]
  simp [expansion]

end StorageEngine

namespace BPlusTree

open TreeM

open LeafNodeCodec (NoSpace spaceRequired)

variable (nextLSN : List LogEntry → UInt64) {w : World} {key value : Bytes}

/-- A page is obtained and given back. -/
def givenBack (w : World) : World := (cleanupPage w.nextPage w.allocate.countCall).2

/-- A full root leaf whose split gets no guard on the page for the new root. -/
theorem writeLeaf_gives_page_back {id : UInt64} {pairs : List LeafNodeElement} {f : Nat → Bool}
    (alloc : w.Allocating) (space : w.filePages + 16 ≤ maxFilePages)
    (leaf : LeafNodeCodec.LeafPage (w.pages id) pairs)
    (absent : SortedList.lookup LeafNodeElement.key key pairs = none)
    (full : NoSpace (w.pages id) key value) (isRoot : w.tree.rootNodePageId = id)
    (allocates : w.faults w.calls = false) (agree : ∀ n < w.allocate.calls, f n = w.faults n)
    (fault : f w.allocate.calls = true) :
    StopsAt (writeLeaf nextLSN id key value) w f (givenBack w) := by
  have isRoot' : (w.withFaults f).tree.rootNodePageId = id := isRoot
  have taken := newPage_ok alloc allocates space
  have earlier : ∀ n < w.calls, f n = w.faults n := fun n before =>
    agree n (before.trans (Nat.lt_succ_self _))
  have split : StopsAt (handleLeafRootNodeSplit nextLSN id key value) w f (givenBack w) :=
    .after (.get fun _ _ => rfl) (get_apply _ _) earlier
      (.after .newPage taken agree (.bind (.newGuardOrCleanup fault) _))
  rw [StopsAt, writeLeaf_full nextLSN (w := w.withFaults f) leaf absent full, splitLeaf,
    bind_ok (get_apply _ _), if_pos isRoot']
  exact split.bind _

/-- The first insert of an entry that no page can take, when the guard on the new root fails. -/
theorem insert_gives_page_back (ready : Ready w) (empty : w.tree.rootNodePageId = 0)
    (space : w.filePages + 32 ≤ maxFilePages) (big : 4064 < spaceRequired key value)
    (small : spaceRequired key value < 65536) :
    ∃ f : Nat → Bool, insert nextLSN key value (w.withFaults f) = (.error (.error .io),
      ((givenBack ((w.begin nextLSN).plantRoot nextLSN)).release w.nextPage).withFaults f) := by
  have alloc : (w.begin nextLSN).Allocating := ready.toAllocating.congr rfl rfl rfl fun _ _ => rfl
  have entered := guardRoot_first nextLSN ready.faults empty ready.toAllocating (by omega)
    (by simp [ready.guards])
  have repeats : Repeats (guardRoot nextLSN) :=
    .bind (.get fun _ _ => rfl) fun _ =>
      .ite (repeats_createRoot nextLSN) (.bind (.newGuard _) fun _ => .pure _)
  have leaf := plantRoot_leaf nextLSN ready.toAllocating
  have alloc' := plantRoot_allocating nextLSN ready.toAllocating (by omega)
  have blank := LeafNodeCodec.clean_zero.setLSN (nextLSN (w.begin nextLSN).log)
  rw [← plantRoot_page nextLSN alloc] at blank
  have isRoot : ((w.begin nextLSN).plantRoot nextLSN).tree.rootNodePageId = w.nextPage := rfl
  have faults : ((w.begin nextLSN).plantRoot nextLSN).faults = w.faults := rfl
  have later : w.calls < ((w.begin nextLSN).plantRoot nextLSN).calls := by
    show w.calls < w.calls + 1 + 1 + 1 + 1 + 1 + 1
    omega
  have room : ((w.begin nextLSN).plantRoot nextLSN).filePages + 16 ≤ maxFilePages := by
    have grown := (w.begin nextLSN).allocate_filePages_le
    exact (Nat.add_le_add_right grown 16).trans space
  generalize (w.begin nextLSN).plantRoot nextLSN = planted at *
  obtain ⟨f, agree, fault⟩ := exists_fault_at w planted.allocate.calls
  rw [← faults] at agree
  have full : NoSpace (planted.pages w.nextPage) key value := by
    have free : LeafNodeCodec.freeSpace (planted.pages w.nextPage) = 4064 := blank.free
    have garbage : (HeaderCodec.decodePageHeader (planted.pages w.nextPage)).garbageSize = 0 :=
      blank.garbage
    exact ⟨small, free ▸ big, by omega⟩
  have write := writeLeaf_gives_page_back nextLSN alloc' room leaf rfl full isRoot
    (by rw [faults]; exact ready.faults _) agree fault
  have earlier : ∀ n < planted.calls, f n = planted.faults n := fun n before =>
    agree n (before.trans (Nat.lt_succ_self _))
  have descends : StopsAt (writeTraversal nextLSN key value (planted.filePages + 1) w.nextPage none)
      planted f (givenBack planted) := by
    rw [StopsAt, writeTraversal_leaf nextLSN (w := planted.withFaults f) leaf]
    exact write
  have run : StopsAt (insertLocked nextLSN key value) (w.begin nextLSN) f
      ((givenBack planted).release w.nextPage) := by
    rw [insertLocked]
    apply StopsAt.after repeats entered (faults ▸ earlier)
    apply StopsAt.deferDone
    exact .after (.get fun _ _ => rfl) (get_apply _ _) earlier (descends.bind _)
  have begins : begun nextLSN w = w.begin nextLSN := by
    rw [begun, logIgnored_ok (ready.faults _)]
    rfl
  have first : f w.calls = w.faults w.calls := by
    rw [← faults]
    exact earlier _ later
  refine ⟨f, ?_⟩
  rw [insert_begun, begun_withFaults first, begins]
  exact run

/-- The rest of the free list. -/
def leaveFree (w : World) (rest : List UInt64) : World :=
  { w with metadata := { w.metadata with deallocatedPageIdList := rest } }

/-- A first leaf on a page from the free list. -/
def reuseRoot (w : World) (nextLSN : List LogEntry → UInt64) (root : UInt64)
    (rest : List UInt64) : World :=
  let created := (((leaveFree w rest).logged nextLSN
    (.createPage w.tree.bPlusTreeId root .leaf .freelist)).acquire root).setPage root
    (LeafNodeCodec.setLSN (w.pages root) (nextLSN w.log))
  let first := (created.logged nextLSN
    (.updateFirstLeafNodePageId w.tree.bPlusTreeId root)).setMetaLSN (nextLSN created.log)
  let planted := (first.logged nextLSN
    (.updateRootNodePageId w.tree.bPlusTreeId root)).setMetaLSN (nextLSN first.log)
  (planted.setFirstLeaf root).setRoot root

theorem createRoot_reused {root : UInt64} {rest : List UInt64}
    (faults : ∀ n, w.faults n = false) (listed : w.metadata.deallocatedPageIdList = root :: rest)
    (inside : root.toNat < w.filePages) (free : root ∉ w.guards) :
    createRoot nextLSN w = (.ok root, reuseRoot w nextLSN root rest) := by
  have taken : newPage w = (.ok (root, .freelist), leaveFree w rest) := by
    rw [newPage, listed]
    rfl
  rw [createRoot, bind_ok (get_apply _ w), bind_ok taken]
  simp only
  rw [bind_ok (logRecord_ok (w := leaveFree w rest) (faults _)),
    bind_ok (newGuard_ok (w := (leaveFree w rest).append _ _) (faults _) inside free),
    bind_ok (modifyPage_apply _ _ _), bind_ok (logRecord_ok ?_), bind_ok (modify_apply _ _),
    bind_ok (logRecord_ok ?_), bind_ok (modify_apply _ _), bind_ok (modify_apply _ _),
    bind_ok (modify_apply _ _)]
  · rfl
  · exact faults _
  · exact faults _

theorem insert_reused {root : UInt64} {rest : List UInt64} (faults : ∀ n, w.faults n = false)
    (empty : w.tree.rootNodePageId = 0)
    (listed : w.metadata.deallocatedPageIdList = root :: rest)
    (inside : root.toNat < w.filePages) (free : root ∉ w.guards)
    (blank : w.pages root = Buffer.zero 4096)
    (fits : LeafNodeCodec.InsertFits (Buffer.zero 4096) key value) :
    ∃ checked final, insert nextLSN key value w = (.ok (),
      ((reuseRoot (w.begin nextLSN) nextLSN root rest).rewrite nextLSN root checked
        (.insertLeafNodeEntry w.tree.bPlusTreeId root key value) final).finish nextLSN root) := by
  have page : (reuseRoot (w.begin nextLSN) nextLSN root rest).pages root =
      LeafNodeCodec.setLSN (Buffer.zero 4096) (nextLSN (w.begin nextLSN).log) := by
    rw [← blank]
    exact Function.update_self ..
  have leaf := LeafNodeCodec.leafPage_zero.setLSN (nextLSN (w.begin nextLSN).log)
  have fits' := LeafNodeCodec.leafPage_zero.insertFits_setLSN fits (nextLSN (w.begin nextLSN).log)
  rw [← page] at leaf fits'
  obtain ⟨checked, final, run, _⟩ := writeLeaf_insert nextLSN
    (w := reuseRoot (w.begin nextLSN) nextLSN root rest) faults leaf rfl fits'
  have entered : guardRoot nextLSN (w.begin nextLSN) =
      (.ok root, reuseRoot (w.begin nextLSN) nextLSN root rest) := by
    have none : (w.begin nextLSN).tree.rootNodePageId = 0 := empty
    rw [guardRoot, bind_ok (get_apply _ _), if_pos none]
    exact createRoot_reused nextLSN (w := w.begin nextLSN) faults listed inside free
  refine ⟨checked, final, ?_⟩
  rw [insert, bind_ok (get_apply _ w), bind_ok (logIgnored_ok (faults _))]
  exact insertLocked_run nextLSN entered ((writeTraversal_leaf nextLSN leaf).trans run) faults

end BPlusTree

namespace StorageEngine

/-- Two trees of a new database, both without a root. -/
def twoTrees (page : Page) : StorageEngine :=
  (((newDatabase page).newBPlusTree.2.newBPlusTree.2.openBPlusTree 1).2.openBPlusTree 2).2

/-- The calls of a client that only inserts. -/
def Inserts : Op → Prop
  | .newBPlusTree | .openBPlusTree _ | .insert _ _ _ => True
  | _ => False

theorem reach_twoTrees {page : Page} (opened : Opened (newDatabase page)) :
    Reach (Step recordLSN) (fun _ => Inserts) Opened (twoTrees page) := by
  have creates : Inserts .newBPlusTree := trivial
  have opens (id : UInt64) : Inserts (.openBPlusTree id) := trivial
  exact .next (.next (.next (.next (.start opened) creates .newBPlusTree) creates .newBPlusTree)
    (opens 1) .openBPlusTree) (opens 2) .openBPlusTree

theorem ready_twoTrees (page : Page) :
    Ready ((twoTrees page).enterTree ⟨1, 0, 0⟩ fun _ => false) where
  freeList := rfl
  inside := Nat.zero_lt_one
  limit := show 1 ≤ TreeM.maxFilePages by decide
  blank _ _ _ := rfl
  guards := rfl
  faults _ := rfl

/-- The first tree gave page 2 back; nothing was committed or flushed. -/
structure GaveBack (e : StorageEngine) : Prop where
  reached : Reach (Step recordLSN) (fun _ => Inserts) Opened e
  handle : e.findTree 2 = some ⟨2, 0, 0⟩
  free : e.world.metadata.deallocatedPageIdList = [2]
  file : e.world.filePages = 17
  guards : e.world.guards = []
  blank : e.world.pages 2 = Buffer.zero 4096
  log : e.world.log = [⟨1, .beginOperation 1⟩, ⟨2, .createPage 1 1 .leaf .fileExpansion⟩,
    ⟨3, .updateFirstLeafNodePageId 1 1⟩, ⟨4, .updateRootNodePageId 1 1⟩]
  read : MetaDataCodec.decodeMetaDataPage e.metaDataPage = some ⟨0, 0, [], 0, [], []⟩
  stored : ∀ id, e.stored id = Buffer.zero 4096

theorem exists_gaveBack : ∃ e, GaveBack e := by
  obtain ⟨page, opened⟩ := exists_newDatabase
  obtain ⟨_, same, read⟩ := opened_spec opened
  obtain rfl : page = _ := congrArg StorageEngine.metaDataPage same
  obtain ⟨value, long⟩ : ∃ value : Bytes, value.length = 5000 :=
    ⟨List.replicate 5000 0, List.length_replicate⟩
  have size : LeafNodeCodec.spaceRequired [] value = 5004 := by
    rw [LeafNodeCodec.spaceRequired, long, List.length_nil]
  obtain ⟨f, run⟩ := BPlusTree.insert_gives_page_back recordLSN (ready_twoTrees page) rfl
    (show 1 + 32 ≤ TreeM.maxFilePages by decide) (size.symm ▸ (by decide : 4064 < 5004))
    (size.symm ▸ (by decide : 5004 < 65536))
  have allowed : Inserts (.insert 1 [] value) := trivial
  have found : (twoTrees page).findTree 1 = some ⟨1, 0, 0⟩ := rfl
  refine ⟨(twoTrees page).leaveTree _ (twoTrees page).stored, .next (reach_twoTrees opened) allowed
    (.insert found run trivial fun _ => .inl rfl), ?_, ?_, ?_, ?_, ?_, ?_, read, fun _ => rfl⟩
  · rfl
  · rfl
  · rfl
  · rfl
  · rfl
  · rfl

/-- The second tree takes page 2 from the free list, and its insert commits. -/
theorem GaveBack.exists_reuse {e : StorageEngine} (gave : GaveBack e) {key value : Bytes}
    (fits : LeafNodeCodec.InsertFits (Buffer.zero 4096) key value) :
    ∃ e', Reach (Step recordLSN) (fun _ => Inserts) Opened e' ∧ e'.world.filePages = 17 ∧
      e'.world.log = e.world.log ++ ⟨5, .beginOperation 2⟩ ::
        firstRecords 6 2 2 .freelist key value ++ [⟨10, .commitOperation 2⟩] ∧
      e'.metaDataPage = e.metaDataPage ∧ e'.stored = e.stored := by
  have inside : (2 : UInt64).toNat < e.world.filePages := by
    rw [gave.file]
    decide
  have free : (2 : UInt64) ∉ e.world.guards := by simp [gave.guards]
  obtain ⟨checked, final, run⟩ := BPlusTree.insert_reused recordLSN
    (w := e.enterTree ⟨2, 0, 0⟩ fun _ => false) (fun _ => rfl) rfl gave.free inside free gave.blank
    fits
  have allowed : Inserts (.insert 2 key value) := trivial
  refine ⟨e.leaveTree _ e.stored, .next gave.reached allowed
    (.insert gave.handle run trivial fun _ => .inl rfl), gave.file, ?_, rfl, rfl⟩
  -- the records are numbered by the length of the log before them
  obtain ⟨currBPlusTreeId, openBPlusTrees, world, metaDataPage, stored⟩ := e
  obtain ⟨tree, pages, filePages, metadata, log, guards, history, calls, faults⟩ := world
  obtain rfl := gave.log
  rfl

/-- A tree gives a page back, another one takes it, and only the second insert commits: its record
does not raise `MaxAllocatedPageId`, and the record that would was never committed. -/
theorem reused_page_is_given_away_again : ∃ e e' entries,
    Reach (Step recordLSN) (fun _ => Inserts) Opened e ∧ Step recordLSN e .crash e' ∧
      committed e'.world.log = some entries ∧ ¬ StayAllocated entries e'.world.metadata := by
  obtain ⟨e₁, gave⟩ := exists_gaveBack
  have room : LeafNodeCodec.spaceRequired [1] [2] + SlotCodec.slotSize ≤ 4064 := by decide
  obtain ⟨e, reached, file, log, metaData, stored⟩ := gave.exists_reuse
    (LeafNodeCodec.clean_zero.insertFits room)
  rw [gave.log] at log
  have redone : committed e.world.log = some (firstRecords 6 2 2 .freelist [1] [2]) := by
    rw [log]
    rfl
  have named : ∀ entry ∈ firstRecords 6 2 2 .freelist [1] [2], ∀ id,
      Names entry.record id → id.toNat < e.world.filePages := by
    intro entry member id names
    rw [names_firstRecords entry member names, file]
    decide
  have blank : e.filed 2 = Buffer.zero 4096 := by
    rw [filed, stored, gave.stored, ite_self]
  obtain ⟨w, crash, metadata, log', _⟩ := exists_crash (metaData ▸ gave.read) redone
    redoable_firstRecords named (redoPages_firstRecords_of_zero room (by decide) blank)
  have redone' : committed w.log = some _ := log' ▸ redone
  refine ⟨e, _, _, reached, crash, redone', ?_⟩
  intro stay
  have highest : (2 : UInt64) ≤ w.metadata.maxAllocatedPageId := (stay 2 (by decide)).2
  rw [metadata] at highest
  exact absurd highest (by decide)

end StorageEngine

end CambiumDB
