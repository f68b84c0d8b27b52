import CambiumDB.StorageEngine.CommittedBlocks
import CambiumDB.StorageEngine.Restart
import CambiumDB.BPlusTree.Refinement

/-!
# Is the recovered metadata the latest?

Operations of different trees are redone in the order of their commit records, and one log
sequence number in the metadata decides for all trees which records are skipped. A record is
overtaken when a record with a greater LSN, of whatever tree, was redone before it and moved
that number on, or when the number was greater from the start.
-/

namespace CambiumDB

namespace StorageEngine

open TreeM

/-! ### Logs of committed operations -/

/-- The records of one tree, all of them in operations that are committed. -/
inductive Complete : Bool → List LogEntry → Prop
  | nil : Complete false []
  | begin {entry : LogEntry} {tree : UInt64} {rest : List LogEntry} :
      entry.record = .beginOperation tree → Complete true rest → Complete false (entry :: rest)
  | operation {entry : LogEntry} {rest : List LogEntry} :
      IsOperation entry → Complete true rest → Complete true (entry :: rest)
  | commit {entry : LogEntry} {tree : UInt64} {rest : List LogEntry} :
      entry.record = .commitOperation tree → Complete false rest → Complete true (entry :: rest)

theorem Complete.blocks {inside : Bool} {log : List LogEntry} (complete : Complete inside log) :
    Blocks inside log := by
  induction complete with
  | nil => exact .nil
  | begin begins _ ih => exact .begin begins ih
  | operation operation _ ih => exact .operation operation ih
  | commit commits _ ih => exact .commit commits ih

/-- Operations of any number of trees, interleaved in any way. -/
def CommittedLog (log : List LogEntry) : Prop := ∀ tree, Complete false (ofTree tree log)

/-! ### What the metadata should be -/

/-- The root that a record gives to a tree. -/
def rootUpdate (tree : UInt64) (entry : LogEntry) : Option UInt64 :=
  match entry.record with
  | .updateRootNodePageId owner page => if tree = owner then some page else none
  | _ => none

def firstLeafUpdate (tree : UInt64) (entry : LogEntry) : Option UInt64 :=
  match entry.record with
  | .updateFirstLeafNodePageId owner page => if tree = owner then some page else none
  | _ => none

/-- The page that a record takes from the end of the file. -/
def expansion (entry : LogEntry) : Option UInt64 :=
  match entry.record with
  | .createPage _ page _ .fileExpansion => some page
  | _ => none

def lastUpdate (update : LogEntry → Option UInt64) (log : List LogEntry) : Option UInt64 :=
  (log.filterMap update).getLast?

/-- The maps hold the last record of each tree, and the pages of the log are in the file and
count as allocated. -/
structure LatestMetaData (log : List LogEntry) (w : World) : Prop where
  roots : ∀ tree page, lastUpdate (rootUpdate tree) log = some page →
    w.metadata.rootPages.get tree = page
  leaves : ∀ tree page, lastUpdate (firstLeafUpdate tree) log = some page →
    w.metadata.firstLeafNodePages.get tree = page
  pages : ∀ page ∈ log.filterMap expansion,
    page.toNat < w.filePages ∧ page ≤ w.metadata.maxAllocatedPageId

/-! ### Overtaken records -/

/-- The records that move the LSN of the metadata on. -/
def movesLSN (record : WALRecord) : Bool :=
  match record with
  | .createPage _ _ _ .freelist | .updateRootNodePageId _ _ | .updateFirstLeafNodePageId _ _ => true
  | _ => false

/-- The LSN of the metadata, which starts at `start`, has reached that of the record. -/
def Overtaken (start : UInt64) (before : List LogEntry) (entry : LogEntry) : Prop :=
  entry.lsn ≤ start ∨
    ∃ earlier ∈ before, movesLSN earlier.record = true ∧ entry.lsn ≤ earlier.lsn

instance decidableOvertaken (start : UInt64) (before : List LogEntry) (entry : LogEntry) :
    Decidable (Overtaken start before entry) := by
  unfold Overtaken
  infer_instance

/-- The records that are not overtaken. -/
def surviving (start : UInt64) (before : List LogEntry) : List LogEntry → List LogEntry
  | [] => []
  | entry :: rest =>
    if Overtaken start before entry then surviving start (before ++ [entry]) rest
    else entry :: surviving start (before ++ [entry]) rest

/-- What was overtaken is made up for by other records or by the metadata from before. -/
structure OvertakingHarmless (m : MetaData) (entries : List LogEntry) : Prop where
  roots : ∀ tree page, lastUpdate (rootUpdate tree) entries = some page →
    (lastUpdate (rootUpdate tree) (surviving m.LSN [] entries)).getD (m.rootPages.get tree) = page
  leaves : ∀ tree page, lastUpdate (firstLeafUpdate tree) entries = some page →
    (lastUpdate (firstLeafUpdate tree) (surviving m.LSN [] entries)).getD
      (m.firstLeafNodePages.get tree) = page
  pages : ∀ page ∈ entries.filterMap expansion, page ≤ m.maxAllocatedPageId ∨
    ∃ other ∈ (surviving m.LSN [] entries).filterMap expansion, page ≤ other

/-! ### The records of one tree keep their order -/

theorem ofTree_openBlock (tree owner : UInt64) (before : List LogEntry) :
    ofTree tree (openBlock owner before) = if tree = owner then openBlock owner before else [] := by
  have own : ∀ entry ∈ openBlock owner before, entry.record.tree = owner := by
    intro entry member
    have listed := List.mem_reverse.1
      ((List.takeWhile_sublist _).subset (List.mem_reverse.1 member))
    simpa using (List.mem_filter.1 listed).2
  by_cases same : tree = owner
  · rw [if_pos same, ofTree, List.filter_eq_self]
    intro entry member
    simp [own entry member, same]
  · rw [if_neg same, ofTree, List.filter_eq_nil_iff]
    intro entry member
    simp [own entry member, Ne.symm same]

theorem openBlock_ofTree (tree : UInt64) (before : List LogEntry) :
    openBlock tree (ofTree tree before) = openBlock tree before := by
  simp [openBlock, ofTree]

theorem ofTree_committedBlocks (tree : UInt64) (before log : List LogEntry) :
    ofTree tree (committedBlocks before log) =
      committedBlocks (ofTree tree before) (ofTree tree log) := by
  induction log generalizing before with
  | nil => rfl
  | cons entry rest ih =>
    have step := ih (before ++ [entry])
    by_cases commits : ∃ owner, entry.record = .commitOperation owner
    · obtain ⟨owner, commits⟩ := commits
      have own : entry.record.tree = owner := by rw [commits, WALRecord.tree]
      rw [committedBlocks_commit commits, ofTree, List.filter_append]
      change ofTree tree (openBlock owner before) ++ ofTree tree (committedBlocks _ rest) = _
      rw [step, ofTree_openBlock]
      by_cases mine : tree = owner
      · have here : entry.record.tree = tree := own.trans mine.symm
        simp only [ofTree, List.filter_append, List.filter_cons, here, decide_true, if_true,
          List.filter_nil]
        rw [committedBlocks_commit commits, if_pos mine, ← mine]
        congr 1
        exact (openBlock_ofTree tree before).symm
      · have elsewhere : entry.record.tree ≠ tree := fun same => mine (same.symm.trans own)
        simp [ofTree, List.filter_append, elsewhere, mine]
    · have other : ∀ owner, entry.record ≠ .commitOperation owner := fun owner same =>
        commits ⟨owner, same⟩
      rw [committedBlocks_other other, step]
      by_cases mine : entry.record.tree = tree
      · simp only [ofTree, List.filter_append, List.filter_cons, mine, decide_true, if_true,
          List.filter_nil]
        rw [committedBlocks_other other]
      · simp [ofTree, List.filter_append, mine]

/-- A reading of records that begin and commit records have no part in. -/
def ReadsOperations {α : Type} (read : LogEntry → Option α) : Prop :=
  ∀ entry, ¬ IsOperation entry → read entry = none

theorem not_isOperation_begin {entry : LogEntry} {tree : UInt64}
    (begins : entry.record = .beginOperation tree) : ¬ IsOperation entry :=
  fun operation => operation.1 tree begins

theorem not_isOperation_commit {entry : LogEntry} {tree : UInt64}
    (commits : entry.record = .commitOperation tree) : ¬ IsOperation entry :=
  fun operation => operation.2 tree commits

/-- Of one tree, the committed blocks are the log without the begin and commit records. -/
theorem Complete.filterMap_committedBlocks {α : Type} {read : LogEntry → Option α}
    (reads : ReadsOperations read) {tree : UInt64} {inside : Bool} {log : List LogEntry}
    (complete : Complete inside log) (own : ∀ entry ∈ log, entry.record.tree = tree)
    (before : List LogEntry) : (committedBlocks before log).filterMap read =
      (if inside then (openBlock tree before).filterMap read else []) ++ log.filterMap read := by
  induction complete generalizing before with
  | nil => rfl
  | @begin entry _ rest begins _ ih =>
    have here := own entry (by simp)
    have quiet := reads entry (not_isOperation_begin begins)
    rw [committedBlocks_other (by simp [begins]),
      ih (fun e member => own e (List.mem_cons_of_mem _ member)), openBlock_own here,
      isBegin_begin begins]
    simp [quiet]
  | @operation entry rest operation _ ih =>
    have here := own entry (by simp)
    rw [committedBlocks_other operation.2,
      ih (fun e member => own e (List.mem_cons_of_mem _ member)), openBlock_own here,
      isBegin_operation operation]
    cases found : read entry with
    | none => simp [found]
    | some value => simp [found]
  | @commit entry owner rest commits _ ih =>
    have here := own entry (by simp)
    rw [commits, WALRecord.tree] at here
    have quiet := reads entry (not_isOperation_commit commits)
    rw [committedBlocks_commit commits, List.filterMap_append,
      ih (fun e member => own e (List.mem_cons_of_mem _ member)), here]
    simp [quiet]

theorem filterMap_ofTree {α : Type} {read : LogEntry → Option α} (reads : ReadsOperations read)
    {log : List LogEntry} (complete : CommittedLog log) (tree : UInt64) :
    (ofTree tree (committedBlocks [] log)).filterMap read = (ofTree tree log).filterMap read := by
  have own : ∀ entry ∈ ofTree tree log, entry.record.tree = tree := by simp [ofTree]
  rw [ofTree_committedBlocks, (complete tree).filterMap_committedBlocks reads own]
  rfl

/-- A reading of the records of one tree finds the same in the committed blocks as in the log. -/
theorem lastUpdate_committedBlocks {update : LogEntry → Option UInt64}
    (reads : ReadsOperations update) {tree : UInt64}
    (mine : ∀ entry, entry.record.tree ≠ tree → update entry = none) {log : List LogEntry}
    (complete : CommittedLog log) :
    lastUpdate update (committedBlocks [] log) = lastUpdate update log := by
  have only (log : List LogEntry) : (ofTree tree log).filterMap update = log.filterMap update := by
    induction log with
    | nil => rfl
    | cons entry rest ih =>
      by_cases here : entry.record.tree = tree
      · rw [ofTree, List.filter_cons_of_pos (by simpa using here), List.filterMap_cons,
          List.filterMap_cons, ← ih]
        rfl
      · rw [ofTree, List.filter_cons_of_neg (by simpa using here), List.filterMap_cons,
          mine entry here]
        exact ih
  rw [lastUpdate, lastUpdate, ← only, ← only log, filterMap_ofTree reads complete]

theorem mem_filterMap_committedBlocks {α : Type} {read : LogEntry → Option α}
    (reads : ReadsOperations read) {log : List LogEntry} (complete : CommittedLog log) (a : α) :
    a ∈ (committedBlocks [] log).filterMap read ↔ a ∈ log.filterMap read := by
  have byTree (log : List LogEntry) :
      a ∈ log.filterMap read ↔ ∃ tree, a ∈ (ofTree tree log).filterMap read := by
    simp [ofTree]
  rw [byTree, byTree]
  exact exists_congr fun tree => by rw [filterMap_ofTree reads complete]

theorem readsOperations_rootUpdate (tree : UInt64) : ReadsOperations (rootUpdate tree) := by
  intro entry bracket
  rw [rootUpdate]
  split
  next owner page root => exact absurd ⟨by simp [root], by simp [root]⟩ bracket
  next => rfl

theorem readsOperations_firstLeafUpdate (tree : UInt64) :
    ReadsOperations (firstLeafUpdate tree) := by
  intro entry bracket
  rw [firstLeafUpdate]
  split
  next owner page leaf => exact absurd ⟨by simp [leaf], by simp [leaf]⟩ bracket
  next => rfl

theorem readsOperations_expansion : ReadsOperations expansion := by
  intro entry bracket
  rw [expansion]
  split
  next tree page type create => exact absurd ⟨by simp [create], by simp [create]⟩ bracket
  next => rfl

theorem rootUpdate_other {tree : UInt64} {entry : LogEntry} (other : entry.record.tree ≠ tree) :
    rootUpdate tree entry = none := by
  rw [rootUpdate]
  split
  next owner page root =>
    rw [root, WALRecord.tree] at other
    exact if_neg (Ne.symm other)
  next => rfl

theorem firstLeafUpdate_other {tree : UInt64} {entry : LogEntry}
    (other : entry.record.tree ≠ tree) : firstLeafUpdate tree entry = none := by
  rw [firstLeafUpdate]
  split
  next owner page leaf =>
    rw [leaf, WALRecord.tree] at other
    exact if_neg (Ne.symm other)
  next => rfl

/-! ### The guard -/

section
variable {m : MetaData}

theorem redoMeta_LSN (m : MetaData) (entry : LogEntry) : (redoMeta m entry).LSN =
    if m.LSN < entry.lsn ∧ movesLSN entry.record = true then entry.lsn else m.LSN := by
  obtain ⟨lsn, record⟩ := entry
  rw [redoMeta]
  by_cases newer : m.LSN < lsn
  · cases record with
    | createPage tree page type source =>
      cases source with
      | fileExpansion => simp [newer, movesLSN]
      | freelist => simp [newer, movesLSN]
    | _ => simp [newer, movesLSN]
  · simp [newer]

/-- The LSN of the metadata is that of the greatest record so far. -/
theorem le_foldl_redoMeta_LSN (before : List LogEntry) (lsn : UInt64) :
    lsn ≤ (before.foldl redoMeta m).LSN ↔ lsn ≤ m.LSN ∨
      ∃ earlier ∈ before, movesLSN earlier.record = true ∧ lsn ≤ earlier.lsn := by
  induction before generalizing m with
  | nil => simp
  | cons entry rest ih =>
    rw [List.foldl_cons, ih, redoMeta_LSN]
    split
    next moved =>
      -- the number grew to that of the record
      have grown : lsn ≤ m.LSN → lsn ≤ entry.lsn := fun below =>
        UInt64.le_trans below (UInt64.le_of_lt moved.1)
      simp only [List.mem_cons, exists_eq_or_imp, moved.2, true_and]
      tauto
    next still =>
      have covered : movesLSN entry.record = true → lsn ≤ entry.lsn → lsn ≤ m.LSN :=
        fun moves below => UInt64.le_trans below (UInt64.not_lt.1 fun newer => still ⟨newer, moves⟩)
      simp only [List.mem_cons, exists_eq_or_imp]
      tauto

/-- A record is redone exactly if it was not overtaken. -/
theorem guard_iff_not_overtaken (before : List LogEntry) (entry : LogEntry) :
    (before.foldl redoMeta m).LSN < entry.lsn ↔ ¬ Overtaken m.LSN before entry := by
  rw [← UInt64.not_le, le_foldl_redoMeta_LSN, Overtaken]

theorem redoMeta_overtaken {entry : LogEntry} (older : ¬ m.LSN < entry.lsn) :
    redoMeta m entry = m := by
  rw [redoMeta, if_neg older]

/-! ### The maps -/

theorem getLast?_cons_getD {α : Type} (a d : α) (l : List α) :
    ((a :: l).getLast?).getD d = l.getLast?.getD a := by
  rw [List.getLast?_cons]
  rfl

/-- What a map of the metadata says after the redo of records that one reading describes. -/
theorem foldl_redoMeta_get (map : MetaData → PageMap) {update : LogEntry → Option UInt64}
    {tree : UInt64} (applied : ∀ (m : MetaData) (entry : LogEntry), m.LSN < entry.lsn →
      (map (redoMeta m entry)).get tree = (update entry).getD ((map m).get tree))
    (before rest : List LogEntry) :
    (map (rest.foldl redoMeta (before.foldl redoMeta m))).get tree =
      (lastUpdate update (surviving m.LSN before rest)).getD
        ((map (before.foldl redoMeta m)).get tree) := by
  induction rest generalizing before with
  | nil => rfl
  | cons entry rest ih =>
    have here := guard_iff_not_overtaken (m := m) before entry
    have step := ih (before ++ [entry])
    rw [List.foldl_append, List.foldl_cons, List.foldl_nil] at step
    rw [List.foldl_cons, step, surviving]
    by_cases overtaken : Overtaken m.LSN before entry
    · rw [if_pos overtaken, redoMeta_overtaken fun guard => here.1 guard overtaken]
    · rw [if_neg overtaken, applied _ _ (here.2 overtaken)]
      cases found : update entry with
      | none => simp [lastUpdate, found]
      | some page =>
        rw [lastUpdate, lastUpdate, List.filterMap_cons, found, getLast?_cons_getD]
        rfl

theorem redoMeta_rootPages {entry : LogEntry} (newer : m.LSN < entry.lsn) (tree : UInt64) :
    (redoMeta m entry).rootPages.get tree =
      (rootUpdate tree entry).getD (m.rootPages.get tree) := by
  obtain ⟨lsn, record⟩ := entry
  rw [redoMeta, if_pos newer]
  cases record with
  | createPage tree page type source =>
    cases source with
    | fileExpansion => rfl
    | freelist => rfl
  | updateRootNodePageId owner page =>
    simp only [rootUpdate, PageMap.get_set]
    split
    next => rfl
    next => rfl
  | _ => rfl

theorem redoMeta_firstLeafNodePages {entry : LogEntry} (newer : m.LSN < entry.lsn)
    (tree : UInt64) : (redoMeta m entry).firstLeafNodePages.get tree =
      (firstLeafUpdate tree entry).getD (m.firstLeafNodePages.get tree) := by
  obtain ⟨lsn, record⟩ := entry
  rw [redoMeta, if_pos newer]
  cases record with
  | createPage tree page type source =>
    cases source with
    | fileExpansion => rfl
    | freelist => rfl
  | updateFirstLeafNodePageId owner page =>
    simp only [firstLeafUpdate, PageMap.get_set]
    split
    next => rfl
    next => rfl
  | _ => rfl

theorem le_redoMeta_max {entry : LogEntry} (newer : m.LSN < entry.lsn) (page : UInt64) :
    page ≤ (redoMeta m entry).maxAllocatedPageId ↔
      page ≤ m.maxAllocatedPageId ∨ ∃ other, expansion entry = some other ∧ page ≤ other := by
  obtain ⟨lsn, record⟩ := entry
  rw [redoMeta, if_pos newer]
  cases record with
  | createPage tree created type source =>
    cases source with
    | fileExpansion =>
      simp only [expansion, Option.some.injEq, exists_eq_left']
      split
      next grows =>
        have covered : page ≤ m.maxAllocatedPageId → page ≤ created := fun below =>
          UInt64.le_trans below (UInt64.le_of_lt grows)
        tauto
      next holds =>
        have covered : page ≤ created → page ≤ m.maxAllocatedPageId := fun below =>
          UInt64.le_trans below (UInt64.not_lt.1 holds)
        tauto
    | freelist => simp [expansion]
  | _ => simp [expansion]

theorem le_foldl_redoMeta_max (before rest : List LogEntry) (page : UInt64) :
    page ≤ (rest.foldl redoMeta (before.foldl redoMeta m)).maxAllocatedPageId ↔
      page ≤ (before.foldl redoMeta m).maxAllocatedPageId ∨
        ∃ other ∈ (surviving m.LSN before rest).filterMap expansion, page ≤ other := by
  induction rest generalizing before with
  | nil => simp [surviving]
  | cons entry rest ih =>
    have here := guard_iff_not_overtaken (m := m) before entry
    have step := ih (before ++ [entry])
    rw [List.foldl_append, List.foldl_cons, List.foldl_nil] at step
    rw [List.foldl_cons, step, surviving]
    by_cases overtaken : Overtaken m.LSN before entry
    · rw [if_pos overtaken, redoMeta_overtaken fun guard => here.1 guard overtaken]
    · rw [if_neg overtaken, le_redoMeta_max (here.2 overtaken), List.filterMap_cons]
      cases found : expansion entry with
      | none => simp
      | some other => simp [or_assoc]

end

/-! ### Recovery -/

/-- A record whose page is in the reading of expansions creates it. -/
theorem names_of_expansion {entry : LogEntry} {page : UInt64} (found : expansion entry = some page) :
    Names entry.record page := by
  obtain ⟨lsn, record⟩ := entry
  cases record with
  | createPage tree created type source =>
    cases source with
    | fileExpansion =>
      obtain rfl := Option.some.inj found
      exact .inl (by simp [createdType])
    | freelist => cases found
  | _ => cases found

/-- After every recovery of a log of committed operations, the metadata are the latest exactly if
what was overtaken is made up for. -/
theorem recovered_metadata_latest_iff {w w' : World} (complete : CommittedLog w.log)
    (run : recover w = (.ok (), w')) :
    LatestMetaData w.log w' ↔ OvertakingHarmless w.metadata (committedBlocks [] w.log) := by
  have start : Agrees (fun _ => false) (fun _ => none) [] w.log :=
    fun tree => ⟨rfl, (complete tree).blocks, by simp⟩
  obtain ⟨entries, w₁, found, redone, rfl⟩ := recover_inv run
  obtain rfl := Option.some.inj ((committedFrom_eq start).1.symm.trans found)
  obtain ⟨settles, _⟩ := settles_redoAll redone
  obtain ⟨metadata, _⟩ := redoAll_metadata redone
  have roots (tree : UInt64) : w₁.metadata.rootPages.get tree =
      (lastUpdate (rootUpdate tree) (surviving w.metadata.LSN [] (committedBlocks [] w.log))).getD
        (w.metadata.rootPages.get tree) := by
    rw [metadata]
    exact foldl_redoMeta_get MetaData.rootPages
      (fun m entry newer => redoMeta_rootPages newer tree) [] _
  have leaves (tree : UInt64) : w₁.metadata.firstLeafNodePages.get tree =
      (lastUpdate (firstLeafUpdate tree) (surviving w.metadata.LSN []
        (committedBlocks [] w.log))).getD (w.metadata.firstLeafNodePages.get tree) := by
    rw [metadata]
    exact foldl_redoMeta_get MetaData.firstLeafNodePages
      (fun m entry newer => redoMeta_firstLeafNodePages newer tree) [] _
  have lastRoot (tree : UInt64) := lastUpdate_committedBlocks (readsOperations_rootUpdate tree)
    (fun _ => rootUpdate_other) complete
  have lastLeaf (tree : UInt64) := lastUpdate_committedBlocks
    (readsOperations_firstLeafUpdate tree) (fun _ => firstLeafUpdate_other) complete
  have expansions (page : UInt64) := mem_filterMap_committedBlocks readsOperations_expansion
    complete page
  have allocated (page : UInt64) := le_foldl_redoMeta_max (m := w.metadata) []
    (committedBlocks [] w.log) page
  rw [List.foldl_nil] at allocated
  constructor
  · rintro ⟨latestRoots, latestLeaves, latestPages⟩
    refine ⟨fun tree page last => ?_, fun tree page last => ?_, fun page member => ?_⟩
    · rw [← roots]
      exact latestRoots tree page (lastRoot tree ▸ last)
    · rw [← leaves]
      exact latestLeaves tree page (lastLeaf tree ▸ last)
    · rw [← allocated, ← metadata]
      exact (latestPages page ((expansions page).1 member)).2
  · rintro ⟨keptRoots, keptLeaves, keptPages⟩
    refine ⟨fun tree page last => ?_, fun tree page last => ?_, fun page member => ?_⟩
    · exact (roots tree).trans (keptRoots tree page ((lastRoot tree).trans last))
    · exact (leaves tree).trans (keptLeaves tree page ((lastLeaf tree).trans last))
    · have member' := (expansions page).2 member
      obtain ⟨entry, listed, creates⟩ := List.mem_filterMap.1 member'
      have below := (allocated page).2 (keptPages page member')
      rw [← metadata] at below
      -- the guard on a created page succeeds only inside of the file
      exact ⟨(settles entry listed).named page (names_of_expansion creates), below⟩

theorem overtakingHarmless_of_surviving {m : MetaData} {entries : List LogEntry}
    (all : surviving m.LSN [] entries = entries) : OvertakingHarmless m entries := by
  refine ⟨?_, ?_, fun page member => .inr ⟨page, all.symm ▸ member, UInt64.le_refl _⟩⟩
  · intro tree page last
    rw [all, last]
    rfl
  · intro tree page last
    rw [all, last]
    rfl

/-- A database of one page with a log. -/
def withLog (log : List LogEntry) : World := { CambiumDB.newDatabase with log }

/-- Records of the metadata only can always be redone. -/
theorem recover_withLog {log : List LogEntry} {entries : List LogEntry}
    (redone : committed log = some entries)
    (roots : ∀ entry ∈ entries, ∃ tree page, entry.record = .updateRootNodePageId tree page) :
    ∃ w, recover (withLog log) = (.ok (), w) ∧
      w.metadata = entries.foldl redoMeta ⟨0, 0, [], 0, [], []⟩ := by
  have idle : Idle (withLog log) := ⟨rfl, fun _ => rfl⟩
  have unnamed : ∀ entry ∈ entries, ∀ id, ¬ Names entry.record id := by
    rintro entry member id names
    obtain ⟨tree, page, root⟩ := roots entry member
    rw [root] at names
    simp [Names, createdType, pageChange] at names
  obtain ⟨w, run, _⟩ := recover_returns idle redone
    (fun entry member => by obtain ⟨tree, page, root⟩ := roots entry member; rw [root]; trivial)
    (fun entry member id names => absurd names (unnamed entry member id))
    (fun id => ⟨_, redoPages_unnamed (fun entry member => unnamed entry member id) _⟩)
  obtain ⟨entries', redone', metadata, _⟩ := recover_metadata run
  obtain rfl := Option.some.inj (redone.symm.trans redone')
  exact ⟨w, run, metadata⟩

theorem committedLog_of_two {log : List LogEntry} (first : Complete false (ofTree 1 log))
    (second : Complete false (ofTree 2 log))
    (only : ∀ entry ∈ log, entry.record.tree = 1 ∨ entry.record.tree = 2) : CommittedLog log := by
  intro tree
  by_cases isFirst : tree = 1
  · exact isFirst ▸ first
  by_cases isSecond : tree = 2
  · exact isSecond ▸ second
  · have none : ofTree tree log = [] := by
      rw [ofTree, List.filter_eq_nil_iff]
      intro entry member
      rcases only entry member with own | own
      · simp [own, Ne.symm isFirst]
      · simp [own, Ne.symm isSecond]
    rw [none]
    exact .nil

/-- Two trees that get a root, one after the other. -/
theorem latest_after_sequential_operations : ∃ w w', CommittedLog w.log ∧
    recover w = (.ok (), w') ∧
      w'.metadata.rootPages = [(1, 5), (2, 6)] ∧ LatestMetaData w.log w' := by
  obtain ⟨log, logEq⟩ : ∃ log : List LogEntry, log = [⟨1, .beginOperation 1⟩,
    ⟨2, .updateRootNodePageId 1 5⟩, ⟨3, .commitOperation 1⟩, ⟨4, .beginOperation 2⟩,
    ⟨5, .updateRootNodePageId 2 6⟩, ⟨6, .commitOperation 2⟩] := ⟨_, rfl⟩
  have complete : CommittedLog log := by
    subst logEq
    apply committedLog_of_two
    · exact .begin rfl (.operation ⟨by simp, by simp⟩ (.commit rfl .nil))
    · exact .begin rfl (.operation ⟨by simp, by simp⟩ (.commit rfl .nil))
    · simp [WALRecord.tree]
  have redone : committed log =
      some [⟨2, .updateRootNodePageId 1 5⟩, ⟨5, .updateRootNodePageId 2 6⟩] := by
    rw [logEq]
    rfl
  obtain ⟨w, run, metadata⟩ := recover_withLog redone (by simp)
  refine ⟨withLog log, w, complete, run, by rw [metadata]; rfl, ?_⟩
  rw [recovered_metadata_latest_iff complete run]
  apply overtakingHarmless_of_surviving
  rw [show (withLog log).log = log from rfl, logEq]
  rfl

/-- The operations of two trees overlap, and the one with the smaller LSN commits last: its root
is lost. -/
theorem overtaken_root_is_lost : ∃ w w', CommittedLog w.log ∧
    w.log.Pairwise (fun a b => a.lsn < b.lsn) ∧ (∀ entry ∈ w.log, w.metadata.LSN < entry.lsn) ∧
      recover w = (.ok (), w') ∧ ¬ LatestMetaData w.log w' := by
  obtain ⟨log, logEq⟩ : ∃ log : List LogEntry, log = [⟨1, .beginOperation 1⟩,
    ⟨2, .beginOperation 2⟩, ⟨3, .updateRootNodePageId 1 5⟩, ⟨4, .updateRootNodePageId 2 6⟩,
    ⟨5, .commitOperation 2⟩, ⟨6, .commitOperation 1⟩] := ⟨_, rfl⟩
  have complete : CommittedLog log := by
    subst logEq
    apply committedLog_of_two
    · exact .begin rfl (.operation ⟨by simp, by simp⟩ (.commit rfl .nil))
    · exact .begin rfl (.operation ⟨by simp, by simp⟩ (.commit rfl .nil))
    · simp [WALRecord.tree]
  have newer : ∀ entry ∈ log, (withLog log).metadata.LSN < entry.lsn := by
    have zero : (withLog log).metadata.LSN = 0 := rfl
    rw [zero, logEq]
    decide
  have redone : committed log =
      some [⟨4, .updateRootNodePageId 2 6⟩, ⟨3, .updateRootNodePageId 1 5⟩] := by
    rw [logEq]
    rfl
  obtain ⟨w, run, metadata⟩ := recover_withLog redone (by simp)
  refine ⟨withLog log, w, complete, by rw [show (withLog log).log = log from rfl, logEq]; decide,
    newer, run, fun latest => ?_⟩
  have root := latest.roots 1 5 (by rw [show (withLog log).log = log from rfl, logEq]; decide)
  rw [metadata] at root
  exact absurd root (by decide)

end StorageEngine

end CambiumDB
