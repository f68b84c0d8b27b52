import CambiumDB.StorageEngine.Reopen

/-!
# Are the ids of trees unique?

`NewBPlusTree` counts. The counter is written to the metadata page by `Close` only, while a
tree is created by a committed insert and comes back by `Recover`. So a crash may set the
counter back behind the trees that exist.
-/

namespace CambiumDB

open TransitionSystem

namespace StorageEngine

/-- A tree was created under the id. -/
def HasTree (e : StorageEngine) (id : UInt64) : Prop :=
  e.world.metadata.rootPages.get id ≠ 0 ∨
    ∃ tree ∈ e.openBPlusTrees, tree.bPlusTreeId = id ∧ tree.rootNodePageId ≠ 0

/-- The trees that the committed records of the log create were counted. -/
def LogCounted (e : StorageEngine) : Prop :=
  ∀ entries, committed e.world.log = some entries → ∀ entry ∈ entries, ∀ id page,
    entry.record = .updateRootNodePageId id page → id ≤ e.currBPlusTreeId

/-- The counter does not wrap, trees are opened under ids that were given out, and a crash does
not lose the id of a tree that the log creates. -/
def KeepsCount (e : StorageEngine) (op : Op) (e' : StorageEngine) : Prop :=
  match op with
  | .newBPlusTree => e.currBPlusTreeId.toNat + 1 < 2 ^ 64
  | .openBPlusTree id => id ≤ e.currBPlusTreeId
  | .crash => e'.LogCounted
  | _ => True

/-! ### The log -/

/-- The pending records of a tree are its own. -/
def OwnPending (pending : Pending) : Prop :=
  ∀ tree operations, pending tree = some operations → ∀ e ∈ operations, e.record.tree = tree

theorem OwnPending.update {pending : Pending} (own : OwnPending pending) {tree : UInt64}
    {operations : Option (List LogEntry)}
    (new : ∀ list, operations = some list → ∀ e ∈ list, e.record.tree = tree) :
    OwnPending (Function.update pending tree operations) := by
  intro other list found
  by_cases same : other = tree
  · subst same
    rw [Function.update_self] at found
    exact new list found
  · rw [Function.update_of_ne same] at found
    exact own other list found

theorem OwnPending.operation {pending : Pending} (own : OwnPending pending) {entry : LogEntry}
    {operations : List LogEntry} (begun : pending entry.record.tree = some operations) :
    OwnPending (Function.update pending entry.record.tree (some (operations ++ [entry]))) := by
  apply own.update
  intro list same e member
  obtain rfl := Option.some.inj same
  rcases List.mem_append.1 member with old | new
  · exact own _ _ begun e old
  · rw [List.mem_singleton.1 new]

/-- Records of one tree commit records of that tree. -/
theorem committedFrom_own {pending : Pending} (own : OwnPending pending) {tree : UInt64}
    {added entries : List LogEntry} (ofTree : ∀ e ∈ added, e.record.tree = tree)
    (redone : committedFrom pending added = some entries) :
    ∀ e ∈ entries, e.record.tree = tree := by
  induction added generalizing pending entries with
  | nil =>
    obtain rfl := Option.some.inj redone
    simp
  | cons entry rest ih =>
    have here : entry.record.tree = tree := ofTree entry (by simp)
    have later : ∀ e ∈ rest, e.record.tree = tree := fun e member =>
      ofTree e (List.mem_cons_of_mem _ member)
    rw [committedFrom] at redone
    split at redone
    next => exact ih (own.update (by simp)) later redone
    next other commits =>
      split at redone
      next => cases redone
      next operations begun =>
        obtain ⟨rest', restEq, rfl⟩ := Option.map_eq_some_iff.1 redone
        intro e member
        rcases List.mem_append.1 member with first | second
        · rw [own _ _ begun e first, ← here, commits, WALRecord.tree]
        · exact ih (own.update (by simp)) later restEq e second
    next =>
      split at redone
      next => cases redone
      next operations begun => exact ih (own.operation begun) later redone

/-- What a tree adds to the log commits, besides what was committed, records of that tree. -/
theorem committedFrom_append {pending : Pending} (own : OwnPending pending) {tree : UInt64}
    {log added entries : List LogEntry} (ofTree : ∀ e ∈ added, e.record.tree = tree)
    (redone : committedFrom pending (log ++ added) = some entries) :
    ∃ before more, committedFrom pending log = some before ∧ entries = before ++ more ∧
      ∀ e ∈ more, e.record.tree = tree := by
  induction log generalizing pending entries with
  | nil => exact ⟨[], entries, rfl, rfl, committedFrom_own own ofTree redone⟩
  | cons entry rest ih =>
    rw [List.cons_append, committedFrom] at redone
    rw [committedFrom]
    split at redone
    next => exact ih (own.update (by simp)) redone
    next =>
      split at redone
      next => cases redone
      next operations begun =>
        obtain ⟨rest', restEq, rfl⟩ := Option.map_eq_some_iff.1 redone
        obtain ⟨before, more, first, rfl, mine⟩ := ih (own.update (by simp)) restEq
        exact ⟨operations ++ before, more, by rw [first]; rfl, by rw [List.append_assoc], mine⟩
    next =>
      split at redone
      next => cases redone
      next operations begun => exact ih (own.operation begun) redone

theorem LogCounted.append {e e' : StorageEngine} (counted : e.LogCounted)
    (counter : e'.currBPlusTreeId = e.currBPlusTreeId) {tree : UInt64}
    (known : tree ≤ e.currBPlusTreeId) {added : List LogEntry}
    (log : e'.world.log = e.world.log ++ added) (own : ∀ e ∈ added, e.record.tree = tree) :
    e'.LogCounted := by
  intro entries redone entry member id page root
  rw [log] at redone
  have empty : OwnPending fun _ => none := by
    intro _ _ found
    cases found
  obtain ⟨before, more, first, rfl, mine⟩ := committedFrom_append empty own redone
  rw [counter]
  rcases List.mem_append.1 member with old | new
  · exact counted before first entry old id page root
  · have same := mine entry new
    rw [root, WALRecord.tree] at same
    rw [same]
    exact known

/-! ### Recovery -/

/-- A root that redo finds was there or is in the log. -/
theorem foldl_redoMeta_root (entries : List LogEntry) {m : MetaData} {id : UInt64}
    (present : (entries.foldl redoMeta m).rootPages.get id ≠ 0) :
    m.rootPages.get id ≠ 0 ∨
      ∃ entry ∈ entries, ∃ page, entry.record = .updateRootNodePageId id page := by
  induction entries generalizing m with
  | nil => exact .inl present
  | cons entry rest ih =>
    rcases ih present with before | ⟨later, member, page, root⟩
    · rw [redoMeta] at before
      split at before
      next =>
        split at before
        next => exact .inl before
        next => exact .inl before
        next tree page root =>
          rw [PageMap.get_set] at before
          split at before
          next same => exact .inr ⟨entry, by simp, page, same ▸ root⟩
          next => exact .inl before
        next => exact .inl before
        next => exact .inl before
      next => exact .inl before
    · exact .inr ⟨later, List.mem_cons_of_mem _ member, page, root⟩

/-! ### The invariant -/

/-- The ids of all trees were counted, in memory, in the log and in the file. -/
structure IdsCounted (e : StorageEngine) : Prop where
  wellFormed : e.WellFormed
  handles : ∀ tree ∈ e.openBPlusTrees, tree.bPlusTreeId ≤ e.currBPlusTreeId
  roots : ∀ id, e.world.metadata.rootPages.get id ≠ 0 → id ≤ e.currBPlusTreeId
  log : e.LogCounted
  page : ∃ m, MetaDataCodec.decodeMetaDataPage e.metaDataPage = some m ∧
    ∀ id, m.rootPages.get id ≠ 0 → id ≤ m.currBPlusTreeId

theorem IdsCounted.create {e : StorageEngine} (opened : Opened e) : e.IdsCounted := by
  have wf := WellFormed.create opened
  obtain ⟨page, rfl, decoded⟩ := opened_spec opened
  refine ⟨wf, by simp [newDatabase], fun id => absurd rfl, ?_, _, decoded, fun id => absurd rfl⟩
  intro entries redone
  obtain rfl := Option.some.inj redone
  simp

variable {e e' : StorageEngine}

/-- The ids that `Close` puts into the metadata. -/
theorem IdsCounted.closing (counted : e.IdsCounted) {order : List BPlusTree}
    (perm : order.Perm e.openBPlusTrees) (id : UInt64)
    (present : (e.closing order).metadata.rootPages.get id ≠ 0) : id ≤ e.currBPlusTreeId := by
  obtain ⟨isOpen, isClosed⟩ := closing_recorded id counted.wellFormed perm
  cases found : e.findTree id with
  | some tree =>
    obtain ⟨member, rfl⟩ := findTree_spec found
    exact counted.handles tree member
  | none =>
    apply counted.roots
    rw [← (Prod.mk.inj (isClosed found)).1]
    exact present

theorem closing_currBPlusTreeId (e : StorageEngine) (order : List BPlusTree) :
    (e.closing order).metadata.currBPlusTreeId = e.currBPlusTreeId :=
  (foldl_closeTree order _).1

/-- After a recovery the trees are those of the metadata and those of the log. -/
theorem IdsCounted.recovered {started : StorageEngine} {faults : Nat → Bool} {w : World}
    (wf : started.WellFormed)
    (handles : ∀ tree ∈ started.openBPlusTrees, tree.bPlusTreeId ≤ started.currBPlusTreeId)
    (roots : ∀ id, started.world.metadata.rootPages.get id ≠ 0 → id ≤ started.currBPlusTreeId)
    (page : ∃ m, MetaDataCodec.decodeMetaDataPage started.metaDataPage = some m ∧
      ∀ id, m.rootPages.get id ≠ 0 → id ≤ m.currBPlusTreeId)
    (run : StorageEngine.recover (started.recovering faults) = (.ok (), w))
    (counted : (started.recovered w).LogCounted) : (started.recovered w).IdsCounted := by
  obtain ⟨entries, redone, metadata, log⟩ := recover_metadata run
  refine ⟨wf.recovered run, handles, ?_, counted, page⟩
  intro id present
  have present' : (entries.foldl redoMeta started.world.metadata).rootPages.get id ≠ 0 := by
    rw [← show w.metadata = entries.foldl redoMeta started.world.metadata from metadata]
    exact present
  rcases foldl_redoMeta_root entries present' with before | ⟨entry, member, root, isRoot⟩
  · exact roots id before
  · have redone' : committed w.log = some entries := by
      rw [log]
      exact redone
    exact counted entries redone' entry member id root isRoot

/-- After a crash. -/
theorem IdsCounted.crashed {crashed started : StorageEngine} {faults : Nat → Bool} {w : World}
    (counted : e.IdsCounted) (page : crashed.metaDataPage = e.metaDataPage)
    (start : crashed.newStorageEngine = some started)
    (run : StorageEngine.recover (started.recovering faults) = (.ok (), w))
    (log : (started.recovered w).LogCounted) : (started.recovered w).IdsCounted := by
  obtain ⟨m, read, counter, handles, metadata, _, same⟩ := newStorageEngine_spec start
  obtain ⟨m', read', roots⟩ := counted.page
  rw [page] at read same
  obtain rfl : m' = m := Option.some.inj (read'.symm.trans read)
  have wf : started.WellFormed := .newStorageEngine start (page ▸ counted.wellFormed.page)
  refine IdsCounted.recovered wf (by simp [handles]) ?_ ⟨m', by rw [same, read], roots⟩ run log
  rw [metadata, counter]
  exact roots

theorem handles_leaveTree {n : UInt64}
    (below : ∀ tree ∈ e.openBPlusTrees, tree.bPlusTreeId ≤ n) (w : World)
    (stored : UInt64 → Page) :
    ∀ tree ∈ (e.leaveTree w stored).openBPlusTrees, tree.bPlusTreeId ≤ n := by
  intro tree member
  have listed := List.mem_map_of_mem (f := BPlusTree.bPlusTreeId) member
  rw [map_leaveTree] at listed
  obtain ⟨old, member', same⟩ := List.mem_map.1 listed
  rw [← same]
  exact below old member'

theorem le_counter_succ {a b : UInt64} (below : a ≤ b) (small : b.toNat + 1 < 2 ^ 64) :
    a ≤ b + 1 := by
  rw [UInt64.le_iff_toNat_le] at below ⊢
  rw [UInt64.toNat_add]
  simp only [UInt64.reduceToNat]
  omega

theorem IdsCounted.step {nextLSN : List LogEntry → UInt64} {op : Op} (counted : e.IdsCounted)
    (keeps : KeepsCount e op e') (taken : Step nextLSN e op e') : e'.IdsCounted := by
  have wf := counted.wellFormed.step taken
  cases taken with
  | newBPlusTree =>
    -- the counter grows, and everything stays below it
    refine ⟨wf, ?_, ?_, ?_, counted.page⟩
    · exact fun tree member => le_counter_succ (counted.handles tree member) keeps
    · exact fun id present => le_counter_succ (counted.roots id present) keeps
    · exact fun entries redone entry member id page root =>
        le_counter_succ (counted.log entries redone entry member id page root) keeps
  | @openBPlusTree id =>
    cases found : e.findTree id with
    | some tree =>
      rw [openBPlusTree_found found]
      exact counted
    | none =>
      rw [openBPlusTree_new found] at wf ⊢
      refine ⟨wf, ?_, counted.roots, counted.log, counted.page⟩
      intro tree member
      rcases List.mem_cons.1 member with rfl | member
      · exact keeps
      · exact counted.handles tree member
  | closeBPlusTree closed =>
    obtain ⟨tree, found, rfl⟩ := closeBPlusTree_some closed
    refine ⟨wf, ?_, ?_, counted.log, counted.page⟩
    · exact fun tree member => counted.handles tree (List.mem_of_mem_filter member)
    · intro id present
      rw [closeTree_rootPages, PageMap.get_set] at present
      split at present
      next same =>
        rw [same]
        exact counted.handles tree (findTree_spec found).1
      next => exact counted.roots id present
  | @insert _ key value tree faults _ w _ found run _ _ =>
    have own := ownRecords_insert nextLSN key value (e.enterTree tree faults)
    rw [run] at own
    obtain ⟨added, log, mine⟩ := own.log
    have known := counted.handles tree (findTree_spec found).1
    refine ⟨wf, ?_, ?_, counted.log.append rfl known log mine, counted.page⟩
    · exact handles_leaveTree counted.handles _ _
    · exact fun id present => counted.roots id (own.roots ▸ present)
  | @delete _ key tree faults _ w _ _ run _ _ =>
    have same := sameHandle_delete key (e.enterTree tree faults)
    rw [run] at same
    refine ⟨wf, ?_, ?_, ?_, counted.page⟩
    · exact handles_leaveTree counted.handles _ _
    · exact fun id present => counted.roots id (same.metadata ▸ present)
    · intro entries redone
      exact counted.log entries (same.log ▸ redone)
  | deallocatePage => exact ⟨wf, counted.handles, counted.roots, counted.log, counted.page⟩
  | evict _ => exact ⟨wf, counted.handles, counted.roots, counted.log, counted.page⟩
  | recover _ run =>
    apply IdsCounted.recovered counted.wellFormed counted.handles counted.roots counted.page run
    obtain ⟨_, _, _, log⟩ := recover_metadata run
    intro entries redone
    exact counted.log entries (log ▸ redone)
  | @restart _ _ order _ _ perm run start =>
    obtain ⟨counter, handles, metadata, log, page⟩ := restart_spec counted.wellFormed run start
    refine ⟨wf, by simp [handles], ?_, ?_, _, page, ?_⟩
    · rw [metadata, counter]
      exact counted.closing perm
    · intro entries redone
      rw [counter]
      exact counted.log entries (log ▸ redone)
    · rw [closing_currBPlusTreeId]
      exact counted.closing perm
  | @closeFails closed order _ _ _ perm run =>
    obtain ⟨counter, handles, world, page⟩ := close_error run
    obtain ⟨roots, leaves⟩ := distinct_closing counted.wellFormed order
    refine ⟨wf, by rw [handles, counter]; exact counted.handles, ?_, ?_, ?_⟩
    · rw [world, counter]
      exact counted.closing perm
    · intro entries redone
      have log : (e.closing order).log = e.world.log := (foldl_closeTree order _).2.2
      rw [world, log] at redone
      rw [counter]
      exact counted.log entries redone
    · rcases page with same | encoded
      · rw [same]
        exact counted.page
      · refine ⟨_, MetaDataCodec.decode_encode roots leaves encoded, ?_⟩
        rw [closing_currBPlusTreeId]
        exact counted.closing perm
  | crash start run => exact counted.crashed rfl start run keeps
  | crashInside _ _ _ _ _ _ start run => exact counted.crashed (by rw [crashedAt]) start run keeps

/-- In every run that keeps count, `NewBPlusTree` returns an id under which there is no tree. -/
theorem newBPlusTree_id_unused (nextLSN : List LogEntry → UInt64) {e : StorageEngine}
    (reached : Reach (fun e op e' => Step nextLSN e op e' ∧ KeepsCount e op e') (fun _ _ => True)
      Opened e) (small : e.currBPlusTreeId.toNat + 1 < 2 ^ 64) :
    ¬ e.HasTree e.newBPlusTree.1 := by
  have counted : e.IdsCounted := reached.invariant IdsCounted (fun _ => .create)
    fun _ _ _ counted _ taken => counted.step taken.2 taken.1
  have next : ¬ e.currBPlusTreeId + 1 ≤ e.currBPlusTreeId := by
    rw [UInt64.le_iff_toNat_le, UInt64.toNat_add]
    simp only [UInt64.reduceToNat]
    omega
  rintro (root | ⟨tree, member, same, _⟩)
  · exact next (counted.roots _ root)
  · have below := counted.handles tree member
    rw [same] at below
    exact next below

theorem newBPlusTree_id_unused_with_open_tree : ∃ e : StorageEngine,
    e.currBPlusTreeId.toNat + 1 < 2 ^ 64 ∧ e.openBPlusTrees = [⟨1, 0, 0⟩] ∧
      ¬ e.HasTree e.newBPlusTree.1 := by
  obtain ⟨page, opened⟩ := exists_newDatabase
  have first : KeepsCount (newDatabase page) .newBPlusTree (newDatabase page).newBPlusTree.2 := by
    show (0 : UInt64).toNat + 1 < 2 ^ 64
    decide
  have second : KeepsCount (newDatabase page).newBPlusTree.2 (.openBPlusTree 1)
      (openedTree page) := UInt64.le_refl 1
  have small : (openedTree page).currBPlusTreeId.toNat + 1 < 2 ^ 64 := by
    rw [show (openedTree page).currBPlusTreeId = 1 from rfl]
    decide
  exact ⟨openedTree page, small, rfl, newBPlusTree_id_unused recordLSN (.next (.next (.start opened)
    trivial ⟨.newBPlusTree, first⟩) trivial ⟨.openBPlusTree, second⟩) small⟩

/-- The first tree is created and inserted into, and a crash sets the counter back to 0. -/
theorem newBPlusTree_id_reused_after_crash : ∃ e,
    Reach (Step recordLSN) (fun _ op => op = .newBPlusTree ∨ op = .openBPlusTree 1 ∨
      op = .insert 1 [1] [2] ∨ op = .crash) Opened e ∧
      e.newBPlusTree.1 = 1 ∧ e.HasTree 1 := by
  have room : LeafNodeCodec.spaceRequired [1] [2] + SlotCodec.slotSize ≤ 4064 := by decide
  obtain ⟨e, first⟩ := exists_afterFirstInsert room
  obtain ⟨_, w, crash, metadata, _⟩ := first.exists_crash room
  refine ⟨_, .next (first.reached _ (by simp) (by simp) (by simp)) (by simp) crash, rfl, .inl ?_⟩
  rw [show ((e.startedFrom _).recovered w).world.metadata = w.metadata from rfl, metadata]
  decide

end StorageEngine

end CambiumDB
