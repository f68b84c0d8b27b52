import CambiumDB.BPlusTree.FailedSplit
import CambiumDB.BPlusTree.Faults

/-!
# Inserts that return an error

Where an insert can stop, level by level: at its leaf, on the way to it and back, or while the
first leaf of the tree is made.
-/

namespace CambiumDB

open ByteBuffer Router TreeM

open LeafNodeCodec (LeafPage livePairs)

open InternalNodeCodec (InternalPage)

namespace BPlusTree

variable {nextLSN : List LogEntry → UInt64} {w w' : World} {e : TreeError} {key value : Bytes}

/-! ### Where the descent can stop -/

theorem splitLeaf_err {id : UInt64} {pairs : List LeafNodeElement} (alloc : w.Allocating)
    (old : id ≤ w.metadata.maxAllocatedPageId) (leaf : LeafPage (w.pages id) pairs)
    (run : splitLeaf nextLSN id key value w = (.error (.error e), w')) : Stopped 0 w id w' := by
  rw [splitLeaf, bind_ok (get_apply _ _)] at run
  split at run
  · rcases bind_eq_error run with failed | ⟨_, _, _, run⟩
    · exact handleLeafRootNodeSplit_err alloc old leaf failed
    · cases run
  · rcases bind_eq_error run with failed | ⟨_, _, _, run⟩
    · exact (handleLeafNodeSplit_err alloc failed).stopped id
    · cases run

/-- A leaf that was checked, and perhaps compacted, reads as before. -/
theorem early_checked {id : UInt64} {pairs : List LeafNodeElement} {checked : Page}
    (leaf : LeafPage (w.pages id) pairs) (leaf' : LeafPage checked pairs) :
    Early 0 w (w.setPage id checked).countCall := by
  refine ⟨⟨rfl, le_refl _, fun other _ => ?_, .refl _ w⟩, ⟨Nat.lt_succ_self _, le_refl _⟩, rfl, rfl,
    rfl⟩
  rw [World.countCall_pages]
  by_cases same : other = id
  · rw [same, World.setPage_pages_self]
    exact .compacted leaf leaf'
  · rw [World.setPage_pages_ne _ same]
    exact .refl _

section
variable {id : UInt64} {pairs : List LeafNodeElement} {check : Page → Option (Bool × Page)}
  {record : WALRecord} {f : UInt64 → TreeM (Option (Bytes × UInt64 × UInt64))}

/-- Both writes of a leaf: the check, and then the record and the change, or the split. -/
theorem writeChecked_err (alloc : w.Allocating) (old : id ≤ w.metadata.maxAllocatedPageId)
    (leaf : LeafPage (w.pages id) pairs)
    (keeps : ∀ {answer page'}, check (w.pages id) = some (answer, page') →
      LeafPage page' pairs ∧ (answer = false → page' = w.pages id))
    (never : ∀ lsn, NeverErrs (f lsn))
    (run : (applyPage id check >>= fun answer => if answer = true then logRecord nextLSN record >>= f
      else splitLeaf nextLSN id key value) w = (.error (.error e), w')) : Stopped 0 w id w' := by
  rcases bind_eq_error run with failed | ⟨answer, w₁, checked, run⟩
  · exact absurd failed (NeverErrs.applyPage _ _ _ _ _)
  obtain ⟨page, done, rfl⟩ := applyPage_inv checked
  obtain ⟨leaf', kept⟩ := keeps done
  cases answer with
  | true =>
    rw [if_pos rfl] at run
    rcases bind_eq_error run with failed | ⟨lsn, w₂, _, run⟩
    · obtain ⟨rfl, _⟩ := logRecord_err failed
      exact .early (early_checked leaf leaf')
    · exact absurd run (never lsn _ _ _)
  | false =>
    -- a check that says no leaves the page alone, so the split starts where the write did
    have same : w.setPage id page = w := by rw [kept rfl, World.setPage_same]
    rw [same, if_neg (by decide)] at run
    exact splitLeaf_err alloc old leaf run

/-- A separator is handed up by a split only. -/
theorem writeChecked_some {result : Bytes × UInt64 × UInt64}
    (keeps : ∀ {answer page'}, check (w.pages id) = some (answer, page') →
      LeafPage page' pairs ∧ (answer = false → page' = w.pages id))
    (never : ∀ lsn w₁ w₂, f lsn w₁ ≠ (.ok (some result), w₂))
    (run : (applyPage id check >>= fun answer => if answer = true then logRecord nextLSN record >>= f
      else splitLeaf nextLSN id key value) w = (.ok (some result), w')) :
    handleLeafNodeSplit nextLSN id key value w = (.ok result, w') := by
  obtain ⟨answer, w₁, checked, run⟩ := bind_eq_ok run
  obtain ⟨page, done, rfl⟩ := applyPage_inv checked
  obtain ⟨_, kept⟩ := keeps done
  cases answer with
  | true =>
    rw [if_pos rfl] at run
    obtain ⟨lsn, w₂, _, run⟩ := bind_eq_ok run
    exact absurd run (never lsn _ _)
  | false =>
    have same : w.setPage id page = w := by rw [kept rfl, World.setPage_same]
    rw [same, if_neg (by decide), splitLeaf, bind_ok (get_apply _ _)] at run
    split at run
    · obtain ⟨_, w₂, _, run⟩ := bind_eq_ok run
      cases run
    · obtain ⟨result', w₂, split, run⟩ := bind_eq_ok run
      cases run
      exact split

end

section
variable {id : UInt64} {pairs : List LeafNodeElement}

theorem writeLeaf_err (alloc : w.Allocating) (old : id ≤ w.metadata.maxAllocatedPageId)
    (leaf : LeafPage (w.pages id) pairs)
    (run : writeLeaf nextLSN id key value w = (.error (.error e), w')) : Stopped 0 w id w' := by
  rw [writeLeaf, bind_ok (get_apply _ w), bind_ok (get_apply _ w), leaf.findValue,
    bind_ok (orPanic_some _ w)] at run
  cases found : SortedList.lookup LeafNodeElement.key key pairs with
  | some entry =>
    rw [found] at run
    exact writeChecked_err alloc old leaf leaf.check_update_keeps
      (fun _ => .bind (.modifyPage _ _) fun _ => .bind (.applyPage _ _) fun _ => .pure _) run
  | none =>
    rw [found] at run
    exact writeChecked_err alloc old leaf leaf.check_keeps
      (fun _ => .bind (.modifyPage _ _) fun _ => .bind (.applyPage _ _) fun _ => .pure _) run

theorem writeLeaf_some {result : Bytes × UInt64 × UInt64} (leaf : LeafPage (w.pages id) pairs)
    (run : writeLeaf nextLSN id key value w = (.ok (some result), w')) :
    handleLeafNodeSplit nextLSN id key value w = (.ok result, w') := by
  rw [writeLeaf, bind_ok (get_apply _ w), bind_ok (get_apply _ w), leaf.findValue,
    bind_ok (orPanic_some _ w)] at run
  have ends {α : Type} {m : TreeM α} {w₁ w₂ : World} :
      (m >>= fun _ => pure none) w₁ ≠ (.ok (some result), w₂) := by
    intro run
    obtain ⟨_, _, _, run⟩ := bind_eq_ok run
    cases run
  cases found : SortedList.lookup LeafNodeElement.key key pairs with
  | some entry =>
    rw [found] at run
    refine writeChecked_some leaf.check_update_keeps (fun lsn w₁ w₂ run => ?_) run
    rw [bind_ok (modifyPage_apply _ _ _)] at run
    exact ends run
  | none =>
    rw [found] at run
    refine writeChecked_some leaf.check_keeps (fun lsn w₁ w₂ run => ?_) run
    rw [bind_ok (modifyPage_apply _ _ _)] at run
    exact ends run

end

/-- The separator goes into the root, or the root is split for it. -/
theorem writeSeparator_err {id left right first : UInt64} {separator : Bytes}
    {rest : List (Bytes × UInt64)} (alloc : w.Allocating) (root : w.tree.rootNodePageId = id)
    (old : id ≤ w.metadata.maxAllocatedPageId) (node : InternalPage (w.pages id) first rest)
    (run : writeSeparator nextLSN id none separator left right w = (.error (.error e), w')) :
    StoppedUnsplit w w' ∨ Late 0 w w' ∧ NodeHalved w w' id w.nextPage left right := by
  obtain ⟨answer, checked⟩ := node.check_answers separator
  rw [writeSeparator, bind_ok (get_apply _ _), bind_ok (applyPage_ok checked),
    World.setPage_same] at run
  cases answer with
  | true =>
    rw [if_pos rfl] at run
    rcases bind_eq_error run with failed | ⟨lsn, w₁, _, run⟩
    · obtain ⟨rfl, _⟩ := logRecord_err failed
      exact .inl (.inl (early_countCall w))
    · exact absurd run <| NeverErrs.bind (.modifyPage _ _)
        (fun _ => .bind (.applyPage _ _) fun _ => .pure _) _ _ _
  | false =>
    rw [if_neg (by decide), bind_ok (get_apply _ _), if_pos root] at run
    rcases bind_eq_error run with failed | ⟨_, _, _, run⟩
    · exact handleInternalRootNodeSplit_err alloc old failed
    · cases run

/-- Whatever the root does with a separator begins with a call. -/
theorem writeSeparator_stops {id left right first : UInt64} {separator : Bytes}
    {rest : List (Bytes × UInt64)} {f : Nat → Bool}
    (freeList : w.metadata.deallocatedPageIdList = []) (root : w.tree.rootNodePageId = id)
    (node : InternalPage (w.pages id) first rest) (fault : f w.calls = true) :
    StopsAt (writeSeparator nextLSN id none separator left right) w f w.countCall := by
  obtain ⟨answer, checked⟩ := node.check_answers separator
  have run : applyPage id (InternalNodeCodec.hasEnoughSpaceToInsertElement · separator)
      (w.withFaults f) = (.ok answer, w.withFaults f) := by
    rw [applyPage_ok (w := w.withFaults f) checked]
    exact congrArg (Prod.mk _) (World.setPage_same (w.withFaults f) id)
  rw [StopsAt, writeSeparator, bind_ok (get_apply _ _), bind_ok run]
  cases answer with
  | true =>
    rw [if_pos rfl]
    exact (StopsAt.logRecord fault).bind _
  | false =>
    have isRoot : (w.withFaults f).tree.rootNodePageId = id := root
    rw [if_neg (by decide), bind_ok (get_apply _ _), if_pos isRoot, handleInternalRootNodeSplit]
    refine StopsAt.bind (m := _) ?_ _
    rw [StopsAt, bind_ok (get_apply _ _)]
    exact (StopsAt.newPage freeList fault).bind _

/-- Below a node: the guard on the child, the child's leaf, or what is done with its separator. -/
theorem writeTraversal_node_err {id child first : UInt64} {rest : List (Bytes × UInt64)}
    {pairs : List LeafNodeElement} {fuel : Nat} {parent : Option UInt64}
    (node : InternalPage (w.pages id) first rest) (nonempty : rest ≠ [])
    (sorted : (rest.map Prod.fst).Pairwise (· < ·)) (routed : route key first rest = child)
    (leaf : LeafPage (w.pages child) pairs)
    (run : writeTraversal nextLSN key value (fuel + 2) id parent w = (.error (.error e), w')) :
    w' = w.countCall ∨ newGuard child w = (.ok (), w.acquire child) ∧
      ((∃ w₁, writeLeaf nextLSN child key value (w.acquire child) = (.error (.error e), w₁) ∧
          w' = w₁.release child) ∨
        ∃ separator left right w₁ w₂, writeLeaf nextLSN child key value (w.acquire child) =
            (.ok (some (separator, left, right)), w₁) ∧
          writeSeparator nextLSN id parent separator left right w₁ = (.error (.error e), w₂) ∧
          w' = w₂.release child) := by
  rw [writeTraversal, bind_ok (isLeafNode_false (node.isLeafNode nonempty)), if_neg (by decide),
    bind_ok (get_apply _ w), node.findNextChild nonempty sorted, routed,
    bind_ok (orPanic_some _ w)] at run
  rcases bind_eq_error run with failed | ⟨_, w₁, guarded, run⟩
  · exact .inl (newGuard_err failed).1
  obtain ⟨rfl, _, _⟩ := newGuard_inv guarded
  refine .inr ⟨guarded, ?_⟩
  obtain ⟨w₂, inner, rfl⟩ := deferDone_err run
  rcases bind_eq_error inner with failed | ⟨result, w₁, returned, inner⟩
  · rw [writeTraversal_leaf (w := w.acquire child) nextLSN leaf] at failed
    exact .inl ⟨w₂, failed, rfl⟩
  · rw [writeTraversal_leaf (w := w.acquire child) nextLSN leaf] at returned
    cases result with
    | none => cases inner
    | some result =>
      obtain ⟨separator, left, right⟩ := result
      exact .inr ⟨separator, left, right, w₁, w₂, returned, inner, rfl⟩

/-! ### The calls around the leaf -/

/-- One call on the way to the leaf: a guard, or the record that begins the insert. -/
structure Enters (w w₁ : World) : Prop where
  tree : w₁.tree = w.tree
  pages : w₁.pages = w.pages
  filePages : w₁.filePages = w.filePages
  metadata : w₁.metadata = w.metadata
  calls : w₁.calls = w.calls + 1
  log : Appends Plain w w₁

/-- On the way back only the guards change. -/
structure Leaves (w₂ w' : World) : Prop where
  tree : w'.tree = w₂.tree
  pages : w'.pages = w₂.pages
  filePages : w'.filePages = w₂.filePages
  metadata : w'.metadata = w₂.metadata
  calls : w'.calls = w₂.calls
  log : w'.log = w₂.log

theorem enters_acquire (w : World) (id : UInt64) : Enters w (w.acquire id) :=
  ⟨rfl, rfl, rfl, rfl, rfl, .refl _ w⟩

theorem leaves_release (w : World) (id : UInt64) : Leaves w (w.release id) :=
  ⟨rfl, rfl, rfl, rfl, rfl, rfl⟩

theorem Leaves.refl (w : World) : Leaves w w := ⟨rfl, rfl, rfl, rfl, rfl, rfl⟩

/-- The begin record is written or dropped. -/
theorem logIgnored_enters (nextLSN : List LogEntry → UInt64) {record : WALRecord} (plain : Plain record)
    (w : World) : Enters w (logIgnored nextLSN record w).2 ∧
      (logIgnored nextLSN record w).2.guards = w.guards := by
  rw [logIgnored, logRecord]
  split
  · exact ⟨⟨rfl, rfl, rfl, rfl, rfl, .refl _ w⟩, rfl⟩
  · exact ⟨⟨rfl, rfl, rfl, rfl, rfl, .one rfl plain⟩, rfl⟩

section
variable {w₁ w₂ : World} {n : Nat} {leaf : UInt64} (enters : Enters w w₁) (leaves : Leaves w₂ w')
include enters leaves

theorem Undisturbed.outside (h : Undisturbed w₁ w₂) : Undisturbed w w' := by
  refine ⟨?_, ?_, fun id old => ?_, ?_⟩
  · rw [leaves.tree, h.tree, enters.tree]
  · rw [leaves.filePages, ← enters.filePages]
    exact h.filePages
  · rw [leaves.pages, ← enters.pages]
    exact h.pages id (by rwa [enters.metadata])
  · obtain ⟨added, log, plain⟩ := enters.log.trans h.log
    exact ⟨added, leaves.log.trans log, plain⟩

theorem Late.outside (h : Late n w₁ w₂) (guards : w₂.guards = w₁.guards → w'.guards = w.guards) :
    Late (n + 1) w w' := by
  have next : w.nextPage = w₁.nextPage := by rw [World.nextPage, World.nextPage, enters.metadata]
  have counted := h.calls
  have before := enters.calls
  have after := leaves.calls
  refine ⟨by omega, guards h.guards, ?_, ?_⟩
  · rw [leaves.metadata, next]
    exact h.last
  · rw [leaves.metadata, next]
    exact h.freeList

theorem Halved.outside (h : Halved w₁ w₂ leaf) : Halved w w' leaf := by
  have all := enters.log.mono fun _ plain => plain.2
  constructor
  case tree => rw [leaves.tree, h.tree, enters.tree]
  case filePages =>
    rw [leaves.filePages, ← enters.filePages]
    exact h.filePages
  case others =>
    intro id old other
    rw [leaves.pages, ← enters.pages]
    exact h.others id (by rwa [enters.metadata]) other
  case lower =>
    rw [leaves.pages, ← enters.pages]
    exact h.lower
  case log =>
    obtain ⟨added, log, plain⟩ := all.trans h.log
    exact ⟨added, leaves.log.trans log, plain⟩
  case split =>
    have split := h.split.earlier enters.log h.log
    rwa [LoggedSince, ← leaves.log] at split

theorem BothSplit.outside (h : BothSplit w₁ w₂ leaf) : BothSplit w w' leaf := by
  have next : w.nextPage = w₁.nextPage := by rw [World.nextPage, World.nextPage, enters.metadata]
  constructor
  case tree => rw [leaves.tree, h.tree, enters.tree]
  case filePages =>
    rw [leaves.filePages, ← enters.filePages]
    exact h.filePages
  case others =>
    intro id old other aside
    rw [leaves.pages, ← enters.pages]
    exact h.others id (by rwa [enters.metadata]) other (by rwa [enters.tree])
  case lower =>
    rw [leaves.pages, ← enters.pages]
    exact h.lower
  case right =>
    rw [leaves.pages, next]
    exact h.right
  case node =>
    have node := h.node
    rwa [enters.tree, enters.pages, ← leaves.pages, ← next] at node
  case more =>
    rw [leaves.metadata, next]
    exact h.more
  case log =>
    obtain ⟨added, log, all⟩ := (enters.log.mono fun _ _ => trivial).trans h.log
    exact ⟨added, leaves.log.trans log, all⟩
  case leafSplit =>
    have split := h.leafSplit.earlier enters.log h.log
    rwa [LoggedSince, ← leaves.log] at split
  case nodeSplit =>
    have split := h.nodeSplit.earlier enters.log h.log
    rwa [LoggedSince, ← leaves.log] at split

theorem Early.outside (h : Early n w₁ w₂) (guards : w₂.guards = w₁.guards → w'.guards = w.guards) :
    Early (n + 1) w w' := by
  have counted := h.calls
  have before := enters.calls
  have after := leaves.calls
  refine ⟨h.store.outside enters leaves, ⟨by omega, by omega⟩, guards h.guards, ?_, ?_⟩
  · rw [leaves.metadata, h.last, enters.metadata]
  · rw [leaves.metadata, h.freeList, enters.metadata]

theorem Stopped.outside (h : Stopped n w₁ leaf w₂)
    (guards : w₂.guards = w₁.guards → w'.guards = w.guards) : Stopped (n + 1) w leaf w' := by
  have next : w.nextPage = w₁.nextPage := by rw [World.nextPage, World.nextPage, enters.metadata]
  have before := enters.calls
  have after := leaves.calls
  cases h with
  | early early => exact .early (early.outside enters leaves guards)
  | cleaned cleaned =>
    have counted := cleaned.calls
    refine .cleaned ⟨cleaned.store.outside enters leaves, by omega, guards cleaned.guards, ?_, ?_⟩
    · rw [leaves.metadata, cleaned.last, next]
    · rw [leaves.metadata, cleaned.freeList, next]
  | created late store =>
    exact .created (late.outside enters leaves guards) (store.outside enters leaves)
  | halved late halved =>
    exact .halved (late.outside enters leaves guards) (halved.outside enters leaves)

end

/-- The guards below the root. -/
def guardsBelow (rest : List (Bytes × UInt64)) : Nat := if rest = [] then 0 else 1

/-- The insert has come past the split of its leaf, and the separator is still to be placed. -/
def PassesSplit (nextLSN : List LogEntry → UInt64) (key value : Bytes) (child : UInt64) (w : World) :
    Prop :=
  newGuard child w = (.ok (), w.acquire child) ∧ ∃ result w₁,
    writeLeaf nextLSN child key value (w.acquire child) = (.ok (some result), w₁)

section
variable {first : UInt64} {rest : List (Bytes × UInt64)} {pairs : UInt64 → List LeafNodeElement}
  {fuel : Nat} (alloc : w.Allocating) (stored : Stored w first rest pairs)
include alloc stored

theorem writeTraversal_err (run : writeTraversal nextLSN key value (fuel + 2) w.tree.rootNodePageId none
      w = (.error (.error e), w')) :
    Stopped (guardsBelow rest) w (route key first rest) w' ∨
      Late 1 w w' ∧ BothSplit w w' (route key first rest) ∧ rest ≠ [] ∧
        PassesSplit nextLSN key value (route key first rest) w := by
  have routed := route_mem key first rest
  have old := (stored.allocated _ routed).2
  have leaf := stored.leaves _ routed
  by_cases single : rest = []
  · subst single
    rw [stored.leafRoot rfl] at run
    have here : LeafPage (w.pages first) (pairs first) := leaf
    rw [writeTraversal_leaf nextLSN here] at run
    exact .inl (writeLeaf_err alloc old here run)
  obtain ⟨node, outside⟩ := stored.nodeRoot single
  have apart : route key first rest ≠ w.tree.rootNodePageId := fun same => outside (same ▸ routed)
  rw [guardsBelow, if_neg single]
  generalize child : route key first rest = id at *
  have enters := enters_acquire w id
  have alloc₁ : (w.acquire id).Allocating := alloc.congr rfl rfl rfl fun _ _ => rfl
  have leaf₁ : LeafPage ((w.acquire id).pages id) (pairs id) := leaf
  have guards {w₂ : World} (same : w₂.guards = (w.acquire id).guards) :
      (w₂.release id).guards = w.guards := by
    rw [World.release_guards, same, World.acquire_guards, List.erase_cons_head]
  rcases writeTraversal_node_err node single stored.sorted child leaf run with
    rfl | ⟨guarded, ⟨w₁, failed, rfl⟩ | ⟨separator, left, right, w₁, w₂, split, failed, rfl⟩⟩
  · exact .inl (.early ⟨(Undisturbed.refl w).congr rfl rfl rfl rfl,
      ⟨Nat.lt_succ_self _, Nat.le_succ _⟩, rfl, rfl, rfl⟩)
  · have stopped := writeLeaf_err alloc₁ old leaf₁ failed
    exact .inl (stopped.outside enters (leaves_release w₁ id) guards)
  · obtain ⟨off, _, m, _, _, result⟩ :=
      handleLeafNodeSplit_splitOff alloc₁ old leaf₁ (writeLeaf_some leaf₁ split)
    cases result
    have rootOld := stored.rootAllocated.2
    have node₁ := (off.halved.others _ rootOld apart.symm).node single node
    have leaves := leaves_release w₂ id
    rcases writeSeparator_err off.alloc (off.halved.tree ▸ rfl) (off.old alloc₁ rootOld) node₁ failed
      with unsplit | ⟨late, both⟩
    · obtain ⟨late, halved⟩ := off.stopped alloc₁ old unsplit
      exact .inl (.halved (late.outside enters leaves guards) (halved.outside enters leaves))
    · obtain ⟨late, both⟩ := off.bothSplit alloc₁ old rootOld apart late both
      exact .inr ⟨late.outside enters leaves guards, both.outside enters leaves, single, guarded, _,
        _, split⟩

/-- The first call after the split of the leaf fails. -/
theorem PassesSplit.stops (fuel : Nat) (nonempty : rest ≠ [])
    (passes : PassesSplit nextLSN key value (route key first rest) w) : ∃ f w₂,
    (∀ n ≤ w.calls, f n = w.faults n) ∧
      StopsAt (writeTraversal nextLSN key value (fuel + 2) w.tree.rootNodePageId none) w f w₂ ∧
      Late 1 w w₂ ∧ Halved w w₂ (route key first rest) := by
  have routed := route_mem key first rest
  have old := (stored.allocated _ routed).2
  have leaf := stored.leaves _ routed
  obtain ⟨node, outside⟩ := stored.nodeRoot nonempty
  have apart : route key first rest ≠ w.tree.rootNodePageId := fun same => outside (same ▸ routed)
  generalize child : route key first rest = id at *
  obtain ⟨guarded, ⟨separator, left, right⟩, w₁, split⟩ := passes
  have alloc₁ : (w.acquire id).Allocating := alloc.congr rfl rfl rfl fun _ _ => rfl
  have leaf₁ : LeafPage ((w.acquire id).pages id) (pairs id) := leaf
  obtain ⟨off, _, m, _, _, result⟩ :=
    handleLeafNodeSplit_splitOff alloc₁ old leaf₁ (writeLeaf_some leaf₁ split)
  cases result
  have rootOld := stored.rootAllocated.2
  have node₁ := (off.halved.others _ rootOld apart.symm).node nonempty node
  have enters := enters_acquire w id
  have leaves := leaves_release w₁.countCall id
  have counted : w.calls + 1 + 3 ≤ w₁.calls := off.calls
  obtain ⟨late, halved⟩ := off.stopped alloc₁ old (.inl (early_countCall w₁))
  obtain ⟨f, agree, fault⟩ := exists_fault_at w w₁.calls
  refine ⟨f, w₁.countCall.release id, fun n early => agree n (by omega), ?_,
    late.outside enters leaves fun same => ?_, halved.outside enters leaves⟩
  · have start (n : Nat) (early : n < w.calls) : f n = w.faults n := agree n (by omega)
    have next (n : Nat) (early : n < (w.acquire id).calls) : f n = w.faults n := by
      rw [World.acquire_calls] at early
      exact agree n (by omega)
    have leaf₂ : LeafPage (((w.acquire id).withFaults f).pages id) (pairs id) := leaf
    have again : writeTraversal nextLSN key value (fuel + 1) id (some w.tree.rootNodePageId)
        ((w.acquire id).withFaults f) = (.ok (some (m.key, id, (w.acquire id).nextPage)), w₁.withFaults f) := by
      rw [writeTraversal_leaf nextLSN leaf₂]
      exact (repeats_writeLeaf nextLSN id key value).again split agree
    rw [writeTraversal]
    refine .after (.get fun _ _ => rfl) (isLeafNode_false (node.isLeafNode nonempty)) start ?_
    rw [if_neg (by decide)]
    refine .after (.get fun _ _ => rfl) (get_apply _ w) start ?_
    rw [node.findNextChild nonempty stored.sorted, child]
    refine .after (.orPanic _) (orPanic_some _ w) start ?_
    refine .after (.newGuard id) guarded next (.deferDone ?_ id)
    rw [StopsAt, bind_ok again]
    exact writeSeparator_stops off.alloc.freeList (off.halved.tree ▸ rfl) node₁ fault
  · rw [World.release_guards, same, World.acquire_guards, List.erase_cons_head]

end

theorem Early.mono {m n : Nat} (h : Early m w w') (more : m ≤ n) : Early n w w' := by
  have calls := h.calls
  exact ⟨h.store, ⟨calls.1, by omega⟩, h.guards, h.last, h.freeList⟩

/-! ### The whole insert -/

/-- The world when the begin record has been written or dropped. -/
def begun (nextLSN : List LogEntry → UInt64) (w : World) : World :=
  (logIgnored nextLSN (.beginOperation w.tree.bPlusTreeId) w).2

theorem insert_begun (w : World) :
    insert nextLSN key value w = insertLocked nextLSN key value (begun nextLSN w) := rfl

theorem enters_begun (nextLSN : List LogEntry → UInt64) (w : World) :
    Enters w (begun nextLSN w) ∧ (begun nextLSN w).guards = w.guards :=
  logIgnored_enters nextLSN ⟨id, id⟩ w

theorem begun_faults (nextLSN : List LogEntry → UInt64) (w : World) : (begun nextLSN w).faults = w.faults := by
  rw [begun, logIgnored, logRecord]
  split <;> rfl

theorem begun_withFaults {f : Nat → Bool} (same : f w.calls = w.faults w.calls) :
    begun nextLSN (w.withFaults f) = (begun nextLSN w).withFaults f := by
  have next : (w.withFaults f).faults (w.withFaults f).calls = w.faults w.calls := same
  simp only [begun, logIgnored, logRecord, next]
  split <;> rfl

theorem guardRoot_present (present : w.tree.rootNodePageId ≠ 0) : guardRoot nextLSN w =
    (newGuard w.tree.rootNodePageId >>= fun _ => pure w.tree.rootNodePageId) w := by
  rw [guardRoot, bind_ok (get_apply _ w), if_neg present]

/-- The commit record does not fail an insert. -/
theorem insertLocked_err (run : insertLocked nextLSN key value w = (.error (.error e), w')) :
    guardRoot nextLSN w = (.error (.error e), w') ∨ ∃ root start w₁,
      guardRoot nextLSN w = (.ok root, start) ∧
      writeTraversal nextLSN key value (start.filePages + 1) root none start =
        (.error (.error e), w₁) ∧ w' = w₁.release root := by
  rw [insertLocked] at run
  rcases bind_eq_error run with failed | ⟨root, start, entered, run⟩
  · exact .inl failed
  obtain ⟨w₁, inner, rfl⟩ := deferDone_err run
  rw [bind_ok (get_apply _ start)] at inner
  rcases bind_eq_error inner with failed | ⟨result, w₂, _, inner⟩
  · exact .inr ⟨root, start, w₁, entered, failed, rfl⟩
  · cases inner

section
variable {first : UInt64} {rest : List (Bytes × UInt64)} {pairs : UInt64 → List LeafNodeElement}

theorem Enters.stored {w₁ : World} (enters : Enters w w₁) (stored : Stored w first rest pairs) :
    Stored w₁ first rest pairs := by
  obtain ⟨tree, pages, _, metadata, _, _⟩ := enters
  constructor
  · exact stored.sorted
  · exact stored.nodup
  · rw [tree]
    exact stored.leafRoot
  · rw [tree, pages]
    exact stored.nodeRoot
  · rw [tree, metadata]
    exact stored.rootAllocated
  · rw [metadata]
    exact stored.allocated
  · rw [pages]
    exact stored.leaves
  · exact stored.routed

theorem Stored.withFaults (stored : Stored w first rest pairs) (f : Nat → Bool) :
    Stored (w.withFaults f) first rest pairs :=
  ⟨stored.sorted, stored.nodup, stored.leafRoot, stored.nodeRoot, stored.rootAllocated,
    stored.allocated, stored.leaves, stored.routed⟩

theorem Enters.allocating {w₁ : World} (enters : Enters w w₁) (alloc : w.Allocating) :
    w₁.Allocating := by
  refine alloc.congr ?_ ?_ enters.filePages fun id _ => by rw [enters.pages]
  · rw [enters.metadata]
  · rw [enters.metadata]

/-- A split below the guarded root can be stopped before the root changes. -/
theorem PassesSplit.insert_stops (alloc : w.Allocating) (stored : Stored w first rest pairs)
    (nonempty : rest ≠ [])
    (entered : newGuard w.tree.rootNodePageId (begun nextLSN w) =
      (.ok (), (begun nextLSN w).acquire w.tree.rootNodePageId))
    (passes : PassesSplit nextLSN key value (route key first rest)
      ((begun nextLSN w).acquire w.tree.rootNodePageId)) : ∃ f w₂,
    insert nextLSN key value (w.withFaults f) = (.error (.error .io), w₂) ∧ Late 3 w w₂ ∧
      Halved w w₂ (route key first rest) := by
  obtain ⟨begins, unguarded⟩ := enters_begun nextLSN w
  have guarded := enters_acquire (begun nextLSN w) w.tree.rootNodePageId
  have alloc₂ := guarded.allocating (begins.allocating alloc)
  have stored₂ := guarded.stored (begins.stored stored)
  obtain ⟨more, enough⟩ : ∃ more, (begun nextLSN w).filePages = more + 1 := by
    have inside := (begins.allocating alloc).inside
    exact ⟨(begun nextLSN w).filePages - 1, by omega⟩
  obtain ⟨f, w₂, agree, stops, late, halved⟩ := passes.stops alloc₂ stored₂ more nonempty
  have early (n : Nat) (before : n ≤ w.calls + 2) : f n = w.faults n := by
    rw [← begun_faults nextLSN w]
    refine agree n (le_trans before ?_)
    rw [World.acquire_calls, begins.calls]
  have leaves : Leaves (w₂.release w.tree.rootNodePageId) ((w₂.release w.tree.rootNodePageId).withFaults f) :=
    ⟨rfl, rfl, rfl, rfl, rfl, rfl⟩
  have released := leaves_release w₂ w.tree.rootNodePageId
  refine ⟨f, (w₂.release w.tree.rootNodePageId).withFaults f, ?_,
    (late.outside guarded released ?_).outside begins leaves (·.trans unguarded),
    (halved.outside guarded released).outside begins leaves⟩
  · have root : ((begun nextLSN w).withFaults f).tree.rootNodePageId = w.tree.rootNodePageId :=
      congrArg BPlusTree.rootNodePageId begins.tree
    have entered' : guardRoot nextLSN ((begun nextLSN w).withFaults f) = (.ok w.tree.rootNodePageId,
        ((begun nextLSN w).acquire w.tree.rootNodePageId).withFaults f) := by
      rw [guardRoot_present (by rw [root]; exact stored.rootAllocated.1), root,
        bind_ok ((Repeats.newGuard _).again entered fun n before => ?_)]
      · rfl
      · rw [begun_faults]
        rw [World.acquire_calls, begins.calls] at before
        exact early n (by omega)
    rw [insert_begun, begun_withFaults (early _ (by omega)), insertLocked, bind_ok entered']
    refine StopsAt.deferDone ?_ _
    rw [StopsAt, bind_ok (get_apply _ _)]
    have fuel : (((begun nextLSN w).acquire w.tree.rootNodePageId).withFaults f).filePages + 1 =
        more + 2 := congrArg (· + 1) enough
    have start : ((begun nextLSN w).acquire w.tree.rootNodePageId).tree.rootNodePageId =
        w.tree.rootNodePageId := root
    rw [start] at stops
    rw [fuel]
    exact stops.bind _
  · intro same
    rw [World.release_guards, same, World.acquire_guards, List.erase_cons_head]

/-- An insert into a tree that has a root, stopped by an error. -/
theorem insert_err (alloc : w.Allocating) (stored : Stored w first rest pairs)
    (run : insert nextLSN key value w = (.error (.error e), w')) :
    Stopped (guardsBelow rest + 2) w (route key first rest) w' ∨
      Late 3 w w' ∧ BothSplit w w' (route key first rest) ∧ rest ≠ [] ∧ ∃ f w₂,
        insert nextLSN key value (w.withFaults f) = (.error (.error .io), w₂) ∧ Late 3 w w₂ ∧
          Halved w w₂ (route key first rest) := by
  obtain ⟨begins, unguarded⟩ := enters_begun nextLSN w
  have ends (w₂ : World) := Leaves.refl w₂
  have same {w₂ : World} (guards : w₂.guards = (begun nextLSN w).guards) : w₂.guards = w.guards :=
    guards.trans unguarded
  have present : (begun nextLSN w).tree.rootNodePageId ≠ 0 := by
    rw [begins.tree]
    exact stored.rootAllocated.1
  rw [insert_begun] at run
  rcases insertLocked_err run with failed | ⟨root, start, w₁, entered, failed, rfl⟩
  · rw [guardRoot_present present] at failed
    rcases bind_eq_error failed with failed | ⟨_, _, _, run⟩
    · rw [(newGuard_err failed).1]
      exact .inl (.early (((early_countCall _).outside begins (ends _) same).mono (by omega)))
    · cases run
  rw [guardRoot_present present] at entered
  obtain ⟨_, w₂, guarded, done⟩ := bind_eq_ok entered
  obtain ⟨rfl, _, _⟩ := newGuard_inv guarded
  cases done
  have guards := enters_acquire (begun nextLSN w) (begun nextLSN w).tree.rootNodePageId
  have alloc₂ := guards.allocating (begins.allocating alloc)
  have stored₂ := guards.stored (begins.stored stored)
  obtain ⟨more, enough⟩ : ∃ more, (begun nextLSN w).filePages = more + 1 := by
    have inside := (begins.allocating alloc).inside
    exact ⟨(begun nextLSN w).filePages - 1, by omega⟩
  have root : (begun nextLSN w).tree.rootNodePageId = w.tree.rootNodePageId := by rw [begins.tree]
  rw [World.acquire_filePages, enough] at failed
  have leaves := leaves_release w₁ (begun nextLSN w).tree.rootNodePageId
  have back (kept : w₁.guards = ((begun nextLSN w).acquire (begun nextLSN w).tree.rootNodePageId).guards) :
      (w₁.release (begun nextLSN w).tree.rootNodePageId).guards = (begun nextLSN w).guards := by
    rw [World.release_guards, kept, World.acquire_guards, List.erase_cons_head]
  rcases writeTraversal_err alloc₂ stored₂ failed with stopped | ⟨late, both, nonempty, passes⟩
  · exact .inl ((stopped.outside guards leaves back).outside begins (ends _) same)
  · refine .inr ⟨(late.outside guards leaves back).outside begins (ends _) same,
      (both.outside guards leaves).outside begins (ends _), nonempty, ?_⟩
    rw [root] at guarded passes
    exact passes.insert_stops alloc stored nonempty guarded

end

/-! ### The first leaf of a tree -/

/-- A page was obtained for the root, and the tree has none. -/
structure Unplanted (w w' : World) : Prop where
  store : Undisturbed w w'
  calls : w.calls + 2 ≤ w'.calls ∧ w'.calls ≤ w.calls + 5
  last : w'.metadata.maxAllocatedPageId = w.nextPage
  freeList : w'.metadata.deallocatedPageIdList = []
  /-- if the guard was taken it is still held -/
  guards : w'.guards = w.guards ∨ w'.guards = w.nextPage :: w.guards

/-- The tree has an empty root, which is guarded. -/
structure Planted (w w₁ : World) : Prop where
  stored : Stored w₁ w.nextPage [] fun _ => []
  alloc : w₁.Allocating
  calls : w₁.calls = w.calls + 5
  guards : w₁.guards = w.nextPage :: w.guards
  last : w₁.metadata.maxAllocatedPageId = w.nextPage
  filePages : w.filePages ≤ w₁.filePages
  log : Appends Plain w w₁

theorem createRoot_err (alloc : w.Allocating)
    (run : createRoot nextLSN w = (.error (.error e), w')) : w' = w.countCall ∨ Unplanted w w' := by
  rw [createRoot, bind_ok (get_apply _ w)] at run
  rcases bind_eq_error run with failed | ⟨⟨root, source⟩, w₁, taken, run⟩
  · exact .inl (newPage_err failed).1
  obtain ⟨rfl, rfl, space⟩ := newPage_inv alloc.freeList taken
  have store := undisturbed_allocate alloc
  have stamped (page : Page) (w₂ : World) (tree : w₂.tree = w.tree)
      (size : w₂.filePages = w.allocate.filePages)
      (pages : w₂.pages = Function.update w.allocate.pages w.nextPage page)
      (log : Appends Plain w w₂) : Undisturbed w w₂ := by
    refine ⟨tree, size ▸ store.filePages, fun id old => ?_, log⟩
    rw [pages, Function.update_of_ne (UInt64.ne_of_lt (alloc.lt_nextPage old))]
    exact store.pages id old
  right
  rcases bind_eq_error run with failed | ⟨lsn, w₁, logged, run⟩
  · obtain ⟨rfl, _⟩ := logRecord_err failed
    exact ⟨store.congr rfl rfl rfl rfl, ⟨le_refl _, Nat.le_add_right _ 3⟩, rfl, alloc.freeList, .inl rfl⟩
  obtain ⟨rfl, rfl⟩ := logRecord_inv logged
  rcases bind_eq_error run with failed | ⟨_, w₁, guarded, run⟩
  · obtain ⟨rfl, _⟩ := newGuard_err failed
    exact ⟨⟨rfl, store.filePages, store.pages, .one rfl ⟨id, id⟩⟩, ⟨Nat.le_succ _, Nat.le_add_right _ 2⟩,
      rfl, alloc.freeList, .inl rfl⟩
  obtain ⟨rfl, _, _⟩ := newGuard_inv guarded
  rw [bind_ok (modifyPage_apply _ _ _)] at run
  -- from here on the guard is held, and nothing gives it back
  rcases bind_eq_error run with failed | ⟨lsn, w₁, logged, run⟩
  · obtain ⟨rfl, _⟩ := logRecord_err failed
    exact ⟨stamped _ _ rfl rfl rfl (.one rfl ⟨id, id⟩), ⟨Nat.le_add_right _ 2, Nat.le_succ _⟩, rfl,
      alloc.freeList, .inr rfl⟩
  obtain ⟨rfl, rfl⟩ := logRecord_inv logged
  rw [bind_ok (modify_apply _ _)] at run
  rcases bind_eq_error run with failed | ⟨lsn, w₁, logged, run⟩
  · obtain ⟨rfl, _⟩ := logRecord_err failed
    exact ⟨stamped _ _ rfl rfl rfl (.push (.one rfl ⟨id, id⟩) rfl ⟨id, id⟩), ⟨Nat.le_add_right _ 3, le_refl _⟩, rfl,
      alloc.freeList, .inr rfl⟩
  · cases run

theorem createRoot_planted {root : UInt64} (alloc : w.Allocating)
    (run : createRoot nextLSN w = (.ok root, w')) : root = w.nextPage ∧ Planted w w' := by
  rw [createRoot, bind_ok (get_apply _ w)] at run
  obtain ⟨⟨id, source⟩, w₁, taken, run⟩ := bind_eq_ok run
  obtain ⟨rfl, rfl, space⟩ := newPage_inv alloc.freeList taken
  obtain ⟨lsn, w₁, logged, run⟩ := bind_eq_ok run
  obtain ⟨rfl, rfl⟩ := logRecord_inv logged
  obtain ⟨_, w₁, guarded, run⟩ := bind_eq_ok run
  obtain ⟨rfl, _, _⟩ := newGuard_inv guarded
  rw [bind_ok (modifyPage_apply _ _ _)] at run
  obtain ⟨lsn, w₁, logged, run⟩ := bind_eq_ok run
  obtain ⟨rfl, rfl⟩ := logRecord_inv logged
  rw [bind_ok (modify_apply _ _)] at run
  obtain ⟨lsn, w₁, logged, run⟩ := bind_eq_ok run
  obtain ⟨rfl, rfl⟩ := logRecord_inv logged
  rw [bind_ok (modify_apply _ _), bind_ok (modify_apply _ _), bind_ok (modify_apply _ _)] at run
  cases run
  have fresh := alloc.nextPage_ne_zero
  refine ⟨rfl, ⟨List.Pairwise.nil, ?_, fun _ => rfl, fun none => absurd rfl none, ⟨fresh, ?_⟩, ?_, ?_, ?_⟩, ?_,
    rfl, rfl, rfl, w.filePages_le_allocate, .push (.push (.one rfl ⟨id, id⟩) rfl ⟨id, id⟩) rfl ⟨id, id⟩⟩
  · simp [children]
  · exact UInt64.le_refl _
  · intro id member
    obtain rfl : id = w.nextPage := by simpa [children] using member
    exact ⟨fresh, UInt64.le_refl _⟩
  · intro id member
    obtain rfl : id = w.nextPage := by simpa [children] using member
    simp only [World.setRoot_pages, World.setFirstLeaf_pages, World.setMetaLSN_pages,
      World.append_pages, World.setPage_pages_self, World.acquire_pages]
    rw [alloc.allocate_nextPage]
    exact LeafNodeCodec.leafPage_zero.setLSN _
  · simp
  · refine (alloc.allocate_grown space).congr rfl rfl rfl fun id later => ?_
    exact Function.update_of_ne (UInt64.ne_of_lt later).symm _ _

/-- An insert into a tree without a root, stopped by an error. -/
theorem insert_err_empty (alloc : w.Allocating) (empty : w.tree.rootNodePageId = 0)
    (run : insert nextLSN key value w = (.error (.error e), w')) :
    w' = (begun nextLSN w).countCall ∨ Unplanted (begun nextLSN w) w' ∨ ∃ w₁ w₂,
      Planted (begun nextLSN w) w₁ ∧ Stopped 0 w₁ (begun nextLSN w).nextPage w₂ ∧
        w' = w₂.release (begun nextLSN w).nextPage := by
  obtain ⟨begins, _⟩ := enters_begun nextLSN w
  have alloc₁ := begins.allocating alloc
  have created : guardRoot nextLSN (begun nextLSN w) = createRoot nextLSN (begun nextLSN w) := by
    rw [guardRoot, bind_ok (get_apply _ _), begins.tree, if_pos empty]
  rw [insert_begun] at run
  rcases insertLocked_err run with failed | ⟨root, start, w₁, entered, failed, rfl⟩
  · rw [created] at failed
    rcases createRoot_err alloc₁ failed with rfl | unplanted
    · exact .inl rfl
    · exact .inr (.inl unplanted)
  · rw [created] at entered
    obtain ⟨rfl, planted⟩ := createRoot_planted alloc₁ entered
    have root := planted.stored.leafRoot rfl
    obtain ⟨more, enough⟩ : ∃ more, start.filePages = more + 1 := by
      have inside := planted.alloc.inside
      exact ⟨start.filePages - 1, by omega⟩
    rw [← root, enough] at failed
    rcases writeTraversal_err planted.alloc planted.stored failed with stopped | ⟨_, _, height, _⟩
    · exact .inr (.inr ⟨start, w₁, planted, stopped, rfl⟩)
    · exact absurd rfl height

end BPlusTree

end CambiumDB
