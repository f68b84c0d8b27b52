import CambiumDB.BPlusTree.SplitConserves

/-!
# Splits that return an error

A call to the log, to the disk or to the pool may fail at any point of an insert. Here is where
a split can stop and what it has done to the store until then. Up to the record of a leaf split
nothing is lost; from there on the upper half of the leaf is out of reach until its separator is
in place.
-/

namespace CambiumDB

open ByteBuffer HeaderConfig HeaderCodec SlottedPage Router TreeM

open LeafNodeCodec (LeafPage livePairs)

open InternalNodeCodec (InternalPage)

namespace BPlusTree

/-! ### How far an insert came -/

/-- A page that reads as it did: it is the same, or a leaf that was compacted. -/
inductive ReadsSame (page page' : Page) : Prop
  | same : page' = page → ReadsSame page page'
  | compacted {pairs : List LeafNodeElement} : LeafPage page pairs → LeafPage page' pairs →
      ReadsSame page page'

namespace ReadsSame

variable {a b c : Page}

theorem refl (page : Page) : ReadsSame page page := .same rfl

theorem leaf {pairs : List LeafNodeElement} (h : ReadsSame a b) (leaf : LeafPage a pairs) :
    LeafPage b pairs := by
  cases h with
  | same here => rwa [here]
  | compacted before after =>
    obtain rfl := Option.some.inj (before.livePairs.symm.trans leaf.livePairs)
    exact after

theorem trans (first : ReadsSame a b) (second : ReadsSame b c) : ReadsSame a c := by
  cases first with
  | same here => rwa [here] at second
  | compacted before after => exact .compacted before (second.leaf after)

theorem node {first : UInt64} {rest : List (Bytes × UInt64)} (h : ReadsSame a b) (nonempty : rest ≠ [])
    (node : InternalPage a first rest) : InternalPage b first rest := by
  cases h with
  | same here => rwa [here]
  | compacted before _ =>
    have internal := node.isLeafNode nonempty
    rw [before.isLeafNode] at internal
    cases internal

theorem isLeafNode (h : ReadsSame a b) : HeaderCodec.isLeafNode b = HeaderCodec.isLeafNode a := by
  cases h with
  | same here => rw [here]
  | compacted before after => rw [before.isLeafNode, after.isLeafNode]

theorem livePairs (h : ReadsSame a b) : livePairs b = livePairs a := by
  cases h with
  | same here => rw [here]
  | compacted before after => rw [before.livePairs, after.livePairs]

end ReadsSame

/-- The log has grown by records of these kinds. -/
def Appends (kind : WALRecord → Prop) (w w' : World) : Prop :=
  ∃ added, w'.log = w.log ++ added ∧ ∀ entry ∈ added, kind entry.record

/-- A record of this kind was logged between the two moments. -/
def LoggedSince (w w' : World) (kind : WALRecord → Prop) : Prop :=
  ∃ entry ∈ w'.log.drop w.log.length, kind entry.record

/-- The records that split no page. -/
def Plain (record : WALRecord) : Prop := ¬ record.IsLeafSplit ∧ ¬ record.IsNodeSplit

/-- The store while no page has been split: new pages may have been handed out and a leaf may have
been compacted. -/
structure Undisturbed (w w' : World) : Prop where
  tree : w'.tree = w.tree
  filePages : w.filePages ≤ w'.filePages
  pages : ∀ id ≤ w.metadata.maxAllocatedPageId, ReadsSame (w.pages id) (w'.pages id)
  log : Appends Plain w w'

/-- What is left of a leaf that was split: a leaf with the keys below one of the old keys. -/
def LowerHalf (old new : Page) : Prop :=
  ∀ pairs, LeafPage old pairs → HeaderCodec.isLeafNode new = true ∧
    ∃ lower m, livePairs new = some lower ∧ m ∈ pairs ∧ ∀ e ∈ lower, e.key < m.key

/-- The store when a leaf has been split and no separator for it is in place. -/
structure Halved (w w' : World) (leaf : UInt64) : Prop where
  tree : w'.tree = w.tree
  filePages : w.filePages ≤ w'.filePages
  others : ∀ id ≤ w.metadata.maxAllocatedPageId, id ≠ leaf → ReadsSame (w.pages id) (w'.pages id)
  lower : LowerHalf (w.pages leaf) (w'.pages leaf)
  log : Appends (fun record => ¬ record.IsNodeSplit) w w'
  split : LoggedSince w w' WALRecord.IsLeafSplit

/-- What is left of an internal node that was split: its children, and the two new ones. -/
def LowerNode (old new : Page) (left right : UInt64) : Prop :=
  ∀ first rest, rest ≠ [] → InternalPage old first rest → (rest.map Prod.fst).Pairwise (· < ·) →
    ∃ elements, liveElements InternalNodeCodec.elementCodec new = some elements ∧
    ∀ e ∈ elements, ∀ child ∈ e.pointers,
      child ∈ children first rest ∨ child = left ∨ child = right

/-- The store when a leaf and the root above it have been split and the root has not moved. -/
structure BothSplit (w w' : World) (leaf : UInt64) : Prop where
  tree : w'.tree = w.tree
  filePages : w.filePages ≤ w'.filePages
  others : ∀ id ≤ w.metadata.maxAllocatedPageId, id ≠ leaf → id ≠ w.tree.rootNodePageId →
    ReadsSame (w.pages id) (w'.pages id)
  lower : LowerHalf (w.pages leaf) (w'.pages leaf)
  right : HeaderCodec.isLeafNode (w'.pages w.nextPage) = true
  node : LowerNode (w.pages w.tree.rootNodePageId) (w'.pages w.tree.rootNodePageId) leaf w.nextPage
  /-- the new root -/
  more : w.nextPage + 1 ≤ w'.metadata.maxAllocatedPageId ∧
    w.nextPage + 1 ∉ w'.metadata.deallocatedPageIdList
  log : Appends (fun _ => True) w w'
  leafSplit : LoggedSince w w' WALRecord.IsLeafSplit
  nodeSplit : LoggedSince w w' WALRecord.IsNodeSplit

/-- Nothing was obtained. -/
structure Early (n : Nat) (w w' : World) : Prop where
  store : Undisturbed w w'
  calls : w.calls < w'.calls ∧ w'.calls ≤ w.calls + n + 1
  guards : w'.guards = w.guards
  last : w'.metadata.maxAllocatedPageId = w.metadata.maxAllocatedPageId
  freeList : w'.metadata.deallocatedPageIdList = w.metadata.deallocatedPageIdList

/-- One page was obtained, got no guard and was given back. -/
structure Cleaned (n : Nat) (w w' : World) : Prop where
  store : Undisturbed w w'
  calls : w'.calls = w.calls + n + 2
  guards : w'.guards = w.guards
  last : w'.metadata.maxAllocatedPageId = w.nextPage
  freeList : w'.metadata.deallocatedPageIdList = [w.nextPage]

/-- A page was obtained and guarded, and is not given back. -/
structure Late (n : Nat) (w w' : World) : Prop where
  calls : w.calls + n + 3 ≤ w'.calls
  guards : w'.guards = w.guards
  last : w.nextPage ≤ w'.metadata.maxAllocatedPageId
  /-- at most a later page was given back -/
  freeList : ∀ id ∈ w'.metadata.deallocatedPageIdList, w.nextPage < id

/-- Where an insert stopped that had made `n` calls since `w` when it came to its leaf. -/
inductive Stopped (n : Nat) (w : World) (leaf : UInt64) (w' : World) : Prop
  | early : Early n w w' → Stopped n w leaf w'
  | cleaned : Cleaned n w w' → Stopped n w leaf w'
  | created : Late n w w' → Undisturbed w w' → Stopped n w leaf w'
  | halved : Late n w w' → Halved w w' leaf → Stopped n w leaf w'

variable {nextLSN : List LogEntry → UInt64} {w w' : World} {e : TreeError} {key value : Bytes}

section
variable {kind : WALRecord → Prop}

theorem Appends.refl (kind : WALRecord → Prop) (w : World) : Appends kind w w :=
  ⟨[], (List.append_nil _).symm, by simp⟩

theorem Appends.trans {w₁ : World} (first : Appends kind w w₁) (second : Appends kind w₁ w') :
    Appends kind w w' := by
  obtain ⟨added, log, all⟩ := first
  obtain ⟨added', log', all'⟩ := second
  refine ⟨added ++ added', by rw [log', log, List.append_assoc], ?_⟩
  intro entry member
  rcases List.mem_append.1 member with old | new
  · exact all entry old
  · exact all' entry new

theorem Appends.mono {kind' : WALRecord → Prop} (h : Appends kind w w')
    (weaker : ∀ record, kind record → kind' record) : Appends kind' w w' := by
  obtain ⟨added, log, all⟩ := h
  exact ⟨added, log, fun entry member => weaker _ (all entry member)⟩

/-- One record. -/
theorem Appends.one {entry : LogEntry} (log : w'.log = w.log ++ [entry]) (is : kind entry.record) :
    Appends kind w w' :=
  ⟨[entry], log, fun other member => by rwa [List.mem_singleton.1 member]⟩

/-- One more record. -/
theorem Appends.push {entry : LogEntry} {log : List LogEntry}
    (h : Appends kind w { w with log := log }) (grown : w'.log = log ++ [entry])
    (is : kind entry.record) : Appends kind w w' :=
  h.trans (.one grown is)

theorem loggedSince_iff {added : List LogEntry} (log : w'.log = w.log ++ added) :
    LoggedSince w w' kind ↔ ∃ entry ∈ added, kind entry.record := by
  rw [LoggedSince, log, List.drop_left]

/-- What was logged stays logged. -/
theorem LoggedSince.later {w₁ : World} {any any' : WALRecord → Prop}
    (logged : LoggedSince w w₁ kind) (before : Appends any w w₁) (later : Appends any' w₁ w') :
    LoggedSince w w' kind := by
  obtain ⟨added, log, _⟩ := before
  obtain ⟨added', log', _⟩ := later
  obtain ⟨entry, member, is⟩ := (loggedSince_iff log).1 logged
  rw [log, List.append_assoc] at log'
  exact (loggedSince_iff log').2 ⟨entry, List.mem_append_left _ member, is⟩

end

theorem Undisturbed.refl (w : World) : Undisturbed w w :=
  ⟨rfl, le_refl _, fun _ _ => .refl _, .refl _ w⟩

theorem Undisturbed.trans {w₁ : World} (first : Undisturbed w w₁) (second : Undisturbed w₁ w')
    (last : w.metadata.maxAllocatedPageId ≤ w₁.metadata.maxAllocatedPageId) : Undisturbed w w' :=
  ⟨second.tree.trans first.tree, le_trans first.filePages second.filePages,
    fun id old => (first.pages id old).trans (second.pages id (UInt64.le_trans old last)),
    first.log.trans second.log⟩

/-- Only the store counts, not the guards and the number of calls. -/
theorem Undisturbed.congr {w₁ : World} (h : Undisturbed w w₁) (tree : w'.tree = w₁.tree)
    (size : w'.filePages = w₁.filePages) (pages : w'.pages = w₁.pages) (log : w'.log = w₁.log) :
    Undisturbed w w' := by
  obtain ⟨added, grown, plain⟩ := h.log
  exact ⟨tree.trans h.tree, size ▸ h.filePages, pages ▸ h.pages, added, log.trans grown, plain⟩

/-- What was logged later was logged since. -/
theorem LoggedSince.earlier {w₁ : World} {kind any any' : WALRecord → Prop}
    (logged : LoggedSince w₁ w' kind) (before : Appends any w w₁) (later : Appends any' w₁ w') :
    LoggedSince w w' kind := by
  obtain ⟨added, log, _⟩ := before
  obtain ⟨added', log', _⟩ := later
  obtain ⟨entry, member, is⟩ := (loggedSince_iff log').1 logged
  rw [log, List.append_assoc] at log'
  exact (loggedSince_iff log').2 ⟨entry, List.mem_append_right _ member, is⟩

theorem LowerHalf.of_readsSame {old page new : Page} (h : LowerHalf page new)
    (same : ReadsSame old page) : LowerHalf old new :=
  fun pairs leaf => h pairs (same.leaf leaf)

theorem LowerHalf.later {old page new : Page} (h : LowerHalf old page) (same : ReadsSame page new) :
    LowerHalf old new := by
  intro pairs leaf
  rw [same.isLeafNode, same.livePairs]
  exact h pairs leaf

theorem Halved.of_undisturbed {w₁ : World} {leaf : UInt64} (h : Halved w₁ w' leaf)
    (before : Undisturbed w w₁) (old : leaf ≤ w.metadata.maxAllocatedPageId)
    (last : w.metadata.maxAllocatedPageId ≤ w₁.metadata.maxAllocatedPageId) : Halved w w' leaf where
  tree := h.tree.trans before.tree
  filePages := le_trans before.filePages h.filePages
  others id inside other :=
    (before.pages id inside).trans (h.others id (UInt64.le_trans inside last) other)
  lower := h.lower.of_readsSame (before.pages leaf old)
  log := (before.log.mono fun _ plain => plain.2).trans h.log
  split := h.split.earlier before.log h.log

theorem early_countCall (w : World) : Early 0 w w.countCall :=
  ⟨(Undisturbed.refl w).congr rfl rfl rfl rfl, ⟨Nat.lt_succ_self _, le_refl _⟩, rfl, rfl, rfl⟩

/-- Handing out a page disturbs nothing. -/
theorem undisturbed_allocate (alloc : w.Allocating) : Undisturbed w w.allocate := by
  refine ⟨rfl, w.filePages_le_allocate, fun id old => ?_, .refl _ w⟩
  rw [alloc.allocate_pages old]
  exact .refl _

theorem cleaned_guard (alloc : w.Allocating) :
    Cleaned 0 w (cleanupPage w.nextPage w.allocate.countCall).2 := by
  refine ⟨(undisturbed_allocate alloc).congr rfl rfl rfl rfl, rfl, rfl, rfl, ?_⟩
  show w.metadata.deallocatedPageIdList ++ [w.nextPage] = _
  rw [alloc.freeList, List.nil_append]

/-- The store when a new page is there, guarded, logged and stamped. -/
structure Created (w w₁ : World) : Prop where
  store : Undisturbed w w₁
  alloc : w₁.Allocating
  calls : w₁.calls = w.calls + 3
  guards : w₁.guards = w.nextPage :: w.guards
  last : w₁.metadata.maxAllocatedPageId = w.nextPage
  newer : w.metadata.maxAllocatedPageId < w.nextPage
  older : w.nextPage < w₁.nextPage

theorem created_setPage (alloc : w.Allocating) {record : WALRecord} (plain : Plain record)
    (space : w.nextPage.toNat = w.filePages → w.filePages + 16 ≤ maxFilePages) (lsn : UInt64)
    (page : Page) :
    Created w (((w.allocate.acquire w.nextPage).append lsn record).setPage w.nextPage page) := by
  have alloc₁ : (((w.allocate.acquire w.nextPage).append lsn record).setPage w.nextPage
      page).Allocating := by
    refine (alloc.allocate_grown space).congr rfl rfl rfl fun id later => ?_
    exact Function.update_of_ne (UInt64.ne_of_lt later).symm _ _
  refine ⟨⟨rfl, w.filePages_le_allocate, fun id old => ?_, .one rfl plain⟩, alloc₁, rfl, rfl, rfl,
    alloc.lt_nextPage (UInt64.le_refl _), alloc₁.lt_nextPage (UInt64.le_refl _)⟩
  have apart : id ≠ w.nextPage := UInt64.ne_of_lt (alloc.lt_nextPage old)
  rw [World.setPage_pages_ne _ apart, World.append_pages, World.acquire_pages,
    alloc.allocate_pages old]
  exact .refl _

theorem created_createPage (alloc : w.Allocating) (tree : UInt64) (type : NodeType)
    (source : AllocationSource)
    (space : w.nextPage.toNat = w.filePages → w.filePages + 16 ≤ maxFilePages) (lsn : UInt64)
    (page : Page) :
    Created w (((w.allocate.acquire w.nextPage).append lsn
      (.createPage tree w.nextPage type source)).setPage w.nextPage page) :=
  created_setPage alloc ⟨id, id⟩ space lsn page

/-- The record of the creation could not be written. -/
theorem late_unlogged (alloc : w.Allocating) :
    Late 0 w ((w.allocate.acquire w.nextPage).countCall.release w.nextPage) ∧
      Undisturbed w ((w.allocate.acquire w.nextPage).countCall.release w.nextPage) := by
  refine ⟨⟨le_refl _, List.erase_cons_head .., UInt64.le_refl _, ?_⟩,
    (undisturbed_allocate alloc).congr rfl rfl rfl rfl⟩
  intro id member
  have none : id ∈ w.metadata.deallocatedPageIdList := member
  rw [alloc.freeList] at none
  cases none

/-- A part that was stopped without having split anything. -/
def StoppedUnsplit (w w' : World) : Prop :=
  Early 0 w w' ∨ Cleaned 0 w w' ∨ Late 0 w w' ∧ Undisturbed w w'

theorem StoppedUnsplit.stopped (h : StoppedUnsplit w w') (leaf : UInt64) : Stopped 0 w leaf w' := by
  rcases h with early | cleaned | ⟨late, store⟩
  · exact .early early
  · exact .cleaned cleaned
  · exact .created late store

/-- What a part that was stopped leaves alone, with any page that is not newer than the last. -/
theorem StoppedUnsplit.frame (h : StoppedUnsplit w w') (alloc : w.Allocating) {page : UInt64}
    (old : page ≤ w.metadata.maxAllocatedPageId) :
    Undisturbed w w' ∧ w.calls ≤ w'.calls ∧ w'.guards = w.guards ∧
      page ≤ w'.metadata.maxAllocatedPageId ∧
      ∀ id ∈ w'.metadata.deallocatedPageIdList, page < id := by
  have newer := alloc.lt_nextPage old
  rcases h with early | cleaned | ⟨late, store⟩
  · refine ⟨early.store, le_of_lt early.calls.1, early.guards, by rwa [early.last], ?_⟩
    rw [early.freeList, alloc.freeList]
    simp
  · refine ⟨cleaned.store, by rw [cleaned.calls]; omega, cleaned.guards, ?_, ?_⟩
    · rw [cleaned.last]
      exact UInt64.le_of_lt newer
    · rw [cleaned.freeList]
      simpa using newer
  · have calls := late.calls
    refine ⟨store, by omega, late.guards, ?_, ?_⟩
    · exact UInt64.le_trans (UInt64.le_of_lt newer) late.last
    · exact fun id member => UInt64.lt_trans newer (late.freeList id member)

/-- What is stopped under the guard of a new page leaves that page behind. -/
theorem Created.stopped {w₁ w₂ : World} (created : Created w w₁) (h : StoppedUnsplit w₁ w₂) :
    Late 0 w (w₂.release w.nextPage) ∧ Undisturbed w (w₂.release w.nextPage) := by
  have last : w.metadata.maxAllocatedPageId ≤ w₁.metadata.maxAllocatedPageId := by
    rw [created.last]
    exact UInt64.le_of_lt created.newer
  obtain ⟨store, calls, guards, most, freeList⟩ :=
    h.frame created.alloc (UInt64.le_of_eq created.last.symm)
  have counted := created.calls
  refine ⟨⟨?_, ?_, most, freeList⟩, (created.store.trans store last).congr rfl rfl rfl rfl⟩
  · show w.calls + 0 + 3 ≤ w₂.calls
    omega
  · rw [World.release_guards, guards, created.guards, List.erase_cons_head]

/-! ### Where a split can stop -/

/-- The guard on the new page, the record of its creation, or what follows. -/
theorem created_err {α : Type} {id tree : UInt64} {type : NodeType} {source : AllocationSource}
    {f : UInt64 → TreeM α} (run : (newGuardOrCleanup id >>= fun _ =>
      deferDone id (logRecord nextLSN (.createPage tree id type source) >>= f)) w =
        (.error (.error e), w')) :
    w' = (cleanupPage id w.countCall).2 ∨ w' = (w.acquire id).countCall.release id ∨
      ∃ w₁, f (nextLSN w.log) ((w.acquire id).append (nextLSN w.log)
        (.createPage tree id type source)) = (.error (.error e), w₁) ∧ w' = w₁.release id := by
  rcases bind_eq_error run with failed | ⟨_, w₁, guarded, run⟩
  · exact .inl (newGuardOrCleanup_err failed).1
  · obtain ⟨rfl, _, _⟩ := newGuard_inv (newGuardOrCleanup_inv guarded)
    obtain ⟨w₂, inner, rfl⟩ := deferDone_err run
    rcases bind_eq_error inner with failed | ⟨lsn, w₃, logged, inner⟩
    · exact .inr (.inl (by rw [(logRecord_err failed).1]))
    · obtain ⟨rfl, rfl⟩ := logRecord_inv logged
      exact .inr (.inr ⟨w₂, inner, rfl⟩)

/-- Only its record can fail: past it there are only panics. -/
theorem moveToRightLeaf_err {left right : UInt64}
    (run : moveToRightLeaf nextLSN left right key value w = (.error (.error e), w')) :
    w' = w.countCall := by
  rw [moveToRightLeaf, bind_ok (get_apply _ _), bind_ok (get_apply _ _)] at run
  rcases bind_eq_error run with failed | ⟨index, w₁, found, run⟩
  · exact absurd failed (NeverErrs.orPanic _ _ _ _)
  obtain ⟨_, rfl⟩ := orPanic_inv found
  rcases bind_eq_error run with failed | ⟨⟨length, elements⟩, w₂, encoded, run⟩
  · exact absurd failed (NeverErrs.orPanic _ _ _ _)
  obtain ⟨_, rfl⟩ := orPanic_inv encoded
  rcases bind_eq_error run with failed | ⟨lsn, w₃, logged, run⟩
  · exact (logRecord_err failed).1
  -- nothing behind the record can fail
  · refine absurd run (NeverErrs.bind (.modifyPage _ _) (fun _ => .bind (.modifyPage _ _) fun _ =>
      .bind (.get _) fun _ => .bind (.get _) fun _ => .bind (.orPanic _) ?_) _ _ _)
    rintro ⟨_, _, _⟩
    exact .bind (.modifyPage _ _) fun _ => .bind (.modifyPage _ _) fun _ =>
      .ite (.bind (.applyPage _ _) fun _ => .pure _) (.bind (.applyPage _ _) fun _ => .pure _)

@[inherit_doc moveToRightLeaf_err]
theorem moveToRightNode_err {left right parent insertLeft insertRight : UInt64} {insertKey : Bytes}
    (run : moveToRightNode nextLSN left right parent insertKey insertLeft insertRight w =
      (.error (.error e), w')) : w' = w.countCall := by
  rw [moveToRightNode, bind_ok (get_apply _ _), bind_ok (get_apply _ _)] at run
  rcases bind_eq_error run with failed | ⟨index, w₁, found, run⟩
  · exact absurd failed (NeverErrs.orPanic _ _ _ _)
  obtain ⟨_, rfl⟩ := orPanic_inv found
  rcases bind_eq_error run with failed | ⟨⟨length, elements⟩, w₂, encoded, run⟩
  · exact absurd failed (NeverErrs.orPanic _ _ _ _)
  obtain ⟨_, rfl⟩ := orPanic_inv encoded
  rcases bind_eq_error run with failed | ⟨lsn, w₃, logged, run⟩
  · exact (logRecord_err failed).1
  · refine absurd run (NeverErrs.bind (.modifyPage _ _) (fun _ => .bind (.modifyPage _ _) fun _ =>
      .bind (.modifyPage _ _) fun _ => .bind (.get _) fun _ => .bind (.get _) fun _ =>
      .bind (.orPanic _) ?_) _ _ _)
    rintro ⟨_, _, _⟩
    exact .bind (.modifyPage _ _) fun _ => .bind (.modifyPage _ _) fun _ =>
      .ite (.bind (.applyPage _ _) fun _ => .pure _) (.bind (.applyPage _ _) fun _ => .pure _)

/-- Either split, if what follows the creation of the right page fails at its record. -/
theorem newRight_err {α : Type} {tree : UInt64} {type : NodeType} (stamp : UInt64 → Page → Page)
    (move : UInt64 → TreeM α) (alloc : w.Allocating)
    (stops : ∀ {right w₁ w₂}, move right w₁ = (.error (.error e), w₂) → w₂ = w₁.countCall)
    (run : (do
      let (right, source) ← newPage
      newGuardOrCleanup right
      deferDone right do
        let lsn ← logRecord nextLSN (.createPage tree right type source)
        modifyPage right (stamp lsn)
        move right) w = (.error (.error e), w')) : StoppedUnsplit w w' := by
  rcases bind_eq_error run with failed | ⟨⟨right, source⟩, w₁, taken, run⟩
  · obtain ⟨rfl, _⟩ := newPage_err failed
    exact .inl (early_countCall w)
  · obtain ⟨rfl, rfl, space⟩ := newPage_inv alloc.freeList taken
    rcases created_err run with rfl | rfl | ⟨w₂, inner, rfl⟩
    · exact .inr (.inl (cleaned_guard alloc))
    · exact .inr (.inr (late_unlogged alloc))
    · rw [bind_ok (modifyPage_apply _ _ _)] at inner
      obtain rfl := stops inner
      have created := created_createPage alloc tree type source space (nextLSN w.log)
      exact .inr (.inr ((created _).stopped (.inl (early_countCall _))))

theorem handleLeafNodeSplit_err {left : UInt64} (alloc : w.Allocating)
    (run : handleLeafNodeSplit nextLSN left key value w = (.error (.error e), w')) :
    StoppedUnsplit w w' := by
  rw [handleLeafNodeSplit, bind_ok (get_apply _ _)] at run
  exact newRight_err (fun lsn page => LeafNodeCodec.setLSN page lsn)
    (fun right => moveToRightLeaf nextLSN left right key value) alloc moveToRightLeaf_err run

theorem handleInternalNodeSplit_err {left parent insertLeft insertRight : UInt64} {insertKey : Bytes}
    (alloc : w.Allocating) (run : handleInternalNodeSplit nextLSN left parent insertKey insertLeft
      insertRight w = (.error (.error e), w')) : StoppedUnsplit w w' := by
  rw [handleInternalNodeSplit, bind_ok (get_apply _ _)] at run
  exact newRight_err (fun lsn page => InternalNodeCodec.setLSN page lsn)
    (fun right => moveToRightNode nextLSN left right parent insertKey insertLeft insertRight) alloc
    moveToRightNode_err run

/-- The two pages of a leaf with these pairs that was cut at `m`, with the new entry where there was
room for it. -/
structure LeafHalves (pairs : List LeafNodeElement) (key value : Bytes) (i : Nat) (m : LeafNodeElement)
    (left right : Page) : Prop where
  middle : pairs[i]? = some m
  leftLeaf : HeaderCodec.isLeafNode left = true
  rightLeaf : HeaderCodec.isLeafNode right = true
  leftPairs : livePairs left = some (if key < m.key then withElement LeafNodeCodec.elementCodec
    LeafNodeCodec.spliceInto (pairs.take i) ⟨key, value⟩ else pairs.take i)
  rightPairs : livePairs right = some (if key < m.key then pairs.drop i else
    withElement LeafNodeCodec.elementCodec LeafNodeCodec.spliceInto (pairs.drop i) ⟨key, value⟩)

theorem leafHalves_of_split {page right l r l' r' : Page} {pairs : List LeafNodeElement}
    {lsn rightId : UInt64} {i : Nat} {separator : Bytes} (leaf : LeafPage page pairs)
    (rightLeaf : right.byte nodeTypeOffset = leafNodeType)
    (cut : LeafNodeCodec.splitNode (HeaderCodec.setLSN page lsn) right rightId i =
      some (l, r, separator))
    (into : IntoSide (key < separator) (LeafNodeCodec.insertElement · key value) l r l' r') :
    ∃ m, separator = m.key ∧ LeafHalves pairs key value i m l' r' := by
  obtain ⟨type, cells, floor, garbage, repr, sorted, rfl⟩ := leaf.setLSN lsn
  have size : width LeafNodeCodec.elementCodec ⟨key, value⟩ = LeafNodeCodec.spaceRequired key value :=
    LeafNodeCodec.width_eq ⟨key, value⟩
  have ordered : (elements cells).Pairwise fun a b =>
      LeafNodeCodec.elementCodec.key a ≤ LeafNodeCodec.elementCodec.key b :=
    List.Pairwise.imp (fun less => le_of_lt less) sorted
  obtain ⟨m, middle, rfl, leftType, rightType, lower, upper⟩ := intoSide_elements repr ordered
    LeafNodeCodec.splices (e := ⟨key, value⟩) cut (by rw [size]; exact into)
  refine ⟨m, rfl, middle, isLeafNode_of_type (leftType.trans type),
    isLeafNode_of_type (rightType.trans rightLeaf), ?_, ?_⟩
  · by_cases less : key < m.key
    · rw [if_pos less]
      exact (lower less).1
    · rw [if_neg less]
      exact (upper less).1
  · by_cases less : key < m.key
    · rw [if_pos less]
      exact (lower less).2
    · rw [if_neg less]
      exact (upper less).2

/-- The lower half of a leaf, with the new entry or without it. -/
theorem LeafHalves.lowerHalf {page l r : Page} {pairs : List LeafNodeElement} {i : Nat}
    {m : LeafNodeElement} (leaf : LeafPage page pairs) (h : LeafHalves pairs key value i m l r) :
    LowerHalf page l := by
  intro pairs' leaf'
  obtain rfl := Option.some.inj (leaf'.livePairs.symm.trans leaf.livePairs)
  obtain ⟨below, _⟩ := SortedList.Sorted.cut _ leaf.sorted h.middle
  refine ⟨h.leftLeaf, _, m, h.leftPairs, List.mem_of_getElem? h.middle, fun other inside => ?_⟩
  split at inside
  next less =>
    rw [withElement] at inside
    split at inside
    · rcases List.mem_cons.1 ((LeafNodeCodec.spliceInto_perm _ _).mem_iff.1 inside) with rfl | old
      · exact less
      · exact below other old
    · exact below other inside
  next => exact below other inside

/-- The store after a leaf split that returned. -/
structure SplitOff (w w' : World) (left : UInt64) : Prop where
  halved : Halved w w' left
  alloc : w'.Allocating
  calls : w.calls + 3 ≤ w'.calls
  guards : w'.guards = w.guards
  last : w'.metadata.maxAllocatedPageId = w.nextPage
  older : w.nextPage < w'.nextPage
  right : HeaderCodec.isLeafNode (w'.pages w.nextPage) = true

theorem Created.splitOff {w₁ : World} (created : Created w w₁) {left lsn : UInt64}
    {record : WALRecord} {l r : Page} (old : left ≤ w.metadata.maxAllocatedPageId)
    (kind : record.IsLeafSplit) (lower : LowerHalf (w.pages left) l)
    (right : HeaderCodec.isLeafNode r = true) :
    SplitOff w ((((w₁.append lsn record).setPage left l).setPage w.nextPage r).release w.nextPage)
      left := by
  have newer := created.newer
  have above : left < w.nextPage := UInt64.lt_of_le_of_lt old newer
  have single : ¬ record.IsNodeSplit := by
    cases record with
    | splitLeafNode => exact id
    | _ => cases kind
  obtain ⟨added, grown, plain⟩ := created.store.log
  have log : ((((w₁.append lsn record).setPage left l).setPage w.nextPage r).release
      w.nextPage).log = w.log ++ (added ++ [⟨lsn, record⟩]) := by
    rw [← List.append_assoc, ← grown]
    rfl
  refine ⟨⟨created.store.tree, created.store.filePages, ?_, ?_, ?_, ?_⟩, ?_, ?_, ?_, created.last,
    created.older, ?_⟩
  · intro id inside other
    have apart : id ≠ w.nextPage := UInt64.ne_of_lt (UInt64.lt_of_le_of_lt inside newer)
    rw [World.release_pages, World.setPage_pages_ne _ apart, World.setPage_pages_ne _ other]
    exact created.store.pages id inside
  · rw [World.release_pages, World.setPage_pages_ne _ (UInt64.ne_of_lt above),
      World.setPage_pages_self]
    exact lower
  · refine ⟨_, log, fun entry member => ?_⟩
    rcases List.mem_append.1 member with before | here
    · exact (plain entry before).2
    · rw [List.mem_singleton.1 here]
      exact single
  · exact (loggedSince_iff log).2 ⟨_, List.mem_append_right _ (List.mem_singleton_self _), kind⟩
  · refine created.alloc.congr rfl rfl rfl fun id later => ?_
    rw [created.last] at later
    rw [World.release_pages, World.setPage_pages_ne _ (UInt64.ne_of_lt later).symm,
      World.setPage_pages_ne _ (UInt64.ne_of_lt (UInt64.lt_trans above later)).symm]
    rfl
  · have calls := created.calls
    show w.calls + 3 ≤ w₁.calls + 1
    omega
  · rw [World.release_guards]
    show w₁.guards.erase w.nextPage = w.guards
    rw [created.guards, List.erase_cons_head]
  · rw [World.release_pages, World.setPage_pages_self]
    exact right

theorem handleLeafNodeSplit_splitOff {left : UInt64} {pairs : List LeafNodeElement}
    {result : Bytes × UInt64 × UInt64} (alloc : w.Allocating)
    (old : left ≤ w.metadata.maxAllocatedPageId) (leaf : LeafPage (w.pages left) pairs)
    (run : handleLeafNodeSplit nextLSN left key value w = (.ok result, w')) :
    SplitOff w w' left ∧ ∃ i m, LeafNodeCodec.findSplitNodeIndex (w.pages left) = some i ∧
      LeafHalves pairs key value i m (w'.pages left) (w'.pages w.nextPage) ∧
      result = (m.key, left, w.nextPage) := by
  rw [handleLeafNodeSplit, bind_ok (get_apply _ _)] at run
  obtain ⟨⟨right, source⟩, w₁, taken, run⟩ := bind_eq_ok run
  obtain ⟨rfl, rfl, space⟩ := newPage_inv alloc.freeList taken
  obtain ⟨_, w₂, inner, rfl⟩ := created_inv run
  have apart : left ≠ w.nextPage := UInt64.ne_of_lt (alloc.lt_nextPage old)
  rw [bind_ok (modifyPage_apply _ _ _)] at inner
  obtain ⟨record, i, l, r, separator, l', r', _, kind, index, cut, into, rfl, rfl⟩ :=
    moveToRightLeaf_inv apart inner
  have created := created_createPage alloc w.tree.bPlusTreeId .leaf source space (nextLSN w.log)
    (HeaderCodec.setLSN (w.allocate.pages w.nextPage) (nextLSN w.log))
  rw [World.setPage_pages_ne _ apart, World.append_pages, World.acquire_pages,
    alloc.allocate_pages old] at index
  rw [World.setPage_pages_self, World.setPage_pages_ne _ apart] at cut
  rw [World.append_pages, World.acquire_pages, alloc.allocate_pages old] at cut
  have blank (lsn lsn' : UInt64) : (HeaderCodec.setLSN (LeafNodeCodec.setLSN (w.allocate.pages
      w.nextPage) lsn) lsn').byte nodeTypeOffset = leafNodeType := by
    rw [byte_setLSN _ _ (by decide), LeafNodeCodec.setLSN, byte_setLSN _ _ (by decide),
      alloc.allocate_nextPage]
    exact Buffer.byte_zero _
  obtain ⟨m, rfl, halves⟩ := leafHalves_of_split leaf (blank _ _) cut into
  refine ⟨created.splitOff old kind (halves.lowerHalf leaf) halves.rightLeaf, i, m, index, ?_, rfl⟩
  rwa [World.release_pages, World.release_pages, World.setPage_pages_self,
    World.setPage_pages_ne _ apart, World.setPage_pages_self]

/-- Nothing but one page and the log has changed. -/
structure OnePage (id : UInt64) (w w' : World) : Prop where
  tree : w'.tree = w.tree
  filePages : w'.filePages = w.filePages
  metadata : w'.metadata = w.metadata
  guards : w'.guards = w.guards
  calls : w.calls ≤ w'.calls
  log : Appends Plain w w'
  pages : ∀ other, other ≠ id → w'.pages other = w.pages other

/-- The two records of a new root; the page of the root may have been written. -/
theorem installRoot_err {newRoot left right : UInt64} {separator : Bytes}
    (run : installRoot nextLSN newRoot separator left right w = (.error (.error e), w')) :
    OnePage newRoot w w' := by
  rw [installRoot, bind_ok (get_apply _ _)] at run
  rcases bind_eq_error run with failed | ⟨lsn, w₁, logged, run⟩
  · obtain ⟨rfl, _⟩ := logRecord_err failed
    exact ⟨rfl, rfl, rfl, rfl, Nat.le_succ _, .refl _ w, fun _ _ => rfl⟩
  obtain ⟨rfl, rfl⟩ := logRecord_inv logged
  rw [bind_ok (modifyPage_apply _ _ _)] at run
  rcases bind_eq_error run with failed | ⟨answer, w₂, applied, run⟩
  · exact absurd failed (NeverErrs.applyPage _ _ _ _ _)
  obtain ⟨page, _, rfl⟩ := applyPage_inv applied
  rcases bind_eq_error run with failed | ⟨lsn, w₃, logged', run⟩
  · obtain ⟨rfl, _⟩ := logRecord_err failed
    refine ⟨rfl, rfl, rfl, rfl, ?_, .one rfl ⟨id, id⟩, fun other apart => ?_⟩
    · show w.calls ≤ w.calls + 1 + 1
      omega
    · rw [World.countCall_pages, World.setPage_pages_ne _ apart, World.setPage_pages_ne _ apart]
      rfl
  · cases run

theorem Created.old {w₁ : World} (created : Created w w₁) {id : UInt64}
    (old : id ≤ w.metadata.maxAllocatedPageId) : id ≤ w₁.metadata.maxAllocatedPageId := by
  rw [created.last]
  exact UInt64.le_of_lt (UInt64.lt_of_le_of_lt old created.newer)

/-- Writing a new page and logging it does not mend a split. -/
theorem Halved.onePage {w₁ : World} {leaf new : UInt64} (h : Halved w w₁ leaf)
    (old : leaf ≤ w.metadata.maxAllocatedPageId) (newer : w.metadata.maxAllocatedPageId < new)
    (stopped : OnePage new w₁ w') : Halved w w' leaf := by
  have kept (id : UInt64) (inside : id ≤ w.metadata.maxAllocatedPageId) :
      w'.pages id = w₁.pages id :=
    stopped.pages id (UInt64.ne_of_lt (UInt64.lt_of_le_of_lt inside newer))
  have log : Appends (fun record => ¬ record.IsNodeSplit) w₁ w' :=
    stopped.log.mono fun _ plain => plain.2
  refine ⟨stopped.tree.trans h.tree, le_of_le_of_eq h.filePages stopped.filePages.symm, ?_, ?_,
    h.log.trans log, h.split.later h.log log⟩
  · intro id inside other
    rw [kept id inside]
    exact h.others id inside other
  · rw [kept leaf old]
    exact h.lower

theorem Halved.release {leaf : UInt64} (h : Halved w w' leaf) (id : UInt64) :
    Halved w (w'.release id) leaf :=
  ⟨h.tree, h.filePages, h.others, h.lower, h.log, h.split⟩

theorem Created.handleLeafNodeSplit {w₁ w₂ : World} {left : UInt64} {pairs : List LeafNodeElement}
    {result : Bytes × UInt64 × UInt64} (created : Created w w₁)
    (old : left ≤ w.metadata.maxAllocatedPageId) (leaf : LeafPage (w.pages left) pairs)
    (run : handleLeafNodeSplit nextLSN left key value w₁ = (.ok result, w₂)) :
    SplitOff w₁ w₂ left :=
  (handleLeafNodeSplit_splitOff created.alloc (created.old old)
    ((created.store.pages left old).leaf leaf) run).1

/-- A leaf split under the guard of a new root that does not become the root. -/
theorem Created.halved {w₁ w₂ w₃ : World} {left : UInt64} (created : Created w w₁)
    (old : left ≤ w.metadata.maxAllocatedPageId) (off : SplitOff w₁ w₂ left)
    (stopped : OnePage w.nextPage w₂ w₃) :
    Late 0 w (w₃.release w.nextPage) ∧ Halved w (w₃.release w.nextPage) left := by
  have halved := off.halved.of_undisturbed created.store old (created.old (UInt64.le_refl _))
  refine ⟨⟨?_, ?_, ?_, ?_⟩, (halved.onePage old created.newer stopped).release _⟩
  · have first := created.calls
    have second := off.calls
    have third := stopped.calls
    show w.calls + 0 + 3 ≤ w₃.calls
    omega
  · rw [World.release_guards, stopped.guards, off.guards, created.guards, List.erase_cons_head]
  · show w.nextPage ≤ w₃.metadata.maxAllocatedPageId
    rw [stopped.metadata, off.last]
    exact UInt64.le_of_lt created.older
  · intro id member
    have none : id ∈ w₃.metadata.deallocatedPageIdList := member
    rw [stopped.metadata, off.alloc.freeList] at none
    cases none

theorem handleLeafRootNodeSplit_err {left : UInt64} {pairs : List LeafNodeElement}
    (alloc : w.Allocating) (old : left ≤ w.metadata.maxAllocatedPageId)
    (leaf : LeafPage (w.pages left) pairs)
    (run : handleLeafRootNodeSplit nextLSN left key value w = (.error (.error e), w')) :
    Stopped 0 w left w' := by
  rw [handleLeafRootNodeSplit, bind_ok (get_apply _ _)] at run
  rcases bind_eq_error run with failed | ⟨⟨newRoot, source⟩, w₁, taken, run⟩
  · obtain ⟨rfl, _⟩ := newPage_err failed
    exact .early (early_countCall w)
  obtain ⟨rfl, rfl, space⟩ := newPage_inv alloc.freeList taken
  rcases created_err run with rfl | rfl | ⟨w₂, inner, rfl⟩
  · exact .cleaned (cleaned_guard alloc)
  · exact .created (late_unlogged alloc).1 (late_unlogged alloc).2
  rw [bind_ok (modifyPage_apply _ _ _), bind_ok (modifyPage_apply _ _ _),
    World.setPage_setPage] at inner
  have created := created_createPage alloc w.tree.bPlusTreeId .internal source space (nextLSN w.log)
  rcases bind_eq_error inner with failed | ⟨⟨separator, l, r⟩, w₃, split, inner⟩
  · obtain ⟨late, store⟩ := (created _).stopped (handleLeafNodeSplit_err (created _).alloc failed)
    exact .created late store
  · have off := (created _).handleLeafNodeSplit old leaf split
    obtain ⟨late, halved⟩ := (created _).halved old off (installRoot_err inner)
    exact .halved late halved

/-! ### A split of the root above a split leaf -/

theorem LowerNode.of_readsSame {old page new : Page} {left right : UInt64}
    (h : LowerNode page new left right) (same : ReadsSame old page) :
    LowerNode old new left right :=
  fun first rest nonempty node sorted => h first rest nonempty (same.node nonempty node) sorted

theorem lowerNode_of_split {page right l r l' r' : Page} {lsn rightId : UInt64} {i : Nat}
    {separator : Bytes} (new : InternalNodeElement)
    (cut : InternalNodeCodec.splitNode (HeaderCodec.setLSN page lsn) right rightId i =
      some (l, r, separator))
    (into : IntoSide (new.key < separator) (InternalNodeCodec.insertElement · new.key
      new.leftChildNodePageId new.rightChildNodePageId) l r l' r') :
    LowerNode page l' new.leftChildNodePageId new.rightChildNodePageId := by
  intro first rest _ node sorted
  obtain ⟨entries, floor, repr, same, _⟩ := node.content
  have listed : elements (InternalNodeCodec.liveCells entries) = InternalNodeCodec.chain first rest := by
    rw [InternalNodeCodec.elements_liveCells, same]
  have ordered : (elements (InternalNodeCodec.liveCells entries)).Pairwise fun a b =>
      InternalNodeCodec.elementCodec.key a ≤ InternalNodeCodec.elementCodec.key b := by
    rw [listed]
    rw [← InternalNodeCodec.chain_keys first, List.pairwise_map] at sorted
    exact sorted.imp fun less => le_of_lt less
  obtain ⟨m, _, rfl, _, _, lower, upper⟩ := intoSide_elements (repr.setLSN lsn) ordered
    InternalNodeCodec.splices (e := new) cut (by rw [InternalNodeCodec.width_eq]; exact into)
  rw [listed] at lower upper
  have old {e : InternalNodeElement} {child : UInt64}
      (member : e ∈ (InternalNodeCodec.chain first rest).take i) (points : child ∈ e.pointers) :
      child ∈ children first rest := by
    obtain ⟨left, right⟩ := InternalNodeCodec.chain_pointers (List.mem_of_mem_take member)
    simp only [InternalNodeElement.pointers, List.mem_cons, List.not_mem_nil, or_false] at points
    rcases points with rfl | rfl
    · exact left
    · exact right
  by_cases less : new.key < InternalNodeCodec.elementCodec.key m
  · refine ⟨_, (lower less).1, fun e member child points => ?_⟩
    rw [withElement] at member
    split at member
    · rcases InternalNodeCodec.spliceInto_pointers member points with ⟨e', member', points'⟩ | here
      · exact .inl (old member' points')
      · simpa [InternalNodeElement.pointers] using Or.inr here
    · exact .inl (old member points)
  · exact ⟨_, (upper less).1, fun e member child points => .inl (old member points)⟩

/-- The store when a node has been split for the separator of two children, with its parent
stamped. -/
structure NodeHalved (w w' : World) (node parent left right : UInt64) : Prop where
  tree : w'.tree = w.tree
  filePages : w.filePages ≤ w'.filePages
  others : ∀ id ≤ w.metadata.maxAllocatedPageId, id ≠ node → id ≠ parent →
    ReadsSame (w.pages id) (w'.pages id)
  lower : LowerNode (w.pages node) (w'.pages node) left right
  log : Appends (fun _ => True) w w'
  split : LoggedSince w w' WALRecord.IsNodeSplit

/-- The store after a split of an internal node that returned. -/
structure NodeSplitOff (w w' : World) (node parent left right : UInt64) : Prop where
  halved : NodeHalved w w' node parent left right
  freeList : w'.metadata.deallocatedPageIdList = []
  calls : w.calls ≤ w'.calls
  guards : w'.guards = w.guards
  last : w'.metadata.maxAllocatedPageId = w.nextPage

theorem Created.nodeSplitOff {w₁ : World} (created : Created w w₁)
    {node parent left right lsn : UInt64} {record : WALRecord} {p l r : Page}
    (old : node ≤ w.metadata.maxAllocatedPageId) (kind : record.IsNodeSplit)
    (lower : LowerNode (w.pages node) l left right) :
    NodeSplitOff w (((((w₁.append lsn record).setPage parent p).setPage node l).setPage w.nextPage
      r).release w.nextPage) node parent left right := by
  have newer := created.newer
  have above : node < w.nextPage := UInt64.lt_of_le_of_lt old newer
  obtain ⟨added, grown, plain⟩ := created.store.log
  have log : (((((w₁.append lsn record).setPage parent p).setPage node l).setPage w.nextPage
      r).release w.nextPage).log = w.log ++ (added ++ [⟨lsn, record⟩]) := by
    rw [← List.append_assoc, ← grown]
    rfl
  refine ⟨⟨created.store.tree, created.store.filePages, ?_, ?_, ⟨_, log, fun _ _ => trivial⟩, ?_⟩,
    created.alloc.freeList, ?_, ?_, created.last⟩
  · intro id inside other aside
    have apart : id ≠ w.nextPage := UInt64.ne_of_lt (UInt64.lt_of_le_of_lt inside newer)
    rw [World.release_pages, World.setPage_pages_ne _ apart, World.setPage_pages_ne _ other,
      World.setPage_pages_ne _ aside]
    exact created.store.pages id inside
  · rw [World.release_pages, World.setPage_pages_ne _ (UInt64.ne_of_lt above),
      World.setPage_pages_self]
    exact lower
  · exact (loggedSince_iff log).2 ⟨_, List.mem_append_right _ (List.mem_singleton_self _), kind⟩
  · have calls := created.calls
    show w.calls ≤ w₁.calls + 1
    omega
  · rw [World.release_guards]
    show w₁.guards.erase w.nextPage = w.guards
    rw [created.guards, List.erase_cons_head]

theorem handleInternalNodeSplit_splitOff {node parent left right : UInt64} {insertKey : Bytes}
    {result : Bytes × UInt64 × UInt64} (alloc : w.Allocating)
    (old : node ≤ w.metadata.maxAllocatedPageId) (above : parent ≤ w.metadata.maxAllocatedPageId)
    (apart : parent ≠ node)
    (run : handleInternalNodeSplit nextLSN node parent insertKey left right w = (.ok result, w')) :
    NodeSplitOff w w' node parent left right := by
  rw [handleInternalNodeSplit, bind_ok (get_apply _ _)] at run
  obtain ⟨⟨new, source⟩, w₁, taken, run⟩ := bind_eq_ok run
  obtain ⟨rfl, rfl, space⟩ := newPage_inv alloc.freeList taken
  obtain ⟨_, w₂, inner, rfl⟩ := created_inv run
  have fresh : node ≠ w.nextPage := UInt64.ne_of_lt (alloc.lt_nextPage old)
  rw [bind_ok (modifyPage_apply _ _ _)] at inner
  obtain ⟨record, i, l, r, separator, l', r', _, kind, _, cut, into, rfl, rfl⟩ :=
    moveToRightNode_inv fresh apart (UInt64.ne_of_lt (alloc.lt_nextPage above)) inner
  have created := created_createPage alloc w.tree.bPlusTreeId .internal source space (nextLSN w.log)
    (HeaderCodec.setLSN (w.allocate.pages w.nextPage) (nextLSN w.log))
  rw [World.setPage_pages_ne _ fresh, World.append_pages, World.acquire_pages,
    alloc.allocate_pages old] at cut
  exact created.nodeSplitOff old kind (lowerNode_of_split ⟨insertKey, left, right⟩ cut into)

/-- A node split under the guard of a new root that does not become the root. -/
theorem Created.nodeHalved {w₁ w₂ w₃ : World} {node left right : UInt64} (created : Created w w₁)
    (old : node ≤ w.metadata.maxAllocatedPageId)
    (off : NodeSplitOff w₁ w₂ node w.nextPage left right) (stopped : OnePage w.nextPage w₂ w₃) :
    Late 0 w (w₃.release w.nextPage) ∧
      NodeHalved w (w₃.release w.nextPage) node w.nextPage left right := by
  have kept (id : UInt64) (inside : id ≤ w.metadata.maxAllocatedPageId) :
      (w₃.release w.nextPage).pages id = w₂.pages id :=
    stopped.pages id (UInt64.ne_of_lt (UInt64.lt_of_le_of_lt inside created.newer))
  have before : Appends (fun _ => True) w w₁ := created.store.log.mono fun _ _ => trivial
  have after : Appends (fun _ => True) w₂ w₃ := stopped.log.mono fun _ _ => trivial
  refine ⟨⟨?_, ?_, ?_, ?_⟩, ?_, ?_, ?_, ?_, ?_, ?_⟩
  · have first := created.calls
    have second := off.calls
    have third := stopped.calls
    show w.calls + 0 + 3 ≤ w₃.calls
    omega
  · rw [World.release_guards, stopped.guards, off.guards, created.guards, List.erase_cons_head]
  · show w.nextPage ≤ w₃.metadata.maxAllocatedPageId
    rw [stopped.metadata, off.last]
    exact UInt64.le_of_lt created.older
  · intro id member
    have none : id ∈ w₃.metadata.deallocatedPageIdList := member
    rw [stopped.metadata, off.freeList] at none
    cases none
  · exact (stopped.tree.trans off.halved.tree).trans created.store.tree
  · show w.filePages ≤ w₃.filePages
    rw [stopped.filePages]
    exact le_trans created.store.filePages off.halved.filePages
  · intro id inside other aside
    rw [kept id inside]
    exact (created.store.pages id inside).trans (off.halved.others id (created.old inside) other aside)
  · rw [kept node old]
    exact off.halved.lower.of_readsSame (created.store.pages node old)
  · exact (before.trans off.halved.log).trans after
  · exact (off.halved.split.later off.halved.log after).earlier before (off.halved.log.trans after)

theorem handleInternalRootNodeSplit_err {node left right : UInt64} {insertKey : Bytes}
    (alloc : w.Allocating) (old : node ≤ w.metadata.maxAllocatedPageId)
    (run : handleInternalRootNodeSplit nextLSN node insertKey left right w =
      (.error (.error e), w')) :
    StoppedUnsplit w w' ∨ Late 0 w w' ∧ NodeHalved w w' node w.nextPage left right := by
  rw [handleInternalRootNodeSplit, bind_ok (get_apply _ _)] at run
  rcases bind_eq_error run with failed | ⟨⟨newRoot, source⟩, w₁, taken, run⟩
  · obtain ⟨rfl, _⟩ := newPage_err failed
    exact .inl (.inl (early_countCall w))
  obtain ⟨rfl, rfl, space⟩ := newPage_inv alloc.freeList taken
  rcases created_err run with rfl | rfl | ⟨w₂, inner, rfl⟩
  · exact .inl (.inr (.inl (cleaned_guard alloc)))
  · exact .inl (.inr (.inr (late_unlogged alloc)))
  rw [bind_ok (modifyPage_apply _ _ _)] at inner
  have created := created_createPage alloc w.tree.bPlusTreeId .internal source space (nextLSN w.log)
  rcases bind_eq_error inner with failed | ⟨⟨separator, l, r⟩, w₃, split, inner⟩
  · have stopped := handleInternalNodeSplit_err (created _).alloc failed
    exact .inl (.inr (.inr ((created _).stopped stopped)))
  · have off := handleInternalNodeSplit_splitOff (created _).alloc ((created _).old old)
      (UInt64.le_of_eq (created _).last.symm) (UInt64.ne_of_lt (alloc.lt_nextPage old)).symm split
    exact .inr ((created _).nodeHalved old off (installRoot_err inner))

/-! ### After the leaf has been split -/

section
variable {w₁ w₂ : World} {leaf : UInt64} (off : SplitOff w w₁ leaf)
include off

theorem SplitOff.old {id : UInt64} (alloc : w.Allocating) (old : id ≤ w.metadata.maxAllocatedPageId) :
    id ≤ w₁.metadata.maxAllocatedPageId := by
  rw [off.last]
  exact UInt64.le_of_lt (alloc.lt_nextPage old)

theorem SplitOff.stopped (alloc : w.Allocating) (old : leaf ≤ w.metadata.maxAllocatedPageId)
    (h : StoppedUnsplit w₁ w₂) : Late 0 w w₂ ∧ Halved w w₂ leaf := by
  obtain ⟨store, calls, guards, most, freeList⟩ := h.frame off.alloc (UInt64.le_of_eq off.last.symm)
  have counted := off.calls
  have log : Appends (fun record => ¬ record.IsNodeSplit) w₁ w₂ :=
    store.log.mono fun _ plain => plain.2
  refine ⟨⟨?_, guards.trans off.guards, most, freeList⟩, store.tree.trans off.halved.tree,
    le_trans off.halved.filePages store.filePages, ?_, ?_, off.halved.log.trans log,
    off.halved.split.later off.halved.log log⟩
  · show w.calls + 0 + 3 ≤ w₂.calls
    omega
  · intro id inside other
    exact (off.halved.others id inside other).trans (store.pages id (off.old alloc inside))
  · exact off.halved.lower.later (store.pages leaf (off.old alloc old))

theorem SplitOff.bothSplit (alloc : w.Allocating) (old : leaf ≤ w.metadata.maxAllocatedPageId)
    (root : w.tree.rootNodePageId ≤ w.metadata.maxAllocatedPageId)
    (apart : leaf ≠ w.tree.rootNodePageId) (late : Late 0 w₁ w₂)
    (h : NodeHalved w₁ w₂ w.tree.rootNodePageId w₁.nextPage leaf w.nextPage) :
    Late 0 w w₂ ∧ BothSplit w w₂ leaf := by
  have known {id : UInt64} (inside : id ≤ w₁.metadata.maxAllocatedPageId) : id ≠ w₁.nextPage :=
    UInt64.ne_of_lt (off.alloc.lt_nextPage inside)
  have same {id : UInt64} (inside : id ≤ w₁.metadata.maxAllocatedPageId)
      (other : id ≠ w.tree.rootNodePageId) : ReadsSame (w₁.pages id) (w₂.pages id) :=
    h.others id inside other (known inside)
  have counted := off.calls
  have later := late.calls
  have successor : w.nextPage + 1 = w₁.nextPage := by rw [World.nextPage, World.nextPage, off.last]; rfl
  refine ⟨⟨?_, late.guards.trans off.guards, ?_, ?_⟩, ?_⟩
  · show w.calls + 0 + 3 ≤ w₂.calls
    omega
  · exact UInt64.le_trans (UInt64.le_of_lt off.older) late.last
  · exact fun id member => UInt64.lt_trans off.older (late.freeList id member)
  constructor
  case tree => exact h.tree.trans off.halved.tree
  case filePages => exact le_trans off.halved.filePages h.filePages
  case others =>
    intro id inside other aside
    exact (off.halved.others id inside other).trans (same (off.old alloc inside) aside)
  case lower => exact off.halved.lower.later (same (off.old alloc old) apart)
  case right =>
    have fresh : w.nextPage ≠ w.tree.rootNodePageId := (UInt64.ne_of_lt (alloc.lt_nextPage root)).symm
    rw [(same (UInt64.le_of_eq off.last.symm) fresh).isLeafNode]
    exact off.right
  case node => exact h.lower.of_readsSame (off.halved.others _ root apart.symm)
  case more =>
    rw [successor]
    exact ⟨late.last, fun member => UInt64.lt_irrefl _ (late.freeList _ member)⟩
  case log => exact (off.halved.log.mono fun _ _ => trivial).trans h.log
  case leafSplit => exact off.halved.split.later off.halved.log h.log
  case nodeSplit => exact h.split.earlier off.halved.log h.log

end

end BPlusTree

end CambiumDB
