import CambiumDB.BPlusTree.FailedInsert

/-!
# What an insert that failed leaves behind

Which guards are still held, and which of the pages it obtained are neither given back nor part of
the tree.
-/

namespace CambiumDB

open ByteBuffer SlottedPage Router TreeM TransitionSystem

open LeafNodeCodec (LeafPage)

open InternalNodeCodec (InternalPage)

/-- A page that was handed out and not given back. -/
def World.Allocated (w : World) (id : UInt64) : Prop :=
  id ≤ w.metadata.maxAllocatedPageId ∧ id ∉ w.metadata.deallocatedPageIdList

namespace BPlusTree

/-- The pages that can be reached from the root. -/
inductive PartOfTree (w : World) : UInt64 → Prop
  | root : w.tree.rootNodePageId ≠ 0 → PartOfTree w w.tree.rootNodePageId
  | child {id child : UInt64} {es : List InternalNodeElement} {e : InternalNodeElement} :
      PartOfTree w id → HeaderCodec.isLeafNode (w.pages id) = false →
      liveElements InternalNodeCodec.elementCodec (w.pages id) = some es → e ∈ es →
      child ∈ e.pointers → PartOfTree w child

/-- The guards are as before, and each page obtained was given back or is part of the tree. -/
def NoLeak (w w' : World) : Prop :=
  w'.guards = w.guards ∧ ∀ id, ¬ w.Allocated id → w'.Allocated id → PartOfTree w' id

variable {nextLSN : List LogEntry → UInt64} {w w' : World} {e : TreeError} {key value : Bytes}
  {n : Nat} {leaf : UInt64}

/-- A set of pages that holds the root and that no pointer leaves. -/
theorem PartOfTree.inside (S : UInt64 → Prop)
    (root : w.tree.rootNodePageId ≠ 0 → S w.tree.rootNodePageId)
    (step : ∀ id es, S id → HeaderCodec.isLeafNode (w.pages id) = false →
      liveElements InternalNodeCodec.elementCodec (w.pages id) = some es →
      ∀ e ∈ es, ∀ child ∈ e.pointers, S child) {id : UInt64} (part : PartOfTree w id) : S id := by
  induction part with
  | root present => exact root present
  | child _ internal read member points ih => exact step _ _ ih internal read _ member _ points

theorem Early.noLeak (h : Early n w w') : NoLeak w w' := by
  refine ⟨h.guards, fun id free taken => absurd ?_ free⟩
  rwa [World.Allocated, h.last, h.freeList] at taken

theorem Cleaned.noLeak (alloc : w.Allocating) (h : Cleaned n w w') : NoLeak w w' := by
  refine ⟨h.guards, fun id free taken => absurd ?_ free⟩
  obtain ⟨known, kept⟩ := taken
  rw [h.last] at known
  rw [h.freeList, List.mem_singleton] at kept
  refine ⟨alloc.le_of_lt_nextPage (UInt64.lt_of_le_of_ne known kept), ?_⟩
  rw [alloc.freeList]
  exact List.not_mem_nil

/-- The page that was obtained first stays behind. -/
theorem Late.leaks (alloc : w.Allocating) (h : Late n w w') (outside : ¬ PartOfTree w' w.nextPage) :
    ¬ NoLeak w w' := by
  rintro ⟨_, pages⟩
  refine outside (pages w.nextPage (fun old => ?_) ⟨h.last, fun given => ?_⟩)
  · exact UInt64.lt_irrefl _ (alloc.lt_nextPage old.1)
  · exact UInt64.lt_irrefl _ (h.freeList _ given)

section
variable {first : UInt64} {rest : List (Bytes × UInt64)} {pairs : UInt64 → List LeafNodeElement}
  (stored : Stored w first rest pairs)
include stored

/-- As long as the routes of a tree are in place, only its old pages can be reached. -/
theorem PartOfTree.old (tree : w'.tree = w.tree)
    (node : rest ≠ [] → InternalPage (w'.pages w.tree.rootNodePageId) first rest)
    (leaves : ∀ id ∈ children first rest, HeaderCodec.isLeafNode (w'.pages id) = true) {id : UInt64}
    (part : PartOfTree w' id) : id ≤ w.metadata.maxAllocatedPageId := by
  have known : id = w.tree.rootNodePageId ∨ id ∈ children first rest := by
    refine part.inside (fun id => id = w.tree.rootNodePageId ∨ id ∈ children first rest)
      (fun _ => .inl (by rw [tree])) fun id es here internal read e member child points => ?_
    rcases here with rfl | below
    · have height : rest ≠ [] := by
        rintro rfl
        rw [leaves _ (by rw [stored.leafRoot rfl]; exact List.mem_cons_self)] at internal
        cases internal
      have live := ((node height).wellFormed stored.sorted).2
      obtain rfl := Option.some.inj (live.symm.trans read)
      obtain ⟨left, right⟩ := InternalNodeCodec.chain_pointers member
      simp only [InternalNodeElement.pointers, List.mem_cons, List.not_mem_nil, or_false] at points
      rcases points with rfl | rfl
      · exact .inr left
      · exact .inr right
    · rw [leaves id below] at internal
      cases internal
  rcases known with rfl | below
  · exact stored.rootAllocated.2
  · exact (stored.allocated id below).2

theorem Undisturbed.partOfTree_old (h : Undisturbed w w') {id : UInt64} (part : PartOfTree w' id) :
    id ≤ w.metadata.maxAllocatedPageId := by
  refine part.old stored h.tree (fun nonempty => ?_) (fun id below => ?_)
  · exact (h.pages _ stored.rootAllocated.2).node nonempty (stored.nodeRoot nonempty).1
  · rw [(h.pages id (stored.allocated id below).2).isLeafNode]
    exact (stored.leaves id below).isLeafNode

theorem Halved.partOfTree_old (h : Halved w w' leaf) (known : leaf ∈ children first rest) {id : UInt64}
    (part : PartOfTree w' id) : id ≤ w.metadata.maxAllocatedPageId := by
  refine part.old stored h.tree (fun nonempty => ?_) (fun id below => ?_)
  · obtain ⟨node, outside⟩ := stored.nodeRoot nonempty
    exact (h.others _ stored.rootAllocated.2 fun same => outside (same ▸ known)).node nonempty node
  · by_cases same : id = leaf
    · subst same
      exact (h.lower _ (stored.leaves id below)).1
    · rw [(h.others id (stored.allocated id below).2 same).isLeafNode]
      exact (stored.leaves id below).isLeafNode

/-- After both splits the right half of the leaf can be reached, but not the new root. -/
theorem BothSplit.partOfTree_old (h : BothSplit w w' leaf) (nonempty : rest ≠ [])
    (known : leaf ∈ children first rest) {id : UInt64} (part : PartOfTree w' id) :
    id ≤ w.metadata.maxAllocatedPageId ∨ id = w.nextPage := by
  obtain ⟨node, outside⟩ := stored.nodeRoot nonempty
  have reached : id = w.tree.rootNodePageId ∨ id ∈ children first rest ∨ id = w.nextPage := by
    refine part.inside (fun id => id = w.tree.rootNodePageId ∨ id ∈ children first rest ∨ id = w.nextPage)
      (fun _ => .inl (by rw [h.tree])) fun id es here internal read e member child points => ?_
    rcases here with rfl | below | rfl
    · obtain ⟨es', live, pointers⟩ := h.node first rest nonempty node stored.sorted
      obtain rfl := Option.some.inj (live.symm.trans read)
      rcases pointers e member child points with old | rfl | rfl
      · exact .inr (.inl old)
      · exact .inr (.inl known)
      · exact .inr (.inr rfl)
    · have isLeaf : HeaderCodec.isLeafNode (w'.pages id) = true := by
        by_cases same : id = leaf
        · subst same
          exact (h.lower _ (stored.leaves id below)).1
        · rw [(h.others id (stored.allocated id below).2 same fun root => outside (root ▸ below)).isLeafNode]
          exact (stored.leaves id below).isLeafNode
      rw [isLeaf] at internal
      cases internal
    · rw [h.right] at internal
      cases internal
  rcases reached with rfl | below | rfl
  · exact .inl stored.rootAllocated.2
  · exact .inl (stored.allocated id below).2
  · exact .inr rfl

/-- Nothing is left behind up to the guard on the first page obtained; from then on that page is. -/
theorem Stopped.noLeak_iff (alloc : w.Allocating) (h : Stopped n w leaf w')
    (known : leaf ∈ children first rest) : NoLeak w w' ↔ w'.calls ≤ w.calls + n + 2 := by
  have late (late : Late n w w')
      (old : ∀ {id}, PartOfTree w' id → id ≤ w.metadata.maxAllocatedPageId) :
      NoLeak w w' ↔ w'.calls ≤ w.calls + n + 2 := by
    have calls := late.calls
    refine iff_of_false (late.leaks alloc fun part => ?_) (by omega)
    exact UInt64.lt_irrefl _ (alloc.lt_nextPage (old part))
  cases h with
  | early early =>
    have calls := early.calls
    exact iff_of_true early.noLeak (by omega)
  | cleaned cleaned =>
    have calls := cleaned.calls
    exact iff_of_true (cleaned.noLeak alloc) (by omega)
  | created stopped store => exact late stopped (store.partOfTree_old stored)
  | halved stopped halved => exact late stopped (halved.partOfTree_old stored known)

theorem BothSplit.leaks (alloc : w.Allocating) (h : BothSplit w w' leaf) (nonempty : rest ≠ [])
    (known : leaf ∈ children first rest) : ¬ NoLeak w w' := by
  rintro ⟨_, pages⟩
  have later : w.nextPage < w.nextPage + 1 := by
    have inside := alloc.inside
    have limit := alloc.limit
    have number := alloc.nextPage_toNat
    rw [maxFilePages] at limit
    rw [UInt64.lt_iff_toNat_lt, UInt64.toNat_add, UInt64.toNat_one, Nat.mod_eq_of_lt (by omega)]
    omega
  have part : PartOfTree w' (w.nextPage + 1) := by
    refine pages _ (fun old => ?_) h.more
    exact UInt64.lt_irrefl _ (UInt64.lt_trans (alloc.lt_nextPage old.1) later)
  rcases h.partOfTree_old stored nonempty known part with old | same
  · exact UInt64.lt_irrefl _ (UInt64.lt_trans (alloc.lt_nextPage old) later)
  · rw [same] at later
    exact UInt64.lt_irrefl _ later

end

/-! ### A tree without a root -/

theorem Stopped.frame (h : Stopped n w leaf w') :
    w'.tree = w.tree ∧ w'.guards = w.guards ∧ w.calls < w'.calls := by
  cases h with
  | early early => exact ⟨early.store.tree, early.guards, early.calls.1⟩
  | cleaned cleaned =>
    have calls := cleaned.calls
    exact ⟨cleaned.store.tree, cleaned.guards, by omega⟩
  | created late store =>
    have calls := late.calls
    exact ⟨store.tree, late.guards, by omega⟩
  | halved late halved =>
    have calls := late.calls
    exact ⟨halved.tree, late.guards, by omega⟩

theorem PartOfTree.congr {id : UInt64} (part : PartOfTree w id) (tree : w'.tree = w.tree)
    (pages : w'.pages = w.pages) : PartOfTree w' id := by
  induction part with
  | root present =>
    rw [← tree] at present ⊢
    exact .root present
  | child _ internal read member points ih =>
    rw [← pages] at internal read
    exact .child ih internal read member points

/-- A root that was planted is part of the tree, so only what came after it can be left behind. -/
theorem Planted.noLeak_iff {w₁ w₂ : World} (alloc : w.Allocating) (planted : Planted w w₁)
    (stopped : Stopped n w₁ leaf w₂) : NoLeak w (w₂.release w.nextPage) ↔ NoLeak w₁ w₂ := by
  obtain ⟨tree, guards, _⟩ := stopped.frame
  have root := planted.stored.leafRoot rfl
  have released : (w₂.release w.nextPage).guards = w.guards := by
    rw [World.release_guards, guards, planted.guards, List.erase_cons_head]
  constructor
  · rintro ⟨_, pages⟩
    refine ⟨guards, fun id free taken => (pages id (fun old => free ⟨?_, ?_⟩) taken).congr rfl rfl⟩
    · rw [planted.last]
      exact UInt64.le_of_lt (alloc.lt_nextPage old.1)
    · rw [planted.alloc.freeList]
      exact List.not_mem_nil
  · rintro ⟨_, pages⟩
    refine ⟨released, fun id free taken => ?_⟩
    by_cases new : id = w.nextPage
    · have present : (w₂.release w.nextPage).tree.rootNodePageId = w.nextPage := by
        rw [World.release_tree, tree, root]
      have there := PartOfTree.root (w := w₂.release w.nextPage)
        (by rw [present]; exact alloc.nextPage_ne_zero)
      rw [new]
      rwa [present] at there
    · refine (pages id (fun old => free ⟨?_, ?_⟩) taken).congr rfl rfl
      · have most := old.1
        rw [planted.last] at most
        exact alloc.le_of_lt_nextPage (UInt64.lt_of_le_of_ne most new)
      · rw [alloc.freeList]
        exact List.not_mem_nil

theorem Unplanted.leaks (alloc : w.Allocating) (empty : w.tree.rootNodePageId = 0)
    (h : Unplanted w w') : ¬ NoLeak w w' := by
  rintro ⟨_, pages⟩
  have part : PartOfTree w' w.nextPage := by
    refine pages _ (fun old => ?_) ⟨by rw [h.last]; exact UInt64.le_refl _, ?_⟩
    · exact UInt64.lt_irrefl _ (alloc.lt_nextPage old.1)
    · rw [h.freeList]
      exact List.not_mem_nil
  refine part.inside (fun _ => False) (fun present => ?_) fun _ _ none => none.elim
  rw [h.store.tree] at present
  exact present empty

/-- The page of the root is left behind by every failure from its creation to the record that makes
it the root. -/
theorem insert_err_empty_noLeak_iff (alloc : w.Allocating) (empty : w.tree.rootNodePageId = 0)
    (run : insert nextLSN key value w = (.error (.error e), w')) :
    NoLeak w w' ↔ w'.calls = w.calls + 2 ∨ w.calls + 7 ≤ w'.calls ∧ w'.calls ≤ w.calls + 8 := by
  obtain ⟨begins, unguarded⟩ := enters_begun nextLSN w
  have alloc₁ := begins.allocating alloc
  have started := begins.calls
  have since : NoLeak w w' ↔ NoLeak (begun nextLSN w) w' := by
    rw [NoLeak, NoLeak, unguarded]
    simp only [World.Allocated, begins.metadata]
  rw [since]
  rcases insert_err_empty alloc empty run with rfl | unplanted | ⟨w₁, w₂, planted, stopped, rfl⟩
  · have calls : (begun nextLSN w).countCall.calls = w.calls + 2 := by rw [World.countCall_calls, started]
    exact iff_of_true (early_countCall _).noLeak (.inl calls)
  · have calls := unplanted.calls
    refine iff_of_false (unplanted.leaks alloc₁ ?_) (by omega)
    rwa [begins.tree]
  · have calls := planted.calls
    have more := stopped.frame.2.2
    rw [planted.noLeak_iff alloc₁ stopped,
      stopped.noLeak_iff planted.stored planted.alloc (List.mem_singleton_self _), World.release_calls]
    omega

end BPlusTree

/-- An insert that failed leaves no guard and no page behind exactly if it failed in time. The calls
are counted from the begin record: the guards on the root and on the leaf, the first `NewPage` and
the guard on that page are in time; a tree without a root first has four calls that are not. -/
theorem failed_insert_leaks_nothing_iff (nextLSN : List LogEntry → UInt64) {s : Session}
    (reached : Reach (CallStep nextLSN) CallOk Opened s) (faults : Nat → Bool) (key value : Bytes)
    {e : TreeError} {w' : World}
    (failed : BPlusTree.insert nextLSN key value (s.world.withFaults faults) = (.error (.error e), w')) :
    BPlusTree.NoLeak s.world w' ↔
      if s.world.tree.rootNodePageId = 0 then
        w'.calls = s.world.calls + 2 ∨ s.world.calls + 7 ≤ w'.calls ∧ w'.calls ≤ s.world.calls + 8
      else if HeaderCodec.isLeafNode (s.world.pages s.world.tree.rootNodePageId) = true then
        w'.calls ≤ s.world.calls + 4
      else w'.calls ≤ s.world.calls + 5 := by
  obtain ⟨ready, holds⟩ := agrees_of_reach reached
  have alloc : (s.world.withFaults faults).Allocating :=
    ready.toAllocating.congr rfl rfl rfl fun _ _ => rfl
  generalize s.map = m at holds
  cases holds with
  | empty root blank =>
    rw [if_pos root]
    have leaks := BPlusTree.insert_err_empty_noLeak_iff alloc root failed
    exact leaks
  | @stored first rest pairs stored =>
    have known := route_mem key first rest
    have stored' := BPlusTree.Stored.withFaults stored faults
    rw [if_neg stored.rootAllocated.1]
    by_cases single : rest = []
    · subst single
      have leaf := stored.leaves first List.mem_cons_self
      rw [if_pos (by rw [stored.leafRoot rfl]; exact leaf.isLeafNode)]
      rcases BPlusTree.insert_err alloc stored' failed with stopped | ⟨_, _, height, _⟩
      · have leaks := stopped.noLeak_iff stored' alloc known
        exact leaks
      · exact absurd rfl height
    · have internal := (stored.nodeRoot single).1.isLeafNode single
      rw [if_neg (by rw [internal]; exact Bool.false_ne_true)]
      rcases BPlusTree.insert_err alloc stored' failed with stopped | ⟨late, both, _⟩
      · rw [BPlusTree.guardsBelow, if_neg single] at stopped
        have leaks := stopped.noLeak_iff stored' alloc known
        exact leaks
      · have calls : s.world.calls + 3 + 3 ≤ w'.calls := late.calls
        have leaks := both.leaks stored' alloc single known
        exact iff_of_false leaks (by omega)

/-- A first insert whose page cannot be allocated leaves nothing behind. -/
theorem failed_allocation_leaks_nothing : ∃ w',
    BPlusTree.insert (fun log => log.length.toUInt64 + 1) [1] [2]
      (newDatabase.withFaults fun n => n == 1) = (.error (.error .io), w') ∧
    BPlusTree.NoLeak newDatabase w' := by
  have reached : Reach (CallStep fun log => log.length.toUInt64 + 1) CallOk Opened
      ⟨newDatabase, fun _ => none⟩ := .start ⟨fresh_newDatabase, rfl⟩
  refine ⟨_, rfl, (failed_insert_leaks_nothing_iff _ reached (fun n => n == 1) [1] [2] rfl).2 ?_⟩
  rw [if_pos fresh_newDatabase.noRoot]
  exact .inl rfl

/-- A first insert that cannot log its leaf as the first of the tree keeps the guard on the leaf and
the page of the leaf, which no tree leads to. -/
theorem failed_first_insert_leaks : ∃ faults w',
    Opened ⟨newDatabase, fun _ => none⟩ ∧
    BPlusTree.insert recordLSN [1] [2] (newDatabase.withFaults faults) = (.error (.error .io), w') ∧
    newDatabase.guards = [] ∧ w'.guards = [1] ∧
    ¬ newDatabase.Allocated 1 ∧ w'.Allocated 1 ∧ ¬ BPlusTree.PartOfTree w' 1 := by
  refine ⟨fun n => n == 4, _, ⟨fresh_newDatabase, rfl⟩, rfl, rfl, rfl, ?_, ?_, fun part => ?_⟩
  · exact fun old => absurd old.1 (by decide)
  · exact ⟨UInt64.le_refl _, List.not_mem_nil⟩
  · exact part.inside (fun _ => False) (fun present => present rfl) fun _ _ none => none.elim

end CambiumDB
