import CambiumDB.BPlusTree.Preservation

/-!
# `Insert` is correct whenever its space checks are

Each outcome keeps the store ready for the next operation and adds the entry to the map
that the tree holds.
-/

namespace CambiumDB

open ByteBuffer Router TreeM

open LeafNodeCodec (LeafPage)

open InternalNodeCodec (InternalPage)

namespace BPlusTree

variable (nextLSN : List LogEntry → UInt64) {w : World} {key value : Bytes}

section
variable (leaf : UInt64) (checked : Page) (record : WALRecord) (final : Page)

theorem afterRewrite_pages : (w.afterRewrite nextLSN leaf checked record final).pages =
    Function.update w.pages leaf final := by
  simp only [World.afterRewrite, World.leave, World.atLeaf]
  split <;> exact Function.update_idem ..

theorem afterRewrite_frame (ready : Ready w) :
    (w.afterRewrite nextLSN leaf checked record final).tree = w.tree ∧
      (w.afterRewrite nextLSN leaf checked record final).metadata = w.metadata ∧
      (w.afterRewrite nextLSN leaf checked record final).filePages = w.filePages ∧
      (w.afterRewrite nextLSN leaf checked record final).faults = w.faults ∧
      (w.afterRewrite nextLSN leaf checked record final).guards = [] := by
  have only := enter_guards nextLSN ready
  simp only [World.afterRewrite, World.leave, World.atLeaf]
  split
  · refine ⟨rfl, rfl, rfl, rfl, ?_⟩
    show (w.enter nextLSN).guards.erase w.tree.rootNodePageId = []
    rw [only, List.erase_cons_head]
  · refine ⟨rfl, rfl, rfl, rfl, ?_⟩
    show ((leaf :: (w.enter nextLSN).guards).erase leaf).erase w.tree.rootNodePageId = []
    rw [only, List.erase_cons_head, List.erase_cons_head]

theorem afterRewrite_ready (ready : Ready w) (old : leaf ≤ w.metadata.maxAllocatedPageId) :
    Ready (w.afterRewrite nextLSN leaf checked record final) := by
  obtain ⟨_, metadata, size, faults, guards⟩ := afterRewrite_frame nextLSN leaf checked record
    final ready
  refine ⟨ready.toAllocating.congr ?_ ?_ size ?_, guards, faults ▸ ready.faults⟩
  · rw [metadata]
  · rw [metadata]
  · intro id later
    rw [afterRewrite_pages, Function.update_of_ne]
    exact (UInt64.ne_of_lt (UInt64.lt_of_le_of_lt old later)).symm

end

theorem preserves_rewritten (ready : Ready w) {first : UInt64} {rest : List (Bytes × UInt64)}
    {pairs : UInt64 → List LeafNodeElement} {record : WALRecord} {new : List LeafNodeElement}
    (checked : Page) {final : Page} (stored : Stored w first rest pairs)
    (change : LeafChange w.tree.bPlusTreeId (route key first rest) key value
      (pairs (route key first rest)) record new) (page : LeafPage final new) :
    Ready (w.afterRewrite nextLSN (route key first rest) checked record final) ∧
      Stored (w.afterRewrite nextLSN (route key first rest) checked record final) first rest
        (Function.update pairs (route key first rest) new) := by
  have child := route_mem key first rest
  obtain ⟨tree, metadata, _⟩ :=
    afterRewrite_frame nextLSN (route key first rest) checked record final ready
  refine ⟨afterRewrite_ready nextLSN _ _ _ _ ready (stored.allocated _ child).2, ?_⟩
  refine stored.rewritten child (by rw [tree]) (by rw [metadata]) ?_ ?_ ?_
  · rw [afterRewrite_pages, Function.update_self]
    exact page
  · intro p other
    rw [afterRewrite_pages, Function.update_of_ne other]
  · intro e member
    rcases change.key_mem member with same | ⟨x, old, same⟩
    · rw [same]
    · rw [← same]
      exact stored.routed _ child x old

theorem afterPlant_pages (checked final : Page) :
    (w.afterPlant nextLSN key value checked final).pages =
      Function.update w.allocate.pages w.nextPage final := by
  show Function.update (Function.update (Function.update w.allocate.pages w.nextPage _) w.nextPage
    checked) w.nextPage final = _
  rw [Function.update_idem, Function.update_idem]

/-- A single leaf with one pair. -/
theorem denotes_single (leaf : UInt64) (key value : Bytes) :
    denotes leaf [] (fun _ => [⟨key, value⟩]) =
      Function.update (fun _ => none) key (some value) := by
  funext k
  by_cases same : k = key
  · subst same
    simp [denotes, SortedList.lookup]
  · have other : ¬ key = k := fun h => same h.symm
    rw [Function.update_of_ne same]
    simp [denotes, SortedList.lookup, other]

theorem preserves_planted (ready : Ready w) (space : w.filePages + 16 ≤ maxFilePages)
    {checked final : Page} {held : List LeafNodeElement} (page : LeafPage final held) :
    Ready (w.afterPlant nextLSN key value checked final) ∧
      Stored (w.afterPlant nextLSN key value checked final) w.nextPage [] (fun _ => held) := by
  have alloc := ready.toAllocating
  constructor
  · refine ⟨(alloc.allocate space).congr rfl rfl rfl ?_, ?_, ready.faults⟩
    · intro id later
      have new : id ≠ w.nextPage := (UInt64.ne_of_lt later).symm
      rw [afterPlant_pages, Function.update_of_ne new]
    · show (w.nextPage :: w.guards).erase w.nextPage = []
      rw [List.erase_cons_head, ready.guards]
  · refine ⟨.nil, by simp [children], fun _ => rfl, fun height => absurd rfl height,
      ⟨alloc.nextPage_ne_zero, UInt64.le_refl _⟩, ?_, ?_, ?_⟩
    · intro id member
      obtain rfl : id = w.nextPage := by simpa [children] using member
      exact ⟨alloc.nextPage_ne_zero, UInt64.le_refl _⟩
    · intro id member
      obtain rfl : id = w.nextPage := by simpa [children] using member
      rw [afterPlant_pages, Function.update_self]
      exact page
    · intro id member e _
      obtain rfl : id = w.nextPage := by simpa [children] using member
      rfl

section
variable {root : UInt64} {record : WALRecord} {leftPage rightPage : Page} {w₁ w₂ : World}
  (ready : Ready w)
  (old : root ≤ w.metadata.maxAllocatedPageId) (start : w₁ = (w.enter nextLSN).createNode nextLSN)
include ready old start

/-- The new root comes after the old one and the right half after both. -/
theorem rootSplit_order (space : w.filePages + 16 ≤ maxFilePages) :
    root < w.nextPage ∧ w.nextPage < w₁.nextPage ∧ w₁.Allocating := by
  have alloc : (w.enter nextLSN).Allocating := ready.toAllocating.congr rfl rfl rfl fun _ _ => rfl
  have alloc₁ : w₁.Allocating := start ▸ createNode_allocating nextLSN alloc space
  have last₁ : w₁.metadata.maxAllocatedPageId = w.nextPage := by
    rw [start, World.createNode_last, World.enter_nextPage]
  exact ⟨ready.toAllocating.lt_nextPage old, alloc₁.lt_nextPage (last₁ ▸ UInt64.le_refl _), alloc₁⟩

theorem rootSplit_pages (separator : Bytes) (rootPage : Page)
    (space : w.filePages + 16 ≤ maxFilePages) (divided : w₂ = w₁.splitInto nextLSN root record leftPage rightPage) :
    (w₂.afterRootSplit nextLSN w.nextPage root separator w₁.nextPage rootPage).pages root =
        leftPage ∧
      (w₂.afterRootSplit nextLSN w.nextPage root separator w₁.nextPage rootPage).pages
        w₁.nextPage = rightPage ∧
      (w₂.afterRootSplit nextLSN w.nextPage root separator w₁.nextPage rootPage).pages
        w.nextPage = rootPage ∧
      ∀ p ≤ w.metadata.maxAllocatedPageId, p ≠ root →
        (w₂.afterRootSplit nextLSN w.nextPage root separator w₁.nextPage rootPage).pages p =
          w.pages p := by
  obtain ⟨older, newer, alloc₁⟩ := rootSplit_order nextLSN ready old start space
  refine ⟨?_, ?_, ?_, ?_⟩
  · rw [World.afterRootSplit_pages, Function.update_of_ne (UInt64.ne_of_lt older), divided,
      World.splitInto_left (UInt64.ne_of_lt (UInt64.lt_trans older newer))]
  · rw [World.afterRootSplit_pages, Function.update_of_ne (UInt64.ne_of_lt newer).symm,
      divided, World.splitInto_right]
  · rw [World.afterRootSplit_pages, Function.update_self]
  · intro p before different
    have below := ready.toAllocating.lt_nextPage before
    have alloc : (w.enter nextLSN).Allocating := ready.toAllocating.congr rfl rfl rfl fun _ _ => rfl
    have last₁ : w₁.metadata.maxAllocatedPageId = w.nextPage := by
      rw [start, World.createNode_last, World.enter_nextPage]
    rw [World.afterRootSplit_pages, Function.update_of_ne (UInt64.ne_of_lt below), divided,
      World.splitInto_other alloc₁ (last₁ ▸ UInt64.le_of_lt below) different, start,
      createNode_other nextLSN alloc before]
    rfl

end

section
variable {root : UInt64} {pairs : UInt64 → List LeafNodeElement} {i : Nat} {m : LeafNodeElement}
  {leftPage rightPage rootPage : Page} {w₁ w₂ : World} (ready : Ready w)
  (stored : Stored w root [] pairs)
  (parts : RootSplit nextLSN key value w root (pairs root) i m leftPage rightPage rootPage w₁ w₂)
include ready stored parts

theorem RootSplit.order (space : w.filePages + 16 ≤ maxFilePages) :
    root < w.nextPage ∧ w.nextPage < w₁.nextPage ∧ w₁.Allocating :=
  rootSplit_order nextLSN ready (stored.allocated root (by simp [children])).2 parts.start space

theorem RootSplit.pages (space : w.filePages + 16 ≤ maxFilePages) :
    (w₂.afterRootSplit nextLSN w.nextPage root m.key w₁.nextPage rootPage).pages root = leftPage ∧
      (w₂.afterRootSplit nextLSN w.nextPage root m.key w₁.nextPage rootPage).pages w₁.nextPage =
        rightPage ∧
      (w₂.afterRootSplit nextLSN w.nextPage root m.key w₁.nextPage rootPage).pages w.nextPage =
        rootPage ∧
      ∀ p ≤ w.metadata.maxAllocatedPageId, p ≠ root →
        (w₂.afterRootSplit nextLSN w.nextPage root m.key w₁.nextPage rootPage).pages p =
          w.pages p :=
  rootSplit_pages nextLSN ready (stored.allocated root (by simp [children])).2 parts.start m.key
    rootPage space parts.divided

theorem preserves_rootSplit (space : w.filePages + 32 ≤ maxFilePages)
    (split : SplitAt (w.pages root) (pairs root) key value i m) :
    Ready (w₂.afterRootSplit nextLSN w.nextPage root m.key w₁.nextPage rootPage) ∧
      let pairs' := Function.update
        (Function.update pairs root (leftPairs (pairs root) i m.key key value)) w₁.nextPage
        (rightPairs (pairs root) i m.key key value)
      Stored (w₂.afterRootSplit nextLSN w.nextPage root m.key w₁.nextPage rootPage) root
          [(m.key, w₁.nextPage)] pairs' ∧
        denotes root [(m.key, w₁.nextPage)] pairs' =
          Function.update (denotes root [] pairs) key (some value) := by
  obtain ⟨leftIs, rightIs, rootIs, _⟩ := parts.pages nextLSN ready stored (by omega)
  obtain ⟨older, newer, alloc₁⟩ := parts.order nextLSN ready stored (by omega)
  obtain ⟨start, divided, left, right, node, _, _⟩ := parts
  have last₁ : w₁.metadata.maxAllocatedPageId = w.nextPage := by
    rw [start, World.createNode_last, World.enter_nextPage]
  have space₁ : w₁.filePages + 16 ≤ maxFilePages := by
    have grown := (w.enter nextLSN).allocate_filePages_le
    rw [start, World.createNode_filePages]
    exact (Nat.add_le_add_right grown 16).trans space
  have old₁ : root ≤ w₁.metadata.maxAllocatedPageId := last₁ ▸ UInt64.le_of_lt older
  have alloc₂ : w₂.Allocating := divided ▸ World.splitInto_allocating alloc₁ space₁ old₁
  have guards₂ : w₂.guards = [w.nextPage, root] := by
    rw [divided, World.splitInto_guards, start, World.createNode_guards, enter_guards nextLSN ready,
      stored.leafRoot rfl, World.enter_nextPage]
  have faults₂ : w₂.faults = w.faults := by
    rw [divided, World.splitInto_faults, start, World.createNode_faults, World.enter_faults]
  have last₂ : w₂.metadata.maxAllocatedPageId = w₁.nextPage := by
    rw [divided, World.splitInto_last]
  have rootOther : root ≠ w.nextPage := UInt64.ne_of_lt older
  have rightOther : w₁.nextPage ≠ w.nextPage := (UInt64.ne_of_lt newer).symm
  constructor
  · refine ⟨alloc₂.congr rfl rfl rfl ?_, ?_, fun n => (congrFun faults₂ n).trans (ready.faults n)⟩
    · intro id later
      rw [last₂] at later
      rw [World.afterRootSplit_pages,
        Function.update_of_ne (UInt64.ne_of_lt (UInt64.lt_trans newer later)).symm]
    · rw [World.afterRootSplit_guards, guards₂, List.erase_cons_head, List.erase_cons_head]
  · have rightNew : w₁.nextPage ≠ root := (UInt64.ne_of_lt (UInt64.lt_trans older newer)).symm
    refine stored.split_insert [] [] w₁.nextPage split rfl rfl (by simp) (by simp) ?_ ?_ ?_
      ?_ ?_ ?_ ?_ ?_ ?_
    · simpa [children] using rightNew
    · rw [World.afterRootSplit_root, rootIs]
      exact node
    · rw [World.afterRootSplit_root]
      simpa [children] using ⟨rightOther.symm, rootOther.symm⟩
    · rw [World.afterRootSplit_root, World.afterRootSplit_last, last₂]
      exact ⟨ready.toAllocating.nextPage_ne_zero, UInt64.le_of_lt newer⟩
    · rw [World.afterRootSplit_last, last₂]
      exact UInt64.le_of_lt (UInt64.lt_trans (ready.toAllocating.lt_nextPage (UInt64.le_refl _))
        newer)
    · rw [World.afterRootSplit_last, last₂]
      exact ⟨alloc₁.nextPage_ne_zero, UInt64.le_refl _⟩
    · exact leftIs.symm ▸ left.leaf
    · exact rightIs.symm ▸ right.leaf
    · intro p member different
      exact absurd (by simpa [children] using member) different

end

section
variable {first leaf : UInt64} {before after : List (Bytes × UInt64)}
  {pairs : UInt64 → List LeafNodeElement} {i : Nat} {m : LeafNodeElement}
  {leftPage rightPage rootPage : Page} {w₁ w₂ : World} (ready : Ready w)
  (stored : Stored w first (before ++ after) pairs) (height : before ++ after ≠ [])
  (routed : route key first (before ++ after) = leaf)
  (parts : LeafSplit nextLSN key value w first leaf before after (pairs leaf) i m leftPage
    rightPage rootPage w₁ w₂)
include ready stored height routed parts

theorem LeafSplit.pages :
    let w' := w₂.afterLeafSplit nextLSN w.tree.rootNodePageId leaf m.key w.nextPage rootPage
    w'.pages leaf = leftPage ∧ w'.pages w.nextPage = rightPage ∧
      w'.pages w.tree.rootNodePageId = rootPage ∧
      ∀ p ≤ w.metadata.maxAllocatedPageId, p ≠ leaf → p ≠ w.tree.rootNodePageId →
        w'.pages p = w.pages p := by
  intro w'
  have child : leaf ∈ children first (before ++ after) := routed ▸ route_mem key first _
  obtain ⟨_, outside⟩ := stored.nodeRoot height
  have alloc₁ : w₁.Allocating := by
    rw [parts.start]
    exact ready.toAllocating.congr rfl rfl rfl fun _ _ => rfl
  have next₁ : w₁.nextPage = w.nextPage := by rw [parts.start]; rfl
  have last₁ : w₁.metadata = w.metadata := by rw [parts.start]; rfl
  -- every old page is below the new one
  have older {id : UInt64} (bound : id ≤ w.metadata.maxAllocatedPageId) : id ≠ w.nextPage :=
    UInt64.ne_of_lt (ready.toAllocating.lt_nextPage bound)
  have rootApart {id : UInt64} (member : id ∈ children first (before ++ after)) :
      id ≠ w.tree.rootNodePageId := fun same => outside (same ▸ member)
  refine ⟨?_, ?_, ?_, ?_⟩
  · rw [World.afterLeafSplit_pages, Function.update_of_ne (rootApart child), parts.divided,
      World.splitInto_left (next₁ ▸ older (stored.allocated leaf child).2)]
  · rw [World.afterLeafSplit_pages, Function.update_of_ne (older stored.rootAllocated.2).symm,
      parts.divided, ← next₁, World.splitInto_right]
  · rw [World.afterLeafSplit_pages, Function.update_self]
  · intro p old different apart
    rw [World.afterLeafSplit_pages, Function.update_of_ne apart, parts.divided,
      World.splitInto_other alloc₁ (last₁ ▸ old) different, parts.start]
    rfl

theorem preserves_leafSplit (space : w.filePages + 16 ≤ maxFilePages)
    (split : SplitAt (w.pages leaf) (pairs leaf) key value i m)
    (below : ∀ entry ∈ before, entry.1 < m.key) (above : ∀ entry ∈ after, m.key < entry.1) :
    Ready (w₂.afterLeafSplit nextLSN w.tree.rootNodePageId leaf m.key w.nextPage rootPage) ∧
      let pairs' := Function.update
        (Function.update pairs leaf (leftPairs (pairs leaf) i m.key key value)) w.nextPage
        (rightPairs (pairs leaf) i m.key key value)
      Stored (w₂.afterLeafSplit nextLSN w.tree.rootNodePageId leaf m.key w.nextPage rootPage) first
          (before ++ (m.key, w.nextPage) :: after) pairs' ∧
        denotes first (before ++ (m.key, w.nextPage) :: after) pairs' =
          Function.update (denotes first (before ++ after) pairs) key (some value) := by
  obtain ⟨leftIs, rightIs, rootIs, others⟩ := parts.pages nextLSN ready stored height routed
  obtain ⟨start, divided, left, right, node, _, _⟩ := parts
  have child : leaf ∈ children first (before ++ after) := routed ▸ route_mem key first _
  obtain ⟨_, outside⟩ := stored.nodeRoot height
  obtain ⟨present, rootOld⟩ := stored.rootAllocated
  have old := (stored.allocated leaf child).2
  have alloc := ready.toAllocating
  have alloc₁ : w₁.Allocating := by
    rw [start]
    exact alloc.congr rfl rfl rfl fun _ _ => rfl
  have next₁ : w₁.nextPage = w.nextPage := by rw [start]; rfl
  have tree₂ : w₂.tree = w.tree := by rw [divided, World.splitInto_tree, start]; rfl
  have last₁ : w₁.metadata = w.metadata := by rw [start]; rfl
  have last₂ : w₂.metadata.maxAllocatedPageId = w.nextPage := by
    rw [divided, World.splitInto_last, next₁]
  have space₁ : w₁.filePages + 16 ≤ maxFilePages := by
    rw [start]
    exact space
  have alloc₂ : w₂.Allocating :=
    divided ▸ World.splitInto_allocating alloc₁ space₁ (last₁ ▸ old)
  have guards₂ : w₂.guards = [leaf, w.tree.rootNodePageId] := by
    rw [divided, World.splitInto_guards, start, World.acquire_guards, enter_guards nextLSN ready]
  have faults₂ : w₂.faults = w.faults := by
    rw [divided, World.splitInto_faults, start]
    rfl
  have older {id : UInt64} (bound : id ≤ w.metadata.maxAllocatedPageId) : id ≠ w.nextPage :=
    UInt64.ne_of_lt (alloc.lt_nextPage bound)
  constructor
  · refine ⟨alloc₂.congr rfl rfl rfl ?_, ?_, fun n => (congrFun faults₂ n).trans (ready.faults n)⟩
    · intro id later
      rw [last₂] at later
      have other : id ≠ w.tree.rootNodePageId :=
        (UInt64.ne_of_lt (UInt64.lt_trans (alloc.lt_nextPage rootOld) later)).symm
      rw [World.afterLeafSplit_pages, Function.update_of_ne other]
    · rw [World.afterLeafSplit_guards, guards₂, List.erase_cons_head, List.erase_cons_head]
  · obtain ⟨cut, _⟩ := splitAt_cut stored child split
    refine stored.split_insert before after w.nextPage split cut routed below above ?_ ?_ ?_ ?_ ?_ ?_
      ?_ ?_ (fun p member different => others p (stored.allocated p member).2 different
        fun same => outside (same ▸ member))
    · intro member
      exact older (stored.allocated _ member).2 rfl
    · rw [World.afterLeafSplit_root, tree₂, rootIs]
      exact node
    · rw [World.afterLeafSplit_root, tree₂]
      intro member
      rcases List.mem_cons.mp member with new | inside
      · exact older rootOld new
      · exact outside inside
    · rw [World.afterLeafSplit_root, World.afterLeafSplit_last, tree₂, last₂]
      exact ⟨present, UInt64.le_of_lt (alloc.lt_nextPage rootOld)⟩
    · rw [World.afterLeafSplit_last, last₂]
      exact UInt64.le_of_lt (alloc.lt_nextPage (UInt64.le_refl _))
    · rw [World.afterLeafSplit_last, last₂]
      exact ⟨alloc.nextPage_ne_zero, UInt64.le_refl _⟩
    · exact leftIs.symm ▸ left.leaf
    · exact rightIs.symm ▸ right.leaf

end

/-- Every outcome keeps the store ready and adds the entry to the map. -/
theorem Inserted.preserves {w' : World} {m : Bytes → Option Bytes} (ready : Ready w)
    (holds : Holds w m) (space : w.filePages + 32 ≤ maxFilePages)
    (outcome : Inserted nextLSN key value w w') :
    Ready w' ∧ Holds w' (Function.update m key (some value)) := by
  cases outcome with
  | planted empty written =>
    cases holds with
    | empty _ _ =>
      obtain ⟨ready', stored'⟩ := preserves_planted nextLSN ready (by omega) written.leaf
      rw [← denotes_single w.nextPage]
      exact ⟨ready', .stored stored'⟩
    | stored stored => exact absurd empty stored.rootAllocated.1
  | rewritten stored change written =>
    obtain ⟨ready', stored'⟩ := preserves_rewritten nextLSN ready _ stored change written.leaf
    rw [holds_unique ready holds (.stored stored), ← denotes_update change.lookup]
    exact ⟨ready', .stored stored'⟩
  | rootSplit stored split parts =>
    obtain ⟨ready', stored', map⟩ := preserves_rootSplit nextLSN ready stored parts space split
    rw [holds_unique ready holds (.stored stored), ← map]
    exact ⟨ready', .stored stored'⟩
  | leafSplit stored height routed split below above parts =>
    obtain ⟨ready', stored', map⟩ := preserves_leafSplit nextLSN ready stored height routed parts
      (by omega) split below above
    rw [holds_unique ready holds (.stored stored), ← map]
    exact ⟨ready', .stored stored'⟩

end BPlusTree

end CambiumDB
