import CambiumDB.BPlusTree.LiveKeys

/-!
# The chain through the leaves of a tree

The next-leaf pointers lead from the first leaf through all leaves of the tree, in the order
of their keys, and end at page 0.
-/

namespace CambiumDB

open ByteBuffer Router TreeM TransitionSystem

open LeafNodeCodec (LeafPage)

def World.nextLeaf (w : World) (id : UInt64) : UInt64 :=
  LeafNodeCodec.getNextLeafNodePageId (w.pages id)

def ChainedLeaves (w : World) : Prop :=
  w.tree.rootNodePageId ≠ 0 →
    ∃ leaves, leafPages w.pages (w.filePages + 1) w.tree.rootNodePageId = some leaves ∧
      Linked w.nextLeaf w.tree.firstLeafNodePageId leaves 0

section
variable {w : World} {first : UInt64} {rest : List (Bytes × UInt64)}
  {pairs : UInt64 → List LeafNodeElement} (ready : Ready w) (stored : Stored w first rest pairs)
include ready stored

theorem Stored.chained
    (chain : Linked w.nextLeaf w.tree.firstLeafNodePageId (children first rest) 0) :
    ChainedLeaves w :=
  fun _ => ⟨children first rest, stored.leafPages ready, chain⟩

/-- The pages that the root leads to are the children that the tree is stored in. -/
theorem ChainedLeaves.linked (chained : ChainedLeaves w) :
    Linked w.nextLeaf w.tree.firstLeafNodePageId (children first rest) 0 := by
  obtain ⟨leaves, reached, chain⟩ := chained stored.rootAllocated.1
  rw [stored.leafPages ready] at reached
  exact Option.some.inj reached ▸ chain

end

/-- Keys increase from leaf to leaf. -/
theorem Stored.sorted_entries {w : World} {first : UInt64} {rest : List (Bytes × UInt64)}
    {pairs : UInt64 → List LeafNodeElement} (stored : Stored w first rest pairs) :
    SortedList.Sorted LeafNodeElement.key ((children first rest).flatMap pairs) :=
  stored.placed.sorted_entries fun id member => (stored.leaves id member).sorted

namespace BPlusTree

variable (nextLSN : List LogEntry → UInt64) {w : World} {key value : Bytes}

theorem Inserted.chained {w' : World} (ready : Ready w) (space : w.filePages + 32 ≤ maxFilePages)
    (outcome : Inserted nextLSN key value w w') (chained : ChainedLeaves w) : ChainedLeaves w' := by
  cases outcome with
  | @planted checked final empty written =>
    have kept : Ready (w.afterPlant nextLSN key value checked final) ∧
        Stored (w.afterPlant nextLSN key value checked final) w.nextPage []
          (fun _ => [⟨key, value⟩]) :=
      preserves_planted nextLSN ready (by omega) written.leaf
    have last : (w.afterPlant nextLSN key value checked final).nextLeaf w.nextPage = 0 := by
      rw [World.nextLeaf, afterPlant_pages, Function.update_self]
      exact written.next
    have only : Linked (w.afterPlant nextLSN key value checked final).nextLeaf w.nextPage
        [w.nextPage] 0 := .cons (last.symm ▸ .nil 0)
    exact kept.2.chained kept.1 only
  | @rewritten first rest pairs record new checked final stored change written =>
    obtain ⟨ready', stored'⟩ :=
      preserves_rewritten nextLSN ready checked stored change written.leaf
    obtain ⟨tree, _⟩ :=
      afterRewrite_frame nextLSN (route key first rest) checked record final ready
    refine stored'.chained ready' ?_
    rw [tree]
    refine (chained.linked ready stored).congr fun id member => ?_
    rw [World.nextLeaf, afterRewrite_pages]
    by_cases same : id = route key first rest
    · rw [same, Function.update_self]
      exact written.next
    · rw [Function.update_of_ne same]
      rfl
  | @rootSplit root pairs i m leftPage rightPage rootPage w₁ w₂ stored split parts =>
    obtain ⟨ready', stored', _⟩ := preserves_rootSplit nextLSN ready stored parts space split
    obtain ⟨leftIs, rightIs, _⟩ := parts.pages nextLSN ready stored (by omega)
    have tree : w₂.tree = w.tree := by
      rw [parts.divided, World.splitInto_tree, parts.start, World.createNode_tree, World.enter_tree]
    have chain : Linked w.nextLeaf w.tree.firstLeafNodePageId ([] ++ root :: []) 0 :=
      chained.linked ready stored
    refine stored'.chained ready' ?_
    rw [World.afterRootSplit_firstLeaf, tree]
    refine chain.insertAfter (by simp) ?toNew ?fromNew ?same
    case toNew =>
      rw [World.nextLeaf, leftIs]
      exact parts.left.next
    case fromNew =>
      rw [World.nextLeaf, rightIs]
      exact parts.right.next
    case same =>
      intro z member different
      exact absurd (by simpa using member) different
  | @leafSplit first before after pairs leaf i m leftPage rightPage rootPage w₁ w₂ stored height
      routed split below above parts =>
    obtain ⟨ready', stored', _⟩ :=
      preserves_leafSplit nextLSN ready stored height routed parts (by omega) split below above
    obtain ⟨leftIs, rightIs, _, others⟩ := parts.pages nextLSN ready stored height routed
    have child : leaf ∈ children first (before ++ after) := routed ▸ route_mem key first _
    have here : route m.key first (before ++ after) = leaf :=
      stored.routed leaf child m (List.mem_of_getElem? split.middle)
    -- the new leaf comes right after the one it was split from
    obtain ⟨front, cut⟩ := children_cut first (fun entry member => le_of_lt
      (below entry member)) above
    rw [here] at cut
    have tree : w₂.tree = w.tree := by
      rw [parts.divided, World.splitInto_tree, parts.start, World.acquire_tree, World.enter_tree]
    have chain : Linked w.nextLeaf w.tree.firstLeafNodePageId
        (front ++ leaf :: after.map Prod.snd) 0 := by
      rw [← cut after]
      exact chained.linked ready stored
    have nodup := stored.nodup
    rw [cut after] at nodup
    refine stored'.chained ready' ?_
    rw [World.afterLeafSplit_tree, tree, cut ((m.key, w.nextPage) :: after)]
    refine chain.insertAfter nodup ?toNew ?fromNew ?same
    case toNew =>
      rw [World.nextLeaf, leftIs]
      exact parts.left.next
    case fromNew =>
      rw [World.nextLeaf, rightIs]
      exact parts.right.next
    case same =>
      intro z member different
      rw [← cut after] at member
      have apart : z ≠ w.tree.rootNodePageId := fun root =>
        (stored.nodeRoot height).2 (root ▸ member)
      rw [World.nextLeaf, others z (stored.allocated z member).2 different apart]
      rfl

theorem Deleted.chained {w' : World} (ready : Ready w) (outcome : Deleted key w w')
    (chained : ChainedLeaves w) : ChainedLeaves w' := by
  cases outcome with
  | empty => exact chained
  | @erased first rest pairs page stored leaf keeps =>
    obtain ⟨ready', stored'⟩ := preserves_erased ready stored leaf
    obtain ⟨tree, pages, _⟩ := rewriteLeaf_frame (w := w) (route key first rest) page
    refine stored'.chained ready' ?_
    rw [tree]
    refine (chained.linked ready stored).congr fun id member => ?_
    rw [World.nextLeaf, pages]
    by_cases same : id = route key first rest
    · rw [same, Function.update_self]
      exact keeps.getNext
    · rw [Function.update_of_ne same]
      rfl

end BPlusTree

theorem SameStore.chained {w w' : World} (same : SameStore w w') (chained : ChainedLeaves w) :
    ChainedLeaves w' := by
  intro present
  rw [same.tree] at present ⊢
  obtain ⟨ids, reached, chain⟩ := chained present
  refine ⟨ids, ?_, ?_⟩
  · rw [same.pages, same.filePages]
    exact reached
  · refine chain.congr fun id _ => ?_
    rw [World.nextLeaf, same.pages]
    rfl

theorem chainedLeaves_of_reach {nextLSN : List LogEntry → UInt64} {s : Session}
    (reached : Reach (CallStep nextLSN) CallOk Opened s) : ChainedLeaves s.world := by
  refine invariant_of_reach (fun w fresh present => ?_)
    (fun s call s' agrees grows outcome chained => ?_) reached
  · exact absurd fresh.noRoot present
  · cases outcome with
    | insert inserted => exact inserted.chained nextLSN agrees.ready grows chained
    | delete deleted => exact deleted.chained agrees.ready chained
    | get same => exact same.chained chained

end CambiumDB
