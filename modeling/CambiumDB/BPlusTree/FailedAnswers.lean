import CambiumDB.BPlusTree.FailedInsert
import CambiumDB.BPlusTree.GrowRight

/-!
# What an insert that failed does to the answers of the tree

`Get` is asked before and after, with nothing failing any more.
-/

namespace CambiumDB

open ByteBuffer Router TreeM TransitionSystem

open LeafNodeCodec (LeafPage livePairs)

open InternalNodeCodec (InternalPage)

/-- The same store with no faults ahead. -/
def World.quiet (w : World) : World := w.withFaults fun _ => false

namespace BPlusTree

variable {nextLSN : List LogEntry → UInt64} {w w' : World} {key value : Bytes}

section
variable {first : UInt64} {rest : List (Bytes × UInt64)} {pairs : UInt64 → List LeafNodeElement}
  {found : Option Bytes}

/-- What `Get` answers in a store that still has the routes of a tree. -/
theorem get_routed (stored : Stored w first rest pairs)
    (inside : w.metadata.maxAllocatedPageId.toNat < w.filePages) (tree : w'.tree = w.tree) (size : w.filePages ≤ w'.filePages)
    (guards : w'.guards = [])
    (node : rest ≠ [] → InternalPage (w'.pages w.tree.rootNodePageId) first rest)
    (leaf : HeaderCodec.isLeafNode (w'.pages (route key first rest)) = true)
    (look : LeafNodeCodec.findValue (w'.pages (route key first rest)) key = some found) :
    (get key w'.quiet).1 = answer key found := by
  have noGuard (id : UInt64) : id ∉ w'.quiet.guards := by
    show id ∉ w'.guards
    simp [guards]
  have within {id : UInt64} (old : id ≤ w.metadata.maxAllocatedPageId) : id.toNat < w'.quiet.filePages :=
    lt_of_le_of_lt (UInt64.le_iff_toNat_le.mp old) (lt_of_lt_of_le inside size)
  have root : w'.quiet.tree.rootNodePageId = w.tree.rootNodePageId :=
    congrArg BPlusTree.rootNodePageId tree
  have rootInside := within stored.rootAllocated.2
  rw [← root] at rootInside
  by_cases single : rest = []
  · subst single
    have same : route key first [] = w'.quiet.tree.rootNodePageId := by
      rw [root, stored.leafRoot rfl]
      rfl
    rw [same] at leaf look
    rw [get_atRoot (w := w'.quiet) (fun _ => rfl) rootInside (noGuard _) leaf look]
  · have routed := route_mem key first rest
    have node' := node single
    rw [← root] at node'
    rw [get_atChild (w := w'.quiet) (fun _ => rfl) rootInside (noGuard _) (node'.isLeafNode single)
      (node'.findNextChild single stored.sorted key) (within (stored.allocated _ routed).2) (noGuard _)
      (fun same => (stored.nodeRoot single).2 (root ▸ same ▸ routed)) leaf look]

section
variable (stored : Stored w first rest pairs)
  (inside : w.metadata.maxAllocatedPageId.toNat < w.filePages) (guards : w'.guards = [])
include stored inside guards

theorem Undisturbed.get (h : Undisturbed w w') (key : Bytes) :
    (get key w'.quiet).1 = answer key (denotes first rest pairs key) := by
  have routed := route_mem key first rest
  have leaf := (h.pages _ (stored.allocated _ routed).2).leaf (stored.leaves _ routed)
  refine get_routed stored inside h.tree h.filePages guards (fun nonempty => ?_) leaf.isLeafNode
    (leaf.findValue key)
  exact (h.pages _ stored.rootAllocated.2).node nonempty (stored.nodeRoot nonempty).1

/-- The upper half of the leaf is out of reach. -/
theorem Halved.get {leaf : UInt64} (h : Halved w w' leaf) (known : leaf ∈ children first rest) :
    ∃ m ∈ pairs leaf, (get m.key w'.quiet).1 = answer m.key none := by
  obtain ⟨isLeaf, lower, m, live, member, below⟩ := h.lower _ (stored.leaves leaf known)
  have routed := stored.routed leaf known m member
  refine ⟨m, member, get_routed stored inside h.tree h.filePages guards (fun nonempty => ?_) ?_ ?_⟩
  · obtain ⟨node, outside⟩ := stored.nodeRoot nonempty
    have apart : w.tree.rootNodePageId ≠ leaf := fun same => outside (same ▸ known)
    exact (h.others _ stored.rootAllocated.2 apart).node nonempty node
  · rwa [routed]
  · have absent : SortedList.lookup LeafNodeElement.key m.key lower = none :=
      (SortedList.lookup_eq_none_iff _ _ _).2 fun e inside => ne_of_lt (below e inside)
    rw [routed, LeafNodeCodec.findValue_of_livePairs live, absent]
    rfl

end

section
variable (stored : Stored w first rest pairs)
  (inside : w.metadata.maxAllocatedPageId.toNat < w.filePages) (unguarded : w.guards = [])
include stored inside unguarded

end

end

/-! ### A tree without a root -/

section
variable (alloc : w.Allocating) (empty : w.tree.rootNodePageId = 0) (blank : LeafPage (w.pages 0) [])
include alloc empty blank

end

end BPlusTree

end CambiumDB
