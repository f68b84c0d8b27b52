import CambiumDB.StorageEngine.MetaDataPage
import CambiumDB.StorageEngine.FirstInsert

/-!
# Closing a tree and opening it again

A tree is closed by `CloseBPlusTree` or by `Close` of the engine; both copy its root and its
first leaf into the maps of the metadata. `NewBPlusTree` of the tree package reads the root
back and not the first leaf.
-/

namespace CambiumDB

open TransitionSystem

namespace StorageEngine

/-- The root and the first leaf of a tree in the metadata. -/
def recorded (e : StorageEngine) (id : UInt64) : UInt64 × UInt64 :=
  (e.world.metadata.rootPages.get id, e.world.metadata.firstLeafNodePages.get id)

variable (nextLSN : List LogEntry → UInt64)

theorem findTree_eq_none_iff {e : StorageEngine} {id : UInt64} :
    e.findTree id = none ↔ id ∉ e.openBPlusTrees.map BPlusTree.bPlusTreeId := by
  constructor
  · intro absent member
    obtain ⟨tree, listed, same⟩ := List.mem_map.1 member
    exact not_mem_of_findTree absent tree listed same
  · intro absent
    cases found : e.findTree id with
    | none => rfl
    | some tree =>
      obtain ⟨listed, same⟩ := findTree_spec found
      exact absurd (List.mem_map.2 ⟨tree, listed, same⟩) absent

variable {nextLSN} {e e' : StorageEngine} {op : Op} {id : UInt64}

/-- A `Close` of the engine records its open trees and keeps what the others have. -/
theorem closing_recorded (id : UInt64) (wf : e.WellFormed) {order : List BPlusTree}
    (perm : order.Perm e.openBPlusTrees) :
    (∀ tree, e.findTree id = some tree →
      ((e.closing order).metadata.rootPages.get id,
        (e.closing order).metadata.firstLeafNodePages.get id) =
        (tree.rootNodePageId, tree.firstLeafNodePageId)) ∧
    (e.findTree id = none →
      ((e.closing order).metadata.rootPages.get id,
        (e.closing order).metadata.firstLeafNodePages.get id) = e.recorded id) := by
  rw [closing, foldl_closeTree_rootPages, foldl_closeTree_firstLeafNodePages]
  constructor
  · intro tree found
    obtain ⟨member, rfl⟩ := findTree_spec found
    have listed := perm.mem_iff.2 member
    have distinct := nodup_of_perm wf perm
    rw [PageMap.get_setAll_of_mem _ _ _ distinct listed,
      PageMap.get_setAll_of_mem _ _ _ distinct listed]
  · intro absent
    rw [findTree_eq_none_iff, ← (perm.map BPlusTree.bPlusTreeId).mem_iff] at absent
    rw [PageMap.get_setAll_of_not_mem _ _ _ absent, PageMap.get_setAll_of_not_mem _ _ _ absent]
    rfl

end StorageEngine

end CambiumDB
