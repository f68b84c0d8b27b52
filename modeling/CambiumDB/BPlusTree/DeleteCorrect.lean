import CambiumDB.BPlusTree.Preservation

/-!
# `Delete`

`Delete` looks the leaf up under one guard at a time and then takes the leaf's guard again.
-/

namespace CambiumDB

open ByteBuffer HeaderCodec Router TreeM

open LeafNodeCodec (LeafPage)

open InternalNodeCodec (InternalPage)

namespace World

/-- A leaf is rewritten under its guard. -/
def rewriteLeaf (w : World) (id : UInt64) (page : Page) : World :=
  ((w.acquire id).setPage id page).release id

end World

namespace BPlusTree

variable {w : World} {first : UInt64} {rest : List (Bytes × UInt64)}
  {pairs : UInt64 → List LeafNodeElement}

/-- The store after the leaf of a key was looked up. -/
def lookedUp (w : World) (leaf : UInt64) : World :=
  if leaf = w.tree.rootNodePageId then w.visit leaf else (w.visit w.tree.rootNodePageId).visit leaf

theorem lookedUp_same (w : World) (leaf : UInt64) : SameStore w (lookedUp w leaf) := by
  rw [lookedUp]
  split
  · exact .visit w leaf
  · exact (SameStore.visit w _).trans (.visit _ leaf)

theorem findLeaf_leaf {fuel : Nat} {key : Bytes} {id : UInt64} {held : List LeafNodeElement}
    (leaf : LeafPage (w.pages id) held) (fault : w.faults w.calls = false)
    (inside : id.toNat < w.filePages) (free : id ∉ w.guards) :
    findLeafNodePageId (fuel + 1) key id w = (.ok id, w.visit id) := by
  have isLeaf : BPlusTree.isLeafNode id (w.acquire id) = (.ok true, w.acquire id) := by
    rw [BPlusTree.isLeafNode, get_apply, World.acquire_pages, leaf.isLeafNode]
  rw [findLeafNodePageId, bind_ok (newGuard_ok fault inside free), bind_ok isLeaf, if_pos rfl,
    bind_ok (modify_apply _ _)]
  rfl

theorem findLeaf_run (ready : Ready w) (stored : Stored w first rest pairs) (key : Bytes) :
    findLeafNodePageId (w.filePages + 1) key w.tree.rootNodePageId w =
      (.ok (route key first rest), lookedUp w (route key first rest)) := by
  have child := route_mem key first rest
  have leaf := stored.leaves _ child
  have root := stored.rootAllocated
  have noGuard (id : UInt64) : id ∉ w.guards := by simp [ready.guards]
  by_cases single : rest = []
  · subst single
    have same : route key first [] = w.tree.rootNodePageId := (stored.leafRoot rfl).symm
    rw [same] at leaf ⊢
    rw [findLeaf_leaf leaf (ready.faults _) (ready.within root.2) (noGuard _), lookedUp, if_pos rfl]
  · obtain ⟨node, outside⟩ := stored.nodeRoot single
    have below : route key first rest ≠ w.tree.rootNodePageId := fun same => outside (same ▸ child)
    have internal := isLeafNode_false (w := w.acquire w.tree.rootNodePageId)
      (node.isLeafNode single)
    have next := node.findNextChild single stored.sorted key
    have page : (w.acquire w.tree.rootNodePageId).pages w.tree.rootNodePageId =
        w.pages w.tree.rootNodePageId := rfl
    rw [findLeafNodePageId, bind_ok (newGuard_ok (ready.faults _) (ready.within root.2) (noGuard _)),
      bind_ok internal, if_neg (by decide), bind_ok (get_apply _ _), page, next,
      bind_ok (orPanic_some _ _), bind_ok (modify_apply _ _)]
    obtain ⟨fuel, enough⟩ : ∃ fuel, w.filePages = fuel + 1 :=
      ⟨w.filePages - 1, by have := ready.inside; omega⟩
    have free : route key first rest ∉ (w.visit w.tree.rootNodePageId).guards := by
      rw [World.visit_guards]
      exact noGuard _
    rw [lookedUp, if_neg below, enough]
    exact findLeaf_leaf (w := w.visit w.tree.rootNodePageId) leaf (ready.faults _)
      (ready.within (stored.allocated _ child).2) free

/-- `Delete` once the leaf is known. -/
theorem delete_run (ready : Ready w) (stored : Stored w first rest pairs) {key : Bytes}
    {found : Bool} {page : Page}
    (deleted : LeafNodeCodec.deleteElement (w.pages (route key first rest)) key =
      some (found, page)) :
    delete key w = (if found then .ok () else .error (.error (.keyNotFound key)),
      (lookedUp w (route key first rest)).rewriteLeaf (route key first rest) page) := by
  have child := route_mem key first rest
  have same := lookedUp_same w (route key first rest)
  have inside : (route key first rest).toNat < (lookedUp w (route key first rest)).filePages := by
    rw [same.filePages]
    exact ready.within (stored.allocated _ child).2
  have free : route key first rest ∉ (lookedUp w (route key first rest)).guards := by
    simp [same.guards, ready.guards]
  have fault (n : Nat) : (lookedUp w (route key first rest)).faults n = false := by
    rw [same.faults]
    exact ready.faults n
  have deleted' : LeafNodeCodec.deleteElement
      (((lookedUp w (route key first rest)).acquire (route key first rest)).pages
        (route key first rest)) key = some (found, page) := by
    rw [World.acquire_pages, same.pages]
    exact deleted
  rw [delete, bind_ok (get_apply _ w), if_neg stored.rootAllocated.1, bind_ok (get_apply _ w),
    bind_ok (findLeaf_run ready stored key), bind_ok (newGuard_ok (fault _) inside free), deferDone,
    bind_ok (applyPage_ok deleted')]
  cases found <;> rfl

theorem rewriteLeaf_frame (leaf : UInt64) (page : Page) :
    ((lookedUp w leaf).rewriteLeaf leaf page).tree = w.tree ∧
      ((lookedUp w leaf).rewriteLeaf leaf page).pages = Function.update w.pages leaf page ∧
      ((lookedUp w leaf).rewriteLeaf leaf page).filePages = w.filePages ∧
      ((lookedUp w leaf).rewriteLeaf leaf page).metadata = w.metadata ∧
      ((lookedUp w leaf).rewriteLeaf leaf page).log = w.log ∧
      ((lookedUp w leaf).rewriteLeaf leaf page).faults = w.faults ∧
      ((lookedUp w leaf).rewriteLeaf leaf page).guards = w.guards := by
  have same := lookedUp_same w leaf
  refine ⟨same.tree, ?_, same.filePages, same.metadata, same.log, same.faults, ?_⟩
  · rw [← same.pages]
    rfl
  · rw [← same.guards]
    exact List.erase_cons_head ..

theorem rewriteLeaf_ready (ready : Ready w) {leaf : UInt64} (page : Page)
    (old : leaf ≤ w.metadata.maxAllocatedPageId) :
    Ready ((lookedUp w leaf).rewriteLeaf leaf page) := by
  obtain ⟨_, pages, size, metadata, _, faults, guards⟩ := rewriteLeaf_frame (w := w) leaf page
  refine ⟨ready.toAllocating.congr ?_ ?_ size ?_, guards.trans ready.guards,
    faults ▸ ready.faults⟩
  · rw [metadata]
  · rw [metadata]
  · intro id later
    rw [pages, Function.update_of_ne]
    exact (UInt64.ne_of_lt (UInt64.lt_of_le_of_lt old later)).symm

/-- What `Delete` leaves behind: a tree without a root is not touched, otherwise the leaf of
the key is without it. -/
inductive Deleted (key : Bytes) (w : World) : World → Prop
  | empty : w.tree.rootNodePageId = 0 → Deleted key w w
  | erased {first : UInt64} {rest : List (Bytes × UInt64)}
      {pairs : UInt64 → List LeafNodeElement} {page : Page} (stored : Stored w first rest pairs)
      (leaf : LeafPage page
        (SortedList.erase LeafNodeElement.key key (pairs (route key first rest))))
      (keeps : Keeps (w.pages (route key first rest)) page) :
      Deleted key w ((lookedUp w (route key first rest)).rewriteLeaf (route key first rest) page)

/-- `Delete` returns nil when the key is there and not-found when it is not. -/
theorem delete_outcome {m : Bytes → Option Bytes} (ready : Ready w) (holds : Holds w m)
    (key : Bytes) :
    ∃ w', delete key w = (if (m key).isSome then .ok () else .error (.error (.keyNotFound key)),
      w') ∧ Deleted key w w' := by
  cases holds with
  | empty root _ =>
    refine ⟨w, ?_, .empty root⟩
    rw [delete, bind_ok (get_apply _ w), if_pos root]
    rfl
  | @stored first rest pairs stored =>
    have leaf := stored.leaves _ (route_mem key first rest)
    cases look : SortedList.lookup LeafNodeElement.key key (pairs (route key first rest)) with
    | some e =>
      obtain ⟨page, deleted, leaf', keeps⟩ := leaf.deleteElement look
      refine ⟨_, ?_, .erased stored leaf' keeps⟩
      rw [delete_run ready stored deleted, denotes, look]
      rfl
    | none =>
      have same := SortedList.erase_absent LeafNodeElement.key look
      refine ⟨_, ?_, .erased stored (same.symm ▸ leaf) (.refl _)⟩
      rw [delete_run ready stored (leaf.deleteElement_absent look), denotes, look]
      rfl

theorem denotes_erase (key : Bytes) (pairs : UInt64 → List LeafNodeElement) :
    denotes first rest (Function.update pairs (route key first rest)
        (SortedList.erase LeafNodeElement.key key (pairs (route key first rest)))) =
      Function.update (denotes first rest pairs) key none := by
  funext k
  by_cases same : k = key
  · subst same
    rw [Function.update_self, denotes, Function.update_self, SortedList.lookup_erase, if_pos rfl,
      Option.map_none]
  · rw [Function.update_of_ne same, denotes, denotes]
    by_cases here : route k first rest = route key first rest
    · rw [here, Function.update_self, SortedList.lookup_erase, if_neg same]
    · rw [Function.update_of_ne here]

theorem preserves_erased (ready : Ready w) (stored : Stored w first rest pairs) {key : Bytes}
    {page : Page} (leaf : LeafPage page
      (SortedList.erase LeafNodeElement.key key (pairs (route key first rest)))) :
    Ready ((lookedUp w (route key first rest)).rewriteLeaf (route key first rest) page) ∧
      Stored ((lookedUp w (route key first rest)).rewriteLeaf (route key first rest) page) first rest
        (Function.update pairs (route key first rest)
          (SortedList.erase LeafNodeElement.key key (pairs (route key first rest)))) := by
  have child := route_mem key first rest
  obtain ⟨tree, pages, _, metadata, _⟩ := rewriteLeaf_frame (w := w) (route key first rest) page
  refine ⟨rewriteLeaf_ready ready page (stored.allocated _ child).2,
    stored.rewritten child (by rw [tree]) (by rw [metadata]) ?_ ?_ ?_⟩
  · rw [pages, Function.update_self]
    exact leaf
  · intro p other
    rw [pages, Function.update_of_ne other]
  · intro e member
    exact stored.routed _ child e ((SortedList.mem_erase ..).mp member).1

theorem Deleted.preserves {m : Bytes → Option Bytes} {key : Bytes} {w' : World} (ready : Ready w)
    (holds : Holds w m) (outcome : Deleted key w w') :
    Ready w' ∧ Holds w' (Function.update m key none) := by
  cases outcome with
  | empty root =>
    cases holds with
    | empty _ page =>
      refine ⟨ready, ?_⟩
      rw [Function.update_eq_self_iff.mpr rfl]
      exact .empty root page
    | stored stored => exact absurd root stored.rootAllocated.1
  | erased stored leaf _ =>
    obtain ⟨ready', stored'⟩ := preserves_erased ready stored leaf
    rw [holds_unique ready holds (.stored stored), ← denotes_erase]
    exact ⟨ready', .stored stored'⟩

end BPlusTree

end CambiumDB
