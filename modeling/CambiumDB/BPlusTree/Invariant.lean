import CambiumDB.BPlusTree.Allocation
import CambiumDB.Lib.Placement
import CambiumDB.PageCodec.InternalPage

/-!
# What the pages of a tree mean

A tree of height at most two is a list of separators over leaf pages; with no separator the
root is the only leaf. Every key is stored in the leaf it is routed to, so the tree denotes
the map that looks a key up in that leaf. Taller trees do not occur in the runs that are
proved correct here: an internal node that splits gets a sibling that decodes as a leaf.
-/

namespace CambiumDB

open ByteBuffer Router TreeM

open LeafNodeCodec (LeafPage)

open InternalNodeCodec (InternalPage)

/-- The store between two operations: no guard is held and no call fails. -/
structure Ready (w : World) : Prop extends w.Allocating where
  guards : w.guards = []
  faults : ∀ n, w.faults n = false

theorem Ready.within {w : World} (ready : Ready w) {id : UInt64}
    (allocated : id ≤ w.metadata.maxAllocatedPageId) : id.toNat < w.filePages :=
  lt_of_le_of_lt (UInt64.le_iff_toNat_le.mp allocated) ready.inside

/-- A tree with at least one leaf. -/
structure Stored (w : World) (first : UInt64) (rest : List (Bytes × UInt64))
    (pairs : UInt64 → List LeafNodeElement) : Prop where
  sorted : (rest.map Prod.fst).Pairwise (· < ·)
  nodup : (children first rest).Nodup
  leafRoot : rest = [] → w.tree.rootNodePageId = first
  nodeRoot : rest ≠ [] → InternalPage (w.pages w.tree.rootNodePageId) first rest ∧
    w.tree.rootNodePageId ∉ children first rest
  rootAllocated : w.tree.rootNodePageId ≠ 0 ∧
    w.tree.rootNodePageId ≤ w.metadata.maxAllocatedPageId
  allocated : ∀ id ∈ children first rest, id ≠ 0 ∧ id ≤ w.metadata.maxAllocatedPageId
  leaves : ∀ id ∈ children first rest, LeafPage (w.pages id) (pairs id)
  routed : ∀ id ∈ children first rest, ∀ e ∈ pairs id, route e.key first rest = id

theorem Stored.placed {w : World} {first : UInt64} {rest : List (Bytes × UInt64)}
    {pairs : UInt64 → List LeafNodeElement} (stored : Stored w first rest pairs) :
    Placed LeafNodeElement.key first rest pairs :=
  ⟨stored.sorted, stored.nodup, stored.routed⟩

/-- The pages of a tree are not page 0. -/
theorem Stored.congr {w w' : World} {first : UInt64} {rest : List (Bytes × UInt64)}
    {pairs : UInt64 → List LeafNodeElement} (stored : Stored w first rest pairs)
    (root : w'.tree.rootNodePageId = w.tree.rootNodePageId)
    (allocated : w'.metadata.maxAllocatedPageId = w.metadata.maxAllocatedPageId)
    (pages : ∀ id ≠ 0, w'.pages id = w.pages id) : Stored w' first rest pairs := by
  refine ⟨stored.sorted, stored.nodup, ?_, ?_, ?_, ?_, ?_, stored.routed⟩
  · rw [root]
    exact stored.leafRoot
  · rw [root, pages _ stored.rootAllocated.1]
    exact stored.nodeRoot
  · rw [root, allocated]
    exact stored.rootAllocated
  · rw [allocated]
    exact stored.allocated
  · intro id member
    rw [pages id (stored.allocated id member).1]
    exact stored.leaves id member

/-- The map that the leaves denote. -/
def denotes (first : UInt64) (rest : List (Bytes × UInt64)) (pairs : UInt64 → List LeafNodeElement)
    (key : Bytes) : Option Bytes :=
  (SortedList.lookup LeafNodeElement.key key (pairs (route key first rest))).map
    LeafNodeElement.value

/-- The tree of `w` holds exactly the entries of `m`. -/
inductive Holds (w : World) : (Bytes → Option Bytes) → Prop
  | empty : w.tree.rootNodePageId = 0 → LeafPage (w.pages 0) [] → Holds w fun _ => none
  | stored {first : UInt64} {rest : List (Bytes × UInt64)}
      {pairs : UInt64 → List LeafNodeElement} :
      Stored w first rest pairs → Holds w (denotes first rest pairs)

theorem Holds.stored_of_root {w : World} {m : Bytes → Option Bytes} (holds : Holds w m)
    (present : w.tree.rootNodePageId ≠ 0) :
    ∃ first rest pairs, Stored w first rest pairs ∧ m = denotes first rest pairs := by
  cases holds with
  | empty root _ => exact absurd root present
  | stored stored => exact ⟨_, _, _, stored, rfl⟩

theorem Holds.stored_of_entry {w : World} {m : Bytes → Option Bytes} (holds : Holds w m)
    {key : Bytes} (entry : m key ≠ none) : ∃ first rest pairs, Stored w first rest pairs := by
  cases holds with
  | empty root _ => exact absurd rfl entry
  | stored stored => exact ⟨_, _, _, stored⟩

/-! ### Reading nodes -/

/-! ### Operations that only look -/

/-- A guard that is taken and given back. -/
def World.visit (w : World) (id : UInt64) : World := (w.acquire id).release id

theorem World.visit_guards (w : World) (id : UInt64) : (w.visit id).guards = w.guards :=
  List.erase_cons_head ..

/-- Nothing but the counter and the history differs. -/
structure SameStore (w w' : World) : Prop where
  tree : w'.tree = w.tree
  pages : w'.pages = w.pages
  filePages : w'.filePages = w.filePages
  metadata : w'.metadata = w.metadata
  log : w'.log = w.log
  faults : w'.faults = w.faults
  guards : w'.guards = w.guards

theorem SameStore.visit (w : World) (id : UInt64) : SameStore w (w.visit id) :=
  ⟨rfl, rfl, rfl, rfl, rfl, rfl, w.visit_guards id⟩

theorem SameStore.trans {a b c : World} (first : SameStore a b) (second : SameStore b c) :
    SameStore a c :=
  ⟨second.tree.trans first.tree, second.pages.trans first.pages,
    second.filePages.trans first.filePages, second.metadata.trans first.metadata,
    second.log.trans first.log, second.faults.trans first.faults, second.guards.trans first.guards⟩

theorem SameStore.ready {w w' : World} (same : SameStore w w') (ready : Ready w) : Ready w' := by
  refine ⟨ready.toAllocating.congr ?_ ?_ same.filePages fun id _ => ?_,
    same.guards.trans ready.guards, same.faults ▸ ready.faults⟩
  · rw [same.metadata]
  · rw [same.metadata]
  · rw [same.pages]

theorem SameStore.stored {w w' : World} (same : SameStore w w') {first : UInt64}
    {rest : List (Bytes × UInt64)} {pairs : UInt64 → List LeafNodeElement}
    (stored : Stored w first rest pairs) : Stored w' first rest pairs := by
  refine ⟨stored.sorted, stored.nodup, ?_, ?_, ?_, ?_, ?_, stored.routed⟩
  · rw [same.tree]
    exact stored.leafRoot
  · rw [same.tree, same.pages]
    exact stored.nodeRoot
  · rw [same.tree, same.metadata]
    exact stored.rootAllocated
  · rw [same.metadata]
    exact stored.allocated
  · rw [same.pages]
    exact stored.leaves

theorem SameStore.holds {w w' : World} {m : Bytes → Option Bytes} (same : SameStore w w')
    (holds : Holds w m) : Holds w' m := by
  cases holds with
  | empty root page => exact .empty (same.tree ▸ root) (same.pages ▸ page)
  | stored stored => exact .stored (same.stored stored)

/-! ### Get -/

namespace BPlusTree

/-- The answer that `Get` owes for a lookup result. -/
def answer (key : Bytes) : Option Bytes → Except Failure Bytes
  | some value => .ok value
  | none => .error (.error (.keyNotFound key))

theorem readTraversal_leaf {fuel : Nat} {key : Bytes} {id : UInt64} {w : World}
    {found : Option Bytes} (leaf : HeaderCodec.isLeafNode (w.pages id) = true)
    (look : LeafNodeCodec.findValue (w.pages id) key = some found) :
    readTraversal (fuel + 1) key id w = (answer key found, w) := by
  have isLeaf : BPlusTree.isLeafNode id w = (.ok true, w) := by
    rw [BPlusTree.isLeafNode, get_apply, leaf]
  rw [readTraversal, bind_ok isLeaf, if_pos rfl, bind_ok (get_apply _ w), look,
    bind_ok (orPanic_some _ w)]
  cases found <;> rfl

theorem isLeafNode_false {id : UInt64} {w : World}
    (internal : HeaderCodec.isLeafNode (w.pages id) = false) :
    BPlusTree.isLeafNode id w = (.ok false, w) := by
  rw [BPlusTree.isLeafNode, get_apply, internal]

theorem get_eq (key : Bytes) (w : World) : get key w = (do
    newGuard w.tree.rootNodePageId
    deferDone w.tree.rootNodePageId
      (readTraversal (w.filePages + 1) key w.tree.rootNodePageId)) w := by
  rw [get, bind_ok (get_apply _ w), bind_ok (get_apply _ w)]

section
variable {w : World} {key : Bytes} {found : Option Bytes} (faults : ∀ n, w.faults n = false)
  (inside : w.tree.rootNodePageId.toNat < w.filePages) (free : w.tree.rootNodePageId ∉ w.guards)
include faults inside free

/-- A root that is a leaf answers itself. -/
theorem get_atRoot (leaf : HeaderCodec.isLeafNode (w.pages w.tree.rootNodePageId) = true)
    (look : LeafNodeCodec.findValue (w.pages w.tree.rootNodePageId) key = some found) :
    get key w = (answer key found, w.visit w.tree.rootNodePageId) := by
  rw [get_eq, bind_ok (newGuard_ok (faults _) inside free), deferDone,
    readTraversal_leaf (w := w.acquire w.tree.rootNodePageId) leaf look]
  rfl

/-- A leaf below the root answers while both guards are held. -/
theorem get_atChild {child : UInt64}
    (internal : HeaderCodec.isLeafNode (w.pages w.tree.rootNodePageId) = false)
    (next : InternalNodeCodec.findNextChildNodePageId (w.pages w.tree.rootNodePageId) key =
      some child)
    (childInside : child.toNat < w.filePages) (childFree : child ∉ w.guards)
    (apart : child ≠ w.tree.rootNodePageId) (leaf : HeaderCodec.isLeafNode (w.pages child) = true)
    (look : LeafNodeCodec.findValue (w.pages child) key = some found) :
    get key w = (answer key found,
      ((w.acquire w.tree.rootNodePageId).visit child).release w.tree.rootNodePageId) := by
  have page : (w.acquire w.tree.rootNodePageId).pages w.tree.rootNodePageId =
      w.pages w.tree.rootNodePageId := rfl
  have unheld : child ∉ (w.acquire w.tree.rootNodePageId).guards := by
    rw [World.acquire_guards, List.mem_cons, not_or]
    exact ⟨apart, childFree⟩
  obtain ⟨more, enough⟩ : ∃ more, w.filePages = more + 1 := ⟨w.filePages - 1, by omega⟩
  rw [get_eq, bind_ok (newGuard_ok (faults _) inside free), deferDone, readTraversal,
    bind_ok (isLeafNode_false (w := w.acquire w.tree.rootNodePageId) internal),
    if_neg (by decide), bind_ok (get_apply _ _), page, next, bind_ok (orPanic_some _ _),
    bind_ok (newGuard_ok (w := w.acquire _) (faults _) childInside unheld), deferDone, enough,
    readTraversal_leaf (w := (w.acquire _).acquire _) leaf look]
  rfl

end

/-- In a tree of height two `Get` has the guards of the root and of one leaf, and gives them back
when it returns. -/
theorem get_twoLevels {w : World} {first : UInt64} {rest : List (Bytes × UInt64)}
    {pairs : UInt64 → List LeafNodeElement} (ready : Ready w) (stored : Stored w first rest pairs)
    (height : rest ≠ []) (key : Bytes) :
    get key w = (answer key (denotes first rest pairs key),
      ((w.acquire w.tree.rootNodePageId).visit (route key first rest)).release
        w.tree.rootNodePageId) := by
  obtain ⟨node, outside⟩ := stored.nodeRoot height
  have child := route_mem key first rest
  have leaf := stored.leaves _ child
  have noGuard (id : UInt64) : id ∉ w.guards := by simp [ready.guards]
  exact get_atChild ready.faults (ready.within stored.rootAllocated.2) (noGuard _)
    (node.isLeafNode height) (node.findNextChild height stored.sorted key)
    (ready.within (stored.allocated _ child).2) (noGuard _) (fun same => outside (same ▸ child))
    leaf.isLeafNode (leaf.findValue key)

/-- `Get` answers as the map does and leaves the store as it was. -/
theorem get_run {w : World} {m : Bytes → Option Bytes} (ready : Ready w) (holds : Holds w m)
    (key : Bytes) : ∃ w', get key w = (answer key (m key), w') ∧ SameStore w w' := by
  have noGuard (id : UInt64) : id ∉ w.guards := by simp [ready.guards]
  cases holds with
  | empty root leaf =>
    rw [← root] at leaf
    exact ⟨_, get_atRoot ready.faults (root ▸ ready.within UInt64.zero_le) (noGuard _)
      leaf.isLeafNode (leaf.findValue key), .visit w _⟩
  | @stored first rest pairs stored =>
    by_cases single : rest = []
    · subst single
      have same := stored.leafRoot rfl
      have leaf := stored.leaves first (by simp [children])
      rw [← same] at leaf
      refine ⟨_, ?_, .visit w w.tree.rootNodePageId⟩
      rw [get_atRoot ready.faults (ready.within stored.rootAllocated.2) (noGuard _)
        leaf.isLeafNode (leaf.findValue key), denotes, route, same]
    · refine ⟨_, get_twoLevels ready stored single key, rfl, rfl, rfl, rfl, rfl, rfl, ?_⟩
      rw [World.release_guards, World.visit_guards, World.acquire_guards, List.erase_cons_head]

theorem get_of_holds {w : World} {m : Bytes → Option Bytes} (ready : Ready w) (holds : Holds w m)
    (key : Bytes) : (get key w).1 = answer key (m key) := by
  obtain ⟨w', run, _⟩ := get_run ready holds key
  rw [run]

/-- A store represents one map. -/
theorem holds_unique {w : World} {m m' : Bytes → Option Bytes} (ready : Ready w) (holds : Holds w m)
    (holds' : Holds w m') : m = m' := by
  funext key
  have same : answer key (m key) = answer key (m' key) := by
    rw [← get_of_holds ready holds, ← get_of_holds ready holds']
  cases left : m key with
  | none =>
    cases right : m' key with
    | none => rfl
    | some v => rw [left, right] at same; cases same
  | some v =>
    cases right : m' key with
    | none => rw [left, right] at same; cases same
    | some v' => rw [left, right] at same; cases same; rfl

end BPlusTree

end CambiumDB
