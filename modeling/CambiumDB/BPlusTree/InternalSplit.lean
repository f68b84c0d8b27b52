import CambiumDB.BPlusTree.CleanRun

/-!
# Splits of internal nodes

`HandleInternalRootNodeSplit` and `HandleInternalNodeSplit` create pages for internal nodes
and never set their type, which is leaf on a blank page. After the first such split the
root of the tree decodes as a leaf.
-/

namespace CambiumDB

open ByteBuffer HeaderConfig HeaderCodec Router TreeM

open LeafNodeCodec (LeafPage Clean spaceRequired)

open InternalNodeCodec (InternalPage Separators separatorSpace)

namespace BPlusTree

variable (nextLSN : List LogEntry → UInt64) {w : World}

/-- A separator above all others goes to the right half; the parent is only stamped. -/
theorem moveToRightNode_last (faults : ∀ n, w.faults n = false)
    {left right parent first child : UInt64} (apart : left ≠ right) (leftApart : parent ≠ left)
    (rightApart : parent ≠ right) {rest : List (Bytes × UInt64)} {i : Nat}
    {separator insertKey : Bytes} (insertRight : UInt64)
    (node : Separators (w.pages left) first rest)
    (index : InternalNodeCodec.splitIndex rest = i) (middle : rest[i]? = some (separator, child))
    (last : separator < insertKey) (above : ∀ entry ∈ rest.drop (i + 1), entry.1 < insertKey)
    (room : separatorSpace insertKey +
      ((rest.drop (i + 1)).map fun entry => separatorSpace entry.1).sum ≤ 4064) :
    ∃ w', moveToRightNode nextLSN left right parent insertKey
        (route insertKey child (rest.drop (i + 1))) insertRight w =
          (.ok (separator, left, right), w') ∧
      w'.tree = w.tree ∧ w'.faults = w.faults ∧ (∀ entry ∈ w.log, entry ∈ w'.log) ∧
      w'.pages parent = InternalNodeCodec.setLSN (w.pages parent) (nextLSN w.log) := by
  obtain ⟨payload, encoded⟩ := node.encodeAllElements
  have found := node.findSplitNodeIndex
  rw [index] at found
  obtain ⟨left', right', cut, _, rightHalf⟩ := (node.setLSN (nextLSN w.log)).splitNode
    (InternalNodeCodec.setLSN (w.pages right) (nextLSN w.log)) right middle
  have rightSpace := rightHalf.space
  rw [← List.append_nil (rest.drop (i + 1))] at rightHalf
  obtain ⟨right'', inserted, _, _⟩ := rightHalf.insertElement (rest.drop (i + 1)) [] insertRight
    above (by simp) (by rw [headerSize] at rightSpace; omega)
  rw [List.append_nil] at inserted
  have notLess : ¬ compareBytes insertKey separator = .lt := fun less =>
    lt_asymm last ((compareBytes_eq_lt _ _).mp less)
  refine ⟨?after, ?run, ?tree, ?faults, ?log, ?parent⟩
  case run =>
    rw [moveToRightNode, bind_ok (get_apply _ _), bind_ok (get_apply _ _), found,
      bind_ok (orPanic_some _ _), encoded, bind_ok (orPanic_some _ _)]
    simp only
    rw [bind_ok (logRecord_ok (faults _)), bind_ok (modifyPage_apply _ _ _),
      bind_ok (modifyPage_apply _ _ _), bind_ok (modifyPage_apply _ _ _), bind_ok (get_apply _ _),
      bind_ok (get_apply _ _)]
    rw [World.setPage_pages_ne _ leftApart.symm, World.setPage_pages_self,
      World.setPage_pages_ne _ rightApart.symm, World.setPage_pages_ne _ apart,
      World.setPage_pages_ne _ apart.symm, World.setPage_pages_self, World.append_pages,
      World.append_pages, cut, bind_ok (orPanic_some _ _)]
    simp only
    rw [bind_ok (modifyPage_apply _ _ _), bind_ok (modifyPage_apply _ _ _), if_neg notLess,
      bind_ok (applyPage_setPage inserted)]
    rfl
  case tree => rfl
  case faults => rfl
  case log =>
    intro entry member
    exact List.mem_append_left _ member
  case parent =>
    rw [World.setPage_pages_ne _ rightApart, World.setPage_pages_ne _ leftApart,
      World.setPage_pages_self, World.setPage_pages_ne _ leftApart,
      World.setPage_pages_ne _ rightApart, World.append_pages]

section
variable {left first child : UInt64} {rest : List (Bytes × UInt64)} {i : Nat}
  {separator insertKey : Bytes} (insertRight : UInt64) (faults : ∀ n, w.faults n = false)
  (alloc : w.Allocating) (old : left ≤ w.metadata.maxAllocatedPageId)
  (node : Separators (w.pages left) first rest)
  (index : InternalNodeCodec.splitIndex rest = i) (middle : rest[i]? = some (separator, child))
  (last : separator < insertKey) (above : ∀ entry ∈ rest.drop (i + 1), entry.1 < insertKey)
  (room : separatorSpace insertKey +
    ((rest.drop (i + 1)).map fun entry => separatorSpace entry.1).sum ≤ 4064)
include faults alloc old node index middle last above room

theorem handleInternalNodeSplit_last {parent : UInt64} (space : w.filePages + 16 ≤ maxFilePages)
    (free : w.nextPage ∉ w.guards) (oldParent : parent ≤ w.metadata.maxAllocatedPageId)
    (apart : parent ≠ left) :
    ∃ w' lsn, handleInternalNodeSplit nextLSN left parent insertKey
        (route insertKey child (rest.drop (i + 1))) insertRight w =
          (.ok (separator, left, w.nextPage), w') ∧
      w'.tree = w.tree ∧ w'.faults = w.faults ∧ (∀ entry ∈ w.log, entry ∈ w'.log) ∧
      w'.pages parent = InternalNodeCodec.setLSN (w.pages parent) lsn := by
  obtain ⟨w₁, created⟩ : ∃ w₁, w₁ = w.create nextLSN .internal := ⟨_, rfl⟩
  have same : w₁.pages left = w.pages left := created ▸ World.create_other alloc .internal old
  have sameParent : w₁.pages parent = w.pages parent :=
    created ▸ World.create_other alloc .internal oldParent
  have faults₁ : ∀ n, w₁.faults n = false := created ▸ faults
  rw [← same] at node
  obtain ⟨w₂, moved, tree, faults₂, log, stamped⟩ := moveToRightNode_last nextLSN faults₁
    (UInt64.ne_of_lt (alloc.lt_nextPage old)) apart (UInt64.ne_of_lt (alloc.lt_nextPage oldParent))
    insertRight node index middle last above room
  refine ⟨w₂.release w.nextPage, nextLSN w₁.log, ?_, ?_, ?_, ?_, ?_⟩
  · rw [handleInternalNodeSplit, bind_ok (get_apply _ w),
      bind_ok (newPage_ok alloc (faults _) space)]
    simp only
    rw [bind_ok (newGuardOrCleanup_ok (w := w.allocate) (faults _) alloc.nextPage_inside free)]
    apply deferDone_ok
    rw [bind_ok (logRecord_ok (w := w.allocate.acquire w.nextPage) (faults _)),
      bind_ok (modifyPage_apply _ _ _)]
    rw [created] at moved
    exact moved
  · rw [World.release_tree, tree, created]
    rfl
  · have kept : w₁.faults = w.faults := by rw [created]; rfl
    exact faults₂.trans kept
  · intro entry member
    apply log
    rw [created]
    exact List.mem_append_left _ member
  · rw [World.release_pages, stamped, sameParent]

/-- The new root of an internal root split holds its separator on a page of type leaf. -/
theorem handleInternalRootNodeSplit_last (space : w.filePages + 32 ≤ maxFilePages)
    (guarded : ∀ g ∈ w.guards, g ≤ w.metadata.maxAllocatedPageId)
    (fits : separatorSpace separator ≤ 4064) :
    ∃ w', handleInternalRootNodeSplit nextLSN left insertKey
        (route insertKey child (rest.drop (i + 1))) insertRight w = (.ok (), w') ∧
      w'.faults = w.faults ∧ w'.tree.bPlusTreeId = w.tree.bPlusTreeId ∧
      w'.tree.rootNodePageId = w.nextPage ∧
      (∃ entry ∈ w'.log, entry.record =
        .createPage w.tree.bPlusTreeId w.nextPage .internal .fileExpansion) ∧
      HeaderCodec.isLeafNode (w'.pages w.nextPage) = true := by
  have newer := alloc.lt_nextPage (UInt64.le_refl _)
  have free : w.nextPage ∉ w.guards := fun member =>
    UInt64.lt_irrefl _ (UInt64.lt_of_lt_of_le newer (guarded _ member))
  obtain ⟨w₁, created⟩ : ∃ w₁, w₁ = w.create nextLSN .internal := ⟨_, rfl⟩
  have alloc₁ : w₁.Allocating := created ▸ World.create_allocating alloc .internal (by omega)
  have last₁ : w₁.metadata.maxAllocatedPageId = w.nextPage := by rw [created]; rfl
  have same : w₁.pages left = w.pages left := created ▸ World.create_other alloc .internal old
  have fresh : w₁.pages w.nextPage = InternalNodeCodec.setLSN (Buffer.zero 4096) (nextLSN w.log) :=
    created ▸ World.create_page alloc .internal
  have faults₁ : ∀ n, w₁.faults n = false := created ▸ faults
  have space₁ : w₁.filePages + 16 ≤ maxFilePages := by
    have grown := w.allocate_filePages_le
    rw [created]
    exact (Nat.add_le_add_right grown 16).trans space
  have later : w.nextPage < w₁.nextPage := alloc₁.lt_nextPage (last₁ ▸ UInt64.le_refl _)
  have free₁ : w₁.nextPage ∉ w₁.guards := by
    have held : w₁.guards = w.nextPage :: w.guards := by rw [created]; rfl
    rw [held]
    intro member
    rcases List.mem_cons.mp member with here | before
    · exact UInt64.ne_of_lt later here.symm
    · exact UInt64.lt_irrefl _ (UInt64.lt_trans later
        (UInt64.lt_of_le_of_lt (guarded _ before) newer))
  rw [← same] at node
  have older : left < w.nextPage := alloc.lt_nextPage old
  obtain ⟨w₂, lsn, run, tree, faults₂, log, stamped⟩ := handleInternalNodeSplit_last nextLSN
    insertRight faults₁ alloc₁ (last₁ ▸ UInt64.le_of_lt older) node index middle last above room
    space₁ free₁ (last₁ ▸ UInt64.le_refl _) (UInt64.ne_of_lt older).symm
  rw [fresh] at stamped
  -- two stamps on a zero page: no separators, and the type byte is the one of a leaf
  have blank : Separators (w₂.pages w.nextPage) left [] := by
    rw [stamped]
    exact (InternalNodeCodec.separators_zero _ left).1.setLSN lsn
  have type : (w₂.pages w.nextPage).byte nodeTypeOffset = leafNodeType := by
    rw [stamped]
    exact ((LeafNodeCodec.leafPage_zero.setLSN (nextLSN w.log)).setLSN lsn).type
  have faults₃ : ∀ n, w₂.faults n = false := fun n => (congrFun faults₂ n).trans (faults₁ n)
  obtain ⟨rootPage, installed, _, typed, _⟩ := installRoot_run nextLSN faults₃ w₁.nextPage blank fits
  refine ⟨((w₂.addSeparator nextLSN w.nextPage separator left w₁.nextPage rootPage).moveRoot nextLSN
    w.nextPage).release w.nextPage, ?_, ?_, ?_, rfl, ?_, ?_⟩
  · rw [handleInternalRootNodeSplit, bind_ok (get_apply _ w),
      bind_ok (newPage_ok alloc (faults _) (by omega))]
    simp only
    rw [bind_ok (newGuardOrCleanup_ok (w := w.allocate) (faults _) alloc.nextPage_inside free)]
    apply deferDone_ok
    rw [bind_ok (logRecord_ok (w := w.allocate.acquire w.nextPage) (faults _)),
      bind_ok (modifyPage_apply _ _ _)]
    subst created
    exact (bind_ok run).trans installed
  · have kept : w₁.faults = w.faults := by rw [created]; rfl
    exact faults₂.trans kept
  · have kept : w₁.tree = w.tree := by rw [created]; rfl
    have id : w₂.tree.bPlusTreeId = w.tree.bPlusTreeId := by rw [tree, kept]
    exact id
  · refine ⟨⟨nextLSN w.log, .createPage w.tree.bPlusTreeId w.nextPage .internal .fileExpansion⟩,
      ?_, rfl⟩
    have logged : (⟨nextLSN w.log, .createPage w.tree.bPlusTreeId w.nextPage .internal
        .fileExpansion⟩ : LogEntry) ∈ w₁.log := by
      rw [created]
      exact List.mem_append_right _ (List.mem_singleton.mpr rfl)
    exact List.mem_append_left _ (List.mem_append_left _ (log _ logged))
  · apply isLeafNode_of_type
    rw [← type, ← typed]
    exact congrArg (Buffer.byte · _) (Function.update_self ..)

end

/-- An insert whose separator has no room in the root returns nil and leaves a new root that
was created as an internal node and decodes as a leaf. -/
theorem insert_internalRootSplit {key value : Bytes} {first leaf child : UInt64}
    {rest : List (Bytes × UInt64)} {pairs : UInt64 → List LeafNodeElement} {i j : Nat}
    {m : LeafNodeElement} {separator : Bytes} (ready : Ready w) (stored : Stored w first rest pairs)
    (height : rest ≠ []) (routed : route key first rest = leaf)
    (space : w.filePages + 48 ≤ maxFilePages) (full : LeafNodeCodec.NoSpace (w.pages leaf) key value)
    (split : SplitAt (w.pages leaf) (pairs leaf) key value j m)
    (small : 2 + m.key.length + 8 + 8 < 65536)
    (rootFull : LeafNodeCodec.freeSpace (w.pages w.tree.rootNodePageId) < 2 + m.key.length + 8 + 8)
    (index : InternalNodeCodec.splitIndex rest = i) (middle : rest[i]? = some (separator, child))
    (last : separator < m.key) (above : ∀ entry ∈ rest.drop (i + 1), entry.1 < m.key)
    (here : route m.key child (rest.drop (i + 1)) = leaf)
    (room : separatorSpace m.key +
      ((rest.drop (i + 1)).map fun entry => separatorSpace entry.1).sum ≤ 4064)
    (fits : separatorSpace separator ≤ 4064) :
    ∃ w' entry, insert nextLSN key value w = (.ok (), w') ∧ entry ∈ w'.log ∧
      entry.record = .createPage w'.tree.bPlusTreeId w'.tree.rootNodePageId .internal
        .fileExpansion ∧
      HeaderCodec.isLeafNode (w'.pages w'.tree.rootNodePageId) = true := by
  have child' : leaf ∈ children first rest := routed ▸ route_mem key first rest
  obtain ⟨node, _⟩ := stored.nodeRoot height
  have rootOld := stored.rootAllocated.2
  obtain ⟨leftPage, rightPage, w₂, write, divided, kept, _⟩ :=
    splitChild_run nextLSN ready stored height routed (by omega) full split
  have alloc : ((w.enter nextLSN).acquire leaf).Allocating :=
    ready.toAllocating.congr rfl rfl rfl fun _ _ => rfl
  have older := ready.toAllocating.lt_nextPage (UInt64.le_refl _)
  have last₂ : w₂.metadata.maxAllocatedPageId = w.nextPage := by rw [divided]; rfl
  have grown : w₂.filePages ≤ w.filePages + 16 := by
    rw [divided]
    exact ((w.enter nextLSN).acquire leaf).allocate_filePages_le
  have alloc₂ : w₂.Allocating := by
    have roomy : ((w.enter nextLSN).acquire leaf).filePages + 16 ≤ maxFilePages := by
      show w.filePages + 16 ≤ maxFilePages
      omega
    rw [divided]
    exact World.splitInto_allocating alloc roomy (stored.allocated leaf child').2
  have faults₂ : ∀ n, w₂.faults n = false := by
    rw [divided]
    exact ready.faults
  have guarded : ∀ g ∈ w₂.guards, g ≤ w₂.metadata.maxAllocatedPageId := by
    rw [last₂, divided, World.splitInto_guards, World.acquire_guards, enter_guards nextLSN ready]
    intro g member
    have bound : g ≤ w.metadata.maxAllocatedPageId := by
      rcases List.mem_cons.mp member with rfl | second
      · exact (stored.allocated _ child').2
      · rw [List.mem_singleton.mp second]
        exact rootOld
    exact UInt64.le_of_lt (ready.toAllocating.lt_nextPage bound)
  have root₂ : w₂.tree = w.tree := by rw [divided]; rfl
  have node₂ := node.toSeparators
  rw [← kept] at node₂ rootFull
  obtain ⟨w₃, run, faults₃, tree₃, moved, ⟨entry, logged, created⟩, leafType⟩ :=
    handleInternalRootNodeSplit_last nextLSN w.nextPage faults₂ alloc₂
      (last₂ ▸ UInt64.le_of_lt (ready.toAllocating.lt_nextPage rootOld)) node₂ index middle last
      above room (by omega) guarded fits
  rw [here] at run
  have unchanged : w₂.setPage w.tree.rootNodePageId (w₂.pages w.tree.rootNodePageId) = w₂ := by
    rw [World.setPage, Function.update_eq_self]
  have taken : writeSeparator nextLSN w.tree.rootNodePageId none m.key leaf w.nextPage w₂ =
      (.ok none, w₃) := by
    rw [writeSeparator, bind_ok (get_apply _ w₂),
      bind_ok (applyPage_ok (node₂.check_full small rootFull)), unchanged, if_neg (by decide),
      bind_ok (get_apply _ w₂), if_pos (by rw [root₂]), bind_ok run]
    rfl
  refine ⟨_, entry, insert_of_separator nextLSN ready stored height routed write taken
    (fun n => (congrFun faults₃ n).trans (faults₂ n)), List.mem_append_left _ logged, ?_, ?_⟩
  · show entry.record = .createPage w₃.tree.bPlusTreeId w₃.tree.rootNodePageId .internal _
    rw [moved, tree₃]
    exact created
  · show HeaderCodec.isLeafNode (w₃.pages w₃.tree.rootNodePageId) = true
    rw [moved]
    exact leafType

end BPlusTree

end CambiumDB
