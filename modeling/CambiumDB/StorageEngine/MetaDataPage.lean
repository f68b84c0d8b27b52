import CambiumDB.StorageEngine.Engine

/-!
# Does the metadata fit into its page?

`Close` puts the handle of every open tree into the two maps of the metadata and encodes
the metadata into one page. Nothing limits the number of trees or of free pages, and the
encoder panics when the page is full.
-/

namespace CambiumDB

open TransitionSystem

namespace StorageEngine

/-- The bytes that `Close` will need: 16 for each entry that the maps have or get, 8 for each
free page. -/
def closeSize (e : StorageEngine) : Nat :=
  let added (m : PageMap) : Nat :=
    (e.openBPlusTrees.filter fun tree => tree.bPlusTreeId ∉ m.map Prod.fst).length
  let metadata := e.world.metadata
  48 + 16 * (metadata.rootPages.length + added metadata.rootPages) +
    8 * metadata.deallocatedPageIdList.length +
    16 * (metadata.firstLeafNodePages.length + added metadata.firstLeafNodePages)

/-- The page holds all roots, all first leaves and all free pages of the engine. -/
def Persisted (e : StorageEngine) (page : Page) : Prop :=
  ∃ m, MetaDataCodec.decodeMetaDataPage page = some m ∧
    m.deallocatedPageIdList = e.world.metadata.deallocatedPageIdList ∧
    (∀ tree ∈ e.openBPlusTrees, m.rootPages.get tree.bPlusTreeId = tree.rootNodePageId ∧
      m.firstLeafNodePages.get tree.bPlusTreeId = tree.firstLeafNodePageId) ∧
    ∀ id, e.findTree id = none → m.rootPages.get id = e.world.metadata.rootPages.get id ∧
      m.firstLeafNodePages.get id = e.world.metadata.firstLeafNodePages.get id

/-- `Close` persisted everything, or it returned an error. -/
def ClosesSafely (e : StorageEngine) (order : List BPlusTree) (faults : CloseFaults)
    (flushed : UInt64 → Bool) : Prop :=
  match e.close order faults flushed with
  | (.ok _, closed) => e.Persisted closed.metaDataPage
  | (.error (.error _), _) => True
  | (.error _, _) => False

section
variable {e : StorageEngine} {order : List BPlusTree}

theorem nodup_of_perm (wf : e.WellFormed) (perm : order.Perm e.openBPlusTrees) :
    (order.map BPlusTree.bPlusTreeId).Nodup :=
  (perm.map BPlusTree.bPlusTreeId).nodup_iff.2 wf.handles

/-- The size does not depend on the order in which the trees are closed. -/
theorem encodedSize_closing (wf : e.WellFormed) (perm : order.Perm e.openBPlusTrees) :
    MetaDataCodec.encodedSize (e.closing order).metadata = e.closeSize := by
  have distinct := nodup_of_perm wf perm
  have added (m : PageMap) : (order.filter fun tree => tree.bPlusTreeId ∉ m.map Prod.fst).length =
      (e.openBPlusTrees.filter fun tree => tree.bPlusTreeId ∉ m.map Prod.fst).length :=
    (perm.filter _).length_eq
  obtain ⟨_, free, _⟩ := foldl_closeTree order
    { e.world with metadata := { e.world.metadata with currBPlusTreeId := e.currBPlusTreeId } }
  rw [MetaDataCodec.encodedSize, closing, foldl_closeTree_rootPages,
    foldl_closeTree_firstLeafNodePages, free, PageMap.length_setAll _ _ _ distinct,
    PageMap.length_setAll _ _ _ distinct, added, added]
  rfl

theorem persisted_closing (wf : e.WellFormed) (perm : order.Perm e.openBPlusTrees) {page : Page}
    (encoded : MetaDataCodec.encodeMetaDataPage (e.closing order).metadata = some page) :
    e.Persisted page := by
  have distinct := nodup_of_perm wf perm
  obtain ⟨roots, leaves⟩ := distinct_closing wf order
  obtain ⟨_, free, _⟩ := foldl_closeTree order
    { e.world with metadata := { e.world.metadata with currBPlusTreeId := e.currBPlusTreeId } }
  refine ⟨_, MetaDataCodec.decode_encode roots leaves encoded, free, ?_, ?_⟩
  · intro tree member
    have listed := perm.mem_iff.2 member
    rw [closing, foldl_closeTree_rootPages, foldl_closeTree_firstLeafNodePages]
    exact ⟨PageMap.get_setAll_of_mem _ _ _ distinct listed,
      PageMap.get_setAll_of_mem _ _ _ distinct listed⟩
  · intro id closed
    have absent : id ∉ order.map BPlusTree.bPlusTreeId := by
      rw [List.mem_map]
      rintro ⟨tree, listed, same⟩
      exact not_mem_of_findTree closed tree (perm.mem_iff.1 listed) same
    rw [closing, foldl_closeTree_rootPages, foldl_closeTree_firstLeafNodePages]
    exact ⟨PageMap.get_setAll_of_not_mem _ _ _ absent,
      PageMap.get_setAll_of_not_mem _ _ _ absent⟩

/-- The encoder runs once the pages are flushed and released. -/
theorem closesSafely_iff (wf : e.WellFormed) (perm : order.Perm e.openBPlusTrees)
    (faults : CloseFaults) (flushed : UInt64 → Bool) :
    e.ClosesSafely order faults flushed ↔
      faults.flushAllPages = true ∨ faults.releaseAllFrameBuffers = true ∨ e.closeSize ≤ 4096 := by
  have fits := MetaDataCodec.encode_isSome_iff (e.closing order).metadata
  rw [encodedSize_closing wf perm] at fits
  rw [ClosesSafely, close]
  dsimp only
  cases faults.flushAllPages with
  | true => simp
  | false =>
    cases faults.releaseAllFrameBuffers with
    | true => simp
    | false =>
      cases encoded : MetaDataCodec.encodeMetaDataPage (e.closing order).metadata with
      | none =>
        rw [encoded] at fits
        simpa using fits
      | some page =>
        rw [encoded] at fits
        have persisted := persisted_closing wf perm encoded
        have small : e.closeSize ≤ 4096 := fits.1 rfl
        cases faults.write with
        | true => simp [small]
        | false =>
          cases faults.fileClose with
          | true => simp [small]
          | false => simp [small, persisted]

end

/-- In every state that the engine can get into, `Close` is safe exactly if the metadata will
fit into the page or it fails before the metadata is encoded. -/
theorem close_safe_iff_fits (nextLSN : List LogEntry → UInt64) {e : StorageEngine}
    (reached : Reach (Step nextLSN) (fun _ _ => True) Opened e) {order : List BPlusTree}
    (perm : order.Perm e.openBPlusTrees) (faults : CloseFaults) (flushed : UInt64 → Bool) :
    e.ClosesSafely order faults flushed ↔
      faults.flushAllPages = true ∨ faults.releaseAllFrameBuffers = true ∨ e.closeSize ≤ 4096 :=
  closesSafely_iff (wellFormed_of_reach reached) perm faults flushed

theorem close_safe_on_new_database : ∃ e, Opened e ∧ e.closeSize ≤ 4096 ∧
    e.ClosesSafely [] ⟨false, false, false, false⟩ (fun _ => true) := by
  obtain ⟨page, opened⟩ := exists_newDatabase
  have small : (newDatabase page).closeSize ≤ 4096 := by
    simp [closeSize, newDatabase]
  refine ⟨newDatabase page, opened, small, ?_⟩
  rw [close_safe_iff_fits (fun log => log.length.toUInt64 + 1) (.start opened) .nil]
  exact .inr (.inr small)

/-- Any number of empty trees can be open at once. -/
theorem reach_openTrees (nextLSN : List LogEntry → UInt64) (n : Nat) (small : n < 2 ^ 64) :
    ∃ e, Reach (Step nextLSN) (fun _ _ => True) Opened e ∧ e.currBPlusTreeId.toNat = n ∧
      e.openBPlusTrees.length = n ∧ (∀ tree ∈ e.openBPlusTrees, tree.bPlusTreeId.toNat ≤ n) ∧
      e.world.metadata = ⟨0, 0, [], 0, [], []⟩ := by
  induction n with
  | zero =>
    obtain ⟨page, opened⟩ := exists_newDatabase
    exact ⟨newDatabase page, .start opened, rfl, rfl, by simp [newDatabase], rfl⟩
  | succ n ih =>
    obtain ⟨e, reached, counter, length, bound, metadata⟩ := ih (by omega)
    -- the next id is new, so a handle is added
    have next : (e.currBPlusTreeId + 1).toNat = n + 1 := by
      rw [UInt64.toNat_add, counter]
      exact Nat.mod_eq_of_lt small
    have absent : e.newBPlusTree.2.findTree (e.currBPlusTreeId + 1) = none := by
      rw [findTree, List.find?_eq_none]
      intro tree member
      have old := bound tree member
      rw [decide_eq_true_eq]
      intro same
      rw [same, next] at old
      omega
    have created := reached.next trivial (.newBPlusTree (e := e))
    have step : Step nextLSN e.newBPlusTree.2 (.openBPlusTree (e.currBPlusTreeId + 1)) _ :=
      .openBPlusTree
    have opened := created.next trivial step
    rw [openBPlusTree_new absent] at opened
    refine ⟨_, opened, next, ?_, ?_, metadata⟩
    · rw [List.length_cons]
      exact congrArg (· + 1) length
    · intro tree member
      rcases List.mem_cons.1 member with rfl | old
      · exact next.le
      · exact Nat.le_succ_of_le (bound tree old)

/-- The maps of 127 trees need 4112 bytes. -/
theorem close_panics_with_many_trees : ∃ e,
    Reach (Step fun log => log.length.toUInt64 + 1) (fun _ _ => True) Opened e ∧
      ¬ e.ClosesSafely e.openBPlusTrees ⟨false, false, false, false⟩ (fun _ => true) := by
  obtain ⟨e, reached, _, length, _, metadata⟩ :=
    reach_openTrees (fun log => log.length.toUInt64 + 1) 127 (by decide)
  have wf : e.WellFormed := wellFormed_of_reach reached
  refine ⟨e, reached, ?_⟩
  rw [closesSafely_iff wf (.refl _)]
  have size : e.closeSize = 4112 := by
    rw [closeSize, metadata]
    simp [length]
  rw [size]
  decide

end StorageEngine

end CambiumDB
