import CambiumDB.BPlusTree.Refinement

/-!
# Entries of any size

No call checks the size of an entry. An entry that meets the condition of `InsertOk` is written
and read back. In a tree without a root that condition is also necessary: an entry with no room
next to its slot is lost, and one that the space check refuses leads to the split of a leaf
without pairs, which panics.
-/

namespace CambiumDB

open ByteBuffer HeaderConfig HeaderCodec SlotCodec TreeM TransitionSystem

open LeafNodeCodec (LeafPage LeafRepr spaceRequired)

namespace TreeM

variable {α β : Type}

/-- The call ends in a run-time panic. -/
def Panics (m : TreeM α) (w : World) : Prop := ∃ w', m w = (.error .panic, w')

namespace Panics

variable {m : TreeM α} {k : α → TreeM β} {w w' : World} {a : α}

theorem bind (h : Panics m w) : Panics (m >>= k) w := by
  obtain ⟨w', run⟩ := h
  exact ⟨w', bind_error run⟩

theorem after (ran : m w = (.ok a, w')) (h : Panics (k a) w') : Panics (m >>= k) w := by
  obtain ⟨w'', run⟩ := h
  exact ⟨w'', (bind_ok ran).trans run⟩

theorem deferDone {id : UInt64} (h : Panics m w) : Panics (deferDone id m) w := by
  obtain ⟨w', run⟩ := h
  exact ⟨w'.release id, by rw [TreeM.deferDone, run]⟩

theorem orPanic {o : Option α} (none : o = none) : Panics (orPanic o) w := by
  subst none
  exact ⟨w, rfl⟩

theorem applyPage {id : UInt64} {f : Page → Option (α × Page)} (none : f (w.pages id) = none) :
    Panics (applyPage id f) w := ⟨w, by rw [TreeM.applyPage, none]⟩

end Panics

end TreeM

namespace BPlusTree

variable (nextLSN : List LogEntry → UInt64) {w : World} {key value : Bytes}
  {pairs : List LeafNodeElement}

/-! ### A split past the last pair -/

section
variable {left : UInt64} {i : Nat} (faults : ∀ n, w.faults n = false)
  (leaf : LeafPage (w.pages left) pairs)
  (index : LeafNodeCodec.findSplitNodeIndex (w.pages left) = some i) (past : pairs[i]? = none)
include faults leaf index past

theorem moveToRightLeaf_panics {right : UInt64} (apart : left ≠ right) :
    Panics (moveToRightLeaf nextLSN left right key value) w := by
  rw [moveToRightLeaf]
  refine .after (get_apply _ _) (.after (get_apply _ _) ?_)
  rw [index]
  refine .after (orPanic_some _ _) ?_
  rw [leaf.encodeAllElements]
  refine .after (orPanic_some _ _) (.after (logRecord_ok (faults _)) ?_)
  refine .after (modifyPage_apply _ _ _) (.after (modifyPage_apply _ _ _) ?_)
  refine .after (get_apply _ _) (.after (get_apply _ _) (.bind (.orPanic ?_)))
  -- the left page has only been stamped since its index was read
  rw [World.setPage_pages_self, World.setPage_pages_ne _ apart, World.append_pages]
  exact (leaf.setLSN _).splitNode_past _ _ past

variable (alloc : w.Allocating) (old : left ≤ w.metadata.maxAllocatedPageId)
  (guarded : ∀ g ∈ w.guards, g ≤ w.metadata.maxAllocatedPageId)
include alloc old guarded

theorem handleLeafNodeSplit_panics (space : w.filePages + 16 ≤ maxFilePages) :
    Panics (handleLeafNodeSplit nextLSN left key value) w := by
  have apart : left ≠ w.nextPage := UInt64.ne_of_lt (alloc.lt_nextPage old)
  have free : w.nextPage ∉ w.guards := alloc.nextPage_notMem guarded
  have same : (w.create nextLSN .leaf).pages left = w.pages left := World.create_other alloc .leaf old
  have moved : Panics (moveToRightLeaf nextLSN left w.nextPage key value)
      (w.create nextLSN .leaf) :=
    moveToRightLeaf_panics nextLSN (w := w.create nextLSN .leaf) faults (same.symm ▸ leaf)
      (same.symm ▸ index) past apart
  rw [handleLeafNodeSplit]
  refine .after (get_apply _ w) (.after (newPage_ok alloc (faults _) space) ?_)
  refine .after (newGuardOrCleanup_ok (w := w.allocate) (faults _) alloc.nextPage_inside free) ?_
  refine .deferDone (.after (logRecord_ok (w := w.allocate.acquire w.nextPage) (faults _)) ?_)
  exact .after (modifyPage_apply _ _ _) moved

theorem handleLeafRootNodeSplit_panics (space : w.filePages + 32 ≤ maxFilePages) :
    Panics (handleLeafRootNodeSplit nextLSN left key value) w := by
  have free : w.nextPage ∉ w.guards := alloc.nextPage_notMem guarded
  have same : (w.createNode nextLSN).pages left = w.pages left := createNode_other nextLSN alloc old
  have space₁ : (w.createNode nextLSN).filePages + 16 ≤ maxFilePages := by
    have grown := w.allocate_filePages_le
    exact (Nat.add_le_add_right grown 16).trans space
  have split : Panics (handleLeafNodeSplit nextLSN left key value) (w.createNode nextLSN) :=
    handleLeafNodeSplit_panics nextLSN (w := w.createNode nextLSN) faults (same.symm ▸ leaf)
      (same.symm ▸ index) past (createNode_allocating nextLSN alloc (by omega)) (UInt64.le_of_lt (alloc.lt_nextPage old))
      (createNode_guards nextLSN alloc guarded) space₁
  rw [handleLeafRootNodeSplit]
  refine .after (get_apply _ w) (.after (newPage_ok alloc (faults _) (by omega)) ?_)
  refine .after (newGuardOrCleanup_ok (w := w.allocate) (faults _) alloc.nextPage_inside free) ?_
  refine .deferDone (.after (logRecord_ok (w := w.allocate.acquire w.nextPage) (faults _)) ?_)
  exact .after (modifyPage_apply _ _ _) (.after (modifyPage_apply _ _ _) (.bind split))

end

/-! ### The first entry of a tree -/

/-- A blank page does not take an entry that leaves no room for a slot: `InsertElement` answers
no, or panics when the size wraps to a small one. -/
theorem insertElement_oversized {page : Page} (repr : LeafRepr page [] 4096 0)
    (big : 4064 < spaceRequired key value + slotSize) :
    LeafNodeCodec.insertElement page key value = none ∨
      LeafNodeCodec.insertElement page key value = some (false, updateCRC page) := by
  rw [spaceRequired, slotSize] at big
  by_cases huge : 65536 ≤ 2 + key.length + 2 + value.length + 4
  · exact LeafNodeCodec.insertElement_huge repr huge
  · right
    refine LeafNodeCodec.insertElement_full repr (not_le.mp huge) ?_ (by omega)
    rw [headerSize, List.length_nil]
    omega

/-- What becomes of an oversized entry in a root leaf without pairs. -/
theorem writeLeaf_oversized {id : UInt64} (faults : ∀ n, w.faults n = false)
    (repr : LeafRepr (w.pages id) [] 4096 0) (type : (w.pages id).byte nodeTypeOffset = leafNodeType)
    (root : w.tree.rootNodePageId = id) (alloc : w.Allocating)
    (old : id ≤ w.metadata.maxAllocatedPageId)
    (guarded : ∀ g ∈ w.guards, g ≤ w.metadata.maxAllocatedPageId)
    (space : w.filePages + 32 ≤ maxFilePages) (big : 4064 < spaceRequired key value + slotSize) :
    Panics (writeLeaf nextLSN id key value) w ∨
      ∃ final, writeLeaf nextLSN id key value w = (.ok none, w.rewrite nextLSN id (w.pages id)
        (.insertLeafNodeEntry w.tree.bPlusTreeId id key value) final) ∧ LeafPage final [] ∧
        spaceRequired key value % 65536 ≤ 4064 := by
  have leaf : LeafPage (w.pages id) [] := ⟨type, [], 4096, 0, repr, .nil, rfl⟩
  have look : LeafNodeCodec.findValue (w.pages id) key = some none := leaf.findValue key
  -- the check compares the size modulo 2 ^ 16 with the free space
  rcases LeafNodeCodec.hasEnoughSpace_cases repr key value with
    ⟨wrapped, answer⟩ | ⟨_, enough, _⟩ | ⟨_, _, refused⟩
  · rcases insertElement_oversized (repr.setLSN (nextLSN w.log)) big with none | done
    · left
      rw [writeLeaf]
      refine .after (get_apply _ _) (.after (get_apply _ _) ?_)
      rw [look]
      refine .after (orPanic_some _ _) (.after (applyPage_ok answer) ?_)
      rw [if_pos rfl]
      refine .after (logRecord_ok (w := w.setPage id (w.pages id)) (faults _)) ?_
      refine .after (modifyPage_apply _ _ _) (.bind (.applyPage ?_))
      rw [World.setPage_pages_self, World.append_pages, World.setPage_pages_self]
      exact none
    · right
      refine ⟨_, writeLeaf_checked nextLSN faults look answer done, ?_, wrapped⟩
      refine ⟨?_, [], 4096, 0, (repr.setLSN _).updateCRC, .nil, rfl⟩
      rw [byte_updateCRC _ (by decide)]
      exact (leaf.setLSN (nextLSN w.log)).type
  · omega
  · left
    obtain ⟨i, index, _⟩ := leaf.findSplitNodeIndex
    obtain ⟨w', run⟩ : Panics (handleLeafRootNodeSplit nextLSN id key value) w :=
      handleLeafRootNodeSplit_panics nextLSN faults leaf index rfl alloc old guarded space
    refine ⟨w', ?_⟩
    rw [writeLeaf_unchecked nextLSN look refused, splitLeaf, bind_ok (get_apply _ w), if_pos root,
      bind_error run]

/-- The first entry of a tree panics or is lost if it leaves no room for its slot. It is lost only
when its size, modulo 2 ^ 16, passes the space check. -/
theorem insert_oversized (ready : Ready w) (empty : w.tree.rootNodePageId = 0)
    (space : w.filePages + 48 ≤ maxFilePages) (big : 4064 < spaceRequired key value + slotSize) :
    Panics (insert nextLSN key value) w ∨
      spaceRequired key value % 65536 ≤ 4064 ∧
        ∃ w', insert nextLSN key value w = (.ok (), w') ∧ Ready w' ∧ Holds w' fun _ => none := by
  have alloc : (w.begin nextLSN).Allocating := ready.toAllocating.congr rfl rfl rfl fun _ _ => rfl
  have leaf := plantRoot_leaf nextLSN ready.toAllocating
  have free : w.nextPage ∉ w.guards := by simp [ready.guards]
  have repr : LeafRepr (((w.begin nextLSN).plantRoot nextLSN).pages w.nextPage) [] 4096 0 := by
    rw [show w.nextPage = (w.begin nextLSN).nextPage from rfl, plantRoot_page nextLSN alloc]
    exact LeafNodeCodec.blank_zero.exactLeaf.repr.setLSN _
  have alloc' := plantRoot_allocating nextLSN ready.toAllocating (by omega)
  have guarded : ∀ g ∈ ((w.begin nextLSN).plantRoot nextLSN).guards,
      g ≤ ((w.begin nextLSN).plantRoot nextLSN).metadata.maxAllocatedPageId := by
    intro g member
    have only : ((w.begin nextLSN).plantRoot nextLSN).guards = [w.nextPage] := by
      show w.nextPage :: w.guards = _
      rw [ready.guards]
    rw [only, List.mem_singleton] at member
    exact member ▸ UInt64.le_refl _
  have space' : ((w.begin nextLSN).plantRoot nextLSN).filePages + 32 ≤ maxFilePages := by
    have grown := w.allocate_filePages_le
    exact (Nat.add_le_add_right grown 32).trans space
  rcases writeLeaf_oversized nextLSN (w := (w.begin nextLSN).plantRoot nextLSN) ready.faults repr
    leaf.type rfl alloc' (UInt64.le_refl _) guarded space' big with
      ⟨w', panics⟩ | ⟨final, run, held, wrapped⟩
  · left
    rw [insert]
    refine .after (get_apply _ w) (.after (logIgnored_ok (ready.faults _)) ?_)
    rw [insertLocked]
    refine .after (guardRoot_first nextLSN ready.faults empty ready.toAllocating (by omega) free) ?_
    refine .deferDone (.after (get_apply _ _) (.bind ⟨w', ?_⟩))
    rw [writeTraversal_leaf nextLSN leaf]
    exact panics
  · right
    refine ⟨wrapped, _,
      insert_first nextLSN ready.faults empty ready.toAllocating (by omega) free ?_ run, ?_⟩
    · exact ready.faults
    obtain ⟨ready', stored⟩ := preserves_planted nextLSN ready (by omega) held
    have nothing : denotes w.nextPage [] (fun _ => []) = fun _ => none := rfl
    exact ⟨ready', nothing ▸ .stored stored⟩

/-! ### Safety -/

/-- An insert that returns nil is read back, and one that returns an error changes no answer; it
ends in no other way. -/
def InsertSafe (w : World) (key value : Bytes) : Prop :=
  (∃ w', insert nextLSN key value w = (.ok (), w') ∧ (get key w').1 = .ok value) ∨
    ∃ e w', insert nextLSN key value w = (.error (.error e), w') ∧
      ∀ k, (get k w').1 = (get k w).1

theorem not_insertSafe_of_panics (panics : Panics (insert nextLSN key value) w) :
    ¬ InsertSafe nextLSN w key value := by
  obtain ⟨w', run⟩ := panics
  rintro (⟨_, returned, _⟩ | ⟨_, _, failed, _⟩)
  · cases run.symm.trans returned
  · cases run.symm.trans failed

theorem insertSafe_of_insertOk {m : Bytes → Option Bytes} (ready : Ready w) (holds : Holds w m)
    (space : w.filePages + 32 ≤ maxFilePages) (ok : InsertOk w key value) :
    InsertSafe nextLSN w key value := by
  obtain ⟨w', run, inserted⟩ := insert_outcome nextLSN ready holds space ok
  obtain ⟨ready', holds'⟩ := inserted.preserves nextLSN ready holds space
  left
  refine ⟨w', run, ?_⟩
  rw [get_of_holds ready' holds' key, Function.update_self]
  rfl

/-- In a tree without a root the condition is room for the entry and its slot in a blank page. -/
theorem insertSafe_empty_iff {m : Bytes → Option Bytes} (ready : Ready w) (holds : Holds w m)
    (space : w.filePages + 48 ≤ maxFilePages) (empty : w.tree.rootNodePageId = 0) :
    InsertSafe nextLSN w key value ↔ spaceRequired key value + slotSize ≤ 4064 := by
  constructor
  · intro safe
    by_contra big
    rcases insert_oversized nextLSN ready empty space (not_le.mp big) with
      panics | ⟨_, w', run, ready', holds'⟩
    · exact not_insertSafe_of_panics nextLSN panics safe
    · -- nil was returned, but the tree stayed empty
      rcases safe with ⟨_, returned, found⟩ | ⟨_, _, failed, _⟩
      · obtain ⟨_, rfl⟩ := Prod.mk.inj (run.symm.trans returned)
        rw [get_of_holds ready' holds' key] at found
        cases found
      · cases run.symm.trans failed
  · intro room
    refine insertSafe_of_insertOk nextLSN ready holds (by omega) ?_
    rw [InsertOk, if_pos empty]
    exact LeafNodeCodec.clean_zero.insertFits room

end BPlusTree

/-- In every session an entry that meets the condition is inserted safely, and in a tree without
a root no other entry is. -/
theorem insert_safe_for_fitting_entries (nextLSN : List LogEntry → UInt64) {s : Session}
    (reached : Reach (CallStep nextLSN) CallOk Opened s)
    (grows : s.world.filePages + 48 ≤ maxFilePages) (key value : Bytes) :
    (BPlusTree.InsertOk s.world key value → BPlusTree.InsertSafe nextLSN s.world key value) ∧
      (s.world.tree.rootNodePageId = 0 → (BPlusTree.InsertSafe nextLSN s.world key value ↔
        spaceRequired key value + slotSize ≤ 4064)) := by
  have agrees := agrees_of_reach reached
  constructor
  · intro ok
    exact BPlusTree.insertSafe_of_insertOk nextLSN agrees.ready agrees.holds (by omega) ok
  · intro empty
    exact BPlusTree.insertSafe_empty_iff nextLSN agrees.ready agrees.holds grows empty

theorem first_insert_safe_by_size :
    Reach (CallStep fun log => log.length.toUInt64 + 1) CallOk Opened
        ⟨newDatabase, fun _ => none⟩ ∧ newDatabase.filePages + 48 ≤ maxFilePages ∧
      BPlusTree.InsertSafe (fun log => log.length.toUInt64 + 1) newDatabase [1] [2] ∧
      ¬ BPlusTree.InsertSafe (fun log => log.length.toUInt64 + 1) newDatabase []
        (List.replicate 70000 0) := by
  have reached : Reach (CallStep fun log => log.length.toUInt64 + 1) CallOk Opened
      ⟨newDatabase, fun _ => none⟩ := .start ⟨fresh_newDatabase, rfl⟩
  have grows : newDatabase.filePages + 48 ≤ maxFilePages := by decide
  refine ⟨reached, grows, ?_, ?_⟩
  · exact ((insert_safe_for_fitting_entries _ reached grows [1] [2]).2 rfl).mpr (by decide)
  · intro safe
    have small := ((insert_safe_for_fitting_entries _ reached grows [] _).2 rfl).mp safe
    rw [spaceRequired, List.length_replicate] at small
    omega

/-- An entry larger than a page, as the first of a new database: the leaf without pairs is split,
and the split reads past its elements. -/
theorem oversized_insert_panics :
    ∃ s, Reach (CallStep recordLSN) DiskGrows (· = ⟨newDatabase, fun _ => none⟩) s ∧
      (List.replicate 5000 (0 : UInt8)).length < 2 ^ 32 ∧
      Panics (BPlusTree.insert recordLSN [] (List.replicate 5000 0)) s.world ∧
      ¬ BPlusTree.InsertSafe recordLSN s.world [] (List.replicate 5000 0) := by
  have panics : Panics (BPlusTree.insert recordLSN [] (List.replicate 5000 0)) newDatabase := by
    have size : spaceRequired [] (List.replicate 5000 0) = 5004 := by
      rw [spaceRequired, List.length_replicate, List.length_nil]
    rcases BPlusTree.insert_oversized recordLSN fresh_newDatabase.toReady rfl (by decide)
      (by rw [size]; decide) with panics | ⟨wrapped, _⟩
    · exact panics
    · rw [size] at wrapped
      omega
  refine ⟨_, .start rfl, ?_, panics, BPlusTree.not_insertSafe_of_panics recordLSN panics⟩
  rw [List.length_replicate]
  decide

end CambiumDB
