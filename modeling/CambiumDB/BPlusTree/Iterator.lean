import CambiumDB.BPlusTree.LeafLinks

/-!
# `bplustree/b_plus_tree_iterator.go` and `bplustree/iterative_cursor.go`

The cursor never stores the slot that `nextSlot` found. A call of `Next` therefore leaves
the leaf whenever its slots are all live, and panics when one of them is deleted. The
iteration is complete exactly when every leaf has one slot and that slot is live.
-/

namespace CambiumDB

open ByteBuffer SlotCodec SlottedPage Router TreeM TransitionSystem

open LeafNodeCodec (LeafPage spaceRequired)

/-- The page under the read guard and the slot of the cursor. -/
structure IterativeCursor where
  readGuard : UInt64
  currentSlotId : Nat

namespace IterativeCursor

/-- The loop of `nextSlot` over the remaining slots. -/
def skipSlots (page : Page) : Nat → Nat → Option Nat
  | 0, currentSlotId => some currentSlotId
  | remaining + 1, currentSlotId => do
    if ← LeafNodeCodec.isSlotDeleted page currentSlotId then some currentSlotId
    else skipSlots page remaining (currentSlotId + 1)

/-- `none` inside is the answer -1. -/
def nextSlot (cursor : IterativeCursor) (page : Page) : Option (Option Nat) := do
  let numSlots := LeafNodeCodec.getNumSlots page
  let currentSlotId ← skipSlots page (numSlots - cursor.currentSlotId) cursor.currentSlotId
  some (if currentSlotId = numSlots then none else some currentSlotId)

end IterativeCursor

namespace BPlusTreeIterator

def newBPlusIterator : TreeM IterativeCursor := do
  let first ← TreeM.get (·.tree.firstLeafNodePageId)
  newGuard first
  pure ⟨first, 0⟩

/-- `none` is the end of the iterator. -/
def next (cursor : IterativeCursor) : TreeM (Option IterativeCursor) := do
  let page ← TreeM.get (·.pages cursor.readGuard)
  match ← orPanic (cursor.nextSlot page) with
  | some _ =>
    -- the slot that was found is dropped
    pure (some cursor)
  | none =>
    let nextLeafNodePageId := LeafNodeCodec.getNextLeafNodePageId page
    if nextLeafNodePageId = 0 then pure none
    else
      modify (·.release cursor.readGuard)
      newGuard nextLeafNodePageId
      pure (some ⟨nextLeafNodePageId, 0⟩)

def getValue (cursor : IterativeCursor) : TreeM Bytes := do
  let page ← TreeM.get (·.pages cursor.readGuard)
  orPanic (LeafNodeCodec.getValueCorrespondingToSlot page (cursor.currentSlotId % 65536))

/-- A client that reads the value and calls `Next` until it reports the end. -/
def drain : Nat → IterativeCursor → TreeM (List Bytes)
  | 0, _ => fail .diverges
  | fuel + 1, cursor => do
    let value ← getValue cursor
    match ← next cursor with
    | none => pure [value]
    | some cursor => do
      let values ← drain fuel cursor
      pure (value :: values)

def iterate (fuel : Nat) : TreeM (List Bytes) := do
  let cursor ← newBPlusIterator
  drain fuel cursor

end BPlusTreeIterator

/-- The client obtains the value of every live entry once, in the order of the keys. -/
def IterationComplete (w : World) : Prop :=
  ∃ entries, liveEntries w = some entries ∧ SortedList.Sorted LeafNodeElement.key entries ∧
    ∃ fuel w', BPlusTreeIterator.iterate fuel w = (.ok (entries.map LeafNodeElement.value), w')

/-- Every leaf has a single slot, and that slot is live. -/
def OneSlotLeaves (w : World) : Prop :=
  ∃ leaves, leafPages w.pages (w.filePages + 1) w.tree.rootNodePageId = some leaves ∧
    ∀ id ∈ leaves, LeafNodeCodec.getNumSlots (w.pages id) = 1 ∧
      ∃ e, LeafNodeCodec.livePairs (w.pages id) = some [e]

/-! ### One leaf -/

theorem IterativeCursor.skipSlots_eq {page : Page} {entries : List (Slot × LeafNodeElement)}
    (read : LeafNodeCodec.getAllSlotsAndElements page = some entries)
    (alive : ∀ entry ∈ entries, SlotCodec.isElementDeleted entry.1 = false) (n : Nat) {cur : Nat}
    (bound : cur ≤ entries.length) :
    skipSlots page n cur = if cur + n ≤ entries.length then some (cur + n) else none := by
  induction n generalizing cur with
  | zero => rw [skipSlots, Nat.add_zero, if_pos bound]
  | succ n ih =>
    by_cases inside : cur < entries.length
    · have here : LeafNodeCodec.isSlotDeleted page cur = some false := by
        simp only [LeafNodeCodec.isSlotDeleted, read, bind, Option.bind,
          List.getElem?_eq_getElem inside, alive _ (List.getElem_mem inside)]
      have rest := ih (show cur + 1 ≤ entries.length from inside)
      simp only [skipSlots, here, bind, Option.bind, Bool.false_eq_true, if_false, rest]
      rw [Nat.add_right_comm, Nat.add_assoc]
    · -- the index is past the live slots
      have here : LeafNodeCodec.isSlotDeleted page cur = none := by
        simp only [LeafNodeCodec.isSlotDeleted, read, bind, Option.bind,
          List.getElem?_eq_none (not_lt.mp inside)]
      simp only [skipSlots, here, bind, Option.bind]
      rw [if_neg (by omega)]

section
variable {page : Page} {pairs : List LeafNodeElement} (leaf : LeafPage page pairs)
include leaf

/-- What the cursor reads: the live slots, and the number of all slots. -/
theorem LeafNodeCodec.LeafPage.slots : ∃ entries,
    LeafNodeCodec.getAllSlotsAndElements page = some entries ∧ entries.map Prod.snd = pairs ∧
      (∀ entry ∈ entries, SlotCodec.isElementDeleted entry.1 = false) ∧
      pairs.length ≤ LeafNodeCodec.getNumSlots page := by
  obtain ⟨cells, floor, garbage, repr, _, rfl⟩ := leaf.content
  refine ⟨live cells, LeafNodeCodec.getAll_eq repr, live_map_snd cells, ?_, ?_⟩
  · intro entry member
    obtain ⟨cell, held, same⟩ := List.mem_filterMap.mp member
    obtain ⟨e, there, rfl⟩ := Option.map_eq_some_iff.mp same
    -- a live slot points into the page, a deleted one past it
    have ok := repr.layout.ok cell held
    rw [CellOk, there] at ok
    have upper : cell.1.elementPointer ≤ 4096 := le_trans (Nat.le_add_right _ _) ok.upper
    rw [SlotCodec.isElementDeleted, beq_eq_false_iff_ne]
    exact Nat.ne_of_lt (lt_of_le_of_lt upper (by decide))
  · rw [LeafNodeCodec.getNumSlots, repr.shape.numSlots]
    exact List.length_filterMap_le _ _

/-- Either every slot is live and the cursor leaves the leaf, or it panics. -/
theorem IterativeCursor.nextSlot_eq (id : UInt64) :
    (⟨id, 0⟩ : IterativeCursor).nextSlot page =
      if LeafNodeCodec.getNumSlots page = pairs.length then some none else none := by
  obtain ⟨entries, read, elements, alive, atLeast⟩ := leaf.slots
  have count : entries.length = pairs.length := by rw [← elements, List.length_map]
  have skipped := skipSlots_eq read alive (LeafNodeCodec.getNumSlots page) (Nat.zero_le _)
  rw [Nat.zero_add, count] at skipped
  simp only [nextSlot, Nat.sub_zero, skipped, bind, Option.bind]
  by_cases all : LeafNodeCodec.getNumSlots page = pairs.length
  · rw [if_pos all, if_pos (le_of_eq all)]
    simp
  · rw [if_neg all, if_neg (by omega)]

theorem LeafNodeCodec.LeafPage.value_first :
    LeafNodeCodec.getValueCorrespondingToSlot page 0 = pairs.head?.map LeafNodeElement.value := by
  obtain ⟨entries, read, elements, _⟩ := leaf.slots
  subst elements
  simp only [LeafNodeCodec.getValueCorrespondingToSlot, read, bind, Option.bind]
  cases entries <;> rfl

end

/-! ### The whole chain -/

namespace BPlusTreeIterator

variable {w : World} {pairs : UInt64 → List LeafNodeElement}

section
variable {id : UInt64} {held : List LeafNodeElement} (leaf : LeafPage (w.pages id) held)
include leaf

theorem getValue_first {e : LeafNodeElement} (head : held.head? = some e) :
    getValue ⟨id, 0⟩ w = (.ok e.value, w) := by
  have value := leaf.value_first
  rw [head, Option.map_some] at value
  rw [getValue, bind_ok (get_apply _ w)]
  show orPanic (LeafNodeCodec.getValueCorrespondingToSlot (w.pages id) 0) w = _
  rw [value, orPanic_some]

theorem getValue_inv {value : Bytes} {w' : World} (run : getValue ⟨id, 0⟩ w = (.ok value, w')) :
    held ≠ [] ∧ w' = w := by
  rw [getValue, bind_ok (get_apply _ w)] at run
  change orPanic (LeafNodeCodec.getValueCorrespondingToSlot (w.pages id) 0) w = _ at run
  rw [leaf.value_first] at run
  cases held with
  | nil => cases run
  | cons e rest =>
    obtain ⟨_, rfl⟩ := Prod.mk.inj run
    exact ⟨by simp, rfl⟩

section
variable (slots : LeafNodeCodec.getNumSlots (w.pages id) = held.length)
include slots

theorem next_end (last : w.nextLeaf id = 0) : next ⟨id, 0⟩ w = (.ok none, w) := by
  have moves := IterativeCursor.nextSlot_eq leaf id
  rw [if_pos slots] at moves
  rw [next, bind_ok (get_apply _ w), moves, bind_ok (orPanic_some _ w)]
  exact congrFun (if_pos last) w

theorem next_move (more : w.nextLeaf id ≠ 0) (fault : w.faults w.calls = false)
    (inside : (w.nextLeaf id).toNat < w.filePages) (free : w.nextLeaf id ∉ w.guards.erase id) :
    next ⟨id, 0⟩ w = (.ok (some ⟨w.nextLeaf id, 0⟩), (w.release id).acquire (w.nextLeaf id)) := by
  have moves := IterativeCursor.nextSlot_eq leaf id
  rw [if_pos slots] at moves
  have guarded := newGuard_ok (w := w.release id) fault inside free
  rw [next, bind_ok (get_apply _ w), moves, bind_ok (orPanic_some _ w)]
  refine (congrFun (if_neg more) w).trans ?_
  rw [bind_ok (modify_apply _ w)]
  exact bind_ok guarded

end

/-- A call of `Next` that returned found all slots live and left the leaf. -/
theorem next_inv {result : Option IterativeCursor} {w' : World}
    (run : next ⟨id, 0⟩ w = (.ok result, w')) :
    LeafNodeCodec.getNumSlots (w.pages id) = held.length ∧ w'.pages = w.pages ∧
      result = if w.nextLeaf id = 0 then none else some ⟨w.nextLeaf id, 0⟩ := by
  have moves := IterativeCursor.nextSlot_eq leaf id
  by_cases slots : LeafNodeCodec.getNumSlots (w.pages id) = held.length
  · refine ⟨slots, ?_⟩
    rw [if_pos slots] at moves
    rw [next, bind_ok (get_apply _ w), moves, bind_ok (orPanic_some _ w)] at run
    by_cases last : w.nextLeaf id = 0
    · obtain ⟨same, rfl⟩ := Prod.mk.inj ((congrFun (if_pos last) w).symm.trans run)
      rw [if_pos last]
      exact ⟨rfl, (Except.ok.inj same).symm⟩
    · have run' := (congrFun (if_neg last) w).symm.trans run
      rw [bind_ok (modify_apply _ w)] at run'
      obtain ⟨_, w₁, guarded, done⟩ := bind_eq_ok run'
      obtain ⟨same, rfl⟩ := Prod.mk.inj done
      rw [if_neg last]
      rw [(newGuard_inv guarded).1]
      exact ⟨rfl, (Except.ok.inj same).symm⟩
  · rw [if_neg slots] at moves
    rw [next, bind_ok (get_apply _ w), moves] at run
    cases run

end

/-- The leaves that a cursor still has ahead of it, the current one first. -/
structure Ahead (w : World) (pairs : UInt64 → List LeafNodeElement) (leaves : List UInt64) :
    Prop where
  faults : ∀ n, w.faults n = false
  nodup : leaves.Nodup
  inside : ∀ id ∈ leaves, id ≠ 0 ∧ id.toNat < w.filePages
  pages : ∀ id ∈ leaves, LeafPage (w.pages id) (pairs id)

theorem Ahead.tail {id : UInt64} {leaves : List UInt64} (ahead : Ahead w pairs (id :: leaves))
    (page : UInt64) : Ahead ((w.release id).acquire page) pairs leaves :=
  ⟨ahead.faults, (List.nodup_cons.mp ahead.nodup).2,
    fun x member => ahead.inside x (List.mem_cons_of_mem _ member),
    fun x member => ahead.pages x (List.mem_cons_of_mem _ member)⟩

theorem nextLeaf_move (w : World) (id page : UInt64) :
    ((w.release id).acquire page).nextLeaf = w.nextLeaf := rfl

/-- With one live slot in every leaf the client obtains all values. -/
theorem drain_complete (leaves : List UInt64) {id : UInt64}
    (ahead : Ahead w pairs (id :: leaves)) (guards : w.guards = [id])
    (chain : Linked w.nextLeaf id (id :: leaves) 0)
    (one : ∀ x ∈ id :: leaves, LeafNodeCodec.getNumSlots (w.pages x) = 1 ∧ (pairs x).length = 1) :
    ∃ w', drain (leaves.length + 1) ⟨id, 0⟩ w =
      (.ok (((id :: leaves).flatMap pairs).map LeafNodeElement.value), w') := by
  induction leaves generalizing w id with
  | nil =>
    obtain ⟨slots, single⟩ := one id (by simp)
    obtain ⟨e, only⟩ := List.length_eq_one_iff.mp single
    have leaf := ahead.pages id (by simp)
    rw [only] at leaf
    have last : w.nextLeaf id = 0 := chain.tail.stop
    refine ⟨w, ?_⟩
    rw [drain, bind_ok (getValue_first leaf rfl), bind_ok (next_end leaf slots last),
      List.flatMap_singleton, only]
    rfl
  | cons y leaves ih =>
    obtain ⟨slots, single⟩ := one id (by simp)
    obtain ⟨e, only⟩ := List.length_eq_one_iff.mp single
    have leaf := ahead.pages id (by simp)
    rw [only] at leaf
    have link : w.nextLeaf id = y := chain.tail.head
    obtain ⟨nonzero, inside⟩ := ahead.inside y (by simp)
    have free : w.nextLeaf id ∉ w.guards.erase id := by simp [guards]
    have moved := next_move leaf slots (link.symm ▸ nonzero) (ahead.faults _) (link.symm ▸ inside)
      free
    rw [link] at moved
    have guards' : ((w.release id).acquire y).guards = [y] := by
      rw [World.acquire_guards, World.release_guards, guards, List.erase_cons_head]
    have chain' : Linked w.nextLeaf y (y :: leaves) 0 := by
      have rest := chain.tail
      rw [link] at rest
      exact rest
    rw [← nextLeaf_move w id y] at chain'
    obtain ⟨w', rest⟩ := ih (ahead.tail y) guards' chain' fun x member =>
      one x (List.mem_cons_of_mem _ member)
    refine ⟨w', ?_⟩
    rw [List.length_cons, drain, bind_ok (getValue_first leaf rfl), bind_ok moved]
    have values : ((id :: y :: leaves).flatMap pairs).map LeafNodeElement.value =
        e.value :: ((y :: leaves).flatMap pairs).map LeafNodeElement.value := by
      rw [List.flatMap_cons, only]
      rfl
    rw [values]
    exact bind_ok rest

/-- A client that obtained its values found one value per leaf, and no deleted slot. -/
theorem drain_sound (leaves : List UInt64) {id : UInt64} {fuel : Nat} {values : List Bytes}
    {w' : World} (pages : ∀ x ∈ id :: leaves, LeafPage (w.pages x) (pairs x))
    (nonzero : ∀ x ∈ leaves, x ≠ 0) (chain : Linked w.nextLeaf id (id :: leaves) 0)
    (run : drain fuel ⟨id, 0⟩ w = (.ok values, w')) :
    values.length = (id :: leaves).length ∧ ∀ x ∈ id :: leaves,
      LeafNodeCodec.getNumSlots (w.pages x) = (pairs x).length ∧ pairs x ≠ [] := by
  induction leaves generalizing w id fuel values w' with
  | nil =>
    cases fuel with
    | zero => cases run
    | succ fuel =>
      have leaf := pages id (by simp)
      obtain ⟨value, w₁, got, rest⟩ := bind_eq_ok run
      obtain ⟨some_, rfl⟩ := getValue_inv leaf got
      obtain ⟨result, w₂, moved, done⟩ := bind_eq_ok rest
      obtain ⟨slots, _, ends⟩ := next_inv leaf moved
      have last : w₁.nextLeaf id = 0 := chain.tail.stop
      rw [if_pos last] at ends
      subst ends
      obtain ⟨same, _⟩ := Prod.mk.inj done
      obtain rfl := Except.ok.inj same
      exact ⟨rfl, by simpa using ⟨slots, some_⟩⟩
  | cons y leaves ih =>
    cases fuel with
    | zero => cases run
    | succ fuel =>
      have leaf := pages id (by simp)
      obtain ⟨value, w₁, got, rest⟩ := bind_eq_ok run
      obtain ⟨some_, rfl⟩ := getValue_inv leaf got
      obtain ⟨result, w₂, moved, done⟩ := bind_eq_ok rest
      obtain ⟨slots, pages₂, ends⟩ := next_inv leaf moved
      have link : w₁.nextLeaf id = y := chain.tail.head
      rw [if_neg (link.symm ▸ nonzero y (by simp)), link] at ends
      subst ends
      obtain ⟨values', w₃, drained, done'⟩ := bind_eq_ok done
      obtain ⟨same, _⟩ := Prod.mk.inj done'
      obtain rfl := Except.ok.inj same
      have nextLeaf₂ : w₂.nextLeaf = w₁.nextLeaf := by
        funext x
        rw [World.nextLeaf, pages₂]
        rfl
      have chain' : Linked w₂.nextLeaf y (y :: leaves) 0 := by
        have rest := chain.tail
        rw [link] at rest
        rw [nextLeaf₂]
        exact rest
      obtain ⟨count, all⟩ := ih (w := w₂) (pages₂.symm ▸ fun x member =>
        pages x (List.mem_cons_of_mem _ member)) (fun x member =>
        nonzero x (List.mem_cons_of_mem _ member)) chain' drained
      refine ⟨by simp [count], fun x member => ?_⟩
      rcases List.mem_cons.mp member with rfl | later
      · exact ⟨slots, some_⟩
      · rw [← pages₂]
        exact all x later

end BPlusTreeIterator

/-- Entries and leaves are equally many only when every leaf has one entry. -/
theorem one_entry_of_count {pairs : UInt64 → List LeafNodeElement} {ids : List UInt64}
    (some_ : ∀ x ∈ ids, pairs x ≠ []) (count : (ids.flatMap pairs).length ≤ ids.length) :
    ids.length ≤ (ids.flatMap pairs).length ∧ ∀ x ∈ ids, (pairs x).length = 1 := by
  induction ids with
  | nil => exact ⟨Nat.le_refl _, by simp⟩
  | cons id ids ih =>
    have here : 0 < (pairs id).length := List.length_pos_iff.mpr (some_ id (by simp))
    rw [List.flatMap_cons, List.length_append, List.length_cons] at count ⊢
    obtain ⟨atLeast, rest⟩ := ih (fun x member => some_ x (by simp [member])) (by omega)
    refine ⟨by omega, fun x member => ?_⟩
    rcases List.mem_cons.mp member with rfl | later
    · omega
    · exact rest x later

section
variable {w : World} {first : UInt64} {rest : List (Bytes × UInt64)}
  {pairs : UInt64 → List LeafNodeElement} (ready : Ready w) (stored : Stored w first rest pairs)
  (chained : ChainedLeaves w)
include ready stored chained

theorem iterate_eq (fuel : Nat) : w.tree.firstLeafNodePageId = first ∧
    BPlusTreeIterator.iterate fuel w =
      BPlusTreeIterator.drain fuel ⟨first, 0⟩ (w.acquire first) := by
  have head : w.tree.firstLeafNodePageId = first := (chained.linked ready stored).head
  obtain ⟨_, allocated⟩ := stored.allocated first (by simp [children])
  have guarded := newGuard_ok (ready.faults _) (ready.within allocated) (by simp [ready.guards])
  refine ⟨head, ?_⟩
  rw [BPlusTreeIterator.iterate]
  refine bind_ok ?_
  rw [BPlusTreeIterator.newBPlusIterator, bind_ok (get_apply _ w), head, bind_ok guarded]
  rfl

theorem iterationComplete_iff_of_stored : IterationComplete w ↔ OneSlotLeaves w := by
  have reached := stored.leafPages ready
  have chain := chained.linked ready stored
  have entriesEq := stored.liveEntries ready
  obtain ⟨head, _⟩ := iterate_eq ready stored chained 0
  rw [head] at chain
  constructor
  · rintro ⟨entries, live, _, fuel, w', run⟩
    rw [entriesEq] at live
    obtain rfl := Option.some.inj live
    rw [(iterate_eq ready stored chained fuel).2] at run
    have pages : ∀ x ∈ first :: rest.map Prod.snd, LeafPage ((w.acquire first).pages x) (pairs x) :=
      stored.leaves
    obtain ⟨count, all⟩ := BPlusTreeIterator.drain_sound (rest.map Prod.snd) pages
      (fun x member => (stored.allocated x (List.mem_cons_of_mem _ member)).1) chain run
    rw [List.length_map] at count
    have one := (one_entry_of_count (fun x member => (all x member).2) (le_of_eq count)).2
    refine ⟨_, reached, fun id member => ?_⟩
    obtain ⟨e, only⟩ := List.length_eq_one_iff.mp (one id member)
    have slots := (all id member).1
    rw [one id member] at slots
    refine ⟨slots, e, ?_⟩
    rw [(stored.leaves id member).livePairs, only]
  · rintro ⟨leaves, reached', one⟩
    rw [reached] at reached'
    obtain rfl := Option.some.inj reached'
    refine ⟨_, entriesEq, stored.sorted_entries, (rest.map Prod.snd).length + 1, ?_⟩
    have ahead : BPlusTreeIterator.Ahead (w.acquire first) pairs (first :: rest.map Prod.snd) :=
      ⟨ready.faults, stored.nodup, fun x member =>
        ⟨(stored.allocated x member).1, ready.within (stored.allocated x member).2⟩, stored.leaves⟩
    rw [(iterate_eq ready stored chained _).2]
    refine BPlusTreeIterator.drain_complete _ ahead ?_ chain fun x member => ?_
    · rw [World.acquire_guards, ready.guards]
    · obtain ⟨slots, e, only⟩ := one x member
      refine ⟨slots, ?_⟩
      rw [(stored.leaves x member).livePairs] at only
      rw [Option.some.inj only]
      rfl

end

/-! ### Sessions -/

/-- In a session whose inserts meet the condition, the iteration over a tree with an entry is
complete exactly when every leaf has one slot and it is live. -/
theorem iteration_complete_iff (nextLSN : List LogEntry → UInt64) {s : Session}
    (reached : Reach (CallStep nextLSN) CallOk Opened s) (key : Bytes)
    (entry : s.map key ≠ none) : IterationComplete s.world ↔ OneSlotLeaves s.world := by
  have agrees := agrees_of_reach reached
  obtain ⟨first, rest, pairs, stored⟩ := agrees.holds.stored_of_entry entry
  exact iterationComplete_iff_of_stored agrees.ready stored (chainedLeaves_of_reach reached)

theorem iteration_of_first_insert : ∃ s, Reach (CallStep fun log => log.length.toUInt64 + 1) CallOk
    Opened s ∧ s.map [1] ≠ none ∧ (IterationComplete s.world ↔ OneSlotLeaves s.world) := by
  obtain ⟨w', reached, _⟩ := reach_first (fun log => log.length.toUInt64 + 1) [1] [2] (by decide)
  have entry : (Function.update (fun _ => none) [1] (some [2]) : Bytes → Option Bytes) [1] ≠ none :=
    by decide
  exact ⟨_, reached, entry, iteration_complete_iff _ reached [1] entry⟩

/-- Two entries in one leaf: the second one is never reached. -/
theorem iteration_skips_second_entry :
    ∃ s, Reach (NilStep recordLSN) DiskGrows (· = ⟨newDatabase, fun _ => none⟩) s ∧
      liveEntries s.world = some [⟨[1], [1]⟩, ⟨[2], [2]⟩] ∧ ¬ IterationComplete s.world := by
  obtain ⟨s, leaf, pairs, reachedOk, tidy, held, _⟩ := reach_two recordLSN
    (show ([1] : Bytes) < [2] by decide) (show spaceRequired [1] [1] + slotSize ≤ 4064 by decide)
    (show spaceRequired [2] [2] + slotSize ≤ packedSpace LeafNodeCodec.elementCodec [⟨[1], [1]⟩] by
      decide)
  obtain ⟨reached, reached'⟩ := reach_callOk reachedOk
  have entries := tidy.stored.liveEntries tidy.ready
  refine ⟨s, reached, ?_, fun complete => ?_⟩
  · rw [entries]
    simp [children, held]
  · have one := (iterationComplete_iff_of_stored tidy.ready tidy.stored
      (chainedLeaves_of_reach reached')).mp complete
    obtain ⟨leaves, pages, all⟩ := one
    rw [tidy.stored.leafPages tidy.ready] at pages
    obtain rfl := Option.some.inj pages
    obtain ⟨_, e, only⟩ := all leaf (by simp [children])
    rw [(tidy.stored.leaves leaf (by simp [children])).livePairs, held] at only
    cases only

end CambiumDB
