import CambiumDB.BPlusTree.InsertOutcome

/-!
# Rewriting and splitting a leaf of a tree

Either change keeps the tree a tree and changes the map that it holds at one key only.
-/

namespace CambiumDB

open ByteBuffer Router

open LeafNodeCodec (LeafPage)

open InternalNodeCodec (InternalPage)

/-! ### One leaf changes -/

section
variable {w w' : World} {first : UInt64} {rest : List (Bytes × UInt64)}
  {pairs : UInt64 → List LeafNodeElement}

/-- Only the pages of the tree, its root and the last allocated page matter. -/
theorem Stored.rewritten (stored : Stored w first rest pairs) {id : UInt64}
    (child : id ∈ children first rest) {new : List LeafNodeElement}
    (root : w'.tree.rootNodePageId = w.tree.rootNodePageId)
    (last : w'.metadata.maxAllocatedPageId = w.metadata.maxAllocatedPageId)
    (page : LeafPage (w'.pages id) new) (other : ∀ p, p ≠ id → w'.pages p = w.pages p)
    (routed : ∀ e ∈ new, route e.key first rest = id) :
    Stored w' first rest (Function.update pairs id new) := by
  obtain ⟨sorted, nodup, routed'⟩ := stored.placed.rewritten routed
  refine ⟨sorted, nodup, ?_, ?_, ?_, ?_, ?_, routed'⟩
  · intro single
    rw [root, stored.leafRoot single]
  · intro height
    obtain ⟨node, outside⟩ := stored.nodeRoot height
    have apart : w.tree.rootNodePageId ≠ id := fun same => outside (same ▸ child)
    rw [root, other _ apart]
    exact ⟨node, outside⟩
  · rw [root, last]
    exact stored.rootAllocated
  · intro p member
    rw [last]
    exact stored.allocated p member
  · intro p member
    by_cases same : p = id
    · subst same
      rw [Function.update_self]
      exact page
    · rw [Function.update_of_ne same, other p same]
      exact stored.leaves p member

/-- A leaf whose lookups change at one key changes the map at that key. -/
theorem denotes_update {key value : Bytes} {new : List LeafNodeElement}
    (changed : ∀ k, SortedList.lookup LeafNodeElement.key k new = if k = key then some ⟨key, value⟩
      else SortedList.lookup LeafNodeElement.key k (pairs (route key first rest))) :
    denotes first rest (Function.update pairs (route key first rest) new) =
      Function.update (denotes first rest pairs) key (some value) := by
  funext k
  by_cases same : k = key
  · subst same
    rw [Function.update_self, denotes, Function.update_self, changed, if_pos rfl, Option.map_some]
  · rw [Function.update_of_ne same, denotes, denotes]
    by_cases here : route k first rest = route key first rest
    · rw [here, Function.update_self, changed, if_neg same]
    · rw [Function.update_of_ne here]

end

namespace BPlusTree

theorem lookup_insert_eq {key value : Bytes} {pairs : List LeafNodeElement}
    (absent : SortedList.lookup LeafNodeElement.key key pairs = none) (k : Bytes) :
    SortedList.lookup LeafNodeElement.key k
        (SortedList.insert LeafNodeElement.key ⟨key, value⟩ pairs) =
      if k = key then some ⟨key, value⟩ else SortedList.lookup LeafNodeElement.key k pairs := by
  have missing := (SortedList.lookup_eq_none_iff LeafNodeElement.key key pairs).mp absent
  rw [SortedList.lookup_insert (e := ⟨key, value⟩) LeafNodeElement.key missing]
  by_cases same : k = key
  · rw [if_pos same, if_pos same.symm]
  · rw [if_neg same, if_neg fun other => same other.symm]

section
variable {tree id : UInt64} {key value : Bytes} {pairs new : List LeafNodeElement}
  {record : WALRecord} (change : LeafChange tree id key value pairs record new)
include change

theorem LeafChange.lookup (k : Bytes) : SortedList.lookup LeafNodeElement.key k new =
    if k = key then some ⟨key, value⟩ else SortedList.lookup LeafNodeElement.key k pairs := by
  cases change with
  | insert absent =>
    exact lookup_insert_eq absent k
  | @update e found =>
    rw [SortedList.lookup_modify (f := fun x => ⟨x.key, value⟩) LeafNodeElement.key fun _ => rfl]
    by_cases same : k = key
    · subst same
      have key := SortedList.key_of_lookup LeafNodeElement.key found
      rw [if_pos rfl, if_pos rfl, found, Option.map_some, key]
    · rw [if_neg same, if_neg same]

theorem LeafChange.key_mem {e : LeafNodeElement} (member : e ∈ new) :
    e.key = key ∨ ∃ x ∈ pairs, x.key = e.key := by
  cases change with
  | insert _ =>
    rcases (SortedList.mem_insert ..).mp member with rfl | old
    · exact .inl rfl
    · exact .inr ⟨e, old, rfl⟩
  | update _ =>
    obtain ⟨x, old, rfl⟩ := List.mem_map.mp member
    refine .inr ⟨x, old, ?_⟩
    split <;> rfl

end

/-! ### A leaf is split -/

section
variable {pairs : List LeafNodeElement} {i : Nat} {m : LeafNodeElement} {key value : Bytes}
  (sorted : SortedList.Sorted LeafNodeElement.key pairs) (middle : pairs[i]? = some m)
include sorted middle

theorem lookup_leftPairs (absent : SortedList.lookup LeafNodeElement.key key pairs = none)
    {k : Bytes} (less : k < m.key) :
    SortedList.lookup LeafNodeElement.key k (leftPairs pairs i m.key key value) =
      if k = key then some ⟨key, value⟩ else SortedList.lookup LeafNodeElement.key k pairs := by
  have cut := SortedList.Sorted.lookup_cut LeafNodeElement.key sorted middle k
  rw [if_pos less] at cut
  rw [cut, leftPairs]
  by_cases left : key < m.key
  · have missing := (SortedList.lookup_eq_none_iff LeafNodeElement.key key pairs).mp absent
    rw [if_pos left, lookup_insert_eq]
    exact (SortedList.lookup_eq_none_iff ..).mpr fun e he => missing e (List.mem_of_mem_take he)
  · have other : k ≠ key := fun same => left (same ▸ less)
    rw [if_neg left, if_neg other]

theorem lookup_rightPairs (absent : SortedList.lookup LeafNodeElement.key key pairs = none)
    {k : Bytes} (reached : ¬ k < m.key) :
    SortedList.lookup LeafNodeElement.key k (rightPairs pairs i m.key key value) =
      if k = key then some ⟨key, value⟩ else SortedList.lookup LeafNodeElement.key k pairs := by
  have cut := SortedList.Sorted.lookup_cut LeafNodeElement.key sorted middle k
  rw [if_neg reached] at cut
  rw [cut, rightPairs]
  by_cases left : key < m.key
  · have other : k ≠ key := fun same => reached (same ▸ left)
    rw [if_pos left, if_neg other]
  · have missing := (SortedList.lookup_eq_none_iff LeafNodeElement.key key pairs).mp absent
    rw [if_neg left, lookup_insert_eq]
    exact (SortedList.lookup_eq_none_iff ..).mpr fun e he => missing e (List.mem_of_mem_drop he)

theorem mem_leftPairs {e : LeafNodeElement} (member : e ∈ leftPairs pairs i m.key key value) :
    e.key < m.key ∧ (e.key = key ∨ e ∈ pairs) := by
  have front := (SortedList.Sorted.cut LeafNodeElement.key sorted middle).1
  rw [leftPairs] at member
  split at member
  next left =>
    rcases (SortedList.mem_insert ..).mp member with rfl | old
    · exact ⟨left, .inl rfl⟩
    · exact ⟨front e old, .inr (List.mem_of_mem_take old)⟩
  next => exact ⟨front e member, .inr (List.mem_of_mem_take member)⟩

theorem mem_rightPairs {e : LeafNodeElement} (member : e ∈ rightPairs pairs i m.key key value) :
    m.key ≤ e.key ∧ (e.key = key ∨ e ∈ pairs) := by
  have back := (SortedList.Sorted.cut LeafNodeElement.key sorted middle).2
  rw [rightPairs] at member
  split at member
  next => exact ⟨back e member, .inr (List.mem_of_mem_drop member)⟩
  next right =>
    rcases (SortedList.mem_insert ..).mp member with rfl | old
    · exact ⟨not_lt.mp right, .inl rfl⟩
    · exact ⟨back e old, .inr (List.mem_of_mem_drop old)⟩

end

end BPlusTree

section
variable {w w' : World} {first leaf new : UInt64} {before after : List (Bytes × UInt64)}
  {pairs : UInt64 → List LeafNodeElement} {separator : Bytes}
  (stored : Stored w first (before ++ after) pairs)
  (cut : route separator first (before ++ after) = leaf)
  (below : ∀ entry ∈ before, entry.1 < separator) (above : ∀ entry ∈ after, separator < entry.1)
include stored cut below above

/-- The new leaf gets the keys of the split leaf from the separator on. -/
theorem Stored.route_split (new : UInt64) (key : Bytes) :
    route key first (before ++ (separator, new) :: after) =
      if route key first (before ++ after) = leaf ∧ separator ≤ key then new
      else route key first (before ++ after) := by
  rw [Router.route_split stored.sorted stored.nodup below above, cut]

theorem Stored.split {left right : List LeafNodeElement} (fresh : new ∉ children first (before ++ after))
    (node : InternalPage (w'.pages w'.tree.rootNodePageId) first
      (before ++ (separator, new) :: after))
    (outside : w'.tree.rootNodePageId ∉ new :: children first (before ++ after))
    (rootAllocated : w'.tree.rootNodePageId ≠ 0 ∧
      w'.tree.rootNodePageId ≤ w'.metadata.maxAllocatedPageId)
    (last : w.metadata.maxAllocatedPageId ≤ w'.metadata.maxAllocatedPageId)
    (allocated : new ≠ 0 ∧ new ≤ w'.metadata.maxAllocatedPageId)
    (leftPage : LeafPage (w'.pages leaf) left) (rightPage : LeafPage (w'.pages new) right)
    (other : ∀ p ∈ children first (before ++ after), p ≠ leaf → w'.pages p = w.pages p)
    (leftKeys : ∀ e ∈ left, e.key < separator ∧ route e.key first (before ++ after) = leaf)
    (rightKeys : ∀ e ∈ right, separator ≤ e.key ∧ route e.key first (before ++ after) = leaf) :
    Stored w' first (before ++ (separator, new) :: after)
      (Function.update (Function.update pairs leaf left) new right) := by
  have perm := children_perm separator new first before after
  have child : leaf ∈ children first (before ++ after) := cut ▸ route_mem separator first _
  have apart : leaf ≠ new := fun same => fresh (same ▸ child)
  obtain ⟨sorted, nodup, routed⟩ := stored.placed.split cut below above fresh leftKeys rightKeys
  refine ⟨sorted, nodup, ?_, ?_, rootAllocated, ?_, ?_, routed⟩
  · intro single
    exact absurd single (by simp)
  · intro _
    exact ⟨node, fun member => outside (perm.mem_iff.mp member)⟩
  · intro p member
    rcases List.mem_cons.mp (perm.mem_iff.mp member) with rfl | old
    · exact allocated
    · obtain ⟨nonzero, bound⟩ := stored.allocated p old
      exact ⟨nonzero, UInt64.le_trans bound last⟩
  · intro p member
    rcases List.mem_cons.mp (perm.mem_iff.mp member) with rfl | old
    · rw [Function.update_self]
      exact rightPage
    · have other' : p ≠ new := fun same => fresh (same ▸ old)
      rw [Function.update_of_ne other']
      by_cases same : p = leaf
      · subst same
        rw [Function.update_self]
        exact leftPage
      · rw [Function.update_of_ne same, other p old same]
        exact stored.leaves p old

/-- A split with the entry in its half changes the map at the inserted key only. -/
theorem denotes_split {key value : Bytes} (fresh : new ∉ children first (before ++ after))
    (routed : route key first (before ++ after) = leaf) {left right : List LeafNodeElement}
    (leftLookup : ∀ k, k < separator → SortedList.lookup LeafNodeElement.key k left =
      if k = key then some ⟨key, value⟩
      else SortedList.lookup LeafNodeElement.key k (pairs leaf))
    (rightLookup : ∀ k, ¬ k < separator → SortedList.lookup LeafNodeElement.key k right =
      if k = key then some ⟨key, value⟩
      else SortedList.lookup LeafNodeElement.key k (pairs leaf)) :
    denotes first (before ++ (separator, new) :: after)
        (Function.update (Function.update pairs leaf left) new right) =
      Function.update (denotes first (before ++ after) pairs) key (some value) := by
  have routes := stored.route_split cut below above new
  have child : leaf ∈ children first (before ++ after) := cut ▸ route_mem separator first _
  have apart : leaf ≠ new := fun same => fresh (same ▸ child)
  funext k
  -- the half that `k` is looked up in answers as the whole leaf does, but for the new entry
  have lookups : (SortedList.lookup LeafNodeElement.key k
      (Function.update (Function.update pairs leaf left) new right
        (route k first (before ++ (separator, new) :: after)))) =
      if k = key then some ⟨key, value⟩
      else SortedList.lookup LeafNodeElement.key k (pairs (route k first (before ++ after))) := by
    rw [routes]
    by_cases here : route k first (before ++ after) = leaf
    · by_cases less : k < separator
      · rw [if_neg fun both => not_lt.mpr both.2 less, here, Function.update_of_ne apart,
          Function.update_self, leftLookup k less]
      · rw [if_pos ⟨here, not_lt.mp less⟩, Function.update_self, rightLookup k less, here]
    · have elsewhere : route k first (before ++ after) ≠ new := fun same =>
        fresh (same ▸ route_mem k first _)
      have different : k ≠ key := by
        rintro rfl
        exact here routed
      rw [if_neg fun both => here both.1, Function.update_of_ne elsewhere,
        Function.update_of_ne here, if_neg different]
  rw [denotes, lookups]
  by_cases same : k = key
  · subst same
    rw [if_pos rfl, Function.update_self, Option.map_some]
  · rw [if_neg same, Function.update_of_ne same, denotes]

end

/-- A tree whose leaf was split around the new entry holds that entry and all others. -/
theorem Stored.split_insert {w w' : World} {first leaf : UInt64}
    (before after : List (Bytes × UInt64)) (new : UInt64) {pairs : UInt64 → List LeafNodeElement}
    (stored : Stored w first (before ++ after) pairs) {key value : Bytes} {i : Nat}
    {m : LeafNodeElement} (split : BPlusTree.SplitAt (w.pages leaf) (pairs leaf) key value i m)
    (cut : route m.key first (before ++ after) = leaf)
    (routed : route key first (before ++ after) = leaf)
    (below : ∀ entry ∈ before, entry.1 < m.key) (above : ∀ entry ∈ after, m.key < entry.1)
    (fresh : new ∉ children first (before ++ after))
    (node : InternalPage (w'.pages w'.tree.rootNodePageId) first (before ++ (m.key, new) :: after))
    (outside : w'.tree.rootNodePageId ∉ new :: children first (before ++ after))
    (rootAllocated : w'.tree.rootNodePageId ≠ 0 ∧
      w'.tree.rootNodePageId ≤ w'.metadata.maxAllocatedPageId)
    (last : w.metadata.maxAllocatedPageId ≤ w'.metadata.maxAllocatedPageId)
    (allocated : new ≠ 0 ∧ new ≤ w'.metadata.maxAllocatedPageId)
    (left : LeafPage (w'.pages leaf) (BPlusTree.leftPairs (pairs leaf) i m.key key value))
    (right : LeafPage (w'.pages new) (BPlusTree.rightPairs (pairs leaf) i m.key key value))
    (other : ∀ p ∈ children first (before ++ after), p ≠ leaf → w'.pages p = w.pages p) :
    let pairs' := Function.update
      (Function.update pairs leaf (BPlusTree.leftPairs (pairs leaf) i m.key key value)) new
      (BPlusTree.rightPairs (pairs leaf) i m.key key value)
    Stored w' first (before ++ (m.key, new) :: after) pairs' ∧
      denotes first (before ++ (m.key, new) :: after) pairs' =
        Function.update (denotes first (before ++ after) pairs) key (some value) := by
  intro pairs'
  have child : leaf ∈ children first (before ++ after) := cut ▸ route_mem m.key first _
  have sorted := (stored.leaves leaf child).sorted
  have map : denotes first (before ++ (m.key, new) :: after) pairs' =
      Function.update (denotes first (before ++ after) pairs) key (some value) :=
    denotes_split stored cut below above fresh routed
      (fun k less => BPlusTree.lookup_leftPairs sorted split.middle split.absent less)
      (fun k reached => BPlusTree.lookup_rightPairs sorted split.middle split.absent reached)
  -- a key of either half is the inserted one or was in the leaf
  have home {e : LeafNodeElement} (origin : e.key = key ∨ e ∈ pairs leaf) :
      route e.key first (before ++ after) = leaf := by
    rcases origin with same | old
    · rw [same, routed]
    · exact stored.routed leaf child e old
  refine ⟨stored.split cut below above fresh node outside rootAllocated last allocated left right
    other ?_ ?_, map⟩
  · intro e member
    obtain ⟨less, origin⟩ := BPlusTree.mem_leftPairs sorted split.middle member
    exact ⟨less, home origin⟩
  · intro e member
    obtain ⟨reached, origin⟩ := BPlusTree.mem_rightPairs sorted split.middle member
    exact ⟨reached, home origin⟩

end CambiumDB
