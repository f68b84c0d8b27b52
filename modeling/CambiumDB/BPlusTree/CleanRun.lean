import CambiumDB.BPlusTree.Refinement

/-!
# Trees without garbage

As long as nothing is deleted or overwritten, every leaf is exactly as full as its pairs
say, and so is every space check: what an insert does can be read off the sizes.
-/

namespace CambiumDB

open ByteBuffer HeaderConfig SlotCodec SlottedPage Router TreeM TransitionSystem

open LeafNodeCodec (LeafPage Clean spaceRequired splitIndex)

open InternalNodeCodec (InternalPage separatorSpace)

/-- A tree that is ready for the next call and whose leaves are clean. -/
structure Tidy (w : World) (first : UInt64) (rest : List (Bytes × UInt64))
    (pairs : UInt64 → List LeafNodeElement) : Prop where
  ready : Ready w
  stored : Stored w first rest pairs
  clean : ∀ id ∈ children first rest, Clean (w.pages id) (pairs id)

namespace Tidy

variable (nextLSN : List LogEntry → UInt64) {w : World} {first : UInt64}
  {rest : List (Bytes × UInt64)} {pairs : UInt64 → List LeafNodeElement} {key value : Bytes}

theorem plant (ready : Ready w) (empty : w.tree.rootNodePageId = 0)
    (space : w.filePages + 16 ≤ maxFilePages) (room : spaceRequired key value + slotSize ≤ 4064) :
    ∃ w', BPlusTree.insert nextLSN key value w = (.ok (), w') ∧
      Tidy w' w.nextPage [] (fun _ => [⟨key, value⟩]) ∧ w'.filePages ≤ w.filePages + 16 := by
  obtain ⟨checked, final, run, written, clean⟩ := BPlusTree.insert_planted nextLSN ready space
    empty (LeafNodeCodec.clean_zero.insertFits room)
  obtain ⟨ready', stored⟩ := BPlusTree.preserves_planted nextLSN ready space written.leaf
  refine ⟨_, run, ⟨ready', stored, ?_⟩, w.allocate_filePages_le⟩
  intro id member
  obtain rfl : id = w.nextPage := by simpa [children] using member
  rw [BPlusTree.afterPlant_pages, Function.update_self]
  exact clean

theorem add (tidy : Tidy w first rest pairs)
    (absent : SortedList.lookup LeafNodeElement.key key (pairs (route key first rest)) = none)
    (room : spaceRequired key value + slotSize ≤
      packedSpace LeafNodeCodec.elementCodec (pairs (route key first rest))) :
    ∃ w', BPlusTree.insert nextLSN key value w = (.ok (), w') ∧
      Tidy w' first rest (Function.update pairs (route key first rest)
        (SortedList.insert LeafNodeElement.key ⟨key, value⟩ (pairs (route key first rest)))) ∧
      w'.filePages = w.filePages := by
  obtain ⟨ready, stored, clean⟩ := tidy
  have child := route_mem key first rest
  have here := clean _ child
  have page : LeafPage ((w.atLeaf nextLSN (route key first rest)).pages (route key first rest))
      (pairs (route key first rest)) := by
    rw [World.atLeaf_pages]
    exact stored.leaves _ child
  have faults : ∀ n, (w.atLeaf nextLSN (route key first rest)).faults n = false := by
    rw [World.atLeaf_faults]
    exact ready.faults
  obtain ⟨checked, final, run, written, clean'⟩ := BPlusTree.writeLeaf_insert nextLSN faults page
    absent (by rw [World.atLeaf_pages]; exact here.insertFits room)
  simp only [World.atLeaf_pages, World.atLeaf_log, World.atLeaf_tree] at run written clean'
  obtain ⟨ready', stored'⟩ := BPlusTree.preserves_rewritten nextLSN ready checked stored
    (.insert absent) written.leaf
  refine ⟨_, BPlusTree.insert_rewritten nextLSN ready stored run, ⟨ready', stored', ?_⟩, ?_⟩
  · intro id member
    rw [BPlusTree.afterRewrite_pages]
    by_cases same : id = route key first rest
    · rw [same, Function.update_self, Function.update_self]
      exact clean' here room
    · rw [Function.update_of_ne same, Function.update_of_ne same]
      exact clean id member
  · exact (BPlusTree.afterRewrite_frame nextLSN _ checked _ final ready).2.2.1

/-- An entry that has room in its leaf meets the condition. -/
theorem insertOk (tidy : Tidy w first rest pairs)
    (absent : SortedList.lookup LeafNodeElement.key key (pairs (route key first rest)) = none)
    (room : spaceRequired key value + slotSize ≤
      packedSpace LeafNodeCodec.elementCodec (pairs (route key first rest))) :
    BPlusTree.InsertOk w key value := by
  have child := route_mem key first rest
  have leaf := tidy.stored.leaves _ child
  rw [BPlusTree.InsertOk, if_neg tidy.stored.rootAllocated.1, BPlusTree.stored_leafOf tidy.stored]
  simp only [BPlusTree.LeafTakes, leaf.findValue, absent, Option.map_none]
  exact .inl ((tidy.clean _ child).insertFits room)

/-- An entry that has no room in its leaf meets the condition when the half it belongs to has
room for it and the root has room for the separator. -/
theorem insertOk_split (tidy : Tidy w first rest pairs) {held : List LeafNodeElement}
    (heldEq : pairs (route key first rest) = held) {m : LeafNodeElement}
    (small : spaceRequired key value < 65536)
    (full : packedSpace LeafNodeCodec.elementCodec held < spaceRequired key value)
    (middle : held[splitIndex held]? = some m)
    (absent : SortedList.lookup LeafNodeElement.key key held = none)
    (room : spaceRequired key value + slotSize ≤ packedSpace LeafNodeCodec.elementCodec
      (if key < m.key then held.take (splitIndex held) else held.drop (splitIndex held)))
    (separator : separatorSpace m.key + (rest.map fun entry => separatorSpace entry.1).sum ≤ 4064) :
    BPlusTree.InsertOk w key value := by
  subst heldEq
  have child := route_mem key first rest
  have leaf := tidy.stored.leaves _ child
  have clean := tidy.clean _ child
  have plan : BPlusTree.splitPlan (w.pages (route key first rest)) key = some (m.key,
      if key < m.key then (pairs (route key first rest)).take (splitIndex (pairs (route key first rest)))
      else (pairs (route key first rest)).drop (splitIndex (pairs (route key first rest)))) := by
    simp only [BPlusTree.splitPlan, clean.findSplitNodeIndex, leaf.livePairs, middle, bind,
      Option.bind]
  have above : separatorSpace m.key ≤ BPlusTree.separatorRoom w (route key first rest) := by
    rw [BPlusTree.separatorRoom]
    split
    next => rw [headerSize]; omega
    next below =>
      -- a leaf that is not the root has an internal node above it
      have height : rest ≠ [] := by
        rintro rfl
        exact below (tidy.stored.leafRoot rfl).symm
      have space := (tidy.stored.nodeRoot height).1.space
      rw [headerSize] at space
      omega
  rw [BPlusTree.InsertOk, if_neg tidy.stored.rootAllocated.1, BPlusTree.stored_leafOf tidy.stored]
  simp only [BPlusTree.LeafTakes, leaf.findValue, absent, Option.map_none]
  refine .inr ⟨clean.noSpace small full, ?_⟩
  rw [plan]
  exact ⟨room, above⟩

/-- A clean leaf is cut where its sizes say. -/
theorem splitAt {page : Page} {held : List LeafNodeElement} {m : LeafNodeElement}
    (clean : Clean page held) (middle : held[splitIndex held]? = some m)
    (absent : SortedList.lookup LeafNodeElement.key key held = none)
    (room : spaceRequired key value + slotSize ≤ packedSpace LeafNodeCodec.elementCodec
      (if key < m.key then held.take (splitIndex held) else held.drop (splitIndex held))) :
    BPlusTree.SplitAt page held key value (splitIndex held) m :=
  ⟨clean.findSplitNodeIndex, middle, absent, room⟩

theorem splitRoot (tidy : Tidy w first [] pairs) (space : w.filePages + 32 ≤ maxFilePages)
    {held : List LeafNodeElement} (heldEq : pairs first = held) {m : LeafNodeElement}
    (small : spaceRequired key value < 65536)
    (full : packedSpace LeafNodeCodec.elementCodec held < spaceRequired key value)
    (middle : held[splitIndex held]? = some m)
    (absent : SortedList.lookup LeafNodeElement.key key held = none)
    (room : spaceRequired key value + slotSize ≤ packedSpace LeafNodeCodec.elementCodec
      (if key < m.key then held.take (splitIndex held) else held.drop (splitIndex held)))
    (separator : separatorSpace m.key ≤ 4064) :
    ∃ w' new, BPlusTree.insert nextLSN key value w = (.ok (), w') ∧ w'.filePages ≤ w.filePages + 32 ∧
      Tidy w' first [(m.key, new)] (Function.update
        (Function.update pairs first (BPlusTree.leftPairs held (splitIndex held) m.key key value)) new
        (BPlusTree.rightPairs held (splitIndex held) m.key key value)) := by
  subst heldEq
  obtain ⟨ready, stored, clean⟩ := tidy
  have here := clean first (by simp [children])
  have split := splitAt here middle absent room
  obtain ⟨leftPage, rightPage, rootPage, w₁, w₂, run, parts⟩ := BPlusTree.insert_rootSplit nextLSN
    ready stored space (here.noSpace small full) split separator
  obtain ⟨ready', stored', _⟩ :=
    BPlusTree.preserves_rootSplit nextLSN ready stored parts space split
  obtain ⟨leftIs, rightIs, _⟩ := parts.pages nextLSN ready stored (by omega)
  obtain ⟨older, newer, _⟩ := parts.order nextLSN ready stored (by omega)
  have halves := parts.clean here
  refine ⟨_, w₁.nextPage, run, ?_, ready', stored', ?_⟩
  · have grown : w₂.filePages ≤ w₁.filePages + 16 := by
      rw [parts.divided]
      exact w₁.allocate_filePages_le
    have grown₁ : w₁.filePages ≤ w.filePages + 16 := by
      rw [parts.start]
      exact (w.enter nextLSN).allocate_filePages_le
    exact grown.trans (by omega)
  · intro id member
    have apart : first ≠ w₁.nextPage := UInt64.ne_of_lt (UInt64.lt_trans older newer)
    rcases (by simpa [children] using member : id = first ∨ id = w₁.nextPage) with rfl | rfl
    · rw [Function.update_of_ne apart, Function.update_self, leftIs]
      exact halves.1
    · rw [Function.update_self, rightIs]
      exact halves.2

theorem splitLeaf (tidy : Tidy w first rest pairs) (height : rest ≠ [])
    (space : w.filePages + 16 ≤ maxFilePages) {held : List LeafNodeElement}
    (heldEq : pairs (route key first rest) = held) {m : LeafNodeElement}
    (small : spaceRequired key value < 65536)
    (full : packedSpace LeafNodeCodec.elementCodec held < spaceRequired key value)
    (middle : held[splitIndex held]? = some m)
    (absent : SortedList.lookup LeafNodeElement.key key held = none)
    (room : spaceRequired key value + slotSize ≤ packedSpace LeafNodeCodec.elementCodec
      (if key < m.key then held.take (splitIndex held) else held.drop (splitIndex held)))
    (separator : separatorSpace m.key + (rest.map fun entry => separatorSpace entry.1).sum ≤ 4064) :
    ∃ w' before after new, BPlusTree.insert nextLSN key value w = (.ok (), w') ∧
      w'.filePages ≤ w.filePages + 16 ∧ rest = before ++ after ∧
      (∀ entry ∈ before, entry.1 < m.key) ∧ (∀ entry ∈ after, m.key < entry.1) ∧
      Tidy w' first (before ++ (m.key, new) :: after) (Function.update
        (Function.update pairs (route key first rest)
          (BPlusTree.leftPairs held (splitIndex held) m.key key value)) new
        (BPlusTree.rightPairs held (splitIndex held) m.key key value)) := by
  subst heldEq
  obtain ⟨ready, stored, clean⟩ := tidy
  have here := clean _ (route_mem key first rest)
  have split := splitAt here middle absent room
  have rootSpace := (stored.nodeRoot height).1.space
  obtain ⟨before, after, leftPage, rightPage, rootPage, w₁, w₂, rfl, below, above, run, parts⟩ :=
    BPlusTree.insert_leafSplit nextLSN ready stored height space (here.noSpace small full) split
      (by rw [headerSize] at rootSpace; omega)
  obtain ⟨ready', stored', _⟩ := BPlusTree.preserves_leafSplit nextLSN ready stored height rfl parts
    space split below above
  obtain ⟨leftIs, rightIs, _, others⟩ := parts.pages nextLSN ready stored height rfl
  have halves := parts.clean here
  have new {id : UInt64} (member : id ∈ children first (before ++ after)) : id ≠ w.nextPage :=
    UInt64.ne_of_lt (ready.toAllocating.lt_nextPage (stored.allocated id member).2)
  refine ⟨_, before, after, w.nextPage, run, ?_, rfl, below, above, ready', stored', ?_⟩
  · show w₂.filePages ≤ _
    rw [parts.divided, parts.start]
    exact ((w.enter nextLSN).acquire _).allocate_filePages_le
  · intro id member
    rcases List.mem_cons.mp ((children_perm m.key w.nextPage first before after).mem_iff.mp member)
      with rfl | old
    · rw [Function.update_self, rightIs]
      exact halves.2
    · rw [Function.update_of_ne (new old)]
      by_cases same : id = route key first (before ++ after)
      · rw [same, Function.update_self, leftIs]
        exact halves.1
      · have apart : id ≠ w.tree.rootNodePageId := fun rootIs =>
          (stored.nodeRoot height).2 (rootIs ▸ old)
        rw [Function.update_of_ne same, others id (stored.allocated id old).2 same apart]
        exact clean id old

end Tidy

/-- Two inserts in key order that share the first leaf of a new database. -/
theorem reach_two (nextLSN : List LogEntry → UInt64) {key key' value value' : Bytes}
    (less : key < key') (room : spaceRequired key value + slotSize ≤ 4064)
    (room' : spaceRequired key' value' + slotSize ≤
      packedSpace LeafNodeCodec.elementCodec [⟨key, value⟩]) :
    ∃ s leaf pairs, Reach (NilStep nextLSN) CallOk (· = ⟨newDatabase, fun _ => none⟩) s ∧
      Tidy s.world leaf [] pairs ∧ pairs leaf = [⟨key, value⟩, ⟨key', value'⟩] ∧
      s.world.filePages ≤ 17 := by
  have limit : 100 ≤ maxFilePages := by decide
  have start : newDatabase.filePages = 1 := rfl
  have opened : Reach (NilStep nextLSN) CallOk (· = ⟨newDatabase, fun _ => none⟩)
      ⟨newDatabase, fun _ => none⟩ := .start rfl
  have grows : newDatabase.filePages + 32 ≤ maxFilePages := by omega
  obtain ⟨w₁, run₁, tidy₁, grown₁⟩ :=
    Tidy.plant nextLSN fresh_newDatabase.toReady rfl (by omega) room
  have absent : SortedList.lookup LeafNodeElement.key key' [⟨key, value⟩] = none := by
    rw [SortedList.lookup_eq_none_iff]
    simp [ne_of_lt less]
  obtain ⟨w₂, run₂, tidy₂, grown₂⟩ := tidy₁.add nextLSN absent room'
  have reached₁ := reach_insert opened ⟨grows, fresh_newDatabase.insertOk room⟩ run₁
  have grows₁ : w₁.filePages + 32 ≤ maxFilePages := by omega
  have reached₂ := reach_insert reached₁ ⟨grows₁, tidy₁.insertOk absent room'⟩ run₂
  have held : SortedList.insert LeafNodeElement.key ⟨key', value'⟩ [⟨key, value⟩] =
      [⟨key, value⟩, ⟨key', value'⟩] := if_neg (lt_asymm less)
  exact ⟨_, _, _, reached₂, tidy₂, (Function.update_self ..).trans held, by simp only; omega⟩

end CambiumDB
