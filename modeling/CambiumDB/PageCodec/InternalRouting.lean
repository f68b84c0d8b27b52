import CambiumDB.PageCodec.InternalPage
import CambiumDB.PageCodec.SpaceCheck

/-!
# Routing through an internal node

`InsertElement` and `SplitNode` on nodes whose neighbouring separators agree on the child between
them. A separator that goes in takes over the keys from itself up to the next separator; the two
halves of a split node route the keys on their side of the promoted separator as the whole node
does.
-/

namespace CambiumDB

open ByteBuffer HeaderConfig SlottedPage Router

namespace InternalNodeCodec

/-- Each separator's right child is the left child of the next. -/
def Chained (es : List InternalNodeElement) : Prop :=
  es.IsChain fun a b => a.rightChildNodePageId = b.leftChildNodePageId

/-! ### Chains -/

theorem chained_chain (first : UInt64) (rest : List (Bytes × UInt64)) :
    Chained (chain first rest) := by
  induction rest generalizing first with
  | nil => exact List.isChain_nil
  | cons entry rest ih =>
    cases rest with
    | nil => exact List.isChain_singleton _
    | cons next rest => exact List.isChain_cons_cons.2 ⟨rfl, ih entry.2⟩

/-- Chained separators are a first child and the separators with their right children. A node
without separators has any first child. -/
theorem Chained.exists_chain {es : List InternalNodeElement} (chained : Chained es)
    (start : UInt64) : ∃ first rest, es = chain first rest ∧ (es = [] → first = start) := by
  induction es with
  | nil => exact ⟨start, [], rfl, fun _ => rfl⟩
  | cons e es ih =>
    cases es with
    | nil => exact ⟨e.leftChildNodePageId, [(e.key, e.rightChildNodePageId)], rfl, by simp⟩
    | cons next es =>
      obtain ⟨agrees, later⟩ := List.isChain_cons_cons.1 chained
      obtain ⟨first, rest, same, _⟩ := ih later
      refine ⟨e.leftChildNodePageId, (e.key, e.rightChildNodePageId) :: rest, ?_, by simp⟩
      -- the next separator starts where this one ends
      have starts : first = e.rightChildNodePageId := by
        cases rest with
        | nil => cases same
        | cons entry rest =>
          rw [agrees, (List.cons.inj same).1]
      rw [starts] at same
      rw [chain, ← same]

theorem key_of_mem_chain {first : UInt64} {rest : List (Bytes × UInt64)}
    {e : InternalNodeElement} (member : e ∈ chain first rest) : ∃ entry ∈ rest, entry.1 = e.key := by
  have listed : e.key ∈ rest.map Prod.fst := by
    rw [← chain_keys first]
    exact List.mem_map_of_mem member
  exact List.mem_map.1 listed

theorem mem_chain_of_key (first : UInt64) {rest : List (Bytes × UInt64)} {entry : Bytes × UInt64}
    (member : entry ∈ rest) : ∃ e ∈ chain first rest, e.key = entry.1 := by
  have listed : entry.1 ∈ (chain first rest).map InternalNodeElement.key := by
    rw [chain_keys]
    exact List.mem_map_of_mem member
  exact List.mem_map.1 listed

/-- The separator goes in at its place, and the neighbours keep their children. -/
theorem spliceInto_chain {key : Bytes} {first new : UInt64} {before after : List (Bytes × UInt64)}
    (below : ∀ entry ∈ before, entry.1 < key) (above : ∀ entry ∈ after, key < entry.1) :
    spliceInto (chain first (before ++ after)) ⟨key, route key first (before ++ after), new⟩ =
      chain first (before ++ (key, new) :: after) := by
  have reached : ∀ entry ∈ before, entry.1 ≤ key := fun e member => (below e member).le
  have smaller : ∀ e ∈ chain first before, e.key < key := by
    intro e member
    obtain ⟨entry, listed, same⟩ := key_of_mem_chain member
    exact same ▸ below entry listed
  have greater : ∀ e ∈ chain (route key first before) after, key < e.key := by
    intro e member
    obtain ⟨entry, listed, same⟩ := key_of_mem_chain member
    exact same ▸ above entry listed
  have left : (chain first (before ++ after)).filter (fun e => decide (e.key < key)) =
      chain first before := by
    rw [chain_append reached, List.filter_append,
      List.filter_eq_self.2 fun e member => by simpa using smaller e member,
      List.filter_eq_nil_iff.2 fun e member => by simpa using (greater e member).le,
      List.append_nil]
  have right : (chain first (before ++ after)).filter (fun e => decide (key < e.key)) =
      chain (route key first before) after := by
    rw [chain_append reached, List.filter_append,
      List.filter_eq_nil_iff.2 fun e member => by simpa using (smaller e member).le,
      List.filter_eq_self.2 fun e member => by simpa using greater e member, List.nil_append]
  have equal : (chain first (before ++ after)).filter (fun e => decide (e.key = key)) = [] := by
    rw [chain_append reached, List.filter_append,
      List.filter_eq_nil_iff.2 fun e member => by simpa using (smaller e member).ne,
      List.filter_eq_nil_iff.2 fun e member => by simpa using (greater e member).ne',
      List.append_nil]
  have routed : route key first (before ++ after) = route key first before := by
    rw [route_append reached, route_below above]
  rw [spliceInto]
  simp only [left, right, equal, List.append_nil, routed]
  exact splice_chain reached

theorem sorted_chain {first : UInt64} {rest : List (Bytes × UInt64)} :
    ((chain first rest).Pairwise fun a b => a.key < b.key) ↔
      (rest.map Prod.fst).Pairwise (· < ·) := by
  rw [← chain_keys first rest, List.pairwise_map]

/-! ### Pages -/

theorem findNextChild_contains {page : Page} {es : List InternalNodeElement}
    (h : Contains elementCodec page es) (key : Bytes) :
    findNextChildNodePageId page key = some (nextChild key es 0) := by
  obtain ⟨cells, floor, garbage, repr, rfl⟩ := h
  have read : getAllSlotsAndElements page = some (live cells) :=
    repr.layout.getAll repr.shape.numSlots
  simp only [findNextChildNodePageId, read, bind, Option.bind, live_map_snd]

/-- A node with separators follows them, whatever its start value. -/
theorem nextChild_eq_route {first start : UInt64} {rest : List (Bytes × UInt64)}
    (nonempty : rest ≠ []) (sorted : (rest.map Prod.fst).Pairwise (· < ·)) (key : Bytes) :
    nextChild key (chain first rest) start = route key first rest := by
  rw [← nextChild_chain key first sorted]
  cases rest with
  | nil => exact absurd rfl nonempty
  | cons entry rest => rfl

theorem findNextChild_chain {page : Page} {first : UInt64} {rest : List (Bytes × UInt64)}
    (h : Contains elementCodec page (chain first rest)) (nonempty : rest ≠ [])
    (sorted : (rest.map Prod.fst).Pairwise (· < ·)) (key : Bytes) :
    findNextChildNodePageId page key = some (route key first rest) := by
  rw [findNextChild_contains h, nextChild_eq_route nonempty sorted]

/-- An insertion that says yes has put the separator in, after a compaction or without one. -/
theorem contains_insertElement {page page' : Page} {cells : List (Cell InternalNodeElement)}
    {floor garbage : Nat} (h : Accounted elementCodec page cells floor garbage) {key : Bytes}
    {left right : UInt64} (done : insertElement page key left right = some (true, page')) :
    Contains elementCodec page' (spliceInto (elements cells) ⟨key, left, right⟩) := by
  have size := width_eq ⟨key, left, right⟩
  rw [insertElement] at done
  simp only at size
  rw [← size] at done
  rcases h.insertElement_cases splices ⟨key, left, right⟩ with
    ⟨_, _, page₁, taken, holds, _⟩ | ⟨_, _, refused⟩ | ⟨_, _, panics⟩
  · rw [taken] at done
    cases done
    exact holds
  · rw [refused] at done
    cases done
  · rw [panics] at done
    cases done

/-- The elements of a page in order, as a first child and separators cut at the new key. -/
theorem exists_cut_of_chained {es : List InternalNodeElement} (chained : Chained es)
    (sorted : es.Pairwise fun a b => a.key < b.key) {key : Bytes}
    (absent : ∀ e ∈ es, e.key ≠ key) (start : UInt64) :
    ∃ first before after, es = chain first (before ++ after) ∧ (es = [] → first = start) ∧
      ((before ++ after).map Prod.fst).Pairwise (· < ·) ∧
      (∀ entry ∈ before, entry.1 < key) ∧ ∀ entry ∈ after, key < entry.1 := by
  obtain ⟨first, rest, rfl, empty⟩ := chained.exists_chain start
  have keys := sorted_chain.1 sorted
  obtain ⟨before, after, rfl, below, above⟩ := exists_cut_at key keys
  refine ⟨first, before, after, rfl, empty, keys, ?_, above⟩
  intro entry member
  obtain ⟨e, listed, same⟩ := mem_chain_of_key first (List.mem_append_left after member)
  exact lt_of_le_of_ne (below entry member) (same ▸ absent e listed)

theorem sorted_insert {key : Bytes} (new : UInt64) {before after : List (Bytes × UInt64)}
    (sorted : ((before ++ after).map Prod.fst).Pairwise (· < ·))
    (below : ∀ entry ∈ before, entry.1 < key) (above : ∀ entry ∈ after, key < entry.1) :
    ((before ++ (key, new) :: after).map Prod.fst).Pairwise (· < ·) := by
  rw [List.pairwise_map, List.pairwise_append] at sorted ⊢
  refine ⟨sorted.1, List.pairwise_cons.2 ⟨above, sorted.2.1⟩, ?_⟩
  intro a front b back
  rcases List.mem_cons.1 back with rfl | later
  · exact below a front
  · exact sorted.2.2 a front b later

/-- A well-formed page holds its elements in order. -/
theorem WellFormed.accounted {page : Page} {es : List InternalNodeElement}
    (wellFormed : WellFormed page) (live : liveElements elementCodec page = some es) :
    ∃ cells floor garbage, Accounted elementCodec page cells floor garbage ∧
      elements cells = es ∧ es.Pairwise fun a b => a.key < b.key := by
  obtain ⟨cells, floor, garbage, sound⟩ := wellFormed
  have holds : Contains elementCodec page (elements cells) := ⟨_, _, _, sound.repr, rfl⟩
  obtain rfl := Option.some.inj (holds.liveElements.symm.trans live)
  exact ⟨cells, floor, garbage, sound.accounted, rfl, sound.sorted⟩

/-- On a well-formed page whose separators are chained, an insertion that returns true keeps them
sorted and chained; it hands the keys from the new separator up to the next old one to the new
right child, those before it up to the previous old one to its left child, and leaves the others
where they were. -/
theorem insertElement_preserves_routing {page page' : Page} {es : List InternalNodeElement}
    (wellFormed : WellFormed page) (live : liveElements elementCodec page = some es)
    (chained : Chained es) {k : Bytes} (absent : ∀ e ∈ es, e.key ≠ k) {left right : UInt64}
    (routed : es ≠ [] → findNextChildNodePageId page k = some left)
    (done : insertElement page k left right = some (true, page')) :
    (∃ es', liveElements elementCodec page' = some es' ∧
      (es'.Pairwise fun a b => a.key < b.key) ∧ Chained es') ∧
    ∀ q, findNextChildNodePageId page' q =
      if k ≤ q ∧ ∀ e ∈ es, ¬ (k < e.key ∧ e.key ≤ q) then some right
      else if q < k ∧ ∀ e ∈ es, ¬ (q < e.key ∧ e.key < k) then some left
      else findNextChildNodePageId page q := by
  obtain ⟨cells, floor, garbage, accounted, rfl, sorted⟩ := wellFormed.accounted live
  have holds : Contains elementCodec page (elements cells) := ⟨_, _, _, accounted.repr, rfl⟩
  have holds' := contains_insertElement accounted done
  obtain ⟨first, before, after, same, empty, keys, below, above⟩ :=
    exists_cut_of_chained chained sorted absent left
  rw [same] at holds holds' absent routed empty ⊢
  -- the left child is the one that the key was routed to, or the only one there is
  have child : route k first (before ++ after) = left := by
    by_cases none : before ++ after = []
    · rw [none] at empty ⊢
      exact empty rfl
    · have present : chain first (before ++ after) ≠ [] := by
        rw [← List.length_pos_iff, length_chain]
        exact List.length_pos_iff.2 none
      have found := routed present
      rw [findNextChild_chain holds none keys] at found
      exact Option.some.inj found
  have keys' := sorted_insert right keys below above
  rw [← child, spliceInto_chain below above] at holds'
  refine ⟨⟨_, holds'.liveElements, sorted_chain.2 keys', chained_chain _ _⟩, fun q => ?_⟩
  -- no old key lies in `(k, q]` exactly if the separators after `k` are all above `q`
  have next : (∀ e ∈ chain first (before ++ after), ¬ (k < e.key ∧ e.key ≤ q)) ↔
      ∀ entry ∈ after, q < entry.1 := by
    constructor
    · intro clear entry member
      obtain ⟨e, listed, here⟩ := mem_chain_of_key first (List.mem_append_right before member)
      rw [← here]
      exact not_le.1 fun passed => clear e listed ⟨here ▸ above entry member, passed⟩
    · rintro clear e listed ⟨later, passed⟩
      obtain ⟨entry, member, here⟩ := key_of_mem_chain listed
      rw [← here] at later passed
      rcases List.mem_append.1 member with front | back
      · exact lt_asymm later (below entry front)
      · exact absurd passed (not_le.2 (clear entry back))
  rw [findNextChild_chain holds' (by simp) keys',
    route_insert (List.pairwise_append.1 (List.map_append ▸ keys)).2.1 below above]
  by_cases taken : k ≤ q ∧ ∀ entry ∈ after, q < entry.1
  · rw [if_pos taken, if_pos ⟨taken.1, next.2 taken.2⟩]
  rw [if_neg taken, if_neg fun clear => taken ⟨clear.1, next.1 clear.2⟩]
  split
  next between =>
    rw [← child]
    congr 1
    apply route_congr
    intro entry member
    obtain ⟨e, listed, here⟩ := mem_chain_of_key first member
    rw [← here]
    constructor
    · intro later
      have notBelow : ¬ e.key < k := fun less => between.2 e listed ⟨later, less⟩
      exact lt_of_le_of_ne (not_lt.1 notBelow) (absent e listed).symm
    · exact fun later => between.1.trans later
  next apart =>
    have present : before ++ after ≠ [] := by
      intro none
      obtain ⟨rfl, rfl⟩ := List.append_eq_nil_iff.1 none
      rcases le_or_gt k q with reached | less
      · exact taken ⟨reached, by simp⟩
      · exact apart ⟨less, by simp [chain]⟩
    rw [findNextChild_chain holds present keys]

/-! ### Pages of a tree -/

theorem Entries.size {page : Page} {first : UInt64} {rest : List (Bytes × UInt64)}
    {entries : List (Slot × InternalNodeElement)} {floor : Nat}
    (h : Entries page first rest entries floor) {slot : Slot} {e : InternalNodeElement}
    (member : (slot, e) ∈ entries) : slot.elementSize = width elementCodec e := by
  have listed := h.elements
  have sizes := h.sizes
  rw [width_eq]
  clear h
  induction entries generalizing first rest with
  | nil => cases member
  | cons entry entries ih =>
    cases rest with
    | nil => cases listed
    | cons separator rest =>
      rw [List.map_cons, chain, List.cons.injEq] at listed
      rw [List.map_cons, List.map_cons, List.map_cons, List.cons.injEq] at sizes
      rcases List.mem_cons.1 member with rfl | later
      · obtain ⟨rfl, _⟩ := listed
        exact sizes.1
      · exact ih later listed.2 sizes.2

/-- The internal nodes of a tree are well formed, and their separators are chained. -/
theorem Separators.wellFormed {page : Page} {first : UInt64} {rest : List (Bytes × UInt64)}
    (h : Separators page first rest) (sorted : (rest.map Prod.fst).Pairwise (· < ·)) :
    WellFormed page ∧ liveElements elementCodec page = some (chain first rest) := by
  obtain ⟨entries, floor, content, count, free⟩ := h.freeSpace_eq
  have repr := content.repr
  have elements : elements (liveCells entries) = chain first rest := by
    rw [elements_liveCells, content.elements]
  have holds : Contains elementCodec page (chain first rest) := ⟨_, _, _, repr, elements⟩
  refine ⟨⟨_, _, _, repr, ?_, ?_, ?_⟩, holds.liveElements⟩
  · intro slot e member
    rw [liveCells, List.mem_map] at member
    obtain ⟨⟨slot', e'⟩, listed, same⟩ := member
    cases same
    exact content.size listed
  · rw [elements]
    exact sorted_chain.2 sorted
  · have space := h.space
    have size := dataSize_chain first rest
    rw [elements, packedSpace, length_chain, length_liveCells, count]
    omega

/-- A short key fits next to a few others. -/
theorem Separators.room_for {page : Page} {first : UInt64} {rest : List (Bytes × UInt64)}
    (h : Separators page first rest) {key : Bytes} (short : separatorSpace key ≤ 1000)
    (few : (rest.map fun entry => separatorSpace entry.1).sum ≤ 1000) :
    separatorSpace key ≤ LeafNodeCodec.freeSpace page := by
  have space := h.space
  rw [headerSize] at space
  omega

/-- Three separators on a page. -/
theorem exists_three_separators :
    ∃ page, Separators page 10 [([1], 20), ([3], 30), ([5], 40)] := by
  have none := (separators_zero 0 10).1
  have room₁ := none.room_for (show separatorSpace [1] ≤ 1000 by decide) (by decide)
  obtain ⟨page₁, _, one, _⟩ := Separators.insertElement [] [] none 20 (by simp) (by simp) room₁
  have room₂ := one.room_for (show separatorSpace [3] ≤ 1000 by decide) (by decide)
  obtain ⟨page₂, _, two, _⟩ := Separators.insertElement [([1], 20)] [] one 30 (by decide) (by simp) room₂
  have room₃ := two.room_for (show separatorSpace [5] ≤ 1000 by decide) (by decide)
  obtain ⟨page₃, _, three, _⟩ := Separators.insertElement [([1], 20), ([3], 30)] [] two 40 (by decide)
    (by simp) room₃
  exact ⟨page₃, three⟩

theorem insertElement_routes_to_new_child : ∃ page page', WellFormed page ∧
    findNextChildNodePageId page [4] = some 30 ∧
    insertElement page [4] 30 50 = some (true, page') ∧
    findNextChildNodePageId page' [4] = some 50 ∧ findNextChildNodePageId page' [3] = some 30 := by
  obtain ⟨page, three⟩ := exists_three_separators
  obtain ⟨wellFormed, live⟩ := three.wellFormed (by decide)
  have routed := three.findNextChild (by simp) (by decide) [4]
  have room := three.room_for (show separatorSpace [4] ≤ 1000 by decide) (by decide)
  obtain ⟨page', done, _, _⟩ := Separators.insertElement [([1], 20), ([3], 30)] [([5], 40)] three 50
    (by decide) (by decide) room
  have result := (insertElement_preserves_routing wellFormed live (chained_chain _ _) (by decide)
    (fun _ => routed) done).2
  refine ⟨page, page', wellFormed, routed, done, ?_, ?_⟩
  · rw [result, if_pos (by decide)]
  · rw [result, if_neg (by decide), if_pos (by decide)]
    rfl

/-! ### Splits -/

/-- The halves of a split node, and the separator between them. -/
theorem splitNode_chain {page right left' right' : Page} {cells : List (Cell InternalNodeElement)}
    {floor garbage : Nat} (h : Accounted elementCodec page cells floor garbage) {first : UInt64}
    {rest : List (Bytes × UInt64)} (same : elements cells = chain first rest) {rightId : UInt64}
    {i : Nat} {splitKey : Bytes} (inside : i < rest.length)
    (split : splitNode page right rightId i = some (left', right', splitKey)) :
    ∃ child lo hi, rest = lo ++ (splitKey, child) :: hi ∧ lo.length = i ∧
      (∃ cells' floor' garbage', Accounted elementCodec left' cells' floor' garbage' ∧
        elements cells' = chain first lo) ∧
      ∃ cells' floor' garbage', Accounted elementCodec right' cells' floor' garbage' ∧
        elements cells' = chain child hi := by
  obtain ⟨⟨sep, child⟩, middle⟩ : ∃ entry, rest[i]? = some entry := ⟨_, List.getElem?_eq_getElem inside⟩
  obtain ⟨m, here, named⟩ := getElem?_chain first middle
  obtain ⟨_, _, done, left, back⟩ := SlottedPage.splitNode_spec h.repr 1 right rightId (same ▸ here)
  rw [splitNode, done] at split
  cases split
  have ordered := h.ordered
  rw [← live_map_snd] at ordered
  have cut : rest = rest.take i ++ (m.key, child) :: rest.drop (i + 1) := by
    have entry : rest[i] = (sep, child) :=
      Option.some.inj ((List.getElem?_eq_getElem inside).symm.trans middle)
    conv_lhs => rw [← List.take_append_drop i rest, List.drop_eq_getElem_cons inside, entry]
    rw [named]
  refine ⟨child, rest.take i, rest.drop (i + 1), cut, List.length_take_of_le inside.le, ?_, ?_⟩
  · refine ⟨_, _, _, accounted_packed left.repr ?_, ?_⟩
    · rw [List.map_take]
      exact ordered.sublist (List.take_sublist _ _)
    · rw [elements_packed, List.map_take, live_map_snd, same, take_chain]
  · refine ⟨_, _, _, accounted_packed back.repr ?_, ?_⟩
    · rw [List.map_drop]
      exact ordered.sublist (List.drop_sublist _ _)
    · rw [elements_packed, List.map_drop, live_map_snd, same, drop_chain middle]

/-- The insertion into one half. -/
theorem insertElement_chain {page page' : Page} {cells : List (Cell InternalNodeElement)}
    {floor garbage : Nat} (h : Accounted elementCodec page cells floor garbage) {first : UInt64}
    {rest : List (Bytes × UInt64)} (same : elements cells = chain first rest)
    (sorted : (rest.map Prod.fst).Pairwise (· < ·)) {k : Bytes}
    (absent : ∀ entry ∈ rest, entry.1 ≠ k) {new : UInt64}
    (done : insertElement page k (route k first rest) new = some (true, page')) :
    ∃ before after, rest = before ++ after ∧ (∀ entry ∈ before, entry.1 < k) ∧
      (∀ entry ∈ after, k < entry.1) ∧
      Contains elementCodec page' (chain first (before ++ (k, new) :: after)) := by
  obtain ⟨before, after, rfl, reached, above⟩ := exists_cut_at k sorted
  have below : ∀ entry ∈ before, entry.1 < k := fun e member =>
    lt_of_le_of_ne (reached e member) (absent e (List.mem_append_left after member))
  have holds := contains_insertElement h done
  rw [same, spliceInto_chain below above] at holds
  exact ⟨before, after, rfl, below, above, holds⟩

/-- On a well-formed page whose separators are chained, a split at an inner index followed by an
insertion that returns true, on the side that the new key belongs to: on both sides of the
promoted separator the keys are routed as in the whole node with the new separator put in. -/
theorem splitNode_preserves_routing {page right left' right' : Page}
    {es : List InternalNodeElement} (wellFormed : WellFormed page)
    (live : liveElements elementCodec page = some es) (chained : Chained es) {rightId : UInt64}
    {i : Nat} (inner : 0 < i ∧ i < es.length - 1) {k splitKey : Bytes}
    (absent : ∀ e ∈ es, e.key ≠ k) {leftChild rightChild : UInt64}
    (routed : findNextChildNodePageId page k = some leftChild)
    (split : splitNode page right rightId i = some (left', right', splitKey))
    {left'' right'' : Page}
    (done : if k < splitKey then
        insertElement left' k leftChild rightChild = some (true, left'') ∧ right'' = right'
      else insertElement right' k leftChild rightChild = some (true, right'') ∧ left'' = left')
    (q : Bytes) :
    (if q < splitKey then findNextChildNodePageId left'' q
      else findNextChildNodePageId right'' q) =
    some (nextChild q (spliceInto es ⟨k, leftChild, rightChild⟩) 0) := by
  obtain ⟨cells, floor, garbage, accounted, rfl, sorted⟩ := wellFormed.accounted live
  have holds : Contains elementCodec page (elements cells) := ⟨_, _, _, accounted.repr, rfl⟩
  obtain ⟨first, rest, same, _⟩ := chained.exists_chain 0
  rw [same, length_chain] at inner
  obtain ⟨child, lo, hi, rfl, count, left, back⟩ :=
    splitNode_chain accounted same (by omega) split
  rw [same] at holds absent sorted
  have keys := sorted_chain.1 sorted
  have missing : ∀ entry ∈ lo ++ (splitKey, child) :: hi, entry.1 ≠ k := by
    intro entry member
    obtain ⟨e, listed, here⟩ := mem_chain_of_key first member
    exact here ▸ absent e listed
  rw [findNextChild_chain holds (by simp) keys, Option.some.injEq, route_middle keys] at routed
  simp only [List.length_append, List.length_cons] at inner
  have loPresent : lo ≠ [] := List.length_pos_iff.1 (by omega)
  have hiPresent : hi ≠ [] := List.length_pos_iff.1 (by omega)
  have parts := List.pairwise_append.1 (List.map_append ▸ keys)
  -- it is enough to know the two halves and that the whole is made of them
  suffices halves : ∃ lo' hi', lo' ≠ [] ∧ hi' ≠ [] ∧
      ((lo' ++ (splitKey, child) :: hi').map Prod.fst).Pairwise (· < ·) ∧
      Contains elementCodec left'' (chain first lo') ∧
      Contains elementCodec right'' (chain child hi') ∧
      spliceInto (elements cells) ⟨k, leftChild, rightChild⟩ =
        chain first (lo' ++ (splitKey, child) :: hi') by
    obtain ⟨lo', hi', some, some', keys', holdsLeft, holdsRight, whole⟩ := halves
    have parts' := List.pairwise_append.1 (List.map_append ▸ keys')
    rw [findNextChild_chain holdsLeft some parts'.1,
      findNextChild_chain holdsRight some' (List.pairwise_cons.1 parts'.2.1).2, whole,
      nextChild_eq_route (by simp) keys', route_middle keys']
    split
    · rfl
    · rfl
  split at done
  next less =>
    rw [if_pos less] at routed
    obtain ⟨cellsL, floorL, garbageL, accountedL, sameL⟩ := left
    obtain ⟨cellsR, floorR, garbageR, accountedR, sameR⟩ := back
    obtain ⟨inserted, rfl⟩ := done
    obtain ⟨before, after, rfl, below, above, holds'⟩ := insertElement_chain accountedL sameL parts.1
      (fun entry member => missing entry (List.mem_append_left _ member)) (routed.symm ▸ inserted)
    have above' : ∀ entry ∈ after ++ (splitKey, child) :: hi, k < entry.1 := by
      intro entry member
      rcases List.mem_append.1 member with inside | later
      · exact above entry inside
      · rcases List.mem_cons.1 later with rfl | last
        · exact less
        · exact less.trans
            ((List.pairwise_cons.1 parts.2.1).1 entry.1 (List.mem_map_of_mem last))
    have routed' : route k first (before ++ (after ++ (splitKey, child) :: hi)) = leftChild := by
      rw [← List.append_assoc, route_middle keys, if_pos less, routed]
    rw [List.append_assoc] at keys same
    refine ⟨before ++ (k, rightChild) :: after, hi, by simp, hiPresent, ?_, holds',
      ⟨_, _, _, accountedR.repr, sameR⟩, ?_⟩
    · rw [List.append_assoc]
      exact sorted_insert rightChild keys below above'
    · rw [same, ← routed', spliceInto_chain below above', List.append_assoc]
      rfl
  next reached =>
    rw [if_neg reached] at routed
    obtain ⟨cellsL, floorL, garbageL, accountedL, sameL⟩ := left
    obtain ⟨cellsR, floorR, garbageR, accountedR, sameR⟩ := back
    obtain ⟨inserted, rfl⟩ := done
    have later : splitKey < k := lt_of_le_of_ne (not_lt.1 reached) (missing (splitKey, child) (by simp))
    obtain ⟨before, after, rfl, below, above, holds'⟩ := insertElement_chain accountedR sameR
      (List.pairwise_cons.1 parts.2.1).2
      (fun entry member => missing entry (List.mem_append_right _ (List.mem_cons_of_mem _ member)))
      (routed.symm ▸ inserted)
    have below' : ∀ entry ∈ lo ++ (splitKey, child) :: before, entry.1 < k := by
      intro entry member
      rcases List.mem_append.1 member with front | back
      · exact (parts.2.2 entry.1 (List.mem_map_of_mem front) splitKey (by simp)).trans later
      · rcases List.mem_cons.1 back with rfl | inside
        · exact later
        · exact below entry inside
    have regroup (xs : List (Bytes × UInt64)) : lo ++ (splitKey, child) :: (before ++ xs) =
        (lo ++ (splitKey, child) :: before) ++ xs := by simp
    have routed' : route k first ((lo ++ (splitKey, child) :: before) ++ after) = leftChild := by
      rw [← regroup, route_middle keys, if_neg reached, routed]
    rw [regroup] at keys same
    refine ⟨lo, before ++ (k, rightChild) :: after, loPresent, by simp, ?_,
      ⟨_, _, _, accountedL.repr, sameL⟩, holds', ?_⟩
    · rw [regroup]
      exact sorted_insert rightChild keys below' above
    · rw [same, ← routed', spliceInto_chain below' above, regroup]

theorem splitNode_routes_to_new_child : ∃ page left' right' right'', WellFormed page ∧
    splitNode page (Buffer.zero 4096) 7 1 = some (left', right', [3]) ∧
    insertElement right' [4] 30 50 = some (true, right'') ∧
    findNextChildNodePageId left' [2] = some 20 ∧
    findNextChildNodePageId right'' [4] = some 50 := by
  obtain ⟨page, three⟩ := exists_three_separators
  obtain ⟨wellFormed, live⟩ := three.wellFormed (by decide)
  have routed := three.findNextChild (by simp) (by decide) [4]
  have middle : ([([1], 20), ([3], 30), ([5], 40)] : List (Bytes × UInt64))[1]? =
      some ([3], 30) := rfl
  obtain ⟨left', right', split, _, back⟩ := three.splitNode (Buffer.zero 4096) 7 middle
  have room := back.room_for (show separatorSpace [4] ≤ 1000 by decide) (by decide)
  obtain ⟨right'', done, _, _⟩ := Separators.insertElement [] [([5], 40)] back 50 (by simp)
    (by decide) room
  have right : if ([4] : Bytes) < [3] then
        insertElement left' [4] 30 50 = some (true, left') ∧ right'' = right'
      else insertElement right' [4] 30 50 = some (true, right'') ∧ left' = left' := by
    rw [if_neg (by decide)]
    exact ⟨done, rfl⟩
  have result := splitNode_preserves_routing wellFormed live (chained_chain _ _) (by decide)
    (by decide) routed split right
  refine ⟨page, left', right', right'', wellFormed, split, done, ?_, ?_⟩
  · have here := result [2]
    rw [if_pos (by decide)] at here
    exact here
  · have here := result [4]
    rw [if_neg (by decide)] at here
    exact here

end InternalNodeCodec

end CambiumDB
