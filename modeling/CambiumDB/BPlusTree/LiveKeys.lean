import CambiumDB.BPlusTree.CleanRun
import CambiumDB.PageCodec.LeafChain

/-!
# The keys of a tree

The live keys of a tree are those of the leaf pages that the root leads to. An update
replaces the old entry as long as the new one fits its leaf. When it does not, the leaf is
split and the new entry is inserted next to the old one.
-/

namespace CambiumDB

open ByteBuffer HeaderConfig HeaderCodec SlotCodec SlottedPage Router TreeM TransitionSystem

open LeafNodeCodec (LeafPage Clean NoSpace Half spaceRequired splitIndex)

open InternalNodeCodec (InternalPage separatorSpace chain)

/-- The children of an internal node, from left to right. -/
def childPages : List (Slot × InternalNodeElement) → List UInt64
  | [] => []
  | (slot, e) :: entries =>
    e.leftChildNodePageId :: ((slot, e) :: entries).map fun entry => entry.2.rightChildNodePageId

/-- The leaf pages under `id`, from left to right. -/
def leafPages (pages : UInt64 → Page) : Nat → UInt64 → Option (List UInt64)
  | 0, _ => none
  | fuel + 1, id =>
    if HeaderCodec.isLeafNode (pages id) then some [id]
    else do
      let entries ← InternalNodeCodec.getAllSlotsAndElements (pages id)
      let below ← (childPages entries).mapM (leafPages pages fuel)
      some below.flatten

/-- The live entries of all leaf pages. -/
def liveEntries (w : World) : Option (List LeafNodeElement) :=
  if w.tree.rootNodePageId = 0 then some []
  else do
    let leaves ← leafPages w.pages (w.filePages + 1) w.tree.rootNodePageId
    let pairs ← leaves.mapM fun id => LeafNodeCodec.livePairs (w.pages id)
    some pairs.flatten

def liveKeys (w : World) : Option (List Bytes) :=
  (liveEntries w).map fun entries => entries.map LeafNodeElement.key

/-- Every key is in at most one live slot. -/
def UniqueKeys (w : World) : Prop := ∃ keys, liveKeys w = some keys ∧ keys.Nodup

theorem childPages_chain {entries : List (Slot × InternalNodeElement)} {first : UInt64}
    {rest : List (Bytes × UInt64)} (nonempty : rest ≠ [])
    (elements : entries.map Prod.snd = chain first rest) : childPages entries = children first rest := by
  have rights (first : UInt64) (rest : List (Bytes × UInt64)) :
      (chain first rest).map InternalNodeElement.rightChildNodePageId = rest.map Prod.snd := by
    induction rest generalizing first with
    | nil => rfl
    | cons entry rest ih =>
      rw [chain, List.map_cons, List.map_cons, ih]
  have rights' := rights first rest
  rw [← elements, List.map_map] at rights'
  cases entries with
  | nil =>
    cases rest with
    | nil => exact absurd rfl nonempty
    | cons entry rest => cases elements
  | cons entry entries =>
    obtain ⟨slot, e⟩ := entry
    cases rest with
    | nil => exact absurd rfl nonempty
    | cons next rest =>
      have head : e.leftChildNodePageId = first := by
        rw [chain, List.map_cons] at elements
        exact congrArg InternalNodeElement.leftChildNodePageId (List.cons.inj elements).1
      rw [childPages, head, children, ← rights']
      rfl

/-- The leaves below a root whose children are leaves. -/
theorem leafPages_node {w : World} {first : UInt64} {rest : List (Bytes × UInt64)}
    (pages : 0 < w.filePages) (node : InternalPage (w.pages w.tree.rootNodePageId) first rest)
    (nonempty : rest ≠ [])
    (types : ∀ id ∈ children first rest, HeaderCodec.isLeafNode (w.pages id) = true) :
    leafPages w.pages (w.filePages + 1) w.tree.rootNodePageId = some (children first rest) := by
  obtain ⟨more, enough⟩ : ∃ more, w.filePages = more + 1 := ⟨w.filePages - 1, by omega⟩
  obtain ⟨entries, read, elements, _⟩ := node.getAll
  have below : ∀ id ∈ children first rest, leafPages w.pages w.filePages id = some [id] := by
    intro id member
    rw [enough, leafPages, if_pos (types id member)]
  have read' : InternalNodeCodec.getAllSlotsAndElements (w.pages w.tree.rootNodePageId) =
      some entries := read
  have collected := mapM_eq_some (g := fun id => [id]) (children first rest) below
  rw [leafPages, node.isLeafNode nonempty, if_neg (by decide), read']
  simp only [bind, Option.bind, childPages_chain nonempty elements, collected]
  rw [← List.flatMap_def, List.flatMap_singleton']

theorem Stored.leafPages {w : World} {first : UInt64} {rest : List (Bytes × UInt64)}
    {pairs : UInt64 → List LeafNodeElement} (ready : Ready w) (stored : Stored w first rest pairs) :
    leafPages w.pages (w.filePages + 1) w.tree.rootNodePageId = some (children first rest) := by
  by_cases single : rest = []
  · subst single
    have leaf := stored.leaves first (by simp [children])
    rw [← stored.leafRoot rfl] at leaf ⊢
    rw [CambiumDB.leafPages, if_pos leaf.isLeafNode]
    rfl
  · have pages : 0 < w.filePages := lt_of_le_of_lt (Nat.zero_le _) ready.inside
    exact leafPages_node pages (stored.nodeRoot single).1 single fun id member =>
      (stored.leaves id member).isLeafNode

theorem liveEntries_of_leaves {w : World} {leaves : List UInt64}
    (pairs : UInt64 → List LeafNodeElement) (present : w.tree.rootNodePageId ≠ 0)
    (reached : leafPages w.pages (w.filePages + 1) w.tree.rootNodePageId = some leaves)
    (held : ∀ id ∈ leaves, LeafNodeCodec.livePairs (w.pages id) = some (pairs id)) :
    liveEntries w = some (leaves.flatMap pairs) := by
  have lists := mapM_eq_some leaves held
  rw [liveEntries, if_neg present, reached]
  simp only [bind, Option.bind, lists]
  rw [← List.flatMap_def]

theorem Stored.liveEntries {w : World} {first : UInt64} {rest : List (Bytes × UInt64)}
    {pairs : UInt64 → List LeafNodeElement} (ready : Ready w) (stored : Stored w first rest pairs) :
    liveEntries w = some ((children first rest).flatMap pairs) :=
  liveEntries_of_leaves pairs stored.rootAllocated.1 (stored.leafPages ready) fun id member =>
    (stored.leaves id member).livePairs

/-- A key is stored in the leaf it is routed to, so two leaves have no key in common. -/
theorem Stored.nodup_keys {w : World} {first : UInt64} {rest : List (Bytes × UInt64)}
    {pairs : UInt64 → List LeafNodeElement} (stored : Stored w first rest pairs) :
    (((children first rest).flatMap pairs).map LeafNodeElement.key).Nodup := by
  rw [List.map_flatMap, List.nodup_flatMap]
  constructor
  · intro id member
    exact (stored.leaves id member).sorted.nodup_keys
  · refine stored.nodup.imp_of_mem ?_
    intro id id' member member' different key held held'
    obtain ⟨e, here, rfl⟩ := List.mem_map.mp held
    obtain ⟨e', there, same⟩ := List.mem_map.mp held'
    have routed := stored.routed id member e here
    have routed' := stored.routed id' member' e' there
    rw [same] at routed'
    exact different (routed.symm.trans routed')

/-- In every session whose inserts meet the condition each key is in one live slot at most. -/
theorem keys_unique (nextLSN : List LogEntry → UInt64) {s : Session}
    (reached : Reach (CallStep nextLSN) CallOk Opened s) : UniqueKeys s.world := by
  have agrees := agrees_of_reach reached
  by_cases present : s.world.tree.rootNodePageId = 0
  · refine ⟨[], ?_, List.nodup_nil⟩
    rw [liveKeys, liveEntries, if_pos present]
    rfl
  · obtain ⟨first, rest, pairs, stored, _⟩ := agrees.holds.stored_of_root present
    refine ⟨_, ?_, stored.nodup_keys⟩
    rw [liveKeys, stored.liveEntries agrees.ready]
    rfl

theorem first_key_unique : ∃ s, Reach (CallStep fun log => log.length.toUInt64 + 1) CallOk
    Opened s ∧ s.map [1] = some [2] ∧ UniqueKeys s.world := by
  obtain ⟨w', reached, _⟩ := reach_first (fun log => log.length.toUInt64 + 1) [1] [2] (by decide)
  exact ⟨_, reached, rfl, keys_unique _ reached⟩

/-! ### An update that splits its leaf -/

/-- The old entry of `key` stays where it was and the new one is put behind it. -/
theorem insert_keeps_old_entry (nextLSN : List LogEntry → UInt64) {w : World} {first : UInt64}
    {pairs : UInt64 → List LeafNodeElement} {key value : Bytes} {i : Nat} {m e : LeafNodeElement}
    (ready : Ready w) (stored : Stored w first [] pairs) (space : w.filePages + 32 ≤ maxFilePages)
    (found : SortedList.lookup LeafNodeElement.key key (pairs first) = some e)
    (longer : e.value.length < value.length) (full : NoSpace (w.pages first) key value)
    (index : LeafNodeCodec.findSplitNodeIndex (w.pages first) = some i)
    (middle : (pairs first)[i]? = some m) (left : key < m.key)
    (room : spaceRequired key value + slotSize ≤
      packedSpace LeafNodeCodec.elementCodec ((pairs first).take i))
    (separator : separatorSpace m.key ≤ 4064) :
    ∃ w', BPlusTree.insert nextLSN key value w = (.ok (), w') ∧
      liveKeys w' = some ((SortedList.insert LeafNodeElement.key ⟨key, value⟩
        ((pairs first).take i) ++ (pairs first).drop i).map LeafNodeElement.key) := by
  have leaf := stored.leaves first (by simp [children])
  have old := (stored.allocated first (by simp [children])).2
  have alloc : (w.enter nextLSN).Allocating := ready.toAllocating.congr rfl rfl rfl fun _ _ => rfl
  obtain ⟨w₁, start⟩ : ∃ w₁, w₁ = (w.enter nextLSN).createNode nextLSN := ⟨_, rfl⟩
  have same : w₁.pages first = w.pages first := start ▸ BPlusTree.createNode_other nextLSN alloc old
  -- the cut itself is sound; the entry then goes into the half that still has its key
  have type := ((LeafNodeCodec.leafPage_zero.setLSN (nextLSN w₁.log)).setLSN (BPlusTree.splitLSN nextLSN w₁)).type
  obtain ⟨left₀, right₀, cut, leftHalf, rightHalf, _⟩ :=
    (leaf.setLSN (BPlusTree.splitLSN nextLSN w₁)).splitNode type w₁.nextPage middle
  obtain ⟨leftPage, inserted, leftPairs, keeps⟩ :=
    leftHalf.leaf.insertElement_again key value (leftHalf.free.symm ▸ room)
  have done : BPlusTree.SplitPages nextLSN w₁ first key value i m.key leftPage right₀ := by
    refine ⟨same.symm ▸ index, left₀, right₀, same.symm ▸ cut, ?_⟩
    rw [if_pos left]
    exact ⟨inserted, rfl⟩
  have goes := BPlusTree.writeLeaf_updateFull nextLSN (w := w.enter nextLSN) leaf found longer full
  obtain ⟨w₂, divided⟩ : ∃ w₂, w₂ = w₁.splitInto nextLSN first
      (BPlusTree.splitRecord w₁ first i key value (pairs first)) leftPage right₀ := ⟨_, rfl⟩
  obtain ⟨older, newer, alloc₁⟩ := BPlusTree.rootSplit_order nextLSN ready old start (by omega)
  have apart : w₁.nextPage ≠ first := (UInt64.ne_of_lt (UInt64.lt_trans older newer)).symm
  obtain ⟨rootPage, run, node, _⟩ : ∃ rootPage, BPlusTree.insert nextLSN key value w =
      (.ok (), w₂.afterRootSplit nextLSN w.nextPage first m.key w₁.nextPage rootPage) ∧
      InternalPage rootPage first [(m.key, w₁.nextPage)] ∧ getLSN rootPage = nextLSN w₂.log := by
    subst divided start
    exact BPlusTree.insert_of_rootSplit nextLSN ready stored space goes separator done
  obtain ⟨leftIs, rightIs, rootIs, _⟩ :=
    BPlusTree.rootSplit_pages nextLSN ready old start m.key rootPage (by omega) divided
  have filled : 0 < w₂.filePages := by
    rw [divided]
    exact lt_of_le_of_lt (Nat.zero_le _) alloc₁.nextPage_inside
  have split : ∀ {P : UInt64 → Prop}, P first → P w₁.nextPage →
      ∀ id ∈ children first [(m.key, w₁.nextPage)], P id := by
    intro P here there id member
    rcases (by simpa [children] using member : id = first ∨ id = w₁.nextPage) with rfl | rfl
    · exact here
    · exact there
  obtain ⟨w', after⟩ :
    ∃ w', w' = w₂.afterRootSplit nextLSN w.nextPage first m.key w₁.nextPage rootPage := ⟨_, rfl⟩
  have root : w'.tree.rootNodePageId = w.nextPage := by rw [after]; rfl
  have filled' : 0 < w'.filePages := by rw [after]; exact filled
  rw [← after] at run leftIs rightIs rootIs
  rw [← rootIs, ← root] at node
  have leaves := leafPages_node filled' node (by simp) (split ?leftType ?rightType)
  have entries := liveEntries_of_leaves (Function.update (fun _ => (pairs first).drop i) first
    (SortedList.insert LeafNodeElement.key ⟨key, value⟩ ((pairs first).take i)))
    (root ▸ ready.toAllocating.nextPage_ne_zero) leaves (split ?leftPairs ?rightPairs)
  · refine ⟨w', run, ?_⟩
    rw [liveKeys, entries, children]
    simp [apart]
  case leftType =>
    rw [leftIs]
    exact isLeafNode_of_type (leftHalf.leaf.keeps_type keeps)
  case rightType =>
    rw [rightIs]
    exact rightHalf.leaf.isLeafNode
  case leftPairs =>
    rw [leftIs, Function.update_self]
    exact leftPairs
  case rightPairs =>
    rw [rightIs, Function.update_of_ne apart]
    exact rightHalf.leaf.livePairs

theorem growing_update_duplicates_key :
    ∃ s, Reach (NilStep recordLSN) DiskGrows (· = ⟨newDatabase, fun _ => none⟩) s ∧
      ¬ UniqueKeys s.world := by
  have limit : 100 ≤ maxFilePages := by decide
  obtain ⟨a, lengthA⟩ : ∃ a : Bytes, a.length = 2000 := ⟨_, List.length_replicate (a := 0)⟩
  obtain ⟨b, lengthB⟩ : ∃ b : Bytes, b.length = 1000 := ⟨_, List.length_replicate (a := 0)⟩
  obtain ⟨c, lengthC⟩ : ∃ c : Bytes, c.length = 2001 := ⟨_, List.length_replicate (a := 0)⟩
  have needA : spaceRequired [1] a = 2005 := by rw [spaceRequired, lengthA]; rfl
  have needB : spaceRequired [2] b = 1005 := by rw [spaceRequired, lengthB]; rfl
  have needC : spaceRequired [1] c = 2006 := by rw [spaceRequired, lengthC]; rfl
  have widthA : width LeafNodeCodec.elementCodec ⟨[1], a⟩ = 2005 :=
    (LeafNodeCodec.width_eq _).trans needA
  have widthB : width LeafNodeCodec.elementCodec ⟨[2], b⟩ = 1005 :=
    (LeafNodeCodec.width_eq _).trans needB
  have one : packedSpace LeafNodeCodec.elementCodec [⟨[1], a⟩] = 2055 := by
    simp [packedSpace, headerSize, widthA]
  have two : packedSpace LeafNodeCodec.elementCodec [⟨[1], a⟩, ⟨[2], b⟩] = 1046 := by
    simp [packedSpace, headerSize, widthA, widthB]
  obtain ⟨s, leaf, pairs, reachedOk, tidy, held, small⟩ := reach_two recordLSN
    (show ([1] : Bytes) < [2] by decide) (by rw [needA]; decide) (by rw [one, needB]; decide)
  have reached := (reach_callOk reachedOk).1
  have clean := tidy.clean leaf (by simp [children])
  rw [held] at clean
  have cut : splitIndex [⟨[1], a⟩, ⟨[2], b⟩] = 1 :=
    splitLoop_pair (by rw [widthA, widthB]; decide) (by rw [widthA, widthB]; decide)
  have full := clean.noSpace (by rw [needC]; decide) (by rw [two, needC]; decide)
  have index := clean.findSplitNodeIndex
  rw [cut] at index
  have room : spaceRequired [1] c + slotSize ≤
      packedSpace LeafNodeCodec.elementCodec ((pairs leaf).take 1) := by
    rw [held, needC]
    exact one.symm ▸ (by decide : 2006 + slotSize ≤ 2055)
  obtain ⟨w', run, keys⟩ := insert_keeps_old_entry recordLSN tidy.ready tidy.stored (by omega)
    (e := ⟨[1], a⟩) (by rw [held]; rfl) (by simp only; omega) full index
    (m := ⟨[2], b⟩) (by rw [held]; rfl) (show ([1] : Bytes) < [2] by decide) room
    (show separatorSpace [2] ≤ 4064 by decide)
  refine ⟨_, reach_insert reached
    (show s.world.filePages + 32 ≤ maxFilePages by omega) run, ?_⟩
  rintro ⟨keys', live, unique⟩
  -- the leaf holds [1] with its old value, [1] with its new value and [2]
  have twice : keys' = [[1], [1], [2]] := by
    rw [held] at keys
    exact (Option.some.inj (keys.symm.trans live)).symm
  rw [twice] at unique
  exact absurd unique (by decide)

end CambiumDB
