import CambiumDB.BPlusTree.GrowRight
import CambiumDB.BPlusTree.InternalSplit

/-!
# The shape of a tree

What the pages below the root look like to the code that decodes them: which of them are
leaves, how the separators bound the keys, which keys are stored. `CreatedTypes` ties the
type that a page decodes as to the one it was created with.
-/

namespace CambiumDB

open ByteBuffer HeaderConfig SlotCodec SlottedPage Router TreeM TransitionSystem

open LeafNodeCodec (LeafPage Clean spaceRequired splitIndex)

open InternalNodeCodec (InternalPage Separators separatorSpace chain)

/-- The pages under `id`, all leaves `height` steps below it. Neighbouring separators agree
on the child between them, no pointer leads to page 0, and the keys of a leaf lie between
the separators passed on the way. -/
inductive Subtree (w : World) : Nat → Option Bytes → Option Bytes → UInt64 → List UInt64 → Prop
  | leaf {lower upper : Option Bytes} {id : UInt64} {pairs : List LeafNodeElement} :
      id ≠ 0 → HeaderCodec.isLeafNode (w.pages id) = true →
      LeafNodeCodec.livePairs (w.pages id) = some pairs →
      (∀ e ∈ pairs, Within lower upper e.key) → Subtree w 0 lower upper id [id]
  | node {height : Nat} {lower upper : Option Bytes} {id first : UInt64}
      {rest : List (Bytes × UInt64)} {entries : List (Slot × InternalNodeElement)}
      {below : UInt64 → List UInt64} :
      id ≠ 0 → HeaderCodec.isLeafNode (w.pages id) = false →
      InternalNodeCodec.getAllSlotsAndElements (w.pages id) = some entries →
      entries.map Prod.snd = chain first rest → rest ≠ [] →
      (∀ range ∈ ranges lower upper first rest,
        Subtree w height range.2.1 range.2.2 range.1 (below range.1)) →
      Subtree w (height + 1) lower upper id (id :: (children first rest).flatMap below)

/-- Every page that the log says was created for this tree decodes as what it was created as. -/
def CreatedTypes (w : World) : Prop :=
  ∀ entry ∈ w.log, ∀ page type source,
    entry.record = .createPage w.tree.bPlusTreeId page type source →
    page ≤ w.metadata.maxAllocatedPageId ∧
      HeaderCodec.isLeafNode (w.pages page) = decide (type = .leaf)

/-- The tree is a B+ tree as the code decodes it: no page is reached twice, so there is no
cycle. -/
structure WellShaped (w : World) : Prop where
  types : CreatedTypes w
  shape : w.tree.rootNodePageId ≠ 0 →
    ∃ height pages, Subtree w height none none w.tree.rootNodePageId pages ∧ pages.Nodup

theorem Stored.subtree {w : World} {first : UInt64} {rest : List (Bytes × UInt64)}
    {pairs : UInt64 → List LeafNodeElement} (stored : Stored w first rest pairs) :
    ∃ height pages, Subtree w height none none w.tree.rootNodePageId pages ∧ pages.Nodup := by
  have all (key : Bytes) : Within none none key := ⟨by simp, by simp⟩
  by_cases single : rest = []
  · subst single
    have leaf := stored.leaves first (by simp [children])
    rw [stored.leafRoot rfl]
    have present := stored.rootAllocated.1
    rw [stored.leafRoot rfl] at present
    exact ⟨0, [first], .leaf present leaf.isLeafNode leaf.livePairs fun e _ => all e.key, by simp⟩
  · obtain ⟨node, outside⟩ := stored.nodeRoot single
    obtain ⟨entries, read, elements, _⟩ := node.getAll
    refine ⟨1, w.tree.rootNodePageId :: (children first rest).flatMap fun id => [id],
      .node stored.rootAllocated.1 (node.isLeafNode single) read elements single ?_, ?_⟩
    · rintro ⟨child, low, high⟩ range
      have member : child ∈ children first rest := by
        rw [← ranges_children none none]
        exact List.mem_map_of_mem range
      have leaf := stored.leaves child member
      refine .leaf (stored.allocated child member).1 leaf.isLeafNode leaf.livePairs fun e held => ?_
      exact route_within stored.nodup range (all e.key) (stored.routed child member e held)
    · rw [List.flatMap_singleton', List.nodup_cons]
      exact ⟨outside, stored.nodup⟩

/-! ### Types of pages -/

/-- A step that changes no type of an old page and logs the types of its new ones. -/
theorem CreatedTypes.step {nextLSN : List LogEntry → UInt64} {w w' : World} {records : List WALRecord}
    (created : CreatedTypes w) (tree : w'.tree.bPlusTreeId = w.tree.bPlusTreeId)
    (grows : w.metadata.maxAllocatedPageId ≤ w'.metadata.maxAllocatedPageId)
    (kept : ∀ id ≤ w.metadata.maxAllocatedPageId,
      HeaderCodec.isLeafNode (w'.pages id) = HeaderCodec.isLeafNode (w.pages id))
    (log : w'.log = BPlusTree.appendAll nextLSN w.log records)
    (new : ∀ page type source, .createPage w.tree.bPlusTreeId page type source ∈ records →
      page ≤ w'.metadata.maxAllocatedPageId ∧
        HeaderCodec.isLeafNode (w'.pages page) = decide (type = .leaf)) :
    CreatedTypes w' := by
  intro entry member page type source record
  rw [tree] at record
  rw [log] at member
  rcases BPlusTree.mem_appendAll nextLSN member with old | added
  · obtain ⟨allocated, typed⟩ := created entry old page type source record
    exact ⟨UInt64.le_trans allocated grows, (kept page allocated).trans typed⟩
  · exact new page type source (record ▸ added)

namespace BPlusTree

variable (nextLSN : List LogEntry → UInt64) {w : World} {key value : Bytes}

theorem Inserted.createdTypes {w' : World} (ready : Ready w) (space : w.filePages + 32 ≤ maxFilePages)
    (outcome : Inserted nextLSN key value w w') (created : CreatedTypes w) : CreatedTypes w' := by
  have alloc := ready.toAllocating
  have older {id : UInt64} (old : id ≤ w.metadata.maxAllocatedPageId) : id ≠ w.nextPage :=
    UInt64.ne_of_lt (alloc.lt_nextPage old)
  have grows : w.metadata.maxAllocatedPageId ≤ w.nextPage :=
    UInt64.le_of_lt (alloc.lt_nextPage (UInt64.le_refl _))
  cases outcome with
  | @planted checked final empty written =>
    refine created.step rfl grows (fun id old => ?_) (afterPlant_log nextLSN checked final) ?_
    · rw [afterPlant_pages, Function.update_of_ne (older old), alloc.allocate_pages old]
    · intro page type source record
      obtain ⟨rfl, rfl, _⟩ : page = w.nextPage ∧ type = .leaf ∧ source = .fileExpansion := by
        simpa using record
      rw [afterPlant_pages, Function.update_self, written.leaf.isLeafNode]
      exact ⟨UInt64.le_refl _, rfl⟩
  | @rewritten first rest pairs record new checked final stored change written =>
    obtain ⟨tree, metadata, _⟩ :=
      afterRewrite_frame nextLSN (route key first rest) checked record final ready
    refine created.step (by rw [tree]) (by rw [metadata]; exact UInt64.le_refl _) (fun id old => ?_)
      (afterRewrite_log nextLSN _ checked record final) ?_
    · rw [afterRewrite_pages]
      by_cases same : id = route key first rest
      · rw [same, Function.update_self, written.leaf.isLeafNode,
          (stored.leaves _ (route_mem key first rest)).isLeafNode]
      · rw [Function.update_of_ne same]
    · intro page type source made
      cases change <;> simp at made
  | @rootSplit root pairs i m leftPage rightPage rootPage w₁ w₂ stored split parts =>
    obtain ⟨leftIs, rightIs, rootIs, others⟩ := parts.pages nextLSN ready stored (by omega)
    obtain ⟨_, newer, _⟩ := parts.order nextLSN ready stored (by omega)
    have last : (w₂.afterRootSplit nextLSN w.nextPage root m.key w₁.nextPage
        rootPage).metadata.maxAllocatedPageId = w₁.nextPage := by
      rw [World.afterRootSplit_last, parts.divided, World.splitInto_last]
    refine created.step ?_ ?_ (fun id old => ?_) (parts.log nextLSN) ?_
    · rw [parts.divided, parts.start]
      rfl
    · rw [last]
      exact UInt64.le_trans grows (UInt64.le_of_lt newer)
    · by_cases same : id = root
      · rw [same, leftIs, parts.left.leaf.isLeafNode,
          (stored.leaves root (by simp [children])).isLeafNode]
      · rw [others id old same]
    · intro page type source record
      rw [last]
      rcases (by simpa [splitRecord] using record :
          (page = w.nextPage ∧ type = .internal ∧ source = .fileExpansion) ∨
            page = w₁.nextPage ∧ type = .leaf ∧ source = .fileExpansion) with
        ⟨rfl, rfl, _⟩ | ⟨rfl, rfl, _⟩
      · rw [rootIs, parts.node.isLeafNode (by simp)]
        exact ⟨UInt64.le_of_lt newer, rfl⟩
      · rw [rightIs, parts.right.leaf.isLeafNode]
        exact ⟨UInt64.le_refl _, rfl⟩
  | @leafSplit first before after pairs leaf i m leftPage rightPage rootPage w₁ w₂ stored height
      routed split below above parts =>
    obtain ⟨leftIs, rightIs, rootIs, others⟩ := parts.pages nextLSN ready stored height routed
    have child : leaf ∈ children first (before ++ after) := routed ▸ route_mem key first _
    have last : (w₂.afterLeafSplit nextLSN w.tree.rootNodePageId leaf m.key w.nextPage
        rootPage).metadata.maxAllocatedPageId = w.nextPage := by
      rw [World.afterLeafSplit_last, parts.divided, World.splitInto_last, parts.start]
      rfl
    refine created.step ?_ ?_ (fun id old => ?_) (parts.log nextLSN) ?_
    · rw [parts.divided, parts.start]
      rfl
    · rw [last]
      exact grows
    · by_cases same : id = leaf
      · rw [same, leftIs, parts.left.leaf.isLeafNode, (stored.leaves leaf child).isLeafNode]
      by_cases root : id = w.tree.rootNodePageId
      · rw [root, rootIs, parts.node.isLeafNode (by simp),
          (stored.nodeRoot height).1.isLeafNode height]
      · rw [others id old same root]
    · intro page type source record
      obtain ⟨rfl, rfl, _⟩ : page = w.nextPage ∧ type = .leaf ∧ source = .fileExpansion := by
        simpa [splitRecord] using record
      rw [last, rightIs, parts.right.leaf.isLeafNode]
      exact ⟨UInt64.le_refl _, rfl⟩

theorem Deleted.createdTypes {w' : World} (outcome : Deleted key w w') (created : CreatedTypes w) :
    CreatedTypes w' := by
  cases outcome with
  | empty => exact created
  | @erased first rest pairs page stored leaf _ =>
    obtain ⟨tree, pages, _, metadata, log, _⟩ :=
      rewriteLeaf_frame (w := w) (route key first rest) page
    have unlogged : ((lookedUp w (route key first rest)).rewriteLeaf (route key first rest) page).log =
        appendAll (fun _ => 0) w.log [] := log
    refine created.step (by rw [tree]) (by rw [metadata]; exact UInt64.le_refl _)
      (fun id _ => ?_) unlogged (by simp)
    rw [pages]
    by_cases same : id = route key first rest
    · rw [same, Function.update_self, leaf.isLeafNode,
        (stored.leaves _ (route_mem key first rest)).isLeafNode]
    · rw [Function.update_of_ne same]

end BPlusTree

theorem SameStore.createdTypes {w w' : World} (same : SameStore w w') (created : CreatedTypes w) :
    CreatedTypes w' := by
  intro entry member page type source record
  rw [same.log] at member
  rw [same.tree] at record
  rw [same.metadata, same.pages]
  exact created entry member page type source record

theorem createdTypes_of_reach {nextLSN : List LogEntry → UInt64} {s : Session}
    (reached : Reach (CallStep nextLSN) CallOk Opened s) : CreatedTypes s.world := by
  refine invariant_of_reach (fun w fresh entry member page type source record => ?_)
    (fun s call s' agrees grows outcome created => ?_) reached
  · exact absurd (congrArg WALRecord.tree record) (fresh.noRecord entry member)
  · cases outcome with
    | insert inserted => exact inserted.createdTypes nextLSN agrees.ready grows created
    | delete deleted => exact deleted.createdTypes created
    | get same => exact same.createdTypes created

/-- A tree is well shaped after every session whose inserts meet the condition. -/
theorem tree_wellShaped (nextLSN : List LogEntry → UInt64) {s : Session}
    (reached : Reach (CallStep nextLSN) CallOk Opened s) : WellShaped s.world := by
  refine ⟨createdTypes_of_reach reached, fun present => ?_⟩
  obtain ⟨first, rest, pairs, stored, _⟩ :=
    (agrees_of_reach reached).holds.stored_of_root present
  exact stored.subtree

theorem first_leaf_wellShaped : ∃ s, Reach (CallStep fun log => log.length.toUInt64 + 1) CallOk
    Opened s ∧ s.map [1] = some [2] ∧ WellShaped s.world := by
  obtain ⟨w', reached, _⟩ := reach_first (fun log => log.length.toUInt64 + 1) [1] [2] (by decide)
  exact ⟨_, reached, rfl, tree_wellShaped _ reached⟩

/-! ### A root that splits twice -/

/-- Keys so long that two entries fill a leaf and two separators the root. -/
structure LongKeys (k : Nat → Bytes) : Prop where
  increasing : ∀ i j, i < j ∧ j < 5 → k i < k j
  length : ∀ i, i < 5 → (k i).length = 1354 - i

namespace LongKeys

variable {k : Nat → Bytes} (long : LongKeys k)
include long

theorem separatorSpace {i : Nat} (h : i < 5) : separatorSpace (k i) = 1376 - i := by
  rw [InternalNodeCodec.separatorSpace, long.length i h, slotSize]
  omega

theorem width {i : Nat} (h : i < 5) :
    width LeafNodeCodec.elementCodec ⟨k i, []⟩ = 1358 - i := by
  rw [LeafNodeCodec.width_eq, long.length i h, List.length_nil]
  omega

theorem growsRight : GrowsRight (fun i => ⟨k i, []⟩) 5 where
  increasing i j less bound := long.increasing i j ⟨less, bound⟩
  narrower i bound := by
    rw [long.width bound, long.width (by omega)]
    omega
  pair i bound := by
    rw [long.width bound, long.width (by omega)]
    omega
  full i bound := by
    rw [long.width bound, long.width (i := i + 1) (by omega), long.width (i := i) (by omega)]
    omega

section
variable (nextLSN : List LogEntry → UInt64)

/-- After four inserts the root has three leaves and no room for a separator. -/
theorem reach_four : ∃ s p q r pairs, Reach (NilStep nextLSN) DiskGrows
      (· = ⟨newDatabase, fun _ => none⟩) s ∧ Tidy s.world p [(k 1, q), (k 2, r)] pairs ∧
    pairs r = [⟨k 2, []⟩, ⟨k 3, []⟩] ∧ s.world.filePages ≤ 81 := by
  have separators : ((List.range 2).map fun i => InternalNodeCodec.separatorSpace (k (i + 1))).sum ≤
      4064 := by
    have first := long.separatorSpace (i := 0 + 1) (by omega)
    have second := long.separatorSpace (i := 1 + 1) (by omega)
    simp only [List.range_succ, List.range_zero, List.nil_append, List.cons_append, List.map_cons,
      List.map_nil, List.sum_cons, List.sum_nil]
    omega
  obtain ⟨s, p, rest, pairs, reached, grown⟩ :=
    Grown.reach (m := 2) nextLSN long.growsRight (by omega) (by decide) separators
  obtain ⟨q, r, rfl⟩ : ∃ q r, rest = [(k 1, q), (k 2, r)] := by
    obtain ⟨⟨_, q⟩, rest₁, rfl, rfl, keys⟩ := List.map_eq_cons_iff.mp grown.separators
    obtain ⟨⟨_, r⟩, rest₂, rfl, rfl, none⟩ := List.map_eq_cons_iff.mp keys
    exact ⟨q, r, by rw [List.map_eq_nil_iff.mp none]⟩
  have routed : route (k 2) p [(k 1, q), (k 2, r)] = r := by
    rw [route, if_neg (lt_asymm (long.increasing 1 2 (by omega)))]
    exact if_neg (lt_irrefl _)
  exact ⟨s, p, q, r, pairs, (reach_callOk reached).1, grown.toTidy, routed ▸ grown.last,
    grown.fileSize⟩

/-- The fifth insert splits the root: the new root was created as an internal node and
decodes as a leaf. -/
theorem reach_five : ∃ s, Reach (NilStep nextLSN) DiskGrows (· = ⟨newDatabase, fun _ => none⟩) s ∧
    ∃ entry ∈ s.world.log, entry.record = .createPage s.world.tree.bPlusTreeId
        s.world.tree.rootNodePageId .internal .fileExpansion ∧
      HeaderCodec.isLeafNode (s.world.pages s.world.tree.rootNodePageId) = true := by
  have limit : 200 ≤ maxFilePages := by decide
  obtain ⟨s, p, q, r, pairs, reached, tidy, held, small⟩ := long.reach_four nextLSN
  have grows := long.growsRight
  have routed : route (k 4) p [(k 1, q), (k 2, r)] = r := by
    rw [route, if_neg (grows.not_lt (i := 1) (j := 4) (by omega) (by omega))]
    exact if_neg (grows.not_lt (i := 2) (j := 4) (by omega) (by omega))
  have clean := tidy.clean r (by simp [children])
  rw [held] at clean
  have split := Tidy.splitAt clean (grows.middle (i := 2) (by omega))
    (grows.absent (i := 2) (by omega)) (grows.room (i := 2) (by omega))
  have space := (tidy.stored.nodeRoot (by simp)).1.space
  have length₁ := long.length 1 (by omega)
  have length₂ := long.length 2 (by omega)
  have length₃ := long.length (2 + 1) (by omega)
  have rootFull : LeafNodeCodec.freeSpace (s.world.pages s.world.tree.rootNodePageId) <
      2 + (k (2 + 1)).length + 8 + 8 := by
    simp only [List.map_cons, List.map_nil, List.sum_cons, List.sum_nil,
      InternalNodeCodec.separatorSpace, slotSize, headerSize] at space
    omega
  have index : InternalNodeCodec.splitIndex [(k 1, q), (k 2, r)] = 1 :=
    splitLoop_pair (by simp only; omega) (by simp only; omega)
  have fits₃ : InternalNodeCodec.separatorSpace (k (2 + 1)) + 0 ≤ 4064 := by
    rw [long.separatorSpace (by omega)]
    decide
  have fits₂ : InternalNodeCodec.separatorSpace (k 2) ≤ 4064 := by
    rw [long.separatorSpace (by omega)]
    decide
  obtain ⟨w', entry, run, logged, created, leafType⟩ := BPlusTree.insert_internalRootSplit nextLSN
    tidy.ready tidy.stored (by simp) routed (by omega)
    (clean.noSpace (grows.small (i := 2) (by omega)) (grows.noRoom (i := 2) (by omega)))
    (held.symm ▸ split) (by simp only; omega) rootFull index
    (show [(k 1, q), (k 2, r)][1]? = some (k 2, r) from rfl) (long.increasing 2 3 (by omega))
    (by simp) rfl fits₃ fits₂
  exact ⟨_, reach_insert reached (show s.world.filePages + 32 ≤ maxFilePages by omega) run, entry, logged, created, leafType⟩

end

end LongKeys

/-- A first byte that grows, and zeros behind it. -/
theorem longKeys_exist : ∃ k, LongKeys k := by
  refine ⟨fun i => i.toUInt8 :: List.replicate (1353 - i) 0, ?_, ?_⟩
  · intro i j bounds
    refine List.Lex.rel ?_
    rw [UInt8.lt_iff_toNat_lt, Nat.toUInt8_eq, Nat.toUInt8_eq, UInt8.toNat_ofNat',
      UInt8.toNat_ofNat']
    omega
  · intro i h
    rw [List.length_cons, List.length_replicate]
    omega

theorem internal_root_split_breaks_shape :
    ∃ s, Reach (NilStep recordLSN) DiskGrows (· = ⟨newDatabase, fun _ => none⟩) s ∧
      ¬ WellShaped s.world := by
  obtain ⟨k, long⟩ := longKeys_exist
  obtain ⟨s, reached, entry, logged, created, leafType⟩ := long.reach_five recordLSN
  refine ⟨s, reached, fun shaped => ?_⟩
  have typed := (shaped.types entry logged _ _ _ created).2
  rw [leafType] at typed
  cases typed

end CambiumDB
