import CambiumDB.BPlusTree.InsertRun

/-!
# The outcomes of `Insert`

`InsertOk` is the exact condition, on the state before the call, under which the space
checks of `Insert` agree with the writes that follow them. `Inserted` lists what `Insert`
then does: it plants the first leaf, rewrites one leaf, splits a leaf root or splits a leaf
below the root. An `Insert` that meets the condition has one of these outcomes.
-/

namespace CambiumDB

open ByteBuffer HeaderConfig HeaderCodec SlotCodec SlottedPage Router TreeM

open LeafNodeCodec (LeafPage Clean InsertFits UpdateFits NoSpace spaceRequired)

open InternalNodeCodec (InternalPage separatorSpace)

namespace BPlusTree

/-! ### The condition -/

/-- The leaf that a key is written to, in a tree of height at most two. -/
def leafOf (w : World) (key : Bytes) : Option UInt64 :=
  let root := w.tree.rootNodePageId
  if HeaderCodec.isLeafNode (w.pages root) then some root
  else InternalNodeCodec.findNextChildNodePageId (w.pages root) key

/-- The separator that a split of the leaf hands up and the half that the key belongs to. -/
def splitPlan (page : Page) (key : Bytes) : Option (Bytes × List LeafNodeElement) := do
  let i ← LeafNodeCodec.findSplitNodeIndex page
  let pairs ← LeafNodeCodec.livePairs page
  let m ← pairs[i]?
  some (m.key, if key < m.key then pairs.take i else pairs.drop i)

/-- The space check says no, the split finds an entry to cut at, the half that the key
belongs to has room for the entry and `room` bytes are enough for the separator. -/
def SplitFits (page : Page) (key value : Bytes) (room : Nat) : Prop :=
  NoSpace page key value ∧
    match splitPlan page key with
    | some (separator, half) =>
      spaceRequired key value + slotSize ≤ packedSpace LeafNodeCodec.elementCodec half ∧
        separatorSpace separator ≤ room
    | none => False

/-- The room for one more separator above a leaf: a new root is blank. -/
def separatorRoom (w : World) (leaf : UInt64) : Nat :=
  if leaf = w.tree.rootNodePageId then 4096 - headerSize
  else LeafNodeCodec.freeSpace (w.pages w.tree.rootNodePageId)

/-- What `Insert` does with a leaf agrees with what its space checks said. -/
def LeafTakes (w : World) (key value : Bytes) (leaf : UInt64) : Prop :=
  match LeafNodeCodec.findValue (w.pages leaf) key with
  | some (some oldValue) => UpdateFits (w.pages leaf) key oldValue value
  | some none => InsertFits (w.pages leaf) key value ∨
      SplitFits (w.pages leaf) key value (separatorRoom w leaf)
  | none => False

def InsertOk (w : World) (key value : Bytes) : Prop :=
  if w.tree.rootNodePageId = 0 then InsertFits (Buffer.zero 4096) key value
  else
    match leafOf w key with
    | some leaf => LeafTakes w key value leaf
    | none => False

theorem stored_leafOf {w : World} {first : UInt64} {rest : List (Bytes × UInt64)}
    {pairs : UInt64 → List LeafNodeElement} (stored : Stored w first rest pairs) (key : Bytes) :
    leafOf w key = some (route key first rest) := by
  rw [leafOf]
  by_cases single : rest = []
  · subst single
    have leaf := stored.leaves first (by simp [children])
    rw [← stored.leafRoot rfl] at leaf
    rw [if_pos leaf.isLeafNode, stored.leafRoot rfl]
    rfl
  · obtain ⟨node, _⟩ := stored.nodeRoot single
    rw [if_neg (by rw [node.isLeafNode single]; decide), node.findNextChild single stored.sorted]

/-- `SplitFits` in the terms of the pairs of the leaf. -/
theorem SplitFits.splitAt {page : Page} {pairs : List LeafNodeElement} {key value : Bytes}
    {room : Nat} (fits : SplitFits page key value room) (leaf : LeafPage page pairs)
    (absent : SortedList.lookup LeafNodeElement.key key pairs = none) :
    NoSpace page key value ∧ ∃ i m, SplitAt page pairs key value i m ∧
      separatorSpace m.key ≤ room := by
  obtain ⟨full, plan⟩ := fits
  refine ⟨full, ?_⟩
  obtain ⟨i, index, _⟩ := leaf.findSplitNodeIndex
  cases middle : pairs[i]? with
  | none =>
    have none : splitPlan page key = none := by
      simp only [splitPlan, index, leaf.livePairs, middle, bind, Option.bind]
    rw [none] at plan
    exact plan.elim
  | some m =>
    have some_ : splitPlan page key =
        some (m.key, if key < m.key then pairs.take i else pairs.drop i) := by
      simp only [splitPlan, index, leaf.livePairs, middle, bind, Option.bind]
    rw [some_] at plan
    exact ⟨i, m, ⟨index, middle, absent, plan.1⟩, plan.2⟩

/-! ### The outcomes -/

/-- A rewrite of one leaf: the record that logs it and the pairs after it. -/
inductive LeafChange (tree id : UInt64) (key value : Bytes) (pairs : List LeafNodeElement) :
    WALRecord → List LeafNodeElement → Prop
  | insert : SortedList.lookup LeafNodeElement.key key pairs = none →
      LeafChange tree id key value pairs (.insertLeafNodeEntry tree id key value)
        (SortedList.insert LeafNodeElement.key ⟨key, value⟩ pairs)
  | update {e : LeafNodeElement} : SortedList.lookup LeafNodeElement.key key pairs = some e →
      LeafChange tree id key value pairs (.updateLeafNodeEntry tree id key value)
        (SortedList.modify LeafNodeElement.key key (fun x => ⟨x.key, value⟩) pairs)

end BPlusTree

namespace World

/-- The store when `Insert` has the guard of the leaf. -/
def atLeaf (w : World) (nextLSN : List LogEntry → UInt64) (leaf : UInt64) : World :=
  if leaf = w.tree.rootNodePageId then w.enter nextLSN else (w.enter nextLSN).acquire leaf

/-- The way out: a leaf below the root is released before the commit record is written. -/
def leave (w : World) (nextLSN : List LogEntry → UInt64) (leaf root : UInt64) : World :=
  (if leaf = root then w else w.release leaf).finish nextLSN root

/-- The first leaf is planted and takes the entry. -/
def afterPlant (w : World) (nextLSN : List LogEntry → UInt64) (key value : Bytes)
    (checked final : Page) : World :=
  (((w.begin nextLSN).plantRoot nextLSN).rewrite nextLSN w.nextPage checked
    (.insertLeafNodeEntry w.tree.bPlusTreeId w.nextPage key value) final).finish nextLSN w.nextPage

/-- One leaf is rewritten. -/
def afterRewrite (w : World) (nextLSN : List LogEntry → UInt64) (leaf : UInt64) (checked : Page)
    (record : WALRecord) (final : Page) : World :=
  ((w.atLeaf nextLSN leaf).rewrite nextLSN leaf checked record final).leave nextLSN leaf
    w.tree.rootNodePageId

/-- The root was split: the separator goes into the new root. -/
def afterRootSplit (w : World) (nextLSN : List LogEntry → UInt64) (newRoot oldRoot : UInt64)
    (separator : Bytes) (right : UInt64) (rootPage : Page) : World :=
  (((w.addSeparator nextLSN newRoot separator oldRoot right rootPage).moveRoot nextLSN
    newRoot).release newRoot).finish nextLSN oldRoot

/-- A leaf was split: the separator goes into the root. -/
def afterLeafSplit (w : World) (nextLSN : List LogEntry → UInt64) (root leaf : UInt64)
    (separator : Bytes) (right : UInt64) (rootPage : Page) : World :=
  ((w.addSeparator nextLSN root separator leaf right rootPage).release leaf).finish nextLSN root

section
variable {w : World} {nextLSN : List LogEntry → UInt64} {newRoot oldRoot root leaf right : UInt64}
  {separator : Bytes} {rootPage : Page}

theorem afterRootSplit_pages (id : UInt64) :
    (w.afterRootSplit nextLSN newRoot oldRoot separator right rootPage).pages id =
      Function.update w.pages newRoot rootPage id := rfl

theorem afterRootSplit_root :
    (w.afterRootSplit nextLSN newRoot oldRoot separator right rootPage).tree.rootNodePageId =
      newRoot := rfl

theorem afterRootSplit_firstLeaf :
    (w.afterRootSplit nextLSN newRoot oldRoot separator right
      rootPage).tree.firstLeafNodePageId = w.tree.firstLeafNodePageId := rfl

theorem afterRootSplit_last : (w.afterRootSplit nextLSN newRoot oldRoot separator right
    rootPage).metadata.maxAllocatedPageId = w.metadata.maxAllocatedPageId := rfl

theorem afterRootSplit_guards :
    (w.afterRootSplit nextLSN newRoot oldRoot separator right rootPage).guards =
      (w.guards.erase newRoot).erase oldRoot := rfl

theorem afterLeafSplit_pages (id : UInt64) :
    (w.afterLeafSplit nextLSN root leaf separator right rootPage).pages id =
      Function.update w.pages root rootPage id := rfl

theorem afterLeafSplit_root :
    (w.afterLeafSplit nextLSN root leaf separator right rootPage).tree.rootNodePageId =
      w.tree.rootNodePageId := rfl

theorem afterLeafSplit_tree :
    (w.afterLeafSplit nextLSN root leaf separator right rootPage).tree = w.tree := rfl

theorem afterLeafSplit_last : (w.afterLeafSplit nextLSN root leaf separator right
    rootPage).metadata.maxAllocatedPageId = w.metadata.maxAllocatedPageId := rfl

theorem afterLeafSplit_guards :
    (w.afterLeafSplit nextLSN root leaf separator right rootPage).guards =
      (w.guards.erase leaf).erase root := rfl

end

section
variable (w : World) (nextLSN : List LogEntry → UInt64) (leaf : UInt64)

@[simp] theorem atLeaf_pages : (w.atLeaf nextLSN leaf).pages = w.pages := by
  rw [atLeaf]; split <;> rfl

@[simp] theorem atLeaf_log : (w.atLeaf nextLSN leaf).log = (w.begin nextLSN).log := by
  rw [atLeaf]; split <;> rfl

@[simp] theorem atLeaf_tree : (w.atLeaf nextLSN leaf).tree = w.tree := by
  rw [atLeaf]; split <;> rfl

@[simp] theorem atLeaf_faults : (w.atLeaf nextLSN leaf).faults = w.faults := by
  rw [atLeaf]; split <;> rfl

end

end World

namespace BPlusTree

variable (nextLSN : List LogEntry → UInt64)

/-- The pages and the stores of a leaf root split: `w₁` has the new root, `w₂` the two halves. -/
structure RootSplit (key value : Bytes) (w : World) (root : UInt64) (pairs : List LeafNodeElement)
    (i : Nat) (m : LeafNodeElement) (leftPage rightPage rootPage : Page) (w₁ w₂ : World) :
    Prop where
  start : w₁ = (w.enter nextLSN).createNode nextLSN
  divided : w₂ = w₁.splitInto nextLSN root (splitRecord w₁ root i key value pairs) leftPage rightPage
  left : Written leftPage (leftPairs pairs i m.key key value) (splitLSN nextLSN w₁) w₁.nextPage
  right : Written rightPage (rightPairs pairs i m.key key value) (splitLSN nextLSN w₁)
    (getNextLeafNodePageId (w.pages root))
  node : InternalPage rootPage root [(m.key, w₁.nextPage)]
  stamp : getLSN rootPage = nextLSN w₂.log
  clean : Clean (w.pages root) pairs → Clean leftPage (leftPairs pairs i m.key key value) ∧
    Clean rightPage (rightPairs pairs i m.key key value)

/-- The pages and the stores of a leaf split below the root: `w₁` has the guard of the leaf,
`w₂` the two halves. -/
structure LeafSplit (key value : Bytes) (w : World) (first leaf : UInt64)
    (before after : List (Bytes × UInt64)) (pairs : List LeafNodeElement) (i : Nat)
    (m : LeafNodeElement) (leftPage rightPage rootPage : Page) (w₁ w₂ : World) : Prop where
  start : w₁ = (w.enter nextLSN).acquire leaf
  divided : w₂ = w₁.splitInto nextLSN leaf (splitRecord w₁ leaf i key value pairs) leftPage rightPage
  left : Written leftPage (leftPairs pairs i m.key key value) (splitLSN nextLSN w₁) w.nextPage
  right : Written rightPage (rightPairs pairs i m.key key value) (splitLSN nextLSN w₁)
    (getNextLeafNodePageId (w.pages leaf))
  node : InternalPage rootPage first (before ++ (m.key, w.nextPage) :: after)
  stamp : getLSN rootPage = nextLSN w₂.log
  clean : Clean (w.pages leaf) pairs → Clean leftPage (leftPairs pairs i m.key key value) ∧
    Clean rightPage (rightPairs pairs i m.key key value)

/-- What `Insert` leaves behind when its space checks agree with its writes. -/
inductive Inserted (key value : Bytes) (w : World) : World → Prop
  /-- the first leaf, with the entry in it -/
  | planted {checked final : Page} (empty : w.tree.rootNodePageId = 0)
      (written : Written final [⟨key, value⟩]
        (nextLSN ((w.begin nextLSN).plantRoot nextLSN).log) 0) :
      Inserted key value w (w.afterPlant nextLSN key value checked final)
  /-- one leaf is rewritten -/
  | rewritten {first : UInt64} {rest : List (Bytes × UInt64)}
      {pairs : UInt64 → List LeafNodeElement} {record : WALRecord} {new : List LeafNodeElement}
      {checked final : Page} (stored : Stored w first rest pairs)
      (change : LeafChange w.tree.bPlusTreeId (route key first rest) key value
        (pairs (route key first rest)) record new)
      (written : Written final new (nextLSN (w.begin nextLSN).log)
        (getNextLeafNodePageId (w.pages (route key first rest)))) :
      Inserted key value w (w.afterRewrite nextLSN (route key first rest) checked record final)
  /-- the only leaf is split under a new root -/
  | rootSplit {root : UInt64} {pairs : UInt64 → List LeafNodeElement} {i : Nat}
      {m : LeafNodeElement} {leftPage rightPage rootPage : Page} {w₁ w₂ : World}
      (stored : Stored w root [] pairs) (split : SplitAt (w.pages root) (pairs root) key value i m)
      (parts : RootSplit nextLSN key value w root (pairs root) i m leftPage rightPage rootPage
        w₁ w₂) :
      Inserted key value w
        (w₂.afterRootSplit nextLSN w.nextPage root m.key w₁.nextPage rootPage)
  /-- a leaf below the root is split and the root takes the separator -/
  | leafSplit {first : UInt64} {before after : List (Bytes × UInt64)}
      {pairs : UInt64 → List LeafNodeElement} {leaf : UInt64} {i : Nat} {m : LeafNodeElement}
      {leftPage rightPage rootPage : Page} {w₁ w₂ : World}
      (stored : Stored w first (before ++ after) pairs) (height : before ++ after ≠ [])
      (routed : route key first (before ++ after) = leaf)
      (split : SplitAt (w.pages leaf) (pairs leaf) key value i m)
      (below : ∀ entry ∈ before, entry.1 < m.key) (above : ∀ entry ∈ after, m.key < entry.1)
      (parts : LeafSplit nextLSN key value w first leaf before after (pairs leaf) i m leftPage
        rightPage rootPage w₁ w₂) :
      Inserted key value w
        (w₂.afterLeafSplit nextLSN w.tree.rootNodePageId leaf m.key w.nextPage rootPage)

/-- The key that a split hands up is not a separator yet: the leaf has a smaller key. -/
theorem splitAt_cut {w : World} {first leaf : UInt64} {rest : List (Bytes × UInt64)}
    {pairs : UInt64 → List LeafNodeElement} (stored : Stored w first rest pairs)
    (child : leaf ∈ children first rest) {key value : Bytes} {i : Nat} {m : LeafNodeElement}
    (split : SplitAt (w.pages leaf) (pairs leaf) key value i m) :
    route m.key first rest = leaf ∧ ∃ before after, rest = before ++ after ∧
      (∀ entry ∈ before, entry.1 < m.key) ∧ ∀ entry ∈ after, m.key < entry.1 := by
  have page := stored.leaves leaf child
  have inside : m ∈ pairs leaf := List.mem_of_getElem? split.middle
  have here := stored.routed leaf child m inside
  refine ⟨here, ?_⟩
  obtain ⟨j, index, positive⟩ := page.findSplitNodeIndex
  obtain rfl : j = i := Option.some.inj (index.symm.trans split.index)
  exact stored.placed.exists_cut child page.sorted split.middle (positive (List.ne_nil_of_mem inside))

/-! ### Which outcome -/

variable {w : World} {first : UInt64}
  {rest : List (Bytes × UInt64)} {pairs : UInt64 → List LeafNodeElement} {key value : Bytes}

theorem enter_guards (ready : Ready w) : (w.enter nextLSN).guards = [w.tree.rootNodePageId] := by
  rw [World.enter, World.acquire_guards, World.begin, World.logged_guards, ready.guards]

/-- A leaf that takes the entry is all that the descent changes. -/
theorem insert_of_writeLeaf (ready : Ready w) (stored : Stored w first rest pairs) {w' : World}
    (faults : ∀ n, w'.faults n = false)
    (run : writeLeaf nextLSN (route key first rest) key value
      (w.atLeaf nextLSN (route key first rest)) = (.ok none, w')) :
    insert nextLSN key value w =
      (.ok (), w'.leave nextLSN (route key first rest) w.tree.rootNodePageId) := by
  have child := route_mem key first rest
  have leaf := stored.leaves _ child
  obtain ⟨present, allocated⟩ := stored.rootAllocated
  have inside := ready.within allocated
  have free : w.tree.rootNodePageId ∉ w.guards := by simp [ready.guards]
  by_cases single : rest = []
  · subst single
    have root : route key first [] = w.tree.rootNodePageId := (stored.leafRoot rfl).symm
    rw [root] at run leaf ⊢
    rw [World.atLeaf, if_pos rfl] at run
    rw [World.leave, if_pos rfl]
    exact insert_existing nextLSN ready.faults present inside free faults
      ((writeTraversal_leaf nextLSN (w := w.enter nextLSN) leaf).trans run)
  · obtain ⟨node, outside⟩ := stored.nodeRoot single
    have below : route key first rest ≠ w.tree.rootNodePageId := fun same => outside (same ▸ child)
    rw [World.atLeaf, if_neg below] at run
    rw [World.leave, if_neg below]
    obtain ⟨fuel, enough⟩ : ∃ fuel, w.filePages + 1 = fuel + 2 := ⟨w.filePages - 1, by omega⟩
    have descent := writeTraversal_node nextLSN (w := w.enter nextLSN) node single stored.sorted
      rfl (ready.faults _) (ready.within (stored.allocated _ child).2)
      (by rw [enter_guards nextLSN ready, List.mem_singleton]; exact below) leaf fuel none run
    rw [← enough] at descent
    exact insert_existing nextLSN ready.faults present inside free faults descent

/-- The first entry of a tree. -/
theorem insert_planted (ready : Ready w) (space : w.filePages + 16 ≤ maxFilePages)
    (empty : w.tree.rootNodePageId = 0) (fits : InsertFits (Buffer.zero 4096) key value) :
    ∃ checked final, insert nextLSN key value w =
        (.ok (), w.afterPlant nextLSN key value checked final) ∧
      Written final [⟨key, value⟩] (nextLSN ((w.begin nextLSN).plantRoot nextLSN).log) 0 ∧
      Clean final [⟨key, value⟩] := by
  have alloc : (w.begin nextLSN).Allocating := ready.toAllocating.congr rfl rfl rfl fun _ _ => rfl
  have page := plantRoot_page nextLSN alloc
  have leaf := LeafNodeCodec.leafPage_zero.setLSN (nextLSN (w.begin nextLSN).log)
  have fits' := LeafNodeCodec.leafPage_zero.insertFits_setLSN fits (nextLSN (w.begin nextLSN).log)
  have blank := LeafNodeCodec.clean_zero.setLSN (nextLSN (w.begin nextLSN).log)
  rw [← page] at leaf fits' blank
  obtain ⟨checked, final, run, written, clean⟩ := writeLeaf_insert nextLSN
    (w := (w.begin nextLSN).plantRoot nextLSN) ready.faults leaf rfl fits'
  -- a zero page has no next leaf, and neither check nor insert change that
  have zero : getNextLeafNodePageId (Buffer.zero 4096) = 0 := by decide
  have last := congrArg getNextLeafNodePageId page
  rw [getNext_setLSN, zero] at last
  rw [last] at written
  have free : w.nextPage ∉ w.guards := by simp [ready.guards]
  have faults : ∀ n, (((w.begin nextLSN).plantRoot nextLSN).rewrite nextLSN w.nextPage checked
      (.insertLeafNodeEntry w.tree.bPlusTreeId w.nextPage key value) final).faults n = false :=
    ready.faults
  exact ⟨checked, final,
    insert_first nextLSN ready.faults empty ready.toAllocating space free faults run, written,
    clean blank (LeafNodeCodec.clean_zero.room_of_insertFits fits)⟩

theorem insert_rewritten (ready : Ready w) (stored : Stored w first rest pairs)
    {record : WALRecord} {checked final : Page}
    (run : writeLeaf nextLSN (route key first rest) key value
      (w.atLeaf nextLSN (route key first rest)) = (.ok none,
        (w.atLeaf nextLSN (route key first rest)).rewrite nextLSN (route key first rest) checked
          record final)) : insert nextLSN key value w =
      (.ok (), w.afterRewrite nextLSN (route key first rest) checked record final) := by
  have faults : ∀ n, ((w.atLeaf nextLSN (route key first rest)).rewrite nextLSN
      (route key first rest) checked record final).faults n = false := by
    intro n
    have same := World.atLeaf_faults w nextLSN (route key first rest)
    exact (congrFun same n).trans (ready.faults n)
  exact insert_of_writeLeaf nextLSN ready stored faults run

/-- A root leaf that goes on to a split, whatever the reason. -/
theorem insert_of_rootSplit (ready : Ready w) (stored : Stored w first [] pairs)
    (space : w.filePages + 32 ≤ maxFilePages)
    (goes : writeLeaf nextLSN first key value (w.enter nextLSN) =
      splitLeaf nextLSN first key value (w.enter nextLSN)) {i : Nat} {separator : Bytes}
    {leftPage rightPage : Page} (room : separatorSpace separator ≤ 4064) :
    let w₁ := (w.enter nextLSN).createNode nextLSN
    let w₂ := w₁.splitInto nextLSN first (splitRecord w₁ first i key value (pairs first)) leftPage
      rightPage
    SplitPages nextLSN w₁ first key value i separator leftPage rightPage →
    ∃ rootPage, insert nextLSN key value w =
        (.ok (), w₂.afterRootSplit nextLSN w.nextPage first separator w₁.nextPage rootPage) ∧
      InternalPage rootPage first [(separator, w₁.nextPage)] ∧
      getLSN rootPage = nextLSN w₂.log := by
  intro w₁ w₂ done
  obtain rfl := stored.leafRoot rfl
  have leaf := stored.leaves w.tree.rootNodePageId (by simp [children])
  obtain ⟨present, allocated⟩ := stored.rootAllocated
  have alloc : (w.enter nextLSN).Allocating := ready.toAllocating.congr rfl rfl rfl fun _ _ => rfl
  have guarded : ∀ g ∈ (w.enter nextLSN).guards,
      g ≤ (w.enter nextLSN).metadata.maxAllocatedPageId := by
    intro g member
    rw [enter_guards nextLSN ready, List.mem_singleton] at member
    exact member ▸ allocated
  obtain ⟨rootPage, run, node, stamp⟩ := handleLeafRootNodeSplit_pages nextLSN
    (w := w.enter nextLSN) ready.faults alloc space guarded allocated leaf room done
  refine ⟨rootPage, ?_, node, stamp⟩
  have write : writeLeaf nextLSN w.tree.rootNodePageId key value (w.enter nextLSN) =
      (.ok none, ((w₂.addSeparator nextLSN w.nextPage separator w.tree.rootNodePageId w₁.nextPage
        rootPage).moveRoot nextLSN w.nextPage).release w.nextPage) := by
    rw [goes, splitLeaf, bind_ok (get_apply _ _), if_pos (by rfl), bind_ok run]
    rfl
  exact insert_existing nextLSN ready.faults present (ready.within allocated)
    (by simp [ready.guards]) ready.faults
    ((writeTraversal_leaf nextLSN (w := w.enter nextLSN) leaf).trans write)

theorem insert_rootSplit (ready : Ready w) (stored : Stored w first [] pairs)
    (space : w.filePages + 32 ≤ maxFilePages) {i : Nat} {m : LeafNodeElement}
    (full : NoSpace (w.pages first) key value)
    (split : SplitAt (w.pages first) (pairs first) key value i m)
    (room : separatorSpace m.key ≤ 4064) :
    ∃ leftPage rightPage rootPage w₁ w₂, insert nextLSN key value w =
        (.ok (), w₂.afterRootSplit nextLSN w.nextPage first m.key w₁.nextPage rootPage) ∧
      RootSplit nextLSN key value w first (pairs first) i m leftPage rightPage rootPage w₁ w₂ := by
  have leaf := stored.leaves first (by simp [children])
  have allocated := (stored.allocated first (by simp [children])).2
  have alloc : (w.enter nextLSN).Allocating := ready.toAllocating.congr rfl rfl rfl fun _ _ => rfl
  have same : ((w.enter nextLSN).createNode nextLSN).pages first = w.pages first :=
    createNode_other nextLSN alloc allocated
  obtain ⟨leftPage, rightPage, done, left, right, clean⟩ := SplitAt.pages nextLSN
    (w := (w.enter nextLSN).createNode nextLSN) (same.symm ▸ leaf) (same.symm ▸ split)
  rw [same] at right clean
  have goes := writeLeaf_full nextLSN (w := w.enter nextLSN) leaf split.absent full
  obtain ⟨rootPage, run, node, stamp⟩ :=
    insert_of_rootSplit nextLSN ready stored space goes room done
  exact ⟨leftPage, rightPage, rootPage, _, _, run, rfl, rfl, left, right, node, stamp, clean⟩

section
variable (ready : Ready w) (stored : Stored w first rest pairs) (height : rest ≠ []) {leaf : UInt64}
  (routed : route key first rest = leaf)
include ready stored height routed

/-- A leaf below the root is split; the root is left alone so far. -/
theorem splitChild_run (space : w.filePages + 16 ≤ maxFilePages) {i : Nat} {m : LeafNodeElement}
    (full : NoSpace (w.pages leaf) key value)
    (split : SplitAt (w.pages leaf) (pairs leaf) key value i m) :
    let w₁ := (w.enter nextLSN).acquire leaf
    ∃ leftPage rightPage w₂, writeLeaf nextLSN leaf key value w₁ =
        (.ok (some (m.key, leaf, w.nextPage)), w₂) ∧
      w₂ = w₁.splitInto nextLSN leaf (splitRecord w₁ leaf i key value (pairs leaf)) leftPage
        rightPage ∧
      w₂.pages w.tree.rootNodePageId = w.pages w.tree.rootNodePageId ∧
      Written leftPage (leftPairs (pairs leaf) i m.key key value) (splitLSN nextLSN w₁) w.nextPage ∧
      Written rightPage (rightPairs (pairs leaf) i m.key key value) (splitLSN nextLSN w₁)
        (getNextLeafNodePageId (w.pages leaf)) ∧
      (Clean (w.pages leaf) (pairs leaf) →
        Clean leftPage (leftPairs (pairs leaf) i m.key key value) ∧
          Clean rightPage (rightPairs (pairs leaf) i m.key key value)) := by
  intro w₁
  have child : leaf ∈ children first rest := routed ▸ route_mem key first rest
  have page := stored.leaves leaf child
  obtain ⟨_, outside⟩ := stored.nodeRoot height
  obtain ⟨present, allocated⟩ := stored.rootAllocated
  have apart : leaf ≠ w.tree.rootNodePageId := fun same => outside (same ▸ child)
  have alloc : w₁.Allocating := ready.toAllocating.congr rfl rfl rfl fun _ _ => rfl
  have free : w.nextPage ∉ w₁.guards := by
    rw [World.acquire_guards, enter_guards nextLSN ready]
    intro member
    have new (id : UInt64) (old : id ≤ w.metadata.maxAllocatedPageId) : w.nextPage ≠ id :=
      (UInt64.ne_of_lt (ready.toAllocating.lt_nextPage old)).symm
    rcases List.mem_cons.mp member with first | second
    · exact new leaf (stored.allocated leaf child).2 first
    · exact new _ allocated (List.mem_singleton.mp second)
  obtain ⟨leftPage, rightPage, done, left, right, clean⟩ :=
    SplitAt.pages nextLSN (w := w₁) page split
  have run := handleLeafNodeSplit_pages nextLSN (w := w₁) ready.faults alloc space free
    (stored.allocated leaf child).2 page done
  refine ⟨leftPage, rightPage, _, writeLeaf_childSplit nextLSN (w := w₁) page split.absent full
    apart.symm run, rfl, ?_, left, right, clean⟩
  exact World.splitInto_other alloc allocated apart.symm

/-- What the root does with the separator ends the insert. -/
theorem insert_of_separator {separator : Bytes} {left right : UInt64} {w₂ w₃ : World}
    (write : writeLeaf nextLSN leaf key value ((w.enter nextLSN).acquire leaf) =
      (.ok (some (separator, left, right)), w₂))
    (taken : writeSeparator nextLSN w.tree.rootNodePageId none separator left right w₂ =
      (.ok none, w₃)) (faults : ∀ n, w₃.faults n = false) :
    insert nextLSN key value w =
      (.ok (), (w₃.release leaf).finish nextLSN w.tree.rootNodePageId) := by
  have child : leaf ∈ children first rest := routed ▸ route_mem key first rest
  obtain ⟨node, outside⟩ := stored.nodeRoot height
  obtain ⟨present, allocated⟩ := stored.rootAllocated
  have apart : leaf ≠ w.tree.rootNodePageId := fun same => outside (same ▸ child)
  obtain ⟨fuel, enough⟩ : ∃ fuel, w.filePages + 1 = fuel + 2 :=
    ⟨w.filePages - 1, by have := ready.inside; omega⟩
  have descent := writeTraversal_separator nextLSN (w := w.enter nextLSN) node height stored.sorted
    routed (ready.faults _) (ready.within (stored.allocated _ child).2)
    (by rw [enter_guards nextLSN ready, List.mem_singleton]; exact apart)
    (stored.leaves leaf child) fuel none write taken
  rw [← enough] at descent
  refine insert_existing nextLSN ready.faults present (ready.within allocated)
    (by simp [ready.guards]) ?_ descent
  exact faults

end

theorem insert_leafSplit (ready : Ready w) (stored : Stored w first rest pairs)
    (height : rest ≠ []) (space : w.filePages + 16 ≤ maxFilePages) {i : Nat} {m : LeafNodeElement}
    (full : NoSpace (w.pages (route key first rest)) key value)
    (split : SplitAt (w.pages (route key first rest)) (pairs (route key first rest)) key value i m)
    (room : separatorSpace m.key ≤ LeafNodeCodec.freeSpace (w.pages w.tree.rootNodePageId)) :
    ∃ before after leftPage rightPage rootPage w₁ w₂, rest = before ++ after ∧
      (∀ entry ∈ before, entry.1 < m.key) ∧ (∀ entry ∈ after, m.key < entry.1) ∧
      insert nextLSN key value w = (.ok (), w₂.afterLeafSplit nextLSN w.tree.rootNodePageId
        (route key first rest) m.key w.nextPage rootPage) ∧
      LeafSplit nextLSN key value w first (route key first rest) before after
        (pairs (route key first rest)) i m leftPage rightPage rootPage w₁ w₂ := by
  obtain ⟨here, before, after, rfl, below, above⟩ :=
    splitAt_cut stored (route_mem key first rest) split
  obtain ⟨leaf, routed⟩ : ∃ leaf, route key first (before ++ after) = leaf := ⟨_, rfl⟩
  rw [routed] at split full here ⊢
  obtain ⟨leftPage, rightPage, w₂, write, divided, kept, left, right, clean⟩ :=
    splitChild_run nextLSN ready stored height routed space full split
  have faults : ∀ n, w₂.faults n = false := by
    rw [divided]
    exact ready.faults
  obtain ⟨node, _⟩ := stored.nodeRoot height
  rw [← kept] at node room
  obtain ⟨rootPage, taken, node', stamp⟩ := writeSeparator_run nextLSN faults none w.nextPage node
    below above room
  rw [here] at taken
  refine ⟨before, after, leftPage, rightPage, rootPage, _, w₂, rfl, below, above,
    insert_of_separator nextLSN ready stored height routed write taken ?_,
    ⟨rfl, divided, left, right, node', stamp, clean⟩⟩
  exact faults

/-- An `Insert` that meets the condition returns, with one of the outcomes. -/
theorem insert_outcome {m : Bytes → Option Bytes} (ready : Ready w) (holds : Holds w m)
    (space : w.filePages + 32 ≤ maxFilePages) (ok : InsertOk w key value) :
    ∃ w', insert nextLSN key value w = (.ok (), w') ∧ Inserted nextLSN key value w w' := by
  rw [InsertOk] at ok
  cases holds with
  | empty root _ =>
    rw [if_pos root] at ok
    obtain ⟨checked, final, run, written, _⟩ :=
      insert_planted nextLSN ready (by omega) root ok
    exact ⟨_, run, .planted root written⟩
  | @stored first rest pairs stored =>
    rw [if_neg stored.rootAllocated.1, stored_leafOf stored key] at ok
    simp only at ok
    have child := route_mem key first rest
    have page := stored.leaves _ child
    have atLeaf : LeafPage ((w.atLeaf nextLSN (route key first rest)).pages (route key first rest))
        (pairs (route key first rest)) := by
      rw [World.atLeaf_pages]
      exact page
    have faults : ∀ n, (w.atLeaf nextLSN (route key first rest)).faults n = false := by
      rw [World.atLeaf_faults]
      exact ready.faults
    rw [LeafTakes, page.findValue] at ok
    cases look : SortedList.lookup LeafNodeElement.key key (pairs (route key first rest)) with
    | some e =>
      rw [look] at ok
      obtain ⟨checked, final, run, written⟩ := writeLeaf_update nextLSN faults atLeaf look
        (by rw [World.atLeaf_pages]; exact ok)
      simp only [World.atLeaf_pages, World.atLeaf_log, World.atLeaf_tree] at run written
      exact ⟨_, insert_rewritten nextLSN ready stored run,
        .rewritten stored (.update look) written⟩
    | none =>
      rw [look] at ok
      rcases ok with fits | fits
      · obtain ⟨checked, final, run, written, _⟩ := writeLeaf_insert nextLSN faults atLeaf look
          (by rw [World.atLeaf_pages]; exact fits)
        simp only [World.atLeaf_pages, World.atLeaf_log, World.atLeaf_tree] at run written
        exact ⟨_, insert_rewritten nextLSN ready stored run,
          .rewritten stored (.insert look) written⟩
      · obtain ⟨full, i, m, split, room⟩ := fits.splitAt page look
        by_cases single : rest = []
        · subst single
          rw [route] at full split room
          rw [separatorRoom, if_pos (stored.leafRoot rfl).symm] at room
          obtain ⟨_, _, _, _, _, run, parts⟩ :=
            insert_rootSplit nextLSN ready stored space full split room
          exact ⟨_, run, .rootSplit stored split parts⟩
        · have below : route key first rest ≠ w.tree.rootNodePageId := fun same =>
            (stored.nodeRoot single).2 (same ▸ child)
          rw [separatorRoom, if_neg below] at room
          obtain ⟨before, after, _, _, _, _, _, rfl, below', above, run, parts⟩ :=
            insert_leafSplit nextLSN ready stored single (by omega) full split room
          exact ⟨_, run, .leafSplit stored single rfl split below' above parts⟩

/-! ### What is logged -/

/-- The log after `records` were appended one by one. -/
def appendAll (nextLSN : List LogEntry → UInt64) (log : List LogEntry) (records : List WALRecord) :
    List LogEntry :=
  records.foldl (fun log record => log ++ [⟨nextLSN log, record⟩]) log

theorem mem_appendAll {log : List LogEntry} {records : List WALRecord} {entry : LogEntry}
    (member : entry ∈ appendAll nextLSN log records) : entry ∈ log ∨ entry.record ∈ records := by
  induction records generalizing log with
  | nil => exact .inl member
  | cons record rest ih =>
    rcases ih member with old | new
    · rcases List.mem_append.mp old with before | here
      · exact .inl before
      · obtain rfl := List.mem_singleton.mp here
        exact .inr (by simp)
    · exact .inr (by simp [new])

theorem afterPlant_log (checked final : Page) :
    (w.afterPlant nextLSN key value checked final).log = appendAll nextLSN w.log
      [.beginOperation w.tree.bPlusTreeId,
        .createPage w.tree.bPlusTreeId w.nextPage .leaf .fileExpansion,
        .updateFirstLeafNodePageId w.tree.bPlusTreeId w.nextPage,
        .updateRootNodePageId w.tree.bPlusTreeId w.nextPage,
        .insertLeafNodeEntry w.tree.bPlusTreeId w.nextPage key value,
        .commitOperation w.tree.bPlusTreeId] := rfl

theorem afterRewrite_log (leaf : UInt64) (checked : Page) (record : WALRecord) (final : Page) :
    (w.afterRewrite nextLSN leaf checked record final).log = appendAll nextLSN w.log
      [.beginOperation w.tree.bPlusTreeId, record, .commitOperation w.tree.bPlusTreeId] := by
  simp only [World.afterRewrite, World.leave, World.atLeaf]
  split <;> rfl

theorem RootSplit.log {root : UInt64} {pairs : List LeafNodeElement} {i : Nat} {m : LeafNodeElement}
    {leftPage rightPage rootPage : Page} {w₁ w₂ : World}
    (parts : RootSplit nextLSN key value w root pairs i m leftPage rightPage rootPage w₁ w₂) :
    (w₂.afterRootSplit nextLSN w.nextPage root m.key w₁.nextPage rootPage).log =
      appendAll nextLSN w.log
        [.beginOperation w.tree.bPlusTreeId,
          .createPage w.tree.bPlusTreeId w.nextPage .internal .fileExpansion,
          .createPage w.tree.bPlusTreeId w₁.nextPage .leaf .fileExpansion,
          splitRecord w₁ root i key value pairs,
          .insertInternalNodeEntry w.tree.bPlusTreeId w.nextPage m.key root w₁.nextPage,
          .updateRootNodePageId w.tree.bPlusTreeId w.nextPage,
          .commitOperation w.tree.bPlusTreeId] := by
  obtain ⟨rfl, rfl, _⟩ := parts
  rfl

theorem LeafSplit.log {first leaf : UInt64} {before after : List (Bytes × UInt64)}
    {pairs : List LeafNodeElement} {i : Nat} {m : LeafNodeElement}
    {leftPage rightPage rootPage : Page} {w₁ w₂ : World}
    (parts : LeafSplit nextLSN key value w first leaf before after pairs i m leftPage rightPage
      rootPage w₁ w₂) :
    (w₂.afterLeafSplit nextLSN w.tree.rootNodePageId leaf m.key w.nextPage rootPage).log =
      appendAll nextLSN w.log
        [.beginOperation w.tree.bPlusTreeId,
          .createPage w.tree.bPlusTreeId w.nextPage .leaf .fileExpansion,
          splitRecord w₁ leaf i key value pairs,
          .insertInternalNodeEntry w.tree.bPlusTreeId w.tree.rootNodePageId m.key leaf w.nextPage,
          .commitOperation w.tree.bPlusTreeId] := by
  obtain ⟨rfl, rfl, _⟩ := parts
  rfl
end BPlusTree

end CambiumDB
