import CambiumDB.StorageEngine.RedoSplit

/-!
# What a redo does to each page

A record that is redone acts on every page by itself: it sets the type of the page it creates,
without looking at the LSN of the page, and it changes the pages it names if they are older than
the record. Pages past the end of the file count as zero pages, which is what the file gets when
it grows.
-/

namespace CambiumDB

open ByteBuffer HeaderConfig HeaderCodec

/-- The content of a page, zero past the end of the file. -/
def World.view (w : World) (id : UInt64) : Page :=
  if id.toNat < w.filePages then w.pages id else Buffer.zero 4096

theorem World.view_inside {w : World} {id : UInt64} (inside : id.toNat < w.filePages) :
    w.view id = w.pages id := if_pos inside

theorem World.view_update {w w' : World} {id : UInt64} {page : Page}
    (file : w'.filePages = w.filePages) (pages : w'.pages = Function.update w.pages id page)
    (inside : id.toNat < w.filePages) (other : UInt64) :
    w'.view other = if other = id then page else w.view other := by
  rw [World.view, World.view, file, pages]
  by_cases same : other = id
  · subst same
    rw [if_pos inside, if_pos rfl, Function.update_self]
  · rw [if_neg same, Function.update_of_ne same]

namespace StorageEngine

open TreeM

/-! ### The effect of a record on one page -/

/-- A change of a page, without the guard and the LSN. -/
structure PageChange where
  apply : Page → Option Page
  /-- The checksum is computed at the end of the change. -/
  computesCRC : Bool

/-- The two halves of a leaf split. -/
def leafSplitChange (left right : UInt64) (separatorKeyIndex : Nat) (nextLeaf : UInt64)
    (insertKey insertValue elementList : Bytes) (id : UInt64) : Option PageChange := do
  let entries ← LeafNodeCodec.decodeAllSlotsAndElements elementList
  let separator ← entries[separatorKeyIndex]?
  let below := compareBytes insertKey separator.2.key = .lt
  if id = right then
    some ⟨rebuildLeaf (entries.drop separatorKeyIndex) nextLeaf (¬ below) insertKey insertValue,
      decide (¬ below)⟩
  else if id = left then
    some ⟨rebuildLeaf (entries.take separatorKeyIndex) right below insertKey insertValue,
      decide below⟩
  else none

/-- The two halves of an internal split. -/
def internalSplitChange (left right : UInt64) (separatorKeyIndex : Nat) (e : InternalNodeElement)
    (elementList : Bytes) (id : UInt64) : Option PageChange := do
  let entries ← InternalNodeCodec.decodeAllSlotsAndElements elementList
  let separator ← entries[separatorKeyIndex]?
  let below := compareBytes e.key separator.2.key = .lt
  if id = right then
    some ⟨rebuildInternal (entries.drop (separatorKeyIndex + 1)) (¬ below) e, decide (¬ below)⟩
  else if id = left then
    some ⟨rebuildInternal (entries.take separatorKeyIndex) below e, decide below⟩
  else none

theorem leafSplitChange_eq (left right : UInt64) {separatorKeyIndex : Nat} (nextLeaf : UInt64)
    (key value : Bytes) {elements : Bytes} {entries : List (Slot × LeafNodeElement)}
    {separator : Slot × LeafNodeElement}
    (decoded : LeafNodeCodec.decodeAllSlotsAndElements elements = some entries)
    (found : entries[separatorKeyIndex]? = some separator) (id : UInt64) :
    leafSplitChange left right separatorKeyIndex nextLeaf key value elements id =
      if id = right then some ⟨rebuildLeaf (entries.drop separatorKeyIndex) nextLeaf
        (¬ compareBytes key separator.2.key = .lt) key value,
        decide (¬ compareBytes key separator.2.key = .lt)⟩
      else if id = left then some ⟨rebuildLeaf (entries.take separatorKeyIndex) right
        (compareBytes key separator.2.key = .lt) key value,
        decide (compareBytes key separator.2.key = .lt)⟩ else none := by
  simp only [leafSplitChange, decoded, found, bind, Option.bind]

theorem internalSplitChange_eq (left right : UInt64) {separatorKeyIndex : Nat}
    (e : InternalNodeElement) {elements : Bytes} {entries : List (Slot × InternalNodeElement)}
    {separator : Slot × InternalNodeElement}
    (decoded : InternalNodeCodec.decodeAllSlotsAndElements elements = some entries)
    (found : entries[separatorKeyIndex]? = some separator) (id : UInt64) :
    internalSplitChange left right separatorKeyIndex e elements id =
      if id = right then some ⟨rebuildInternal (entries.drop (separatorKeyIndex + 1))
        (¬ compareBytes e.key separator.2.key = .lt) e,
        decide (¬ compareBytes e.key separator.2.key = .lt)⟩
      else if id = left then some ⟨rebuildInternal (entries.take separatorKeyIndex)
        (compareBytes e.key separator.2.key = .lt) e,
        decide (compareBytes e.key separator.2.key = .lt)⟩ else none := by
  simp only [internalSplitChange, decoded, found, bind, Option.bind]

/-- The change that a record makes to a page. -/
def pageChange (record : WALRecord) (id : UInt64) : Option PageChange :=
  match record with
  | .insertInternalNodeEntry _ page key left right =>
    if id = page then
      some ⟨fun content => (InternalNodeCodec.insertElement content key left right).map Prod.snd,
        true⟩
    else none
  | .insertLeafNodeEntry _ page key value =>
    if id = page then
      some ⟨fun content => (LeafNodeCodec.insertElement content key value).map Prod.snd, true⟩
    else none
  | .updateLeafNodeEntry _ page key value =>
    if id = page then some ⟨fun content => LeafNodeCodec.setValue content key value, true⟩ else none
  | .splitLeafNode _ left right splitIndex nextLeaf key value _ elements =>
    leafSplitChange left right splitIndex nextLeaf key value elements id
  | .splitInternalNode _ left right splitIndex key leftChild rightChild _ elements =>
    internalSplitChange left right splitIndex ⟨key, leftChild, rightChild⟩ elements id
  | _ => none

/-- The type of the page that a record creates. -/
def createdType (record : WALRecord) (id : UInt64) : Option NodeType :=
  match record with
  | .createPage _ page type _ => if id = page then some type else none
  | _ => none

def setType : NodeType → Page → Page
  | .leaf, page => LeafNodeCodec.setNodeType page
  | .internal, page => InternalNodeCodec.setNodeType page

theorem setType_leaf_self {page : Page} (leaf : page.byte nodeTypeOffset = leafNodeType) :
    setType .leaf page = page := by
  apply Buffer.ext_byte
  intro i _
  by_cases typeByte : i = nodeTypeOffset
  · rw [typeByte, leaf]
    exact Buffer.byte_setByte_same _ _ _ (by decide)
  · exact Buffer.byte_setByte_outside _ _ _ typeByte

/-- A change of a page that is older than the record, with the LSN of the record. -/
def guarded (lsn : UInt64) (change : Page → Option Page) (content : Page) : Option Page :=
  if getLSN content < lsn then (change content).map (setLSN · lsn) else some content

/-- What the redo of a record leaves in a page. -/
def redoPage (entry : LogEntry) (id : UInt64) (content : Page) : Option Page :=
  match createdType entry.record id with
  | some type => some (setType type content)
  | none =>
    match pageChange entry.record id with
    | some change => guarded entry.lsn change.apply content
    | none => some content

theorem redoPage_created {entry : LogEntry} {id : UInt64} {type : NodeType}
    (created : createdType entry.record id = some type) (content : Page) :
    redoPage entry id content = some (setType type content) := by
  rw [redoPage, created]

theorem redoPage_other {entry : LogEntry} {id : UInt64}
    (quiet : createdType entry.record id = none) (still : pageChange entry.record id = none)
    (content : Page) : redoPage entry id content = some content := by
  rw [redoPage, quiet, still]

theorem guarded_older {lsn : UInt64} {change : Page → Option Page} {content after : Page}
    (older : getLSN content < lsn) (done : change content = some after) :
    guarded lsn change content = some (setLSN after lsn) := by
  rw [guarded, if_pos older, done]
  rfl

theorem guarded_newer {lsn : UInt64} (change : Page → Option Page) {content : Page}
    (newer : lsn ≤ getLSN content) : guarded lsn change content = some content :=
  if_neg (UInt64.not_lt.2 newer)

/-- The pages that a record names. -/
def Names (record : WALRecord) (id : UInt64) : Prop :=
  createdType record id ≠ none ∨ pageChange record id ≠ none

/-- A split has two sides, and its payload can be decoded past the separator. -/
def Redoable : WALRecord → Prop
  | .splitLeafNode _ left right splitIndex _ _ _ _ elements =>
    left ≠ right ∧ ∃ entries separator,
      LeafNodeCodec.decodeAllSlotsAndElements elements = some entries ∧
        entries[splitIndex]? = some separator
  | .splitInternalNode _ left right splitIndex _ _ _ _ elements =>
    left ≠ right ∧ ∃ entries separator,
      InternalNodeCodec.decodeAllSlotsAndElements elements = some entries ∧
        entries[splitIndex]? = some separator
  | _ => True

/-- The size of the file after the redo of a record. -/
def redoFilePages (entry : LogEntry) (metadata : MetaData) (filePages : Nat) : Nat :=
  match entry.record with
  | .createPage _ page _ .fileExpansion =>
    if metadata.LSN < entry.lsn then max filePages (page.toNat + 1) else filePages
  | _ => filePages

/-- The redo of a record, page by page. -/
structure Redone (entry : LogEntry) (w w' : World) : Prop where
  redoable : Redoable entry.record
  pages : ∀ id, redoPage entry id (w.view id) = some (w'.view id)
  file : w'.filePages = redoFilePages entry w.metadata w.filePages
  /-- The file grows to a size that offsets can address. -/
  limit : w'.filePages ≤ max maxFilePages w.filePages
  named : ∀ id, Names entry.record id → id.toNat < w'.filePages
  guards : w'.guards = w.guards
  faults : w'.faults = w.faults

/-! ### Inversion of the redo functions -/

section
variable {w w' : World} {id lsn : UInt64}

theorem redoOnPage_inv {change : Page → Option Page}
    (run : redoOnPage lsn id change w = (.ok (), w')) :
    ∃ page, guarded lsn change (w.pages id) = some page ∧ w' = w.setPage id page := by
  rw [redoOnPage, bind_ok (get_apply _ _)] at run
  rw [guarded]
  split at run
  next older =>
    obtain ⟨_, w₁, applied, run⟩ := bind_eq_ok run
    rw [applyPage] at applied
    cases changed : change (w.pages id) with
    | none =>
      rw [changed] at applied
      cases applied
    | some page =>
      rw [changed] at applied
      obtain ⟨_, rfl⟩ := Prod.mk.inj applied
      rw [modifyPage_apply] at run
      obtain ⟨_, rfl⟩ := Prod.mk.inj run
      refine ⟨setLSN page lsn, by rw [if_pos older]; rfl, ?_⟩
      rw [World.setPage_setPage, World.setPage_pages, Function.update_self]
  next newer =>
    obtain ⟨_, rfl⟩ := Prod.mk.inj run
    refine ⟨w.pages id, if_neg newer, ?_⟩
    rw [World.setPage, Function.update_eq_self]

theorem redoEntry_inv {change : Page → Option Page}
    (run : redoEntry lsn id change w = (.ok (), w')) :
    id.toNat < w.filePages ∧ ∃ page, guarded lsn change (w.pages id) = some page ∧
      w' = ((w.acquire id).setPage id page).release id := by
  obtain ⟨_, w₁, guard, run⟩ := bind_eq_ok run
  obtain ⟨rfl, inside, _⟩ := newGuard_inv guard
  obtain ⟨w₂, changed, rfl⟩ := deferDone_inv run
  obtain ⟨page, result, rfl⟩ := redoOnPage_inv changed
  exact ⟨inside, page, result, rfl⟩

/-- A record that changes one page. -/
theorem redone_entry {record : WALRecord} {change : PageChange}
    (quiet : ∀ other, createdType record other = none)
    (changes : ∀ other, pageChange record other = if other = id then some change else none)
    (redoable : Redoable record)
    (size : ∀ m n, redoFilePages ⟨lsn, record⟩ m n = n)
    (run : redoEntry lsn id change.apply w = (.ok (), w')) : Redone ⟨lsn, record⟩ w w' := by
  obtain ⟨inside, page, result, rfl⟩ := redoEntry_inv run
  have views : ∀ other, (((w.acquire id).setPage id page).release id).view other =
      if other = id then page else w.view other := World.view_update rfl rfl inside
  refine ⟨redoable, ?_, (size _ _).symm, le_max_right _ _, ?_, ?_, rfl⟩
  · intro other
    rw [views, redoPage, quiet, changes]
    by_cases same : other = id
    · subst same
      rw [if_pos rfl, if_pos rfl, World.view_inside inside]
      exact result
    · rw [if_neg same, if_neg same]
  · intro other names
    rcases names with created | changed
    · exact absurd (quiet other) created
    · rw [changes] at changed
      by_cases same : other = id
      · rw [same]
        exact inside
      · rw [if_neg same] at changed
        exact absurd rfl changed
  · simp

/-- Two pages that are changed one after the other. -/
theorem redone_split {record : WALRecord} {left right : UInt64} (leftChange rightChange : PageChange)
    (quiet : ∀ other, createdType record other = none)
    (changes : ∀ other, pageChange record other =
      if other = right then some rightChange else if other = left then some leftChange else none)
    (redoable : Redoable record) (size : ∀ m n, redoFilePages ⟨lsn, record⟩ m n = n)
    (distinct : left ≠ right) (leftInside : left.toNat < w.filePages)
    (rightInside : right.toNat < w.filePages) (leftPage rightPage : Page)
    (onLeft : guarded lsn leftChange.apply (w.pages left) = some leftPage)
    (onRight : guarded lsn rightChange.apply (w.pages right) = some rightPage)
    (pages : ∀ other, w'.pages other =
      if other = right then rightPage else if other = left then leftPage else w.pages other)
    (file : w'.filePages = w.filePages) (guards : w'.guards = w.guards)
    (faults : w'.faults = w.faults) : Redone ⟨lsn, record⟩ w w' := by
  refine ⟨redoable, ?_, by rw [file, size], by rw [file]; exact le_max_right _ _, ?_, guards, faults⟩
  · intro other
    rw [redoPage, quiet, changes]
    by_cases isRight : other = right
    · subst isRight
      have inside' : other.toNat < w'.filePages := by rw [file]; exact rightInside
      rw [if_pos rfl, World.view_inside rightInside, World.view_inside inside', pages, if_pos rfl]
      exact onRight
    · rw [if_neg isRight]
      by_cases isLeft : other = left
      · subst isLeft
        have inside' : other.toNat < w'.filePages := by rw [file]; exact leftInside
        rw [if_pos rfl, World.view_inside leftInside, World.view_inside inside', pages,
          if_neg isRight, if_pos rfl]
        exact onLeft
      · rw [if_neg isLeft, World.view, World.view, file, pages, if_neg isRight, if_neg isLeft]
  · intro other names
    rw [file]
    rcases names with created | changed
    · exact absurd (quiet other) created
    · rw [changes] at changed
      by_cases isRight : other = right
      · rw [isRight]
        exact rightInside
      · by_cases isLeft : other = left
        · rw [isLeft]
          exact leftInside
        · rw [if_neg isRight, if_neg isLeft] at changed
          exact absurd rfl changed

/-- The size of the file after an allocation. -/
def grownFile (lsn page : UInt64) (source : AllocationSource) (w : World) : Nat :=
  if source = .fileExpansion ∧ w.metadata.LSN < lsn then max w.filePages (page.toNat + 1)
  else w.filePages

theorem redoFilePages_createPage (tree page : UInt64) (type : NodeType) (source : AllocationSource) :
    redoFilePages ⟨lsn, .createPage tree page type source⟩ w.metadata w.filePages =
      grownFile lsn page source w := by
  cases source with
  | fileExpansion => simp [redoFilePages, grownFile]
  | freelist => simp [redoFilePages, grownFile]

/-- The file grows by zero pages, which is how they were seen before. -/
theorem redoAllocation_inv {page : UInt64} {source : AllocationSource}
    (run : redoAllocation lsn page source w = (.ok (), w')) :
    w'.view = w.view ∧ w'.guards = w.guards ∧ w'.faults = w.faults ∧
      w'.filePages ≤ max maxFilePages w.filePages ∧
      (page.toNat < w'.filePages → w'.filePages = grownFile lsn page source w) := by
  rw [redoAllocation.eq_def, bind_ok (get_apply _ _)] at run
  split at run
  next newer =>
    cases source with
    | freelist =>
      obtain rfl := (Prod.mk.inj run).2
      exact ⟨rfl, rfl, rfl, le_max_right _ _, fun _ => (if_neg (by simp)).symm⟩
    | fileExpansion =>
      dsimp only [ensurePageExists] at run
      split at run
      · cases run
      next fits =>
        obtain rfl := (Prod.mk.inj run).2
        refine ⟨?_, rfl, rfl, ?_, ?_⟩
        · funext id
          simp only [World.view]
          split
          next inside =>
            by_cases old : id.toNat < w.filePages
            · rw [if_neg (by omega), if_pos old]
            · rw [if_pos ⟨by omega, inside⟩, if_neg old]
          next outside => rw [if_neg (by omega)]
        · simp only [Bool.or_eq_true, decide_eq_true_eq, not_or] at fits
          dsimp only
          omega
        · intro inside
          have current : AllocationSource.fileExpansion = .fileExpansion ∧ w.metadata.LSN < lsn :=
            ⟨rfl, newer⟩
          dsimp only at inside ⊢
          rw [grownFile, if_pos current]
          have required : (page + 1).toNat = (page.toNat + 1) % 2 ^ 64 := UInt64.toNat_add page 1
          have small := page.toNat_lt
          omega
  next older =>
    obtain rfl := (Prod.mk.inj run).2
    exact ⟨rfl, rfl, rfl, le_max_right _ _,
      fun _ => (if_neg fun current => older current.2).symm⟩

theorem redone_createPage {tree page : UInt64} {type : NodeType} {source : AllocationSource}
    (run : redoCreatePage lsn page type source w = (.ok (), w')) :
    Redone ⟨lsn, .createPage tree page type source⟩ w w' := by
  obtain ⟨_, w₁, allocated, run⟩ := bind_eq_ok run
  obtain ⟨views, guards, faults, limit, size⟩ := redoAllocation_inv allocated
  obtain ⟨_, w₂, guard, run⟩ := bind_eq_ok run
  obtain ⟨rfl, inside, _⟩ := newGuard_inv guard
  obtain ⟨w₃, typed, rfl⟩ := deferDone_inv run
  obtain rfl : w₃ = (w₁.acquire page).setPage page (setType type (w₁.pages page)) := by
    cases type with
    | leaf => exact (Prod.mk.inj typed).2.symm
    | internal => exact (Prod.mk.inj typed).2.symm
  have retyped : ∀ other,
      (((w₁.acquire page).setPage page (setType type (w₁.pages page))).release page).view other =
      if other = page then setType type (w₁.pages page) else w₁.view other :=
    World.view_update rfl rfl inside
  refine ⟨trivial, ?_, ?_, limit, ?_, ?_, faults⟩
  · intro id
    rw [retyped, ← views, redoPage, createdType]
    by_cases same : id = page
    · rw [if_pos same, if_pos same, same, World.view_inside inside]
    · rw [if_neg same, if_neg same]
      rfl
  · show w₁.filePages = _
    rw [size inside, redoFilePages_createPage]
  · intro id names
    have same : id = page := by
      by_contra other
      rcases names with created | changed
      · rw [createdType, if_neg other] at created
        exact created rfl
      · exact changed rfl
    rw [same]
    exact inside
  · simp [guards]

theorem update_twice (pages : UInt64 → Page) {left right : UInt64} (distinct : left ≠ right)
    (leftPage rightPage : Page) (other : UInt64) :
    Function.update (Function.update pages right rightPage) left leftPage other =
      if other = right then rightPage else if other = left then leftPage else pages other := by
  by_cases isRight : other = right
  · rw [if_pos isRight, isRight, Function.update_of_ne distinct.symm, Function.update_self]
  · rw [if_neg isRight]
    by_cases isLeft : other = left
    · rw [if_pos isLeft, isLeft, Function.update_self]
    · rw [if_neg isLeft, Function.update_of_ne isLeft, Function.update_of_ne isRight]

/-- The two pages are different, so either order of their changes gives the same. -/
theorem redone_splitLeafNode {tree left right nextLeaf : UInt64} {i : Nat}
    {key value elements : Bytes} {length : Nat}
    (run : redoSplitLeafNode lsn left right i nextLeaf key value elements w = (.ok (), w')) :
    Redone ⟨lsn, .splitLeafNode tree left right i nextLeaf key value length elements⟩ w w' := by
  rw [redoSplitLeafNode_eq] at run
  obtain ⟨_, w₁, leftGuard, outer⟩ := bind_eq_ok run
  obtain ⟨rfl, leftInside, _⟩ := newGuard_inv leftGuard
  obtain ⟨w₂, inner, released⟩ := deferDone_inv outer
  obtain ⟨_, w₃, rightGuard, inner⟩ := bind_eq_ok inner
  obtain ⟨rfl, rightInside, rightFree⟩ := newGuard_inv rightGuard
  obtain ⟨w₄, body, releasedRight⟩ := deferDone_inv inner
  obtain ⟨entries, w₅, decodes, body⟩ := bind_eq_ok body
  obtain ⟨decoded, rfl⟩ := orPanic_inv decodes
  obtain ⟨separator, w₆, finds, body⟩ := bind_eq_ok body
  obtain ⟨found, rfl⟩ := orPanic_inv finds
  obtain ⟨_, w₇, onRight, onLeft⟩ := bind_eq_ok body
  obtain ⟨rightPage, rightResult, rfl⟩ := redoOnPage_inv onRight
  obtain ⟨leftPage, leftResult, rfl⟩ := redoOnPage_inv onLeft
  have distinct : left ≠ right := by
    rintro rfl
    exact rightFree (List.mem_cons_self ..)
  have kept : ((((w.acquire left).acquire right).setPage right rightPage).pages left) =
      w.pages left := by
    rw [World.setPage_pages, Function.update_of_ne distinct]
    rfl
  rw [kept] at leftResult
  subst releasedRight released
  refine redone_split _ _ (fun _ => rfl)
    (leafSplitChange_eq left right nextLeaf key value decoded found) ⟨distinct, entries, separator, decoded, found⟩
    (fun _ _ => rfl) distinct leftInside rightInside leftPage rightPage leftResult
    rightResult ?_ rfl ?_ rfl
  · intro other
    exact update_twice w.pages distinct leftPage rightPage other
  · simp

theorem redone_splitInternalNode {tree left right : UInt64} {i : Nat} {e : InternalNodeElement}
    {elements : Bytes} {length : Nat}
    (run : redoSplitInternalNode lsn left right i e.key e.leftChildNodePageId
      e.rightChildNodePageId elements w = (.ok (), w')) :
    Redone ⟨lsn, .splitInternalNode tree left right i e.key e.leftChildNodePageId
      e.rightChildNodePageId length elements⟩ w w' := by
  rw [redoSplitInternalNode_eq] at run
  obtain ⟨_, w₁, leftGuard, outer⟩ := bind_eq_ok run
  obtain ⟨rfl, leftInside, _⟩ := newGuard_inv leftGuard
  obtain ⟨w₂, body, released⟩ := deferDone_inv outer
  obtain ⟨entries, w₃, decodes, body⟩ := bind_eq_ok body
  obtain ⟨decoded, rfl⟩ := orPanic_inv decodes
  obtain ⟨separator, w₄, finds, body⟩ := bind_eq_ok body
  obtain ⟨found, rfl⟩ := orPanic_inv finds
  obtain ⟨_, w₅, onLeft, body⟩ := bind_eq_ok body
  obtain ⟨leftPage, leftResult, rfl⟩ := redoOnPage_inv onLeft
  obtain ⟨_, w₆, rightGuard, body⟩ := bind_eq_ok body
  obtain ⟨rfl, rightInside, rightFree⟩ := newGuard_inv rightGuard
  obtain ⟨w₇, onRight, releasedRight⟩ := deferDone_inv body
  obtain ⟨rightPage, rightResult, rfl⟩ := redoOnPage_inv onRight
  have distinct : left ≠ right := by
    rintro rfl
    exact rightFree (List.mem_cons_self ..)
  have kept : ((((w.acquire left).setPage left leftPage).acquire right).pages right) =
      w.pages right := by
    rw [World.acquire_pages, World.setPage_pages, Function.update_of_ne distinct.symm]
    rfl
  rw [kept] at rightResult
  subst releasedRight released
  refine redone_split _ _ (fun _ => rfl)
    (internalSplitChange_eq left right e decoded found) ⟨distinct, entries, separator, decoded, found⟩
    (fun _ _ => rfl) distinct leftInside rightInside leftPage rightPage leftResult
    rightResult ?_ rfl ?_ rfl
  · intro other
    show Function.update (Function.update w.pages left leftPage) right rightPage other = _
    rw [Function.update_comm distinct]
    exact update_twice w.pages distinct leftPage rightPage other
  · simp

theorem redone_pagesKept {record : WALRecord} (quiet : ∀ id, createdType record id = none)
    (still : ∀ id, pageChange record id = none) (redoable : Redoable record)
    (size : ∀ m n, redoFilePages ⟨lsn, record⟩ m n = n) (view : w'.view = w.view)
    (file : w'.filePages = w.filePages) (guards : w'.guards = w.guards)
    (faults : w'.faults = w.faults) : Redone ⟨lsn, record⟩ w w' := by
  refine ⟨redoable, ?_, by rw [file, size], by rw [file]; exact le_max_right _ _, ?_, guards, faults⟩
  · intro id
    rw [redoPage, quiet, still, view]
  · rintro id (created | changed)
    · exact absurd (quiet id) created
    · exact absurd (still id) changed

/-- A redo that returns acts on every page by itself. -/
theorem redone_of_ok {entry : LogEntry} (run : redo entry w = (.ok (), w')) :
    Redone entry w w' := by
  obtain ⟨lsn, record⟩ := entry
  cases record with
  | beginOperation tree =>
    obtain rfl := (Prod.mk.inj run).2
    exact redone_pagesKept (fun _ => rfl) (fun _ => rfl) trivial (fun _ _ => rfl) rfl rfl rfl rfl
  | commitOperation tree =>
    obtain rfl := (Prod.mk.inj run).2
    exact redone_pagesKept (fun _ => rfl) (fun _ => rfl) trivial (fun _ _ => rfl) rfl rfl rfl rfl
  | createPage tree page type source => exact redone_createPage run
  | updateRootNodePageId tree page =>
    obtain rfl := (Prod.mk.inj run).2
    dsimp only
    split
    · exact redone_pagesKept (fun _ => rfl) (fun _ => rfl) trivial (fun _ _ => rfl) rfl rfl rfl rfl
    · exact redone_pagesKept (fun _ => rfl) (fun _ => rfl) trivial (fun _ _ => rfl) rfl rfl rfl rfl
  | updateFirstLeafNodePageId tree page =>
    obtain rfl := (Prod.mk.inj run).2
    dsimp only
    split
    · exact redone_pagesKept (fun _ => rfl) (fun _ => rfl) trivial (fun _ _ => rfl) rfl rfl rfl rfl
    · exact redone_pagesKept (fun _ => rfl) (fun _ => rfl) trivial (fun _ _ => rfl) rfl rfl rfl rfl
  | insertInternalNodeEntry tree page key left right =>
    exact redone_entry (fun _ => rfl) (fun _ => rfl) trivial (fun _ _ => rfl) run
  | insertLeafNodeEntry tree page key value =>
    exact redone_entry (fun _ => rfl) (fun _ => rfl) trivial (fun _ _ => rfl) run
  | updateLeafNodeEntry tree page key value =>
    exact redone_entry (fun _ => rfl) (fun _ => rfl) trivial (fun _ _ => rfl) run
  | splitLeafNode tree left right splitIndex nextLeaf key value length elements =>
    exact redone_splitLeafNode run
  | splitInternalNode tree left right splitIndex key leftChild rightChild length elements =>
    exact redone_splitInternalNode (e := ⟨key, leftChild, rightChild⟩) run

/-! ### A redo returns where it can act on every page -/

theorem redoOnPage_of_guarded {change : Page → Option Page} {page : Page}
    (result : guarded lsn change (w.pages id) = some page) :
    redoOnPage lsn id change w = (.ok (), w.setPage id page) := by
  rw [guarded] at result
  rw [redoOnPage, bind_ok (get_apply _ _)]
  split at result
  next older =>
    obtain ⟨after, changed, rfl⟩ := Option.map_eq_some_iff.1 result
    have applied : applyPage id (fun content => (change content).map ((), ·)) w =
        (.ok (), w.setPage id after) := applyPage_ok (by rw [changed]; rfl)
    rw [if_pos older, bind_ok applied, modifyPage_apply, World.setPage_setPage,
      World.setPage_pages, Function.update_self]
  next newer =>
    obtain rfl := Option.some.inj result
    rw [if_neg newer, World.setPage, Function.update_eq_self]
    rfl

/-- Nobody holds a page, and no call fails. -/
structure Idle (w : World) : Prop where
  guards : w.guards = []
  faults : ∀ n, w.faults n = false

/-- The named pages are in the file once it has grown, and no change panics. -/
structure CanRedo (entry : LogEntry) (w : World) : Prop where
  redoable : Redoable entry.record
  named : ∀ id, Names entry.record id →
    id.toNat < redoFilePages entry w.metadata w.filePages
  limit : redoFilePages entry w.metadata w.filePages ≤ max maxFilePages w.filePages
  pages : ∀ id, ∃ page, redoPage entry id (w.view id) = some page

theorem Idle.guard (idle : Idle w) (inside : id.toNat < w.filePages) :
    newGuard id w = (.ok (), w.acquire id) :=
  newGuard_ok (idle.faults _) inside (by rw [idle.guards]; simp)

/-- A page that the record changes is in the file, and the change returns. -/
theorem CanRedo.change {record : WALRecord} (can : CanRedo ⟨lsn, record⟩ w) (id : UInt64)
    {change : PageChange} (quiet : createdType record id = none)
    (changes : pageChange record id = some change)
    (size : redoFilePages ⟨lsn, record⟩ w.metadata w.filePages = w.filePages) :
    id.toNat < w.filePages ∧ ∃ page, guarded lsn change.apply (w.pages id) = some page := by
  have inside : id.toNat < w.filePages := by
    rw [← size]
    exact can.named id (.inr (by rw [changes]; simp))
  obtain ⟨page, result⟩ := can.pages id
  rw [redoPage, quiet, changes, World.view_inside inside] at result
  exact ⟨inside, page, result⟩

theorem redoEntry_returns {change : Page → Option Page} {page : Page} (idle : Idle w)
    (inside : id.toNat < w.filePages) (result : guarded lsn change (w.pages id) = some page) :
    ∃ w', redoEntry lsn id change w = (.ok (), w') := by
  refine ⟨((w.acquire id).setPage id page).release id, ?_⟩
  rw [redoEntry, bind_ok (idle.guard inside)]
  exact deferDone_ok (redoOnPage_of_guarded (w := w.acquire id) result)

theorem redoAllocation_returns {page : UInt64} {source : AllocationSource} (idle : Idle w)
    (limit : grownFile lsn page source w ≤ max maxFilePages w.filePages) :
    ∃ w', redoAllocation lsn page source w = (.ok (), w') ∧ Idle w' ∧
      w'.filePages = grownFile lsn page source w := by
  rw [redoAllocation.eq_def, bind_ok (get_apply _ _)]
  by_cases newer : w.metadata.LSN < lsn
  · rw [if_pos newer]
    cases source with
    | freelist =>
      exact ⟨_, rfl, ⟨idle.guards, idle.faults⟩, (if_neg (by simp)).symm⟩
    | fileExpansion =>
      have current : AllocationSource.fileExpansion = .fileExpansion ∧ w.metadata.LSN < lsn :=
        ⟨rfl, newer⟩
      rw [grownFile, if_pos current, maxFilePages] at limit
      have required : (page + 1).toNat = (page.toNat + 1) % 2 ^ 64 := UInt64.toNat_add page 1
      dsimp only [ensurePageExists]
      rw [idle.faults, if_neg]
      · refine ⟨_, rfl, ⟨idle.guards, idle.faults⟩, ?_⟩
        dsimp only
        rw [grownFile, if_pos current]
        omega
      · rw [Bool.false_or]
        intro exceeds
        have beyond := of_decide_eq_true exceeds
        rw [maxFilePages] at beyond
        omega
  · rw [if_neg newer]
    exact ⟨w, rfl, idle, (if_neg fun current => newer current.2).symm⟩

theorem redoCreatePage_returns {page : UInt64} {type : NodeType} {source : AllocationSource}
    (idle : Idle w) (inside : page.toNat < grownFile lsn page source w)
    (limit : grownFile lsn page source w ≤ max maxFilePages w.filePages) :
    ∃ w', redoCreatePage lsn page type source w = (.ok (), w') := by
  obtain ⟨w₁, allocated, idle₁, file⟩ := redoAllocation_returns idle limit
  refine ⟨((w₁.acquire page).setPage page (setType type (w₁.pages page))).release page, ?_⟩
  rw [redoCreatePage.eq_def, bind_ok allocated, bind_ok (idle₁.guard (by rw [file]; exact inside))]
  apply deferDone_ok
  cases type with
  | leaf => rfl
  | internal => rfl

theorem redoSplitLeafNode_returns {tree left right nextLeaf : UInt64} {i : Nat}
    {key value elements : Bytes} {length : Nat} (idle : Idle w)
    (can : CanRedo ⟨lsn, .splitLeafNode tree left right i nextLeaf key value length elements⟩ w) :
    ∃ w', redoSplitLeafNode lsn left right i nextLeaf key value elements w = (.ok (), w') := by
  obtain ⟨distinct, entries, separator, decoded, found⟩ := can.redoable
  have changes := leafSplitChange_eq left right nextLeaf key value decoded found
  obtain ⟨leftInside, leftPage, onLeft⟩ := can.change left rfl
    ((changes left).trans (by rw [if_neg distinct, if_pos rfl])) rfl
  obtain ⟨rightInside, rightPage, onRight⟩ := can.change right rfl
    ((changes right).trans (if_pos rfl)) rfl
  have rightGuard : newGuard right (w.acquire left) = (.ok (), (w.acquire left).acquire right) :=
    newGuard_ok (idle.faults _) rightInside (by simpa [idle.guards] using distinct.symm)
  have rightStep := redoOnPage_of_guarded (w := (w.acquire left).acquire right) onRight
  have leftKept : (((w.acquire left).acquire right).setPage right rightPage).pages left =
      w.pages left := by
    rw [World.setPage_pages, Function.update_of_ne distinct]
    rfl
  rw [← leftKept] at onLeft
  have leftStep := redoOnPage_of_guarded onLeft
  refine ⟨(((((w.acquire left).acquire right).setPage right rightPage).setPage left leftPage).release
    right).release left, ?_⟩
  rw [redoSplitLeafNode_eq, bind_ok (idle.guard leftInside)]
  apply deferDone_ok
  rw [bind_ok rightGuard]
  apply deferDone_ok
  rw [decoded, bind_ok (orPanic_some _ _), found, bind_ok (orPanic_some _ _), bind_ok rightStep]
  exact leftStep

theorem redoSplitInternalNode_returns {tree left right : UInt64} {i : Nat} {e : InternalNodeElement}
    {elements : Bytes} {length : Nat} (idle : Idle w)
    (can : CanRedo ⟨lsn, .splitInternalNode tree left right i e.key e.leftChildNodePageId
      e.rightChildNodePageId length elements⟩ w) :
    ∃ w', redoSplitInternalNode lsn left right i e.key e.leftChildNodePageId
      e.rightChildNodePageId elements w = (.ok (), w') := by
  obtain ⟨distinct, entries, separator, decoded, found⟩ := can.redoable
  have changes := internalSplitChange_eq left right e decoded found
  obtain ⟨leftInside, leftPage, onLeft⟩ := can.change left rfl
    ((changes left).trans (by rw [if_neg distinct, if_pos rfl])) rfl
  obtain ⟨rightInside, rightPage, onRight⟩ := can.change right rfl
    ((changes right).trans (if_pos rfl)) rfl
  have leftStep := redoOnPage_of_guarded (w := w.acquire left) onLeft
  have rightGuard : newGuard right ((w.acquire left).setPage left leftPage) =
      (.ok (), ((w.acquire left).setPage left leftPage).acquire right) :=
    newGuard_ok (idle.faults _) rightInside (by simpa [idle.guards] using distinct.symm)
  have rightKept : (((w.acquire left).setPage left leftPage).acquire right).pages right =
      w.pages right := by
    rw [World.acquire_pages, World.setPage_pages, Function.update_of_ne distinct.symm]
    rfl
  rw [← rightKept] at onRight
  have rightStep := redoOnPage_of_guarded onRight
  refine ⟨(((((w.acquire left).setPage left leftPage).acquire right).setPage right
    rightPage).release right).release left, ?_⟩
  rw [redoSplitInternalNode_eq, bind_ok (idle.guard leftInside)]
  apply deferDone_ok
  rw [decoded, bind_ok (orPanic_some _ _), found, bind_ok (orPanic_some _ _), bind_ok leftStep,
    bind_ok rightGuard]
  exact deferDone_ok rightStep

/-- A record that changes one page. -/
theorem CanRedo.entry {record : WALRecord} (can : CanRedo ⟨lsn, record⟩ w) (idle : Idle w)
    {change : PageChange} (quiet : createdType record id = none)
    (changes : pageChange record id = some change)
    (size : redoFilePages ⟨lsn, record⟩ w.metadata w.filePages = w.filePages) :
    ∃ w', redoEntry lsn id change.apply w = (.ok (), w') := by
  obtain ⟨inside, page, result⟩ := can.change id quiet changes size
  exact redoEntry_returns idle inside result

theorem redo_returns {entry : LogEntry} (idle : Idle w) (can : CanRedo entry w) :
    ∃ w', redo entry w = (.ok (), w') := by
  obtain ⟨lsn, record⟩ := entry
  cases record with
  | beginOperation tree => exact ⟨w, rfl⟩
  | commitOperation tree => exact ⟨w, rfl⟩
  | createPage tree page type source =>
    have inside := can.named page (.inl (by rw [createdType, if_pos rfl]; simp))
    have limit := can.limit
    rw [redoFilePages_createPage] at inside limit
    exact redoCreatePage_returns idle inside limit
  | updateRootNodePageId tree page => exact ⟨_, rfl⟩
  | updateFirstLeafNodePageId tree page => exact ⟨_, rfl⟩
  | insertInternalNodeEntry tree page key left right =>
    have changes : pageChange (.insertInternalNodeEntry tree page key left right) page = some
        ⟨fun content => (InternalNodeCodec.insertElement content key left right).map Prod.snd,
          true⟩ := if_pos rfl
    obtain ⟨w', run⟩ := can.entry idle rfl changes rfl
    exact ⟨w', run⟩
  | insertLeafNodeEntry tree page key value =>
    have changes : pageChange (.insertLeafNodeEntry tree page key value) page = some
        ⟨fun content => (LeafNodeCodec.insertElement content key value).map Prod.snd, true⟩ :=
      if_pos rfl
    obtain ⟨w', run⟩ := can.entry idle rfl changes rfl
    exact ⟨w', run⟩
  | updateLeafNodeEntry tree page key value =>
    have changes : pageChange (.updateLeafNodeEntry tree page key value) page = some
        ⟨fun content => LeafNodeCodec.setValue content key value, true⟩ := if_pos rfl
    obtain ⟨w', run⟩ := can.entry idle rfl changes rfl
    exact ⟨w', run⟩
  | splitLeafNode tree left right splitIndex nextLeaf key value length elements =>
    exact redoSplitLeafNode_returns idle can
  | splitInternalNode tree left right splitIndex key leftChild rightChild length elements =>
    exact redoSplitInternalNode_returns (e := ⟨key, leftChild, rightChild⟩) idle can

/-! ### A list of records -/

/-- What the redo of records, one after the other, leaves in a page. -/
def redoPages (entries : List LogEntry) (id : UInt64) (content : Page) : Option Page :=
  entries.foldlM (fun content entry => redoPage entry id content) content

theorem redoPages_cons (entry : LogEntry) (rest : List LogEntry) (id : UInt64) (content : Page) :
    redoPages (entry :: rest) id content =
      (redoPage entry id content).bind (redoPages rest id) := List.foldlM_cons

theorem redoAll_pages {entries : List LogEntry} (run : redoAll entries w = (.ok (), w')) :
    ∀ id, redoPages entries id (w.view id) = some (w'.view id) := by
  induction entries generalizing w with
  | nil =>
    obtain rfl := (Prod.mk.inj run).2
    exact fun _ => rfl
  | cons entry rest ih =>
    intro id
    obtain ⟨_, w₁, first, later⟩ := bind_eq_ok run
    rw [redoPages_cons, (redone_of_ok first).pages id]
    exact ih later id

/-- `Recover` replays the committed records on every page by itself. -/
theorem recover_pages (run : recover w = (.ok (), w')) :
    ∃ entries, committed w.log = some entries ∧
      ∀ id, redoPages entries id (w.view id) = some (w'.view id) := by
  obtain ⟨entries, w₁, entriesEq, redone, rfl⟩ := recover_inv run
  exact ⟨entries, entriesEq, fun id => redoAll_pages redone id⟩

end

end StorageEngine

end CambiumDB
