import CambiumDB.BPlusTree.Allocation

/-!
# Writing pages under a discipline

Between its first and its last change under a guard a page may be in disorder. A
`PageDiscipline` says when a page is in order, given the log, and what the writes of the codecs
do for it; `Orderly` says which pages are in disorder right now, that all of them are under a
guard, and that every snapshot has the pages without a guard in order. An insert that returns
leaves no page in disorder.
-/

namespace CambiumDB

open ByteBuffer TreeM

/-- The pages that a record names as created, split, inserted into or updated. -/
def WALRecord.pages : WALRecord → List UInt64
  | .createPage _ page _ _ => [page]
  | .insertInternalNodeEntry _ page _ _ _ => [page]
  | .insertLeafNodeEntry _ page _ _ => [page]
  | .updateLeafNodeEntry _ page _ _ => [page]
  | .splitLeafNode _ left right _ _ _ _ _ _ => [left, right]
  | .splitInternalNode _ left right _ _ _ _ _ _ => [left, right]
  | _ => []

/-- The part of the world that guards and the handle of the tree are not in. -/
structure Store where
  pages : UInt64 → Page
  filePages : Nat
  maxAllocatedPageId : UInt64
  deallocatedPageIdList : List UInt64
  log : List LogEntry

def World.store (w : World) : Store :=
  ⟨w.pages, w.filePages, w.metadata.maxAllocatedPageId, w.metadata.deallocatedPageIdList, w.log⟩

/-- The codec that the code uses for a page. -/
def nodeType (page : Page) : NodeType := if HeaderCodec.isLeafNode page then .leaf else .internal

structure PageDiscipline where
  /-- The page is in order after these records. -/
  Clean : List LogEntry → UInt64 → Page → Prop
  /-- The codec can write to the page. -/
  Fit : NodeType → Page → Prop
  /-- The page has been given the LSN of its record. -/
  Stamped : UInt64 → Page → Prop
  /-- The page is in order after a record with the LSN. -/
  Good : UInt64 → Page → Prop
  /-- Below the last allocated page. -/
  Own : UInt64 → UInt64 → Prop
  Alloc : Store → Prop
  clean_other : ∀ {log q page lsn record}, Clean log q page → q ∉ WALRecord.pages record →
    Clean (log ++ [⟨lsn, record⟩]) q page
  clean_named : ∀ {log q page lsn record}, Good lsn page → q ∈ WALRecord.pages record →
    Clean (log ++ [⟨lsn, record⟩]) q page
  stamp : ∀ page lsn, Stamped lsn (HeaderCodec.setLSN page lsn)
  fit_setLSN : ∀ {type page} lsn, Fit type page → Fit type (HeaderCodec.setLSN page lsn)
  fit_setNodeType : ∀ {page}, Fit .internal page → Fit .internal (InternalNodeCodec.setNodeType page)
  fit_checkLeaf : ∀ {page key value answer checked}, Fit .leaf page →
    LeafNodeCodec.hasEnoughSpaceToInsertElement page key value = some (answer, checked) →
    Fit .leaf checked
  fit_checkNode : ∀ {page key answer checked}, Fit .internal page →
    InternalNodeCodec.hasEnoughSpaceToInsertElement page key = some (answer, checked) →
    Fit .internal checked
  insertLeaf : ∀ {page lsn key value answer final}, Fit .leaf page → Stamped lsn page →
    LeafNodeCodec.insertElement page key value = some (answer, final) → Good lsn final
  insertNode : ∀ {page lsn key left right answer final}, Fit .internal page → Stamped lsn page →
    InternalNodeCodec.insertElement page key left right = some (answer, final) → Good lsn final
  setValue : ∀ {page checked lsn key old value final}, Fit .leaf page →
    LeafNodeCodec.findValue page key = some (some old) →
    LeafNodeCodec.hasEnoughSpaceToUpdateValue page key old value = some (true, checked) →
    LeafNodeCodec.setValue (HeaderCodec.setLSN checked lsn) key value = some final → Good lsn final
  splitLeaf : ∀ {left right lsn id index left' right' key}, Fit .leaf left → Stamped lsn left →
    Stamped lsn right → LeafNodeCodec.splitNode left right id index = some (left', right', key) →
    ∀ half, half = left' ∨ half = right' → Fit .leaf half ∧ Stamped lsn half ∧ Good lsn half
  splitNode : ∀ {left right lsn id index left' right' key}, Fit .internal left → Stamped lsn left →
    Stamped lsn right →
    InternalNodeCodec.splitNode left right id index = some (left', right', key) →
    ∀ half, half = left' ∨ half = right' → Fit .internal half ∧ Stamped lsn half ∧ Good lsn half
  alloc_page : ∀ {s q} page, Alloc s → Own s.maxAllocatedPageId q →
    Alloc { s with pages := Function.update s.pages q page }
  alloc_log : ∀ {s record} lsn, Alloc s →
    (∀ q ∈ WALRecord.pages record, Own s.maxAllocatedPageId q) →
    Alloc { s with log := s.log ++ [⟨lsn, record⟩] }
  alloc_new : ∀ {w w' id source}, Alloc w.store → newPage w = (.ok (id, source), w') →
    id ≠ 0 ∧ Alloc w'.store ∧ Own w'.metadata.maxAllocatedPageId id ∧ (∀ type, Fit type (w'.pages id)) ∧
      ∀ q, (Clean w.log q (w.pages q) → Clean w.log q (w'.pages q)) ∧
        (Own w.metadata.maxAllocatedPageId q → Own w'.metadata.maxAllocatedPageId q ∧
          ∀ type, Fit type (w.pages q) → Fit type (w'.pages q))

/-- What each page under a guard is taken for. -/
abbrev Roles : Type := UInt64 → Option NodeType

/-- The page is in order, or it would be but for the record of its own creation. -/
def PageDiscipline.Seen (d : PageDiscipline) (log : List LogEntry) (q : UInt64) (page : Page) : Prop :=
  d.Clean log q page ∨ ∃ earlier lsn tree type source,
    log = earlier ++ [⟨lsn, .createPage tree q type source⟩] ∧ d.Clean earlier q page

/-- The history of the store: a page is in order whenever its guard is given back, and as long as
it has none. Only a page that is taken for a first leaf is logged before it has a guard, and it
has one by the next snapshot. -/
structure PageDiscipline.Past (d : PageDiscipline) (guards : List UInt64) (log : List LogEntry)
    (history : List Snapshot) : Prop where
  seen : ∀ s ∈ history, ∀ q, q ∉ s.guards → d.Seen s.log q (s.pages q)
  released : history.IsChain fun s s' => ∀ q ∈ s.guards, q ∉ s'.guards →
    d.Clean s'.log q (s'.pages q)
  logs : history.Pairwise fun s s' => s.log <+: s'.log ∧
    (s.log = s'.log → ∀ q, q ∉ s'.guards → d.Clean s'.log q (s'.pages q))
  grown : ∀ s ∈ history, s.log <+: log
  last : ∀ s ∈ history.getLast?, s.guards = guards

theorem PageDiscipline.Past.snoc {d : PageDiscipline} {guards : List UInt64} {log : List LogEntry}
    {history : List Snapshot} (past : d.Past guards log history) {s : Snapshot}
    (later : log <+: s.log) (seen : ∀ q, q ∉ s.guards → d.Seen s.log q (s.pages q))
    (released : ∀ q ∈ guards, q ∉ s.guards → d.Clean s.log q (s.pages q))
    (quiet : log = s.log → ∀ q, q ∉ s.guards → d.Clean s.log q (s.pages q)) :
    d.Past s.guards s.log (history ++ [s]) := by
  have all {P : Snapshot → Prop} (old : ∀ t ∈ history, P t) (new : P s) :
      ∀ t ∈ history ++ [s], P t := by
    intro t member
    rcases List.mem_append.1 member with before | last
    · exact old t before
    · rw [List.mem_singleton.1 last]
      exact new
  refine ⟨all past.seen seen, ?_, ?_,
    all (fun t member => (past.grown t member).trans later) List.prefix_rfl, by simp⟩
  · rw [List.isChain_append]
    refine ⟨past.released, List.isChain_singleton _, ?_⟩
    intro t last t' first
    obtain rfl : s = t' := by simpa using first
    rw [past.last t last]
    exact released
  · rw [List.pairwise_append]
    refine ⟨past.logs, List.pairwise_singleton _ _, ?_⟩
    intro t member t' last
    rw [List.mem_singleton.1 last]
    have before := past.grown t member
    refine ⟨before.trans later, fun same => quiet ?_⟩
    exact later.eq_of_length_le (same ▸ before.length_le)

theorem PageDiscipline.Past.snoc_clean {d : PageDiscipline} {guards : List UInt64}
    {log : List LogEntry} {history : List Snapshot} (past : d.Past guards log history)
    {s : Snapshot} (later : log <+: s.log)
    (clean : ∀ q, q ∉ s.guards → d.Clean s.log q (s.pages q)) :
    d.Past s.guards s.log (history ++ [s]) :=
  past.snoc later (fun q free => .inl (clean q free)) (fun q _ => clean q) fun _ => clean

/-- The pages of `dirty` are in disorder. They have a role, and a page with a role is under a
guard. -/
structure Orderly (d : PageDiscipline) (rooted : Prop) (dirty : Set UInt64) (roles : Roles) (w : World) : Prop where
  alloc : d.Alloc w.store
  held : ∀ p type, roles p = some type →
    p ∈ w.guards ∧ d.Own w.metadata.maxAllocatedPageId p ∧ d.Fit type (w.pages p)
  role : ∀ p ∈ dirty, roles p ≠ none
  clean : ∀ q, q ∉ dirty → d.Clean w.log q (w.pages q)
  past : d.Past w.guards w.log w.history
  root : rooted → w.tree.rootNodePageId ≠ 0

/-- A check that says no leaves the page as it is. -/
theorem SlottedPage.hasEnoughSpace_false {E : Type} {c : ElementCodec E} {page checked : Page}
    {need : Nat} (check : hasEnoughSpace c page need = some (false, checked)) : checked = page := by
  rw [hasEnoughSpace] at check
  split at check
  · cases check
  · split at check
    · obtain ⟨_, _, check⟩ := Option.bind_eq_some_iff.1 check
      cases check
    · exact ((Prod.mk.inj (Option.some.inj check)).2).symm

theorem newPage_frame {w w' : World} {result : UInt64 × AllocationSource}
    (run : newPage w = (.ok result, w')) :
    w'.tree = w.tree ∧ w'.log = w.log ∧ w'.guards = w.guards ∧ w'.history = w.history := by
  rw [newPage] at run
  split at run
  · obtain rfl := (Prod.mk.inj run).2
    exact ⟨rfl, rfl, rfl, rfl⟩
  · dsimp only at run
    split at run
    · cases run
    · obtain rfl := (Prod.mk.inj run).2
      split
      · exact ⟨rfl, rfl, rfl, rfl⟩
      · exact ⟨rfl, rfl, rfl, rfl⟩

/-- The page that `NewPage` hands out. -/
def World.freshPage (w : World) : Page :=
  match w.metadata.deallocatedPageIdList with
  | id :: _ => w.pages id
  | [] => if w.nextPage.toNat = w.filePages then Buffer.zero 4096 else w.pages w.nextPage

theorem newPage_freshPage {w w' : World} {id : UInt64} {source : AllocationSource}
    (run : newPage w = (.ok (id, source), w')) : w'.pages id = w.freshPage := by
  rw [newPage] at run
  split at run
  next known =>
    obtain ⟨same, rfl⟩ := Prod.mk.inj run
    cases same
    rw [World.freshPage, known]
  next known =>
    rw [World.freshPage, known]
    dsimp only at run
    split at run
    · cases run
    · obtain ⟨same, rfl⟩ := Prod.mk.inj run
      cases same
      by_cases full : w.nextPage.toNat = w.filePages
      · rw [if_pos full]
        have full' : (w.metadata.maxAllocatedPageId + 1).toNat = w.filePages := full
        simp [full', extendFile]
      · rw [if_neg full]
        have room : ¬ (w.metadata.maxAllocatedPageId + 1).toNat = w.filePages := full
        simp only [room, decide_false, Bool.false_eq_true, if_false]
        rfl

namespace Orderly

variable {d : PageDiscipline} {rooted : Prop} {dirty : Set UInt64} {roles : Roles} {w : World}
  (h : Orderly d rooted dirty roles w)
include h

theorem guarded {p : UInt64} (member : p ∈ dirty) : p ∈ w.guards := by
  cases known : roles p with
  | none => exact absurd known (h.role p member)
  | some type => exact (h.held p type known).1

theorem weaken {dirty' : Set UInt64} {roles' : Roles} (more : dirty ⊆ dirty')
    (fewer : ∀ p type, roles' p = some type → roles p = some type)
    (role : ∀ p ∈ dirty', roles' p ≠ none) : Orderly d rooted dirty' roles' w :=
  ⟨h.alloc, fun p type known => h.held p type (fewer p type known), role,
    fun q outside => h.clean q fun inside => outside (more inside), h.past, h.root⟩

theorem acquire {p : UInt64} {type : NodeType} (own : d.Own w.metadata.maxAllocatedPageId p)
    (fit : d.Fit type (w.pages p)) :
    Orderly d rooted dirty (Function.update roles p (some type)) (w.acquire p) := by
  have past := h.past.snoc_clean (s := ⟨w.pages, p :: w.guards, w.log⟩) List.prefix_rfl
    fun q free => h.clean q fun inside => free (List.mem_cons_of_mem _ (h.guarded inside))
  refine ⟨h.alloc, ?_, ?_, h.clean, past, h.root⟩
  · intro q known role
    by_cases here : q = p
    · subst here
      rw [Function.update_self] at role
      obtain rfl := Option.some.inj role
      exact ⟨List.mem_cons_self, own, fit⟩
    · rw [Function.update_of_ne here] at role
      obtain ⟨guard, rest⟩ := h.held q known role
      exact ⟨List.mem_cons_of_mem _ guard, rest⟩
  · intro q inside
    by_cases here : q = p
    · rw [here, Function.update_self]
      simp
    · rw [Function.update_of_ne here]
      exact h.role q inside

theorem release {p : UInt64} (done : p ∉ dirty) :
    Orderly d rooted dirty (Function.update roles p none) (w.release p) := by
  have other (q : UInt64) (inside : q ∈ dirty) : q ≠ p := by
    rintro rfl
    exact done inside
  have guarded (q : UInt64) (inside : q ∈ dirty) : q ∈ w.guards.erase p :=
    (List.mem_erase_of_ne (other q inside)).2 (h.guarded inside)
  have clean (q : UInt64) (free : q ∉ w.guards.erase p) : d.Clean w.log q (w.pages q) :=
    h.clean q fun inside => free (guarded q inside)
  have past := h.past.snoc_clean (s := ⟨w.pages, w.guards.erase p, w.log⟩) List.prefix_rfl clean
  refine ⟨h.alloc, ?_, ?_, h.clean, past, h.root⟩
  · intro q known role
    by_cases here : q = p
    · rw [here, Function.update_self] at role
      cases role
    · rw [Function.update_of_ne here] at role
      obtain ⟨guard, rest⟩ := h.held q known role
      exact ⟨(List.mem_erase_of_ne here).2 guard, rest⟩
  · intro q inside
    rw [Function.update_of_ne (other q inside)]
    exact h.role q inside

/-- A record puts the pages it names in disorder. -/
theorem append (record : WALRecord) (lsn : UInt64) (named : ∀ q ∈ record.pages, roles q ≠ none) :
    Orderly d rooted (dirty ∪ {q | q ∈ record.pages}) roles (w.append lsn record) := by
  have role (q : UInt64) (inside : q ∈ dirty ∪ {q | q ∈ record.pages}) : roles q ≠ none := by
    rcases inside with before | now
    · exact h.role q before
    · exact named q now
  have known (q : UInt64) (inside : q ∈ dirty ∪ {q | q ∈ record.pages}) :
      q ∈ w.guards ∧ d.Own w.metadata.maxAllocatedPageId q := by
    cases known : roles q with
    | none => exact absurd known (role q inside)
    | some type => exact ⟨(h.held q type known).1, (h.held q type known).2.1⟩
  have clean (q : UInt64) (outside : q ∉ dirty ∪ {q | q ∈ record.pages}) :
      d.Clean (w.log ++ [⟨lsn, record⟩]) q (w.pages q) :=
    d.clean_other (h.clean q fun inside => outside (.inl inside)) fun inside => outside (.inr inside)
  have past := h.past.snoc_clean (s := ⟨w.pages, w.guards, w.log ++ [⟨lsn, record⟩]⟩)
    (List.prefix_append _ _) fun q free => clean q fun inside => free (known q inside).1
  exact ⟨d.alloc_log lsn h.alloc fun q inside => (known q (.inr inside)).2, h.held, role, clean, past, h.root⟩

theorem append_silent {record : WALRecord} (lsn : UInt64) (silent : record.pages = []) :
    Orderly d rooted dirty roles (w.append lsn record) := by
  have logged := h.append record lsn (by simp [silent])
  exact logged.weaken (by simp [silent]) (fun _ _ known => known) h.role

/-- A page with a role is changed and stays fit for it. -/
theorem revise {p : UInt64} {type : NodeType} {page : Page} (role : roles p = some type)
    (fit : d.Fit type page) : Orderly d rooted (insert p dirty) roles (w.setPage p page) := by
  refine ⟨d.alloc_page page h.alloc (h.held p type role).2.1, ?_, ?_, ?_, h.past, h.root⟩
  · intro q known here
    obtain ⟨guard, own, fitted⟩ := h.held q known here
    refine ⟨guard, own, ?_⟩
    by_cases same : q = p
    · subst same
      rw [World.setPage_pages_self]
      obtain rfl := Option.some.inj (role.symm.trans here)
      exact fit
    · rw [World.setPage_pages_ne _ same]
      exact fitted
  · intro q inside
    rcases inside with rfl | before
    · rw [role]
      simp
    · exact h.role q before
  · intro q outside
    have other : q ≠ p := fun here => outside (.inl here)
    rw [World.setPage_pages_ne _ other]
    exact h.clean q fun inside => outside (.inr inside)

/-- The last change of a page puts it in order. -/
theorem settle {p : UInt64} {type : NodeType} {page : Page} (role : roles p = some type)
    (clean : d.Clean w.log p page) :
    Orderly d rooted (dirty \ {p}) (Function.update roles p none) (w.setPage p page) := by
  refine ⟨d.alloc_page page h.alloc (h.held p type role).2.1, ?_, ?_, ?_, h.past, h.root⟩
  · intro q known here
    by_cases same : q = p
    · rw [same, Function.update_self] at here
      cases here
    · rw [Function.update_of_ne same] at here
      rw [World.setPage_pages_ne _ same]
      exact h.held q known here
  · rintro q ⟨inside, other⟩
    rw [Function.update_of_ne other]
    exact h.role q inside
  · intro q outside
    by_cases same : q = p
    · rw [same, World.setPage_pages_self]
      exact clean
    · rw [World.setPage_pages_ne _ same]
      exact h.clean q fun inside => outside ⟨inside, same⟩

theorem setMetaLSN (lsn : UInt64) : Orderly d rooted dirty roles (w.setMetaLSN lsn) :=
  ⟨h.alloc, h.held, h.role, h.clean, h.past, h.root⟩

theorem setRoot {rooted' : Prop} {id : UInt64} (present : id ≠ 0) :
    Orderly d rooted' dirty roles (w.setRoot id) :=
  ⟨h.alloc, h.held, h.role, h.clean, h.past, fun _ => present⟩

theorem with_root (present : w.tree.rootNodePageId ≠ 0) : Orderly d True dirty roles w :=
  ⟨h.alloc, h.held, h.role, h.clean, h.past, fun _ => present⟩

theorem setFirstLeaf (id : UInt64) : Orderly d rooted dirty roles (w.setFirstLeaf id) :=
  ⟨h.alloc, h.held, h.role, h.clean, h.past, h.root⟩

theorem countCall : Orderly d rooted dirty roles w.countCall :=
  ⟨h.alloc, h.held, h.role, h.clean, h.past, h.root⟩

theorem setPage_self (id : UInt64) : Orderly d rooted dirty roles (w.setPage id (w.pages id)) := by
  rw [World.setPage, Function.update_eq_self]
  exact h

/-- A new page is not under a guard yet, and no page changes but the zero pages that the file
gets. -/
theorem newPage {id : UInt64} {source : AllocationSource} {w' : World}
    (run : newPage w = (.ok (id, source), w')) :
    id ≠ 0 ∧ Orderly d rooted dirty roles w' ∧ d.Own w'.metadata.maxAllocatedPageId id ∧
      ∀ type, d.Fit type (w'.pages id) := by
  obtain ⟨present, alloc, own, fit, kept⟩ := d.alloc_new h.alloc run
  obtain ⟨tree, log, guards, history⟩ := newPage_frame run
  refine ⟨present, ⟨alloc, ?_, h.role, ?_, ?_, ?_⟩, own, fit⟩
  · intro p type known
    obtain ⟨guard, owned, fitted⟩ := h.held p type known
    rw [guards]
    exact ⟨guard, ((kept p).2 owned).1, ((kept p).2 owned).2 type fitted⟩
  · intro q outside
    rw [log]
    exact (kept q).1 (h.clean q outside)
  · rw [guards, log, history]
    exact h.past
  · rw [tree]
    exact h.root

/-! ### One record -/

/-- A record that names one page, and the page after it. -/
theorem write {p : UInt64} {type : NodeType} {record : WALRecord} {lsn : UInt64} {page : Page}
    (role : roles p = some type) (named : record.pages = [p]) (good : d.Good lsn page) :
    Orderly d rooted (dirty \ {p}) (Function.update roles p none)
      ((w.append lsn record).setPage p page) := by
  have logged := h.append record lsn (by simp [named, role])
  have clean : d.Clean (w.append lsn record).log p page := d.clean_named good (by simp [named])
  have only : {q | q ∈ record.pages} = {p} := by
    ext q
    simp [named]
  have settled := logged.settle role clean
  rw [only, Set.union_sdiff_right] at settled
  exact settled

/-- The same after a space check, which may have compacted the page. -/
theorem write_checked {p : UInt64} {type : NodeType} {record : WALRecord} {lsn : UInt64}
    {checked page : Page} (role : roles p = some type) (fit : d.Fit type checked)
    (named : record.pages = [p]) (good : d.Good lsn page) :
    Orderly d rooted (dirty \ {p}) (Function.update roles p none)
      (((w.setPage p checked).append lsn record).setPage p page) := by
  have written := (h.revise role fit).write role named good
  rw [Set.insert_sdiff_of_mem _ (Set.mem_singleton p)] at written
  exact written

theorem settle_both {left right : UInt64} {type type' : NodeType} {leftPage rightPage : Page}
    (leftRole : roles left = some type) (rightRole : roles right = some type')
    (apart : left ≠ right) (leftClean : d.Clean w.log left leftPage)
    (rightClean : d.Clean w.log right rightPage) :
    Orderly d rooted (dirty \ {left, right}) (Function.update (Function.update roles left none) right none)
      ((w.setPage left leftPage).setPage right rightPage) := by
  have rightRole' : Function.update roles left none right = some type' := by
    rw [Function.update_of_ne apart.symm, rightRole]
  have settled := (h.settle leftRole leftClean).settle rightRole' rightClean
  rw [Set.sdiff_sdiff, Set.singleton_union] at settled
  exact settled

section
variable {left right lsn : UInt64} {type : NodeType} {record : WALRecord} {leftPage rightPage : Page}
  (leftRole : roles left = some type) (rightRole : roles right = some type) (apart : left ≠ right)
  (named : record.pages = [left, right]) (leftGood : d.Good lsn leftPage)
  (rightGood : d.Good lsn rightPage)
include leftRole rightRole apart named leftGood rightGood

theorem split : Orderly d rooted (dirty \ {left, right})
    (Function.update (Function.update roles left none) right none)
    (((w.append lsn record).setPage left leftPage).setPage right rightPage) := by
  have logged := h.append record lsn (by simp [named, leftRole, rightRole])
  have both : {q | q ∈ record.pages} = {left, right} := by
    ext q
    simp [named]
  have leftClean : d.Clean (w.append lsn record).log left leftPage :=
    d.clean_named leftGood (by simp [named])
  have rightClean : d.Clean (w.append lsn record).log right rightPage :=
    d.clean_named rightGood (by simp [named])
  have settled := logged.settle_both leftRole rightRole apart leftClean rightClean
  rw [both, Set.union_sdiff_right] at settled
  exact settled

/-- A split that gives the parent its LSN too: the parent is then in disorder. -/
theorem split_under {parent : UInt64} (parentRole : roles parent = some .internal)
    (leftApart : parent ≠ left) (rightApart : parent ≠ right) :
    Orderly d rooted (insert parent (dirty \ {left, right}))
      (Function.update (Function.update roles left none) right none)
      ((((w.append lsn record).setPage parent (HeaderCodec.setLSN (w.pages parent) lsn)).setPage left
        leftPage).setPage right rightPage) := by
  have logged := h.append record lsn (by simp [named, leftRole, rightRole])
  have stamped := logged.revise parentRole (d.fit_setLSN lsn (h.held _ _ parentRole).2.2)
  have both : {q | q ∈ record.pages} = {left, right} := by
    ext q
    simp [named]
  have leftClean : d.Clean (w.append lsn record).log left leftPage :=
    d.clean_named leftGood (by simp [named])
  have rightClean : d.Clean (w.append lsn record).log right rightPage :=
    d.clean_named rightGood (by simp [named])
  have settled := stamped.settle_both leftRole rightRole apart leftClean rightClean
  have outside : parent ∉ ({left, right} : Set UInt64) := by simp [leftApart, rightApart]
  rw [both, Set.insert_sdiff_of_notMem _ outside, Set.union_sdiff_right] at settled
  exact settled

end

/-- The creation of a page that has just been taken. -/
theorem create {id : UInt64} {type : NodeType} {page : Page} (tree lsn : UInt64)
    (source : AllocationSource) (own : d.Own w.metadata.maxAllocatedPageId id)
    (fit : d.Fit type (w.pages id)) (fit' : d.Fit type page) :
    Orderly d rooted (insert id dirty) (Function.update roles id (some type))
      (((w.acquire id).append lsn (.createPage tree id type source)).setPage id page) := by
  have role : Function.update roles id (some type) id = some type := Function.update_self ..
  have logged := (h.acquire own fit).append (.createPage tree id type source) lsn
    (by simp [WALRecord.pages])
  have only : {q | q ∈ (WALRecord.createPage tree id type source).pages} = {id} := by
    ext q
    simp [WALRecord.pages]
  have revised := logged.revise role fit'
  rw [only, Set.union_singleton, Set.insert_idem] at revised
  exact revised

/-- The creation of a first leaf is logged before the page has its guard. -/
theorem plant {id : UInt64} {page : Page} (tree lsn : UInt64) (source : AllocationSource)
    (own : d.Own w.metadata.maxAllocatedPageId id) (settled : id ∉ dirty)
    (fit : d.Fit .leaf page) :
    Orderly d rooted (insert id dirty) (Function.update roles id (some .leaf))
      (((w.append lsn (.createPage tree id .leaf source)).acquire id).setPage id page) := by
  have other (q : UInt64) (inside : q ∈ dirty) : q ≠ id := by
    rintro rfl
    exact settled inside
  have clean (q : UInt64) (outside : q ∉ dirty) (here : q ≠ id) :
      d.Clean (w.log ++ [⟨lsn, .createPage tree id .leaf source⟩]) q (w.pages q) :=
    d.clean_other (h.clean q outside) (by simpa [WALRecord.pages] using here)
  have logged := h.past.snoc
    (s := ⟨w.pages, w.guards, w.log ++ [⟨lsn, .createPage tree id .leaf source⟩]⟩)
    (List.prefix_append _ _)
    (fun q free => by
      have outside : q ∉ dirty := fun inside => free (h.guarded inside)
      by_cases here : q = id
      · rw [here] at outside ⊢
        exact .inr ⟨w.log, lsn, tree, .leaf, source, rfl, h.clean id outside⟩
      · exact .inl (clean q outside here))
    (fun q guard free => absurd guard free) (by simp)
  have past := logged.snoc_clean
    (s := ⟨w.pages, id :: w.guards, w.log ++ [⟨lsn, .createPage tree id .leaf source⟩]⟩)
    List.prefix_rfl fun q free => clean q
      (fun inside => free (List.mem_cons_of_mem _ (h.guarded inside)))
      (fun here => free (here ▸ List.mem_cons_self))
  refine ⟨?_, ?_, ?_, ?_, past, h.root⟩
  · refine d.alloc_page page (d.alloc_log lsn h.alloc ?_) own
    intro q named
    rw [List.mem_singleton.1 named]
    exact own
  · intro q known role
    by_cases here : q = id
    · subst here
      rw [Function.update_self] at role
      obtain rfl := Option.some.inj role
      rw [World.setPage_pages_self]
      exact ⟨List.mem_cons_self, own, fit⟩
    · rw [Function.update_of_ne here] at role
      obtain ⟨guard, owned, fitted⟩ := h.held q known role
      rw [World.setPage_pages_ne _ here]
      exact ⟨List.mem_cons_of_mem _ guard, owned, fitted⟩
  · intro q inside
    rcases inside with rfl | before
    · rw [Function.update_self]
      simp
    · rw [Function.update_of_ne (other q before)]
      exact h.role q before
  · intro q outside
    have here : q ≠ id := fun same => outside (.inl same)
    rw [World.setPage_pages_ne _ here]
    exact clean q (fun inside => outside (.inr inside)) here

end Orderly

end CambiumDB
