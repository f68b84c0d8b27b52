import CambiumDB.BufferPool.Coherence
import CambiumDB.BufferPool.DiskFrame

/-!
# The buffer pool is a page store

A page store is a function from page ids to contents; a write replaces one content. Beside
each run of the shared pool runs such a store, which starts with the contents of the file and
takes every write. What a guard shows, and what is in the file after `Close`, is what the
store holds. Page 0 is the metadata page, which does not go through the pool.
-/

namespace CambiumDB

open ByteBuffer TransitionSystem

namespace BufferPool

variable {poolSize : Nat}

/-! ### What the frames and the file hold -/

/-- The store behind the pool: a page in a frame has the content that the frame holds, and a
page that is not in a dirty frame has the content that the file holds. -/
structure Shows (pool : BufferPool poolSize) (store : UInt64 → Page) : Prop where
  small : pool.disk.file.size ≤ DiskManager.maxFileSize
  cached : ∀ p f, pool.pageTable p = some f →
    p ≠ 0 ∧ pool.disk.InFile p ∧ (pool.frames f).data = store p
  stored : ∀ p, p ≠ 0 → pool.disk.InFile p →
    (∀ f, pool.pageTable p = some f → (pool.frames f).dirty = false) →
    pool.disk.read p = some (store p)

/-- The pools differ in pin counts, free frames and the replacer only. -/
structure SameData (pool pool' : BufferPool poolSize) : Prop where
  table : pool'.pageTable = pool.pageTable
  disk : pool'.disk = pool.disk
  data : ∀ f, (pool'.frames f).data = (pool.frames f).data
  dirty : ∀ f, (pool'.frames f).dirty = (pool.frames f).dirty

variable {pool : BufferPool poolSize} {store : UInt64 → Page} {pageId : UInt64}
  {frameId : Fin poolSize}

theorem Shows.congr (h : pool.Shows store) {pool' : BufferPool poolSize}
    (same : pool.SameData pool') : pool'.Shows store where
  small := by simpa only [same.disk] using h.small
  cached := by simpa only [same.table, same.disk, same.data] using h.cached
  stored := by simpa only [same.table, same.disk, same.dirty] using h.stored

theorem addPin_sameData (count : Int) : pool.SameData (pool.addPin frameId count) := by
  have frame : ∀ f, ((pool.addPin frameId count).frames f).data = (pool.frames f).data ∧
      ((pool.addPin frameId count).frames f).dirty = (pool.frames f).dirty := by
    intro f
    rw [addPin, setFrame_frames]
    split
    next same => exact same ▸ ⟨rfl, rfl⟩
    next => exact ⟨rfl, rfl⟩
  exact ⟨rfl, rfl, fun f => (frame f).1, fun f => (frame f).2⟩

theorem pin_sameData {pool' : BufferPool poolSize} (pinned : pool.pin frameId = some pool') :
    pool.SameData pool' := by
  have added : pool.SameData (pool.addPin frameId 1) := addPin_sameData 1
  rw [pin] at pinned
  split at pinned
  next =>
    cases removed : LRUReplacer.remove (pool.addPin frameId 1).replacer frameId with
    | none =>
      rw [removed] at pinned
      cases pinned
    | some replacer =>
      rw [removed] at pinned
      obtain rfl := Option.some.inj pinned
      exact ⟨added.table, added.disk, added.data, added.dirty⟩
  next =>
    obtain rfl := Option.some.inj pinned
    exact added

/-! ### Loading and evicting -/

theorem Shows.load (h : pool.Shows store) (nonzero : pageId ≠ 0)
    (inside : pool.disk.InFile pageId) (missing : pool.pageTable pageId = none)
    (unmapped : ∀ p, pool.pageTable p ≠ some frameId) {data : Page}
    (read : pool.disk.read pageId = some data) :
    (pool.load frameId pageId data).Shows store := by
  have content : data = store pageId := by
    have known := h.stored pageId nonzero inside fun f found => nomatch missing.symm.trans found
    exact Option.some.inj (read.symm.trans known)
  have others : ∀ p f, pool.pageTable p = some f →
      (pool.load frameId pageId data).frames f = pool.frames f := by
    intro p f here
    have other : f ≠ frameId := by
      rintro rfl
      exact unmapped p here
    simp [BufferPool.load, other]
  have frame : (pool.load frameId pageId data).frames frameId = ⟨pageId, data, 1, false⟩ := by
    simp [BufferPool.load]
  constructor
  case small => exact h.small
  case cached =>
    intro p f here
    rw [load_pageTable, Function.update_apply] at here
    split at here
    next same =>
      obtain rfl := Option.some.inj here
      rw [frame, same]
      exact ⟨nonzero, inside, content⟩
    next =>
      rw [others p f here]
      exact h.cached p f here
  case stored =>
    intro p nonzero_ inside_ clean
    apply h.stored p nonzero_ inside_
    intro f here
    have other : p ≠ pageId := by
      rintro rfl
      exact nomatch missing.symm.trans here
    have still : (pool.load frameId pageId data).pageTable p = some f := by
      rwa [load_pageTable, Function.update_of_ne other]
    rw [← others p f here]
    exact clean f still

/-- The page that leaves its frame is in the file. -/
theorem Shows.evict (h : pool.Shows store) (rest : List (Fin poolSize))
    (found : pool.pageTable (pool.frames frameId).pageId = some frameId) {disk : DiskManager}
    (written : if (pool.frames frameId).dirty then
      pool.disk.write (pool.frames frameId).pageId (pool.frames frameId).data .done =
        (true, disk)
      else disk = pool.disk) :
    pool.disk.Keeps disk ∧ { pool.evict frameId rest with disk }.Shows store := by
  obtain ⟨nonzero, inside, content⟩ := h.cached _ _ found
  -- the victim's page has its content in the file now, the others as before
  obtain ⟨keeps, same, other⟩ : pool.disk.Rewrites (pool.frames frameId).pageId
      (store (pool.frames frameId).pageId) disk := by
    split at written
    next dirty =>
      obtain ⟨disk', write, rewrites⟩ :=
        inside.write h.small nonzero (pool.frames frameId).data
      obtain rfl : disk' = disk := congrArg Prod.snd (write.symm.trans written)
      exact content ▸ rewrites
    next clean =>
      subst written
      refine ⟨.refl _, ?_, fun _ _ _ => rfl⟩
      apply h.stored _ nonzero inside
      intro f here
      obtain rfl := Option.some.inj (found.symm.trans here)
      exact Bool.eq_false_of_not_eq_true clean
  refine ⟨keeps, ?_⟩
  have table : ∀ p f, (pool.evict frameId rest).pageTable p = some f →
      pool.pageTable p = some f := by
    intro p f here
    rw [evict_pageTable, Function.update_apply] at here
    split at here
    · cases here
    · exact here
  constructor
  case small => exact keeps.size.trans_le h.small
  case cached =>
    intro p f here
    obtain ⟨nonzero, inside, content⟩ := h.cached p f (table p f here)
    exact ⟨nonzero, keeps.inFile.2 inside, content⟩
  case stored =>
    intro p nonzero_ inside_ clean
    have inside_ := keeps.inFile.1 inside_
    by_cases victim : p = (pool.frames frameId).pageId
    · rw [victim]
      exact same
    · refine (other p inside_ victim).trans (h.stored p nonzero_ inside_ ?_)
      intro f here
      apply clean f
      exact (Function.update_of_ne victim _ _).trans here

/-- A fetch under `lookupMutex.Lock` that can write its victim back. -/
theorem Shows.fetchExclusive (h : pool.Shows store) {pinsOf : UInt64 → Nat}
    (consistent : pool.Consistent pinsOf fun _ => False) (nonzero : pageId ≠ 0)
    (inside : pool.disk.InFile pageId) {readFails : Bool} {fetched : Fetched poolSize}
    {pool' : BufferPool poolSize}
    (run : pool.fetchExclusive pageId readFails .done = (fetched, pool')) :
    (fetched = .error → readFails = true) ∧ pool.disk.Keeps pool'.disk ∧ pool'.Shows store := by
  cases fetchExclusive_outcome run with
  | present _ pinned =>
    have same := pin_sameData pinned
    exact ⟨nofun, same.disk ▸ .refl _, h.congr same⟩
  | unlisted => exact ⟨nofun, .refl _, h⟩
  | unread _ fails =>
    refine ⟨fun _ => ?_, .refl _, h⟩
    obtain fails | unread := fails
    · exact fails
    · exact absurd unread (inside.read_isSome h.small)
  | blocked => exact ⟨nofun, .refl _, h⟩
  | @free frameId rest data missing _ read frames =>
    have unmapped := consistent.free frameId (frames ▸ List.mem_cons_self)
    have fewer : { pool with freeFrames := rest }.Shows store := ⟨h.small, h.cached, h.stored⟩
    exact ⟨nofun, .refl _, fewer.load nonzero inside missing unmapped read⟩
  | noVictim => exact ⟨nofun, .refl _, h⟩
  | @evicted frameId rest data disk missing _ read _ last written =>
    obtain ⟨found, -⟩ := consistent.victim last
    obtain ⟨keeps, shows_⟩ := h.evict rest found written
    have absent : (pool.evict frameId rest).pageTable pageId = none := by
      rw [evict_pageTable, Function.update_apply]
      split
      · rfl
      · exact missing
    have inside' : disk.InFile pageId := keeps.inFile.2 inside
    -- the page was read before the victim was written back
    have read' : disk.read pageId = some data := by
      have clean : ∀ f, pool.pageTable pageId = some f → (pool.frames f).dirty = false :=
        fun f here => nomatch missing.symm.trans here
      rw [← read, h.stored pageId nonzero inside clean]
      exact shows_.stored pageId nonzero inside' fun f here => nomatch absent.symm.trans here
    exact ⟨nofun, keeps, shows_.load nonzero inside' absent (consistent.evict last).2 read'⟩
  | @writeFailed frameId rest disk _ _ last failed =>
    obtain ⟨found, -⟩ := consistent.victim last
    obtain ⟨known, victim, -⟩ := h.cached _ _ found
    obtain ⟨disk', write, -⟩ := victim.write h.small known (pool.frames frameId).data
    exact nomatch congrArg Prod.fst (write.symm.trans failed)

/-! ### Writing and flushing -/

theorem Shows.writeFrame (h : pool.Shows store) {pinsOf : UInt64 → Nat}
    {busy : Fin poolSize → Prop} (consistent : pool.Consistent pinsOf busy)
    (found : pool.pageTable pageId = some frameId) (data : Page) :
    (pool.writeFrame frameId data).Shows (Function.update store pageId data) := by
  have frame : (pool.writeFrame frameId data).frames frameId =
      { pool.frames frameId with data, dirty := true } := by
    simp [BufferPool.writeFrame]
  have others : ∀ f, f ≠ frameId →
      (pool.writeFrame frameId data).frames f = pool.frames f := by
    intro f other
    simp [BufferPool.writeFrame, other]
  constructor
  case small => exact h.small
  case cached =>
    intro p f here
    obtain ⟨nonzero, inside, content⟩ := h.cached p f here
    refine ⟨nonzero, inside, ?_⟩
    by_cases same : f = frameId
    · subst same
      obtain rfl := consistent.injective here found
      rw [frame, Function.update_self]
    · have other : p ≠ pageId := by
        rintro rfl
        exact same (Option.some.inj (here.symm.trans found))
      rw [others f same, Function.update_of_ne other, content]
  case stored =>
    intro p nonzero inside clean
    have other : p ≠ pageId := by
      rintro rfl
      have contradiction := clean frameId found
      rw [frame] at contradiction
      cases contradiction
    rw [Function.update_of_ne other]
    refine h.stored p nonzero inside fun f here => ?_
    have unwritten : f ≠ frameId := by
      rintro rfl
      exact other (consistent.injective here found)
    rw [← others f unwritten]
    exact clean f here

/-- What writing frames back does to the file. -/
structure Flushed (pool : BufferPool poolSize) (store : UInt64 → Page) (disk : DiskManager) :
    Prop where
  keeps : pool.disk.Keeps disk
  shows : { pool with disk }.Shows store
  /-- what was in the file already stays there -/
  kept : ∀ p, p ≠ 0 → pool.disk.InFile p → pool.disk.read p = some (store p) →
    disk.read p = some (store p)

/-- One round of the loop. -/
theorem Shows.flushPage (h : pool.Shows store) (q : UInt64) (rest : List UInt64) : ∃ disk,
    pool.flushPages (q :: rest) = { pool with disk }.flushPages rest ∧
      Flushed pool store disk ∧
      (q ≠ 0 → pool.disk.InFile q → disk.read q = some (store q)) := by
  have unchanged : Flushed pool store pool.disk := ⟨.refl _, h, fun _ _ _ read => read⟩
  cases found : pool.pageTable q with
  | none =>
    refine ⟨pool.disk, ?_, unchanged, fun nonzero inside => ?_⟩
    · simp only [BufferPool.flushPages, found]
    · exact h.stored q nonzero inside fun f here => nomatch found.symm.trans here
  | some f =>
    obtain ⟨nonzero, inside, content⟩ := h.cached q f found
    by_cases dirty : (pool.frames f).dirty = true
    · obtain ⟨disk, write, keeps, same, other⟩ :=
        inside.writePage h.small nonzero (pool.frames f).data
      rw [content] at same
      refine ⟨disk, ?_, ⟨keeps, ?_, ?_⟩, fun _ _ => same⟩
      · simp only [BufferPool.flushPages, found, if_pos dirty, write]
        rfl
      · constructor
        case small => exact keeps.size.trans_le h.small
        case cached =>
          intro p g here
          obtain ⟨nonzero, inside, content⟩ := h.cached p g here
          exact ⟨nonzero, keeps.inFile.2 inside, content⟩
        case stored =>
          intro p nonzero_ inside_ clean
          have inside_ := keeps.inFile.1 inside_
          by_cases flushed : p = q
          · rw [flushed, same]
          · rw [other p inside_ flushed]
            exact h.stored p nonzero_ inside_ clean
      · intro p _ inside_ read
        by_cases flushed : p = q
        · rw [flushed, same]
        · rw [other p inside_ flushed, read]
    · refine ⟨pool.disk, ?_, unchanged, fun nonzero inside => ?_⟩
      · simp only [BufferPool.flushPages, found, if_neg dirty]
        rfl
      · apply h.stored q nonzero inside
        intro g here
        obtain rfl := Option.some.inj (found.symm.trans here)
        exact Bool.eq_false_of_not_eq_true dirty

/-- Flushing succeeds, and the file gets the pages that are named. -/
theorem Shows.flushPages (h : pool.Shows store) (order : List UInt64) :
    ∃ disk, pool.flushPages order = some disk ∧ Flushed pool store disk ∧
      ∀ p ∈ order, p ≠ 0 → pool.disk.InFile p → disk.read p = some (store p) := by
  induction order generalizing pool with
  | nil =>
    exact ⟨pool.disk, rfl, ⟨.refl _, h, fun _ _ _ read => read⟩, fun p member => nomatch member⟩
  | cons q rest ih =>
    obtain ⟨disk₁, round, first, flushed⟩ := h.flushPage q rest
    obtain ⟨disk, run, later, done⟩ := ih first.shows
    have inside : ∀ p, pool.disk.InFile p → disk₁.InFile p := fun p => first.keeps.inFile.2
    refine ⟨disk, round.trans run, ⟨first.keeps.trans later.keeps, later.shows, ?_⟩, ?_⟩
    · intro p nonzero here read
      exact later.kept p nonzero (inside p here) (first.kept p nonzero here read)
    · intro p member nonzero here
      rcases List.mem_cons.1 member with rfl | listed
      · exact later.kept p nonzero (inside p here) (flushed nonzero here)
      · exact done p listed nonzero (inside p here)

/-- When every page that is in a frame is named, the whole store is in the file. -/
theorem Shows.flushPages_all (h : pool.Shows store) {order : List UInt64}
    (complete : ∀ p f, pool.pageTable p = some f → p ∈ order) :
    ∃ disk, pool.flushPages order = some disk ∧ Flushed pool store disk ∧
      ∀ p, p ≠ 0 → pool.disk.InFile p → disk.read p = some (store p) := by
  obtain ⟨disk, flushes, flushed, done⟩ := h.flushPages order
  refine ⟨disk, flushes, flushed, fun p nonzero inside => ?_⟩
  cases found : pool.pageTable p with
  | some f => exact done p (complete p f found) nonzero inside
  | none =>
    apply flushed.shows.stored p nonzero (flushed.keeps.inFile.2 inside)
    intro f here
    exact nomatch found.symm.trans here

/-! ### Growing and deleting -/

/-- The store of a pool whose file has grown. -/
theorem Shows.grow (h : pool.Shows store) {disk : DiskManager}
    (grows : pool.disk.Grows disk) : { pool with disk }.Shows
      fun p => if pool.disk.InFile p then store p else Buffer.zero 4096 := by
  constructor
  case small => exact grows.small
  case cached =>
    intro p f here
    obtain ⟨nonzero, inside, content⟩ := h.cached p f here
    refine ⟨nonzero, grows.inFile inside, ?_⟩
    rw [if_pos inside]
    exact content
  case stored =>
    intro p nonzero inside clean
    by_cases old : pool.disk.InFile p
    · rw [if_pos old]
      exact (grows.read_old old).trans (h.stored p nonzero old clean)
    · rw [if_neg old]
      exact grows.read_new old inside

/-- The page that is deleted loses its frame without being written back. -/
theorem Shows.deletePage (h : pool.Shows store) {pool' : BufferPool poolSize}
    (run : pool.deletePage pageId = some (true, pool')) :
    pool'.disk = pool.disk.deallocatePage pageId ∧ pool'.Shows
      (Function.update store pageId ((pool.disk.read pageId).getD (store pageId))) := by
  rw [BufferPool.deletePage] at run
  split at run
  next => cases run
  next frameId found =>
    dsimp only at run
    split_ifs at run with shared locked
    · cases run
    · obtain ⟨-, rfl⟩ := Prod.mk.inj (Option.some.inj run)
      have frames : ∀ f, ((pool.setFrame frameId { pool.frames frameId with
          pageId := 0, pinCount := 0 }).frames f).data = (pool.frames f).data ∧
          ((pool.setFrame frameId { pool.frames frameId with
          pageId := 0, pinCount := 0 }).frames f).dirty = (pool.frames f).dirty := by
        intro f
        rw [setFrame_frames]
        split
        next same => exact same ▸ ⟨rfl, rfl⟩
        next => exact ⟨rfl, rfl⟩
      refine ⟨rfl, ?_⟩
      constructor
      case small => exact h.small
      case cached =>
        intro p f here
        have other : p ≠ pageId := by
          rintro rfl
          simp at here
        have old : pool.pageTable p = some f := by
          simpa [other] using here
        obtain ⟨nonzero, inside, content⟩ := h.cached p f old
        refine ⟨nonzero, inside, ?_⟩
        rw [Function.update_of_ne other]
        exact (frames f).1.trans content
      case stored =>
        intro p nonzero inside clean
        by_cases same : p = pageId
        · subst same
          obtain ⟨data, read⟩ := Option.ne_none_iff_exists'.1
            (DiskManager.InFile.read_isSome h.small inside)
          rw [Function.update_self, read]
          exact read
        · rw [Function.update_of_ne same]
          apply h.stored p nonzero inside
          intro f here
          rw [← (frames f).2]
          apply clean f
          simpa [same] using here

end BufferPool

/-! ### Runs -/

/-- The shared pool, and the page store that takes the same writes. -/
structure RecordedPool (T : Type) (poolSize : Nat) where
  shared : SharedPool T poolSize
  store : UInt64 → Page

namespace RecordedPool

variable {T : Type} [DecidableEq T] {poolSize : Nat}

/-- What an operation does to a page store. -/
def record (store : UInt64 → Page) : SharedPool.Op T → UInt64 → Page
  | .write _ pageId data => Function.update store pageId data
  | _ => store

def Step (r : RecordedPool T poolSize) (op : SharedPool.Op T) (r' : RecordedPool T poolSize) :
    Prop :=
  r.shared.Step op r'.shared ∧ r'.store = record r.store op

omit [DecidableEq T] in
/-- Guards are acquired on pages of the file other than the metadata page; no write fails and
no page is deleted. -/
def Allowed (r : RecordedPool T poolSize) : SharedPool.Op T → Prop
  | .fetch _ pageId => pageId ≠ 0 ∧ r.shared.pool.disk.InFile pageId
  | .load _ _ result => result = .done
  | .delete _ _ => False
  | _ => True

omit [DecidableEq T] in
/-- A new pool on a file; the store has the contents of the file. -/
def Opened (r : RecordedPool T poolSize) : Prop :=
  r.shared.Opened ∧ r.shared.pool.disk.file.size ≤ DiskManager.maxFileSize ∧
    ∀ p, r.shared.pool.disk.InFile p → r.shared.pool.disk.read p = some (r.store p)

omit [DecidableEq T] in
structure Inv (r : RecordedPool T poolSize) : Prop where
  shared : r.shared.Inv
  shows : r.shared.pool.Shows r.store
  missed : ∀ t p, r.shared.threads t = .missed p → p ≠ 0 ∧ r.shared.pool.disk.InFile p

omit [DecidableEq T] in
theorem Opened.inv {r : RecordedPool T poolSize} (opened : r.Opened) : Inv r := by
  obtain ⟨shared, small, content⟩ := opened
  obtain ⟨⟨disk, fresh⟩, idle, -⟩ := id shared
  refine ⟨shared.inv, ⟨small, ?_, fun p _ inside _ => content p inside⟩, ?_⟩
  · intro p f found
    rw [fresh] at found
    cases found
  · intro t p missed
    exact nomatch (idle t).symm.trans missed

variable {s s' : SharedPool T poolSize} {store : UInt64 → Page} {op : SharedPool.Op T}

theorem missed_goto {t u : T} {state : ThreadState poolSize} {p : UInt64}
    (elsewhere : ∀ q, state ≠ .missed q) (missed : (s.goto t state).threads u = .missed p) :
    s.threads u = .missed p := by
  by_cases same : u = t
  · subst same
    rw [SharedPool.goto_threads_self] at missed
    exact absurd missed (elsewhere p)
  · rwa [SharedPool.goto_threads_of_ne same] at missed

/-- A thread that waits for `Lock` came there by a fetch. -/
theorem missed_of_step (step : s.Step op s') {u : T} {p : UInt64}
    (missed : s'.threads u = .missed p) : s.threads u = .missed p ∨ op = .fetch u p := by
  cases step with
  | @missed t q idle _ _ =>
    by_cases same : u = t
    · subst same
      rw [SharedPool.goto_threads_self] at missed
      obtain rfl := ThreadState.missed.inj missed
      exact .inr rfl
    · rw [SharedPool.goto_threads_of_ne same] at missed
      exact .inl missed
  | unpinAbsent | deleted | notDeleted | write | flush => exact .inl missed
  | found | pinFirst | pinAgain | removed | loaded | notLoaded | loadBlocked | unpin | unpinLast
  | unpinOther | inserted | deleteBlocked => exact .inl (missed_goto (by simp) missed)

/-- Every operation of a run keeps the relation to the store. -/
theorem shows_of_step (inv : Inv ⟨s, store⟩) (allowed : Allowed ⟨s, store⟩ op)
    (step : s.Step op s') :
    s.pool.disk.Keeps s'.pool.disk ∧ s'.pool.Shows (record store op) := by
  obtain ⟨shared, shows_, waiting⟩ := inv
  have loads : ∀ {t : T} {p : UInt64} {readFails : Bool} {fetched : BufferPool.Fetched poolSize}
      {pool : BufferPool poolSize}, s.threads t = .missed p → s.Free →
      s.pool.fetchExclusive p readFails .done = (fetched, pool) →
      s.pool.disk.Keeps pool.disk ∧ pool.Shows store := by
    intro t p readFails fetched pool missed free run
    have consistent := shared.consistent
    rw [free.inSection] at consistent
    obtain ⟨nonzero, inside⟩ := waiting t p missed
    exact (shows_.fetchExclusive consistent nonzero inside run).2
  cases step with
  | found | missed | unpin | unpinAbsent => exact ⟨.refl _, shows_⟩
  | pinFirst | pinAgain | unpinLast | unpinOther =>
    exact ⟨.refl _, shows_.congr (BufferPool.addPin_sameData _)⟩
  | removed | inserted => exact ⟨.refl _, shows_.congr ⟨rfl, rfl, fun _ => rfl, fun _ => rfl⟩⟩
  | @loaded t p readFails result f pool missed free run =>
    obtain rfl := allowed
    exact loads missed free run
  | @notLoaded t p readFails result pool missed free run =>
    obtain rfl := allowed
    exact loads missed free run
  | @loadBlocked t p readFails result pool missed free run =>
    obtain rfl := allowed
    exact loads missed free run
  | deleted | notDeleted | deleteBlocked => exact allowed.elim
  | @write t p f data _ member =>
    exact ⟨.refl _, shows_.writeFrame shared.consistent (shared.held _ member) data⟩
  | @flush order disk _ run =>
    obtain ⟨disk', flushed, written, -⟩ := shows_.flushPages order
    obtain rfl := Option.some.inj (flushed.symm.trans run)
    exact ⟨written.keeps, written.shows⟩

theorem Inv.step {r r' : RecordedPool T poolSize} (inv : Inv r) (allowed : Allowed r op)
    (step : Step r op r') : Inv r' := by
  obtain ⟨taken, recorded⟩ := step
  obtain ⟨keeps, shows_⟩ := shows_of_step inv allowed taken
  refine ⟨inv.shared.step taken, recorded ▸ shows_, fun t p missed => ?_⟩
  obtain waiting | rfl := missed_of_step taken missed
  · obtain ⟨nonzero, inside⟩ := inv.missed t p waiting
    exact ⟨nonzero, keeps.inFile.2 inside⟩
  · exact ⟨allowed.1, keeps.inFile.2 allowed.2⟩

/-- A guard shows what was last written to its page, or what the file held. After `Close`,
which flushes the pages that are in frames in some order, the file holds it. -/
theorem pool_refines_pageStore {r : RecordedPool T poolSize}
    (run : Reach Step Allowed Opened r) :
    (∀ pin ∈ r.shared.pins, (r.shared.pool.frames pin.frameId).data = r.store pin.pageId) ∧
      ∀ order, (∀ p f, r.shared.pool.pageTable p = some f → p ∈ order) →
        ∃ disk, r.shared.pool.flushPages order = some disk ∧
          ∀ file, disk.close = some file → ∀ p, p ≠ 0 → r.shared.pool.disk.InFile p →
            file.read (4096 * p.toNat) 4096 = some (r.store p) := by
  have inv : Inv r := run.invariant Inv (fun _ opened => opened.inv)
    fun _ _ _ inv allowed step => inv.step allowed step
  constructor
  · intro pin member
    exact (inv.shows.cached _ _ (inv.shared.held pin member)).2.2
  · intro order complete
    obtain ⟨disk, flushes, flushed, done⟩ := inv.shows.flushPages_all complete
    refine ⟨disk, flushes, fun file closed p nonzero inside => ?_⟩
    have inside' : disk.InFile p := flushed.keeps.inFile.2 inside
    rw [inside'.read_close flushed.shows.small nonzero closed]
    exact done p nonzero inside

theorem guard_shows_first_write : ∃ r : RecordedPool Unit 1,
    r.shared.pins = [⟨(), 1, 0⟩] ∧
      (r.shared.pool.frames 0).data = Buffer.ofBytes 4096 fun _ => 7 := by
  obtain ⟨seven, named⟩ : ∃ page : Page, page = Buffer.ofBytes 4096 fun _ => 7 := ⟨_, rfl⟩
  rw [← named]
  let file : File := ⟨8192, fun _ => 0⟩
  let disk : DiskManager := ⟨file, DiskManager.newMetaData⟩
  have small : disk.file.size ≤ DiskManager.maxFileSize := by decide
  have inside : disk.InFile 1 := by
    rw [DiskManager.InFile]
    decide
  obtain ⟨data, read⟩ := Option.ne_none_iff_exists'.1 (inside.read_isSome small)
  let store : UInt64 → Page := fun p => (disk.read p).getD (Buffer.zero 4096)
  let s₀ : SharedPool Unit 1 := ⟨BufferPool.new 1 disk, fun _ => .idle, []⟩
  let s₁ := s₀.goto () (.missed 1)
  have opened : Opened ⟨s₀, store⟩ := by
    refine ⟨⟨⟨disk, rfl⟩, fun _ => rfl, rfl⟩, small, fun p here => ?_⟩
    obtain ⟨page, known⟩ := Option.ne_none_iff_exists'.1 (here.read_isSome small)
    simp only [store, s₀, BufferPool.new] at known ⊢
    rw [known]
    rfl
  let s₂ : SharedPool Unit 1 := { s₁ with
    pool := { s₁.pool with freeFrames := [] }.load 0 1 data
    pins := [⟨(), 1, 0⟩] }.goto () .idle
  let s₃ := { s₂ with pool := s₂.pool.writeFrame 0 seven }
  have reading : s₀.Readable := fun _ blocked => by cases blocked
  have missed : Step ⟨s₀, store⟩ (.fetch () 1) ⟨s₁, store⟩ := ⟨.missed rfl reading rfl, rfl⟩
  have fetched := BufferPool.fetchExclusive_free s₁.pool rfl read rfl
    (List.finRange_succ (n := 0)) .done
  have loaded : Step ⟨s₁, store⟩ (.load () false .done) ⟨s₂, store⟩ :=
    ⟨.loaded rfl (fun _ => .inr ⟨1, rfl⟩) fetched, rfl⟩
  have written : Step ⟨s₂, store⟩ (.write () 1 seven) ⟨s₃, _⟩ :=
    ⟨.write rfl (List.mem_singleton.2 rfl), rfl⟩
  have fetches : Allowed ⟨s₀, store⟩ (.fetch () 1) := ⟨by decide, inside⟩
  have loads : Allowed ⟨s₁, store⟩ (.load () false .done) := rfl
  have writes : Allowed ⟨s₂, store⟩ (.write () 1 seven) := trivial
  have shown := (pool_refines_pageStore (.next (.next (.next (.start opened) fetches missed)
    loads loaded) writes written)).1 ⟨(), 1, 0⟩ (List.mem_singleton.2 rfl)
  have last : record store (.write () 1 seven) 1 = seven := by
    simp [record]
  exact ⟨⟨s₃, _⟩, rfl, shown.trans last⟩

end RecordedPool

end CambiumDB
