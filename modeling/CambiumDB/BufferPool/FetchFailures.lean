import CambiumDB.BufferPool.Coherence
import CambiumDB.BufferPool.DiskFrame

/-!
# Fetches that fail

`fetchPage` can fail to read the wanted page, to write a victim back, or to find a victim at all.
Only the first leaves the pool as it was: a victim is off the replacer and the page table before it
is written back, and the error path does not give `frameAllocationMutex` back. With every frame
pinned the replacer is empty, and asking it for a victim panics.
-/

namespace CambiumDB

open ByteBuffer TransitionSystem

namespace DiskManager

/-- A file of `n` zero pages. -/
def blank (n : Nat) : DiskManager := ⟨⟨4096 * n, fun _ => 0⟩, newMetaData⟩

theorem blank_read {n : Nat} {pageId : UInt64} (inside : pageId.toNat < n)
    (small : 4096 * n ≤ maxFileSize) :
    (blank n).read pageId = some (Buffer.zero 4096) := by
  have within : (blank n).InFile pageId := by
    show 4096 * (pageId.toNat + 1) ≤ 4096 * n
    omega
  rw [within.read_eq small]
  apply File.read_of_bytes
  · show 4096 * pageId.toNat + 4096 ≤ 4096 * n
    omega
  · exact fun i _ => Buffer.byte_zero i

end DiskManager

namespace BufferPool

variable {poolSize : Nat} {pool pool' : BufferPool poolSize} {pageId : UInt64}
  {readFails : Bool} {result : WriteResult}

/-! ### Errors -/

/-- Everything that a failed call may not touch: all but the file. -/
structure Untouched (pool pool' : BufferPool poolSize) : Prop where
  pageTable : pool'.pageTable = pool.pageTable
  frames : pool'.frames = pool.frames
  freeFrames : pool'.freeFrames = pool.freeFrames
  replacer : pool'.replacer = pool.replacer
  mutex : pool'.allocationLocked = pool.allocationLocked

/-- A fetch that returns an error has left the pool as it was exactly if it was the read of the
wanted page that failed. -/
theorem fetch_atomic_iff (pool pool' : BufferPool poolSize) (pageId : UInt64) (readFails : Bool)
    (result : WriteResult)
    (failed : pool.fetchExclusive pageId readFails result = (.error, pool')) :
    Untouched pool pool' ↔ readFails = true ∨ pool.disk.read pageId = none := by
  cases fetchExclusive_outcome failed with
  | unread _ fails => exact iff_of_true ⟨rfl, rfl, rfl, rfl, rfl⟩ fails
  | writeFailed _ _ _ succeeds read unlocked _ =>
    apply iff_of_false
    · -- the mutex is still held
      intro same
      have locked : true = pool.allocationLocked := same.mutex
      rw [unlocked] at locked
      cases locked
    · rw [succeeds, read]
      simp

theorem fetch_atomic_of_failed_read :
    ((new 1 (.blank 3)).fetchExclusive 1 true .done).1 = .error ∧
      (new 1 (.blank 3)).Untouched ((new 1 (.blank 3)).fetchExclusive 1 true .done).2 :=
  ⟨rfl, (fetch_atomic_iff _ _ 1 true .done rfl).2 (.inl rfl)⟩

theorem pin_keeps {frameId : Fin poolSize} (pinned : pool.pin frameId = some pool') :
    pool'.pageTable = pool.pageTable ∧ pool'.freeFrames = pool.freeFrames ∧
      pool'.allocationLocked = pool.allocationLocked := by
  rw [pin] at pinned
  split at pinned
  · obtain ⟨replacer, _, rest⟩ := Option.bind_eq_some_iff.1 pinned
    cases rest
    exact ⟨rfl, rfl, rfl⟩
  · cases pinned
    exact ⟨rfl, rfl, rfl⟩

variable (pool) in
/-- The victim cannot be written back. -/
theorem fetchExclusive_unwritten {frameId : Fin poolSize} {rest : List (Fin poolSize)} {data : Page}
    (missing : pool.pageTable pageId = none) (read : pool.disk.read pageId = some data)
    (unlocked : pool.allocationLocked = false) (none_free : pool.freeFrames = [])
    (last : pool.replacer = rest ++ [frameId]) (dirty : (pool.frames frameId).dirty = true)
    {disk : DiskManager} (failed : pool.disk.write (pool.frames frameId).pageId
      (pool.frames frameId).data result = (false, disk)) :
    pool.fetchExclusive pageId false result =
      (.error, { pool.evict frameId rest with disk, allocationLocked := true }) := by
  have taken : LRUReplacer.victim pool.replacer = some (frameId, rest) := by
    simp [LRUReplacer.victim, last]
  have failed' : (pool.evict frameId rest).disk.write (pool.frames frameId).pageId
      (pool.frames frameId).data result = (false, disk) := failed
  simp [fetchExclusive, missing, read, unlocked, none_free, taken, dirty, failed']

variable (pool) in
/-- Nothing is free and nothing can be evicted. -/
theorem fetchExclusive_full {data : Page} (missing : pool.pageTable pageId = none)
    (read : pool.disk.read pageId = some data) (unlocked : pool.allocationLocked = false)
    (none_free : pool.freeFrames = []) (empty : pool.replacer = []) :
    pool.fetchExclusive pageId false result = (.panic, pool) := by
  simp [fetchExclusive, missing, read, unlocked, none_free, empty, LRUReplacer.victim]

end BufferPool

namespace SharedPool

variable {T : Type} [DecidableEq T] {poolSize : Nat} {s : SharedPool T poolSize}
  {allowed : SharedPool T poolSize → Op T → Prop}

/-! ### Calls of one thread while the others are outside -/

/-- No thread is inside the pool. -/
def Quiet (s : SharedPool T poolSize) : Prop := ∀ t, s.threads t = .idle

omit [DecidableEq T] in
theorem Quiet.readable (quiet : s.Quiet) : s.Readable := by
  intro t blocked
  rw [quiet t] at blocked
  cases blocked

theorem Quiet.goto_idle {t : T} {state : ThreadState poolSize} (quiet : s.Quiet)
    (pool : BufferPool poolSize) (pins : List (Pin T poolSize)) :
    ({ s.goto t state with pool, pins }.goto t .idle).Quiet := by
  intro u
  by_cases same : u = t
  · rw [same, goto_threads_self]
  · rw [goto_threads_of_ne same]
    exact (goto_threads_of_ne same).trans (quiet u)

theorem Quiet.free_missed {t : T} {pageId : UInt64} (quiet : s.Quiet) :
    (s.goto t (.missed pageId)).Free := by
  intro u
  by_cases same : u = t
  · rw [same, goto_threads_self]
    exact .inr ⟨pageId, rfl⟩
  · rw [goto_threads_of_ne same]
    exact .inl (quiet u)

theorem Quiet.alone {t : T} {state : ThreadState poolSize} (quiet : s.Quiet)
    (outside : state.mutex = none) (frameId : Fin poolSize) :
    ¬ (s.goto t state).InSection frameId := by
  rw [inSection_goto, outside]
  rintro (mine | ⟨u, _, inside⟩)
  · cases mine
  · rw [quiet u] at inside
    cases inside

/-- A fetch that gets a free frame. -/
theorem reach_loaded (reached : Reach Step allowed Opened s) (quiet : s.Quiet) {t : T}
    {pageId : UInt64} {frameId : Fin poolSize} {rest : List (Fin poolSize)} {data : Page}
    (missing : s.pool.pageTable pageId = none) (read : s.pool.disk.read pageId = some data)
    (unlocked : s.pool.allocationLocked = false) (frames : s.pool.freeFrames = frameId :: rest)
    (fetch : allowed s (.fetch t pageId))
    (load : allowed (s.goto t (.missed pageId)) (.load t false .done)) :
    ∃ s' : SharedPool T poolSize, Reach Step allowed Opened s' ∧ s'.Quiet ∧
      s'.pool = { s.pool with freeFrames := rest }.load frameId pageId data ∧
      s'.pins = ⟨t, pageId, frameId⟩ :: s.pins := by
  have missed : Step s (.fetch t pageId) (s.goto t (.missed pageId)) :=
    .missed (quiet t) quiet.readable missing
  have loaded := Step.loaded (s := s.goto t (.missed pageId)) goto_threads_self quiet.free_missed
    (BufferPool.fetchExclusive_free s.pool missing read unlocked frames .done)
  exact ⟨_, .next (.next reached fetch missed) load loaded, quiet.goto_idle _ _, rfl, rfl⟩

/-- A fetch of a page that is pinned already. -/
theorem reach_pinnedAgain (reached : Reach Step allowed Opened s) (quiet : s.Quiet) {t : T}
    {pageId : UInt64} {frameId : Fin poolSize} (found : s.pool.pageTable pageId = some frameId)
    (pinned : 0 < (s.pool.frames frameId).pinCount) (fetch : allowed s (.fetch t pageId))
    (proceed : ∀ s', allowed s' (.proceed t)) :
    ∃ s' : SharedPool T poolSize, Reach Step allowed Opened s' ∧ s'.Quiet ∧
      s'.pool = s.pool.addPin frameId 1 ∧ s'.pins = ⟨t, pageId, frameId⟩ :: s.pins := by
  have found' : Step s (.fetch t pageId) (s.goto t (.pinning pageId frameId)) :=
    .found (quiet t) quiet.readable found
  have again : ((s.pool.addPin frameId 1).frames frameId).pinCount ≠ 1 := by
    rw [BufferPool.addPin_pinCount]
    omega
  have pinAgain := Step.pinAgain (s := s.goto t (.pinning pageId frameId)) goto_threads_self
    (quiet.alone rfl frameId) again
  exact ⟨_, .next (.next reached fetch found') (proceed _) pinAgain, quiet.goto_idle _ _, rfl, rfl⟩

/-- The last unpin of a page: its frame can be evicted. -/
theorem reach_unpinned (reached : Reach Step allowed Opened s) (quiet : s.Quiet) {t : T}
    {pageId : UInt64} {frameId : Fin poolSize} (held : ⟨t, pageId, frameId⟩ ∈ s.pins)
    (found : s.pool.pageTable pageId = some frameId)
    (single : (s.pool.frames frameId).pinCount = 1) (unpin : allowed s (.unpin t pageId))
    (proceed : ∀ s', allowed s' (.proceed t)) :
    ∃ s' : SharedPool T poolSize, Reach Step allowed Opened s' ∧ s'.Quiet ∧
      s'.pool = { s.pool.addPin frameId (-1) with
        replacer := LRUReplacer.insert s.pool.replacer frameId } := by
  have entered : Step s (.unpin t pageId) (s.goto t (.unpinning pageId frameId)) :=
    .unpin (quiet t) quiet.readable held found
  have last : ((s.pool.addPin frameId (-1)).frames frameId).pinCount = 0 := by
    rw [BufferPool.addPin_pinCount]
    omega
  have unpinLast := Step.unpinLast (s := s.goto t (.unpinning pageId frameId)) goto_threads_self
    (quiet.alone rfl frameId) last
  have inserted := Step.inserted (s := { s.goto t (.unpinning pageId frameId) with
      pool := s.pool.addPin frameId (-1)
      pins := s.pins.erase ⟨t, pageId, frameId⟩ }.goto t (.inserting pageId frameId))
    goto_threads_self
  refine ⟨_, .next (.next (.next reached unpin entered) (proceed _) unpinLast) (proceed _) inserted,
    ?_, rfl⟩
  intro u
  by_cases same : u = t
  · rw [same, goto_threads_self]
  · rw [goto_threads_of_ne same]
    refine (goto_threads_of_ne same).trans ?_
    exact (goto_threads_of_ne same).trans (quiet u)

/-! ### A victim that cannot be written -/

omit [DecidableEq T] in
theorem opened_new (disk : DiskManager) :
    Opened (⟨BufferPool.new poolSize disk, fun _ => .idle, []⟩ : SharedPool T poolSize) :=
  ⟨⟨disk, rfl⟩, fun _ => rfl, rfl⟩

/-- Page 1 is written in the only frame and unpinned. The fetch of page 2 fails to write it back
and returns with the mutex locked. -/
theorem failed_writeBack_touches_pool :
    ¬ ∀ (s : SharedPool Unit 1) (pageId : UInt64) (readFails : Bool) (result : WriteResult)
      (pool' : BufferPool 1), Reach Step (fun _ _ => True) Opened s →
      s.threads () = .missed pageId → s.Free →
      s.pool.fetchExclusive pageId readFails result = (.error, pool') →
      s.pool.Untouched pool' := by
  intro atomic
  obtain ⟨first, read₁⟩ : ∃ data, (DiskManager.blank 3).read 1 = some data :=
    ⟨_, DiskManager.blank_read (by decide) (by decide)⟩
  obtain ⟨second, read₂⟩ : ∃ data, (DiskManager.blank 3).read 2 = some data :=
    ⟨_, DiskManager.blank_read (by decide) (by decide)⟩
  have frames : (BufferPool.new 1 (.blank 3)).freeFrames = [0] := rfl
  have start : Reach Step (fun _ _ => True) Opened
      (⟨BufferPool.new 1 (.blank 3), fun _ => .idle, []⟩ : SharedPool Unit 1) :=
    .start (opened_new _)
  obtain ⟨s₁, reached₁, quiet₁, pool₁, pins₁⟩ := reach_loaded (t := ()) start
    (fun _ => rfl) rfl read₁ rfl frames trivial trivial
  have held : (⟨(), 1, 0⟩ : Pin Unit 1) ∈ s₁.pins := by
    rw [pins₁]
    exact List.mem_cons_self
  have write : Step s₁ (.write () 1 first) { s₁ with pool := s₁.pool.writeFrame 0 first } :=
    .write (quiet₁ ()) held
  obtain ⟨s₂, reached₂, quiet₂, pool₂⟩ := reach_unpinned (t := ()) (.next reached₁ trivial write)
    quiet₁ held (by rw [pool₁]; rfl) (by rw [pool₁]; rfl) trivial (fun _ => trivial)
  rw [pool₁] at pool₂
  have missing : s₂.pool.pageTable 2 = none := by rw [pool₂]; rfl
  have last : s₂.pool.replacer = [] ++ [0] := by rw [pool₂]; rfl
  have missed : Step s₂ (.fetch () 2) (s₂.goto () (.missed 2)) :=
    .missed (quiet₂ ()) quiet₂.readable missing
  obtain ⟨disk, failed⟩ : ∃ disk, s₂.pool.disk.write (s₂.pool.frames 0).pageId
      (s₂.pool.frames 0).data (.failed 0) = (false, disk) := ⟨_, by rw [pool₂]; rfl⟩
  have run := BufferPool.fetchExclusive_unwritten s₂.pool missing (by rw [pool₂]; exact read₂)
    (by rw [pool₂]; rfl) (by rw [pool₂]; rfl) last (by rw [pool₂]; rfl) failed
  have same := atomic _ 2 false (.failed 0) _ (.next reached₂ trivial missed) goto_threads_self
    quiet₂.free_missed run
  have locked : true = s₂.pool.allocationLocked := same.mutex
  rw [pool₂] at locked
  cases locked

/-! ### Running out of frames -/

/-- Unless the mutex was left locked, no frame is lost: each is free or holds a page. -/
def Covered (pool : BufferPool poolSize) : Prop :=
  pool.allocationLocked = false → ∀ f, f ∈ pool.freeFrames ∨ ∃ p, pool.pageTable p = some f

theorem covered_new (disk : DiskManager) : Covered (BufferPool.new poolSize disk) :=
  fun _ f => .inl (List.mem_finRange f)

/-- Calls that only change pin counts, the replacer, page data or the file. -/
theorem Covered.congr {pool pool' : BufferPool poolSize} (h : Covered pool)
    (table : pool'.pageTable = pool.pageTable) (free : pool'.freeFrames = pool.freeFrames)
    (mutex : pool'.allocationLocked = pool.allocationLocked) : Covered pool' := by
  intro unlocked f
  rw [table, free]
  exact h (mutex ▸ unlocked) f

theorem Covered.fetchExclusive {pool pool' : BufferPool poolSize} (h : Covered pool)
    {pinsOf : UInt64 → Nat} (consistent : pool.Consistent pinsOf fun _ => False) {pageId : UInt64}
    {readFails : Bool} {result : WriteResult} {fetched : BufferPool.Fetched poolSize}
    (run : pool.fetchExclusive pageId readFails result = (fetched, pool')) : Covered pool' := by
  cases BufferPool.fetchExclusive_outcome run with
  | present _ pinned =>
    obtain ⟨table, free, mutex⟩ := BufferPool.pin_keeps pinned
    exact h.congr table free mutex
  | unlisted => exact h
  | unread => exact h
  | blocked => exact h
  | noVictim => exact h
  | @free frameId rest data missing _ _ frames unlocked =>
    intro _ f
    by_cases same : f = frameId
    · exact .inr ⟨pageId, by simp [same]⟩
    · rcases h unlocked f with listed | ⟨p, found⟩
      · rw [frames] at listed
        exact .inl ((List.mem_cons.1 listed).resolve_left same)
      · have other : p ≠ pageId := by
          rintro rfl
          exact nomatch missing.symm.trans found
        exact .inr ⟨p, by simp [other, found]⟩
  | @evicted frameId rest data disk missing _ _ none_free last _ unlocked =>
    intro _ f
    by_cases same : f = frameId
    · exact .inr ⟨pageId, by simp [same]⟩
    · rcases h unlocked f with listed | ⟨p, found⟩
      · rw [none_free] at listed
        cases listed
      · have other : p ≠ pageId := by
          rintro rfl
          exact nomatch missing.symm.trans found
        have kept : p ≠ (pool.frames frameId).pageId := by
          rintro rfl
          exact same (Option.some.inj (found.symm.trans (consistent.victim last).1))
        exact .inr ⟨p, by simp [other, kept, found]⟩
  | writeFailed =>
    intro unlocked
    cases unlocked

theorem Covered.deletePage {pool pool' : BufferPool poolSize} (h : Covered pool) {pageId : UInt64}
    {answer : Bool} (run : pool.deletePage pageId = some (answer, pool')) : Covered pool' := by
  rw [BufferPool.deletePage] at run
  split at run
  · cases run
    exact h
  next frameId found =>
    dsimp only at run
    split at run
    · cases run
      exact h
    · split at run
      · cases run
      · cases run
        intro unlocked f
        by_cases same : f = frameId
        · exact .inl (by simp [same])
        · rcases h unlocked f with listed | ⟨p, here⟩
          · exact .inl (by simp [listed])
          · have other : p ≠ pageId := by
              rintro rfl
              exact same (Option.some.inj (here.symm.trans found))
            exact .inr ⟨p, by simp [other, here]⟩

theorem Covered.step {s' : SharedPool T poolSize} {op : Op T} (h : Covered s.pool) (inv : Inv s)
    (step : Step s op s') : Covered s'.pool := by
  cases step with
  | found => exact h
  | missed => exact h
  | pinFirst => exact h.congr rfl rfl rfl
  | pinAgain => exact h.congr rfl rfl rfl
  | removed => exact h.congr rfl rfl rfl
  | loaded _ free run =>
    have consistent := inv.consistent
    rw [free.inSection] at consistent
    exact h.fetchExclusive consistent run
  | notLoaded _ free run =>
    have consistent := inv.consistent
    rw [free.inSection] at consistent
    exact h.fetchExclusive consistent run
  | loadBlocked _ free run =>
    have consistent := inv.consistent
    rw [free.inSection] at consistent
    exact h.fetchExclusive consistent run
  | unpin => exact h
  | unpinAbsent => exact h
  | unpinLast => exact h.congr rfl rfl rfl
  | unpinOther => exact h.congr rfl rfl rfl
  | inserted => exact h.congr rfl rfl rfl
  | deleted _ _ _ run => exact h.deletePage run
  | notDeleted _ _ _ run => exact h.deletePage run
  | deleteBlocked => exact h
  | write => exact h.congr rfl rfl rfl
  | flush => exact h.congr rfl rfl rfl

theorem inv_covered_of_run (run : Reach Step allowed Opened s) : Inv s ∧ Covered s.pool := by
  refine run.invariant (fun s => Inv s ∧ Covered s.pool) ?_ ?_
  · intro s opened
    obtain ⟨disk, fresh⟩ := opened.1
    refine ⟨opened.inv, ?_⟩
    rw [fresh]
    exact covered_new disk
  · rintro s op s' ⟨inv, covered⟩ _ step
    exact ⟨inv.step step, covered.step inv step⟩

/-- Somebody has a page of this frame pinned. -/
def Pinned (s : SharedPool T poolSize) (f : Fin poolSize) : Prop := ∃ pin ∈ s.pins, pin.frameId = f

omit [DecidableEq T] in
/-- Nothing is free and nothing can be evicted exactly if every frame is pinned. -/
theorem full_iff_pinned (inv : Inv s) (covered : Covered s.pool) (free : s.Free)
    (unlocked : s.pool.allocationLocked = false) :
    s.pool.freeFrames = [] ∧ s.pool.replacer = [] ↔ ∀ f, s.Pinned f := by
  have consistent := inv.consistent
  rw [free.inSection] at consistent
  constructor
  · rintro ⟨none_free, empty⟩ f
    rcases covered unlocked f with listed | ⟨p, found⟩
    · rw [none_free] at listed
      cases listed
    · -- the frame is not on the replacer, so its page is pinned
      have count := consistent.pinCount p f found
      have counted : (s.pool.frames f).pinCount ≠ 0 := by
        intro unpinned
        have member := (consistent.replacer p f found not_false).2 unpinned
        rw [empty] at member
        cases member
      have positive : 0 < s.pins.countP fun pin => pin.pageId == p := by
        have same : s.pinsOf p = s.pins.countP fun pin => pin.pageId == p := rfl
        omega
      obtain ⟨pin, member, here⟩ := List.countP_pos_iff.1 positive
      rw [beq_iff_eq] at here
      have mapped := inv.held pin member
      rw [here, found] at mapped
      exact ⟨pin, member, (Option.some.inj mapped).symm⟩
  · intro pinned
    constructor
    · apply List.eq_nil_iff_forall_not_mem.2
      intro f listed
      obtain ⟨pin, member, rfl⟩ := pinned f
      exact consistent.free _ listed _ (inv.held pin member)
    · apply List.eq_nil_iff_forall_not_mem.2
      intro f listed
      obtain ⟨pin, member, rfl⟩ := pinned f
      have found := inv.held pin member
      have unpinned := (consistent.replacer _ _ found not_false).1 listed
      have count := consistent.pinCount _ _ found
      have held : s.pinsOf pin.pageId ≠ 0 := pinsOf_ne_zero member
      omega

/-- The call returned: with a frame that holds the page, or with an error. -/
def Answers (pageId : UInt64) : BufferPool.Fetched poolSize × BufferPool poolSize → Prop
  | (.page f, pool) => pool.pageTable pageId = some f ∧ (pool.frames f).pageId = pageId
  | (.error, _) => True
  | (.blocked, _) => False
  | (.panic, _) => False

/-- In every run, a fetch of a page that is not in memory and can be read returns exactly if the
mutex was not left locked and some frame is not pinned. -/
theorem fetch_answers_iff (run : Reach Step (fun _ _ => True) Opened s) (free : s.Free)
    (pageId : UInt64) (readFails : Bool) (result : WriteResult) :
    Answers pageId (s.pool.fetchExclusive pageId readFails result) ↔
      s.pool.pageTable pageId ≠ none ∨ readFails = true ∨ s.pool.disk.read pageId = none ∨
        s.pool.allocationLocked = false ∧ ∃ f, ¬ s.Pinned f := by
  obtain ⟨inv, covered⟩ := inv_covered_of_run run
  have full := full_iff_pinned inv covered free
  have consistent := inv.consistent
  rw [free.inSection] at consistent
  cases done : s.pool.fetchExclusive pageId readFails result with
  | mk fetched pool' =>
    have holds : ∀ f, fetched = .page f → Answers pageId (fetched, pool') := by
      rintro f rfl
      cases consistent.fetchExclusive done with
      | page loaded table _ => exact ⟨table, loaded.mapped _ _ table⟩
    -- a frame that is free or on the replacer is not pinned
    have spare (unlocked : s.pool.allocationLocked = false)
        (some_ : s.pool.freeFrames ≠ [] ∨ s.pool.replacer ≠ []) : ∃ f, ¬ s.Pinned f := by
      by_contra none_spare
      obtain ⟨none_free, empty⟩ := (full unlocked).2 (by simpa using none_spare)
      rcases some_ with listed | listed
      · exact listed none_free
      · exact listed empty
    cases BufferPool.fetchExclusive_outcome done with
    | present found => exact iff_of_true (holds _ rfl) (.inl (by simp [found]))
    | unlisted found unlisted =>
      obtain ⟨pool₁, pinned, _⟩ := consistent.pin found
      exact nomatch unlisted.symm.trans pinned
    | unread _ fails => exact iff_of_true trivial (.inr (fails.imp_right .inl))
    | blocked missing locked succeeds read =>
      exact iff_of_false id (by simp [missing, locked, succeeds, read])
    | free missing succeeds read frames unlocked =>
      exact iff_of_true (holds _ rfl)
        (.inr (.inr (.inr ⟨unlocked, spare unlocked (.inl (by simp [frames]))⟩)))
    | noVictim missing none_free empty succeeds read unlocked =>
      have pinned := (full unlocked).1 ⟨none_free, empty⟩
      exact iff_of_false id (by simp [missing, succeeds, read, pinned])
    | evicted missing succeeds read none_free last _ unlocked =>
      exact iff_of_true (holds _ rfl)
        (.inr (.inr (.inr ⟨unlocked, spare unlocked (.inr (by simp [last]))⟩)))
    | writeFailed missing last failed succeeds read unlocked none_free =>
      exact iff_of_true trivial
        (.inr (.inr (.inr ⟨unlocked, spare unlocked (.inr (by simp [last]))⟩)))

theorem fetch_answers_from_new_pool :
    Opened (⟨.new 1 (.blank 3), fun _ => .idle, []⟩ : SharedPool Unit 1) ∧
      Answers 1 ((BufferPool.new 1 (.blank 3)).fetchExclusive 1 false .done) := by
  have opened : Opened (⟨.new 1 (.blank 3), fun _ => .idle, []⟩ : SharedPool Unit 1) := opened_new _
  have unpinned : ∃ f, ¬ (⟨.new 1 (.blank 3), fun _ => .idle, []⟩ : SharedPool Unit 1).Pinned f :=
    ⟨0, by simp [Pinned]⟩
  exact ⟨opened, (fetch_answers_iff (.start opened) (fun _ => by simp) 1 false .done).2
    (.inr (.inr (.inr ⟨rfl, unpinned⟩)))⟩

/-! ### Clients that walk down a tree -/

/-- The pages that a thread has pinned, the first one first. -/
def pathOf (s : SharedPool T poolSize) (t : T) : List UInt64 :=
  ((s.pins.filter fun pin => pin.thread = t).map Pin.pageId).reverse

/-- Every thread walks down its path and pins each page until it has come back from below, and no
call of the disk fails. -/
def Descends (path : T → List UInt64) (s : SharedPool T poolSize) : Op T → Prop
  | .fetch t pageId => s.pathOf t ++ [pageId] <+: path t
  | .load _ readFails result => readFails = false ∧ result = .done
  | .unpin t pageId => ∃ above, s.pathOf t = above ++ [pageId]
  | .proceed _ => True
  | .delete .. | .write .. | .flush .. => False

theorem pathOf_cons {s' : SharedPool T poolSize} {t : T} {pageId : UInt64} {frameId : Fin poolSize}
    (pins : s'.pins = ⟨t, pageId, frameId⟩ :: s.pins) (u : T) :
    s'.pathOf u = if u = t then s.pathOf t ++ [pageId] else s.pathOf u := by
  rw [pathOf, pins]
  split
  next same => simp [same, pathOf]
  next other => simp [Ne.symm other, pathOf]

section
variable {root : UInt64} {leaf : T → UInt64} {disk : DiskManager}

/-- Threads on their way from a root to their leaves: `rooted` have the root pinned, `leafed` their
leaf as well, and `spare` frames are left. -/
structure Walking (root : UInt64) (leaf : T → UInt64) (disk : DiskManager)
    (s : SharedPool T poolSize) (rooted leafed : List T) (spare : Nat) : Prop where
  reached : Reach Step (Descends fun t => [root, leaf t]) Opened s
  quiet : s.Quiet
  unlocked : s.pool.allocationLocked = false
  replacer : s.pool.replacer = []
  onDisk : s.pool.disk = disk
  free : s.pool.freeFrames.length = spare
  rootPinned : ∃ f, s.pool.pageTable root = some f ∧ 0 < (s.pool.frames f).pinCount
  absent : ∀ t, t ∉ leafed → s.pool.pageTable (leaf t) = none
  path : ∀ t, s.pathOf t = (if t ∈ rooted then [root] else []) ++ if t ∈ leafed then [leaf t] else []

theorem Walking.pinRoot {rooted : List T} {spare : Nat}
    (h : Walking root leaf disk s rooted [] spare) {t : T} (new : t ∉ rooted) :
    ∃ s' : SharedPool T poolSize, Walking root leaf disk s' (t :: rooted) [] spare := by
  obtain ⟨f, found, pinned⟩ := h.rootPinned
  have start : s.pathOf t = [] := by simp [h.path t, new]
  have fetch : Descends (fun t => [root, leaf t]) s (.fetch t root) := by
    simp [Descends, start]
  obtain ⟨s', reached, quiet, pool, pins⟩ := reach_pinnedAgain h.reached h.quiet found pinned fetch
    fun _ => trivial
  refine ⟨s', reached, quiet, ?_, ?_, ?_, ?_, ?_, ?_, ?_⟩
  · rw [pool]
    exact h.unlocked
  · rw [pool]
    exact h.replacer
  · rw [pool]
    exact h.onDisk
  · rw [pool]
    exact h.free
  · refine ⟨f, by rw [pool]; exact found, ?_⟩
    rw [pool, BufferPool.addPin_pinCount]
    omega
  · rw [pool]
    exact h.absent
  · intro u
    rw [pathOf_cons pins, start, h.path u]
    by_cases same : u = t
    · simp [same]
    · simp [same]

theorem Walking.loadLeaf {rooted leafed : List T} {spare : Nat}
    (h : Walking root leaf disk s rooted leafed (spare + 1)) (distinct : Function.Injective leaf)
    (below : ∀ t, leaf t ≠ root) (readable : ∀ t, ∃ data, disk.read (leaf t) = some data) {t : T}
    (ready : t ∈ rooted) (new : t ∉ leafed) :
    ∃ s' : SharedPool T poolSize, Walking root leaf disk s' rooted (t :: leafed) spare := by
  obtain ⟨f, found, pinned⟩ := h.rootPinned
  obtain ⟨g, rest, frames⟩ := List.exists_cons_of_length_eq_add_one h.free
  obtain ⟨data, read⟩ := readable t
  have here : s.pathOf t = [root] := by simp [h.path t, ready, new]
  have fetch : Descends (fun t => [root, leaf t]) s (.fetch t (leaf t)) := by
    simp [Descends, here]
  obtain ⟨s', reached, quiet, pool, pins⟩ := reach_loaded h.reached h.quiet (h.absent t new)
    (h.onDisk.symm ▸ read) h.unlocked frames fetch ⟨rfl, rfl⟩
  -- the root keeps its frame, which is not free
  have apart : f ≠ g := by
    rintro rfl
    have consistent := (inv_covered_of_run h.reached).1.consistent
    exact consistent.free f (frames ▸ List.mem_cons_self) root found
  refine ⟨s', reached, quiet, ?_, ?_, ?_, ?_, ?_, ?_, ?_⟩
  · rw [pool]
    exact h.unlocked
  · rw [pool]
    exact h.replacer
  · rw [pool]
    exact h.onDisk
  · have count := h.free
    rw [frames, List.length_cons] at count
    rw [pool]
    exact Nat.succ.inj count
  · refine ⟨f, ?_, ?_⟩
    · rw [pool, BufferPool.load_pageTable, Function.update_of_ne (below t).symm]
      exact found
    · rw [pool]
      simpa [BufferPool.load, apart] using pinned
  · intro u outside
    rw [List.mem_cons, not_or] at outside
    rw [pool, BufferPool.load_pageTable, Function.update_of_ne (distinct.ne outside.1)]
    exact h.absent u outside.2
  · intro u
    rw [pathOf_cons pins, here, h.path u]
    by_cases same : u = t
    · simp [same, ready]
    · simp [same]

theorem Walking.pinRoots {rooted : List T} {spare : Nat} (ts : List T) (nodup : ts.Nodup)
    (new : ∀ t ∈ ts, t ∉ rooted) (h : Walking root leaf disk s rooted [] spare) :
    ∃ (s' : SharedPool T poolSize) (rooted' : List T), Walking root leaf disk s' rooted' [] spare ∧
      rooted ⊆ rooted' ∧ ts ⊆ rooted' := by
  induction ts generalizing s rooted with
  | nil => exact ⟨s, rooted, h, List.Subset.refl _, List.nil_subset _⟩
  | cons t rest ih =>
    obtain ⟨outside, nodup⟩ := List.nodup_cons.1 nodup
    obtain ⟨s₁, h₁⟩ := h.pinRoot (new t List.mem_cons_self)
    have later : ∀ u ∈ rest, u ∉ t :: rooted := by
      intro u member inside
      rcases List.mem_cons.1 inside with rfl | old
      · exact outside member
      · exact new u (List.mem_cons_of_mem _ member) old
    obtain ⟨s', rooted', walking, old, added⟩ := ih nodup later h₁
    refine ⟨s', rooted', walking, fun u member => old (List.mem_cons_of_mem _ member), ?_⟩
    exact List.cons_subset.2 ⟨old List.mem_cons_self, added⟩

theorem Walking.loadLeaves (distinct : Function.Injective leaf) (below : ∀ t, leaf t ≠ root)
    (readable : ∀ t, ∃ data, disk.read (leaf t) = some data) {rooted leafed : List T}
    {spare : Nat} (ts : List T) (nodup : ts.Nodup) (new : ∀ t ∈ ts, t ∉ leafed) (ready : ts ⊆ rooted)
    (h : Walking root leaf disk s rooted leafed (spare + ts.length)) :
    ∃ (s' : SharedPool T poolSize) (leafed' : List T),
      Walking root leaf disk s' rooted leafed' spare ∧ ∀ t ∈ leafed', t ∈ leafed ∨ t ∈ ts := by
  induction ts generalizing s leafed with
  | nil => exact ⟨s, leafed, h, fun t member => .inl member⟩
  | cons t rest ih =>
    obtain ⟨outside, nodup⟩ := List.nodup_cons.1 nodup
    have one : Walking root leaf disk s rooted leafed (spare + rest.length + 1) := h
    obtain ⟨s₁, h₁⟩ := one.loadLeaf distinct below readable
      (ready List.mem_cons_self) (new t List.mem_cons_self)
    have later : ∀ u ∈ rest, u ∉ t :: leafed := by
      intro u member inside
      rcases List.mem_cons.1 inside with rfl | old
      · exact outside member
      · exact new u (List.mem_cons_of_mem _ member) old
    obtain ⟨s', leafed', walking, only⟩ := ih nodup later (List.cons_subset.1 ready).2 h₁
    refine ⟨s', leafed', walking, fun u member => ?_⟩
    rcases only u member with old | added
    · rcases List.mem_cons.1 old with rfl | older
      · exact .inr List.mem_cons_self
      · exact .inl older
    · exact .inr (List.mem_cons_of_mem _ added)

end

/-- As many clients as frames, each on its way from the root to a leaf of its own: all of them hold
the root, all but one hold their leaf, and the fetch of the last leaf finds no victim. -/
theorem clients_exhaust_pool {n : Nat} {root : UInt64} {leaf : Fin (n + 1) → UInt64}
    {disk : DiskManager} (distinct : Function.Injective leaf) (below : ∀ t, leaf t ≠ root)
    (rootReadable : ∃ data, disk.read root = some data)
    (readable : ∀ t, ∃ data, disk.read (leaf t) = some data) :
    ∃ s : SharedPool (Fin (n + 1)) (n + 1), Reach Step (Descends fun t => [root, leaf t]) Opened s ∧
      s.pool.disk = disk ∧ s.Free ∧ s.threads (Fin.last n) = .missed (leaf (Fin.last n)) ∧
      s.pool.fetchExclusive (leaf (Fin.last n)) false .done = (.panic, s.pool) := by
  obtain ⟨data, read⟩ := rootReadable
  have start : Reach Step (Descends fun t => [root, leaf t]) Opened
      (⟨BufferPool.new (n + 1) disk, fun _ => .idle, []⟩ : SharedPool (Fin (n + 1)) (n + 1)) :=
    .start (opened_new _)
  have fetch : Descends (fun t => [root, leaf t])
      (⟨BufferPool.new (n + 1) disk, fun _ => .idle, []⟩ : SharedPool (Fin (n + 1)) (n + 1))
      (.fetch 0 root) := by
    simp [Descends, pathOf]
  obtain ⟨s₁, reached₁, quiet₁, pool₁, pins₁⟩ := reach_loaded start (fun _ => rfl) rfl read rfl
    List.finRange_succ fetch ⟨rfl, rfl⟩
  have one : Walking root leaf disk s₁ [0] [] n := by
    refine ⟨reached₁, quiet₁, ?_, ?_, ?_, ?_, ?_, ?_, ?_⟩
    · rw [pool₁]; rfl
    · rw [pool₁]; rfl
    · rw [pool₁]; rfl
    · rw [pool₁]
      simp [BufferPool.load, BufferPool.setFrame]
    · exact ⟨0, by rw [pool₁]; simp, by rw [pool₁]; simp [BufferPool.load]⟩
    · intro t _
      rw [pool₁, BufferPool.load_pageTable, Function.update_of_ne (below t)]
      rfl
    · intro t
      rw [pathOf_cons pins₁]
      by_cases same : t = 0
      · simp [same, pathOf]
      · simp [same, pathOf]
  obtain ⟨s₂, rooted, two, old, added⟩ := one.pinRoots ((List.finRange n).map Fin.succ)
    ((List.nodup_finRange n).map fun a b => Fin.succ_inj.1) (by simp [Fin.succ_ne_zero])
  have all : ∀ t, t ∈ rooted := by
    intro t
    refine Fin.cases (old List.mem_cons_self) (fun i => added ?_) t
    exact List.mem_map.2 ⟨i, List.mem_finRange i, rfl⟩
  have many : Walking root leaf disk s₂ rooted []
      (0 + ((List.finRange n).map Fin.castSucc).length) := by
    rw [List.length_map, List.length_finRange, Nat.zero_add]
    exact two
  obtain ⟨s, leafed, full, only⟩ := many.loadLeaves distinct below readable _
    ((List.nodup_finRange n).map fun a b => Fin.castSucc_inj.1) (by simp) (fun t _ => all t)
  have left : Fin.last n ∉ leafed := by
    intro inside
    rcases only _ inside with none_ | member
    · cases none_
    · obtain ⟨i, _, same⟩ := List.mem_map.1 member
      exact Fin.ne_of_lt (Fin.castSucc_lt_last i) same
  have missing := full.absent _ left
  have here : s.pathOf (Fin.last n) = [root] := by simp [full.path, all, left]
  have fetch' : Descends (fun t => [root, leaf t]) s (.fetch (Fin.last n) (leaf (Fin.last n))) := by
    simp [Descends, here]
  have missed : Step s (.fetch (Fin.last n) (leaf (Fin.last n)))
      (s.goto (Fin.last n) (.missed (leaf (Fin.last n)))) :=
    .missed (full.quiet _) full.quiet.readable missing
  obtain ⟨data', read'⟩ := readable (Fin.last n)
  refine ⟨_, .next full.reached fetch' missed, full.onDisk, full.quiet.free_missed, goto_threads_self, ?_⟩
  exact BufferPool.fetchExclusive_full s.pool missing (full.onDisk.symm ▸ read') full.unlocked
    (List.length_eq_zero_iff.1 full.free) full.replacer

end SharedPool

end CambiumDB
