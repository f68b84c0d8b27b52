import Mathlib.Data.List.Count
import CambiumDB.BufferPool.Consistency
import CambiumDB.Lib.Reach

/-!
# Threads that share the buffer pool

Every call is cut where another thread can run in between. A fetch looks the page up under
`lookupMutex.RLock`, pins the frame under its `pinCountMutex` and takes it off the replacer
before it gives the mutex back; a page that is not found is loaded under `lookupMutex.Lock`,
after a gap in which nothing is held. An unpin goes the same way in reverse. What runs under
`lookupMutex.Lock` is one step, since no other thread is inside the pool meanwhile.

The locks are not part of the state: who holds them follows from where the threads are.
-/

namespace CambiumDB

open TransitionSystem

/-- Where a thread is. -/
inductive ThreadState (poolSize : Nat) where
  | idle
  /-- found the page under `RLock` -/
  | pinning (pageId : UInt64) (frameId : Fin poolSize)
  /-- made the pin count 1, under `RLock` and the frame's `pinCountMutex` -/
  | removing (pageId : UInt64) (frameId : Fin poolSize)
  /-- did not find the page and waits for `Lock` -/
  | missed (pageId : UInt64)
  /-- looked its page up under `RLock`, to unpin it -/
  | unpinning (pageId : UInt64) (frameId : Fin poolSize)
  /-- made the pin count 0, under `RLock` and the frame's `pinCountMutex` -/
  | inserting (pageId : UInt64) (frameId : Fin poolSize)
  /-- holds `Lock` and waits for `frameAllocationMutex` for ever -/
  | blocked

/-- The frame whose `pinCountMutex` the thread holds. -/
def ThreadState.mutex {poolSize : Nat} : ThreadState poolSize → Option (Fin poolSize)
  | .removing _ frameId | .inserting _ frameId => some frameId
  | _ => none

/-- A fetch that was not unpinned yet: who made it, of which page, and the frame it got. -/
structure Pin (T : Type) (poolSize : Nat) where
  thread : T
  pageId : UInt64
  frameId : Fin poolSize
  deriving DecidableEq

structure SharedPool (T : Type) (poolSize : Nat) where
  pool : BufferPool poolSize
  threads : T → ThreadState poolSize
  pins : List (Pin T poolSize)

namespace SharedPool

variable {T : Type} [DecidableEq T] {poolSize : Nat}

def goto (s : SharedPool T poolSize) (t : T) (state : ThreadState poolSize) :
    SharedPool T poolSize :=
  { s with threads := Function.update s.threads t state }

omit [DecidableEq T] in
/-- Nobody holds `lookupMutex.Lock`. -/
def Readable (s : SharedPool T poolSize) : Prop := ∀ t, s.threads t ≠ .blocked

omit [DecidableEq T] in
/-- Nobody holds `lookupMutex` in either mode. -/
def Free (s : SharedPool T poolSize) : Prop :=
  ∀ t, s.threads t = .idle ∨ ∃ pageId, s.threads t = .missed pageId

omit [DecidableEq T] in
/-- Some thread holds the frame's `pinCountMutex`. -/
def InSection (s : SharedPool T poolSize) (frameId : Fin poolSize) : Prop :=
  ∃ t, (s.threads t).mutex = some frameId

inductive Op (T : Type) where
  | fetch (t : T) (pageId : UInt64)
  | load (t : T) (readFails : Bool) (result : WriteResult)
  | unpin (t : T) (pageId : UInt64)
  | delete (t : T) (pageId : UInt64)
  | write (t : T) (pageId : UInt64) (data : Page)
  | flush (order : List UInt64)
  | proceed (t : T)

inductive Step : SharedPool T poolSize → Op T → SharedPool T poolSize → Prop
  -- `fetchPage`, fast path
  | found {s : SharedPool T poolSize} {t : T} {pageId : UInt64} {frameId : Fin poolSize} :
      s.threads t = .idle → s.Readable → s.pool.pageTable pageId = some frameId →
      Step s (.fetch t pageId) (s.goto t (.pinning pageId frameId))
  | missed {s : SharedPool T poolSize} {t : T} {pageId : UInt64} :
      s.threads t = .idle → s.Readable → s.pool.pageTable pageId = none →
      Step s (.fetch t pageId) (s.goto t (.missed pageId))
  | pinFirst {s : SharedPool T poolSize} {t : T} {pageId : UInt64} {frameId : Fin poolSize} :
      s.threads t = .pinning pageId frameId → ¬ s.InSection frameId →
      ((s.pool.addPin frameId 1).frames frameId).pinCount = 1 →
      Step s (.proceed t) ({ s with
        pool := s.pool.addPin frameId 1
        pins := ⟨t, pageId, frameId⟩ :: s.pins }.goto t (.removing pageId frameId))
  | pinAgain {s : SharedPool T poolSize} {t : T} {pageId : UInt64} {frameId : Fin poolSize} :
      s.threads t = .pinning pageId frameId → ¬ s.InSection frameId →
      ((s.pool.addPin frameId 1).frames frameId).pinCount ≠ 1 →
      Step s (.proceed t) ({ s with
        pool := s.pool.addPin frameId 1
        pins := ⟨t, pageId, frameId⟩ :: s.pins }.goto t .idle)
  | removed {s : SharedPool T poolSize} {t : T} {pageId : UInt64} {frameId : Fin poolSize}
      {replacer : List (Fin poolSize)} :
      s.threads t = .removing pageId frameId →
      LRUReplacer.remove s.pool.replacer frameId = some replacer →
      Step s (.proceed t) ({ s with pool := { s.pool with replacer } }.goto t .idle)
  -- `fetchPage`, slow path
  | loaded {s : SharedPool T poolSize} {t : T} {pageId : UInt64} {readFails : Bool}
      {result : WriteResult} {frameId : Fin poolSize} {pool : BufferPool poolSize} :
      s.threads t = .missed pageId → s.Free →
      s.pool.fetchExclusive pageId readFails result = (.page frameId, pool) →
      Step s (.load t readFails result)
        ({ s with pool, pins := ⟨t, pageId, frameId⟩ :: s.pins }.goto t .idle)
  | notLoaded {s : SharedPool T poolSize} {t : T} {pageId : UInt64} {readFails : Bool}
      {result : WriteResult} {pool : BufferPool poolSize} :
      s.threads t = .missed pageId → s.Free →
      s.pool.fetchExclusive pageId readFails result = (.error, pool) →
      Step s (.load t readFails result) ({ s with pool }.goto t .idle)
  | loadBlocked {s : SharedPool T poolSize} {t : T} {pageId : UInt64} {readFails : Bool}
      {result : WriteResult} {pool : BufferPool poolSize} :
      s.threads t = .missed pageId → s.Free →
      s.pool.fetchExclusive pageId readFails result = (.blocked, pool) →
      Step s (.load t readFails result) ({ s with pool }.goto t .blocked)
  -- `unpinPage`, for a fetch that the thread made
  | unpin {s : SharedPool T poolSize} {t : T} {pageId : UInt64} {frameId held : Fin poolSize} :
      s.threads t = .idle → s.Readable → ⟨t, pageId, held⟩ ∈ s.pins →
      s.pool.pageTable pageId = some frameId →
      Step s (.unpin t pageId) (s.goto t (.unpinning pageId frameId))
  | unpinAbsent {s : SharedPool T poolSize} {t : T} {pageId : UInt64} {held : Fin poolSize} :
      s.threads t = .idle → s.Readable → ⟨t, pageId, held⟩ ∈ s.pins →
      s.pool.pageTable pageId = none →
      Step s (.unpin t pageId) { s with pins := s.pins.erase ⟨t, pageId, held⟩ }
  | unpinLast {s : SharedPool T poolSize} {t : T} {pageId : UInt64} {frameId : Fin poolSize} :
      s.threads t = .unpinning pageId frameId → ¬ s.InSection frameId →
      ((s.pool.addPin frameId (-1)).frames frameId).pinCount = 0 →
      Step s (.proceed t) ({ s with
        pool := s.pool.addPin frameId (-1)
        pins := s.pins.erase ⟨t, pageId, frameId⟩ }.goto t (.inserting pageId frameId))
  | unpinOther {s : SharedPool T poolSize} {t : T} {pageId : UInt64} {frameId : Fin poolSize} :
      s.threads t = .unpinning pageId frameId → ¬ s.InSection frameId →
      ((s.pool.addPin frameId (-1)).frames frameId).pinCount ≠ 0 →
      Step s (.proceed t) ({ s with
        pool := s.pool.addPin frameId (-1)
        pins := s.pins.erase ⟨t, pageId, frameId⟩ }.goto t .idle)
  | inserted {s : SharedPool T poolSize} {t : T} {pageId : UInt64} {frameId : Fin poolSize} :
      s.threads t = .inserting pageId frameId →
      Step s (.proceed t) ({ s with
        pool := { s.pool with
          replacer := LRUReplacer.insert s.pool.replacer frameId } }.goto t .idle)
  -- `deletePage`, by a thread that holds a pin
  | deleted {s : SharedPool T poolSize} {t : T} {pageId : UInt64} {held : Fin poolSize}
      {pool : BufferPool poolSize} :
      s.threads t = .idle → s.Free → ⟨t, pageId, held⟩ ∈ s.pins →
      s.pool.deletePage pageId = some (true, pool) →
      Step s (.delete t pageId) { s with pool, pins := s.pins.erase ⟨t, pageId, held⟩ }
  | notDeleted {s : SharedPool T poolSize} {t : T} {pageId : UInt64} {held : Fin poolSize}
      {pool : BufferPool poolSize} :
      s.threads t = .idle → s.Free → ⟨t, pageId, held⟩ ∈ s.pins →
      s.pool.deletePage pageId = some (false, pool) → Step s (.delete t pageId) { s with pool }
  | deleteBlocked {s : SharedPool T poolSize} {t : T} {pageId : UInt64} {held : Fin poolSize} :
      s.threads t = .idle → s.Free → ⟨t, pageId, held⟩ ∈ s.pins →
      s.pool.deletePage pageId = none → Step s (.delete t pageId) (s.goto t .blocked)
  -- the page data, through a guard, and `FlushAllPages`
  | write {s : SharedPool T poolSize} {t : T} {pageId : UInt64} {frameId : Fin poolSize}
      {data : Page} : s.threads t = .idle → ⟨t, pageId, frameId⟩ ∈ s.pins →
      Step s (.write t pageId data) { s with pool := s.pool.writeFrame frameId data }
  | flush {s : SharedPool T poolSize} {order : List UInt64} {disk : DiskManager} :
      s.Readable → s.pool.flushPages order = some disk →
      Step s (.flush order) { s with pool := { s.pool with disk } }

/-- A new pool, and no thread inside it. -/
def Opened (s : SharedPool T poolSize) : Prop :=
  (∃ disk, s.pool = BufferPool.new poolSize disk) ∧ (∀ t, s.threads t = .idle) ∧ s.pins = []

omit [DecidableEq T] in
/-- How many fetches of the page were not unpinned yet. -/
def pinsOf (s : SharedPool T poolSize) (pageId : UInt64) : Nat :=
  s.pins.countP fun pin => pin.pageId == pageId

omit [DecidableEq T] in
structure Coherent (s : SharedPool T poolSize) : Prop where
  injective : ∀ p q f, s.pool.pageTable p = some f → s.pool.pageTable q = some f → p = q
  mapped : ∀ p f, s.pool.pageTable p = some f → (s.pool.frames f).pageId = p
  pinCount : ∀ p f, s.pool.pageTable p = some f → (s.pool.frames f).pinCount = s.pinsOf p
  replacerNodup : s.pool.replacer.Nodup
  /-- but for a frame whose pin count is being changed right now -/
  replacer : ∀ f, ¬ s.InSection f →
    (f ∈ s.pool.replacer ↔ ∃ p, s.pool.pageTable p = some f ∧ (s.pool.frames f).pinCount = 0)
  freeNodup : s.pool.freeFrames.Nodup
  free : ∀ f ∈ s.pool.freeFrames, ∀ p, s.pool.pageTable p ≠ some f
  /-- the frame that a fetch returned holds the page as long as the pin is held -/
  held : ∀ pin ∈ s.pins, s.pool.pageTable pin.pageId = some pin.frameId ∧
    (s.pool.frames pin.frameId).pageId = pin.pageId
  /-- `replacer.remove` finds the frame that is to be removed -/
  removable : ∀ t p f, s.threads t = .removing p f → f ∈ s.pool.replacer

/-! ### The invariant behind it -/

/-- What a thread knows where it is. -/
def Fits (s : SharedPool T poolSize) (t : T) : ThreadState poolSize → Prop
  | .pinning p f => s.pool.pageTable p = some f
  | .removing p f => s.pool.pageTable p = some f ∧ (s.pool.frames f).pinCount = 1 ∧
      f ∈ s.pool.replacer
  | .unpinning p f => ⟨t, p, f⟩ ∈ s.pins
  | .inserting p f => s.pool.pageTable p = some f ∧ (s.pool.frames f).pinCount = 0 ∧
      f ∉ s.pool.replacer
  | .idle | .missed _ | .blocked => True

structure Inv (s : SharedPool T poolSize) : Prop where
  consistent : s.pool.Consistent s.pinsOf s.InSection
  held : ∀ pin ∈ s.pins, s.pool.pageTable pin.pageId = some pin.frameId
  fits : ∀ t, s.Fits t (s.threads t)
  exclusive : ∀ t u f, (s.threads t).mutex = some f → (s.threads u).mutex = some f → t = u

omit [DecidableEq T] in
theorem Inv.coherent {s : SharedPool T poolSize} (h : Inv s) : s.Coherent where
  injective _ _ _ := h.consistent.injective
  mapped := h.consistent.mapped
  pinCount := h.consistent.pinCount
  replacerNodup := h.consistent.replacerNodup
  replacer _ := h.consistent.mem_replacer
  freeNodup := h.consistent.freeNodup
  free := h.consistent.free
  held pin member := by
    have found := h.held pin member
    exact ⟨found, h.consistent.mapped _ _ found⟩
  removable t p f here := by
    have fits := h.fits t
    rw [here] at fits
    exact fits.2.2

omit [DecidableEq T] in
theorem Opened.inv {s : SharedPool T poolSize} (opened : s.Opened) : Inv s := by
  obtain ⟨⟨disk, fresh⟩, idle, no_pins⟩ := opened
  constructor
  case consistent =>
    have counts : s.pinsOf = fun _ => 0 := by
      funext p
      simp [pinsOf, no_pins]
    have sections : s.InSection = fun _ => False := by
      funext f
      simp [InSection, idle, ThreadState.mutex]
    rw [counts, sections, fresh]
    exact BufferPool.new_consistent disk
  case held => simp [no_pins]
  case fits =>
    intro t
    rw [idle t]
    trivial
  case exclusive =>
    intro t u f mine
    rw [idle t] at mine
    cases mine

/-! ### One lemma for each kind of step -/

variable {s : SharedPool T poolSize} {t : T} {state : ThreadState poolSize}
  {pageId : UInt64} {frameId : Fin poolSize}

@[simp] theorem goto_pool : (s.goto t state).pool = s.pool := rfl

@[simp] theorem goto_pins : (s.goto t state).pins = s.pins := rfl

@[simp] theorem goto_pinsOf : (s.goto t state).pinsOf = s.pinsOf := rfl

@[simp] theorem goto_threads_self : (s.goto t state).threads t = state := by
  simp [SharedPool.goto]

theorem goto_threads_of_ne {u : T} (other : u ≠ t) :
    (s.goto t state).threads u = s.threads u := by
  simp [SharedPool.goto, other]

theorem inSection_goto {f : Fin poolSize} : (s.goto t state).InSection f ↔
    state.mutex = some f ∨ ∃ u, u ≠ t ∧ (s.threads u).mutex = some f := by
  constructor
  · rintro ⟨u, inside⟩
    by_cases same : u = t
    · subst same
      rw [goto_threads_self] at inside
      exact .inl inside
    · rw [goto_threads_of_ne same] at inside
      exact .inr ⟨u, same, inside⟩
  · rintro (inside | ⟨u, other, inside⟩)
    · exact ⟨t, by rwa [goto_threads_self]⟩
    · exact ⟨u, by rwa [goto_threads_of_ne other]⟩

/-- A thread that holds no `pinCountMutex` moves on and does not take one. -/
theorem Inv.goto (h : Inv s) (before : (s.threads t).mutex = none)
    (after : state.mutex = none) (fits : s.Fits t state) : Inv (s.goto t state) := by
  have sections : (s.goto t state).InSection = s.InSection := by
    funext f
    apply propext
    rw [inSection_goto, after]
    constructor
    · rintro (inside | ⟨u, -, inside⟩)
      · cases inside
      · exact ⟨u, inside⟩
    · rintro ⟨u, inside⟩
      refine .inr ⟨u, ?_, inside⟩
      rintro rfl
      exact nomatch before.symm.trans inside
  constructor
  case consistent =>
    rw [sections]
    exact h.consistent
  case held => exact h.held
  case fits =>
    intro u
    by_cases same : u = t
    · subst same
      rw [goto_threads_self]
      exact fits
    · rw [goto_threads_of_ne same]
      exact h.fits u
  case exclusive =>
    have mutex : ∀ u f, ((s.goto t state).threads u).mutex = some f →
        (s.threads u).mutex = some f := by
      intro u f inside
      by_cases same : u = t
      · subst same
        rw [goto_threads_self, after] at inside
        cases inside
      · rwa [goto_threads_of_ne same] at inside
    intro u v f left right
    exact h.exclusive u v f (mutex u f left) (mutex v f right)

omit [DecidableEq T] in
/-- A thread still knows what it knew when its frame, its pins and the table are left alone. -/
theorem Fits.frame {s' : SharedPool T poolSize} (h : s.Fits t state)
    (table : s'.pool.pageTable = s.pool.pageTable)
    (count : ∀ f, state.mutex = some f →
      (s'.pool.frames f).pinCount = (s.pool.frames f).pinCount)
    (listed : ∀ f, state.mutex = some f → (f ∈ s'.pool.replacer ↔ f ∈ s.pool.replacer))
    (pins : ∀ pin ∈ s.pins, pin.thread = t → pin ∈ s'.pins) : s'.Fits t state := by
  cases state with
  | idle => trivial
  | missed => trivial
  | blocked => trivial
  | pinning p f => exact (congrFun table p).trans h
  | unpinning p f => exact pins _ h rfl
  | removing p f =>
    obtain ⟨found, pinned, member⟩ := h
    exact ⟨(congrFun table p).trans found, (count f rfl).trans pinned, (listed f rfl).2 member⟩
  | inserting p f =>
    obtain ⟨found, unpinned, outside⟩ := h
    exact ⟨(congrFun table p).trans found, (count f rfl).trans unpinned,
      fun member => outside ((listed f rfl).1 member)⟩

/-- A thread takes the `pinCountMutex` of a frame, changes the pin count, and keeps the mutex
if the replacer has to follow. -/
theorem Inv.addPin (h : Inv s) (found : s.pool.pageTable pageId = some frameId) (count : Int)
    (pins : List (Pin T poolSize)) (before : (s.threads t).mutex = none)
    (alone : ¬ s.InSection frameId)
    (counted : (pins.countP (fun pin => pin.pageId == pageId) : Int) = s.pinsOf pageId + count)
    (others : ∀ p, p ≠ pageId → pins.countP (fun pin => pin.pageId == p) = s.pinsOf p)
    (kept : ∀ pin ∈ s.pins, pin.thread ≠ t → pin ∈ pins)
    (held : ∀ pin ∈ pins, s.pool.pageTable pin.pageId = some pin.frameId)
    (enters : state.mutex = some frameId ∨ state.mutex = none ∧
      (frameId ∈ s.pool.replacer ↔ (s.pool.frames frameId).pinCount + count = 0))
    (fits : { s with pool := s.pool.addPin frameId count, pins }.Fits t state) :
    Inv ({ s with pool := s.pool.addPin frameId count, pins }.goto t state) := by
  have mine : ∀ f, state.mutex = some f → f = frameId := by
    intro f inside
    obtain entered | ⟨outside, -⟩ := enters
    · exact Option.some.inj (inside.symm.trans entered)
    · exact nomatch outside.symm.trans inside
  constructor
  case consistent =>
    apply h.consistent.addPin found count _ counted others
    · rintro f ⟨u, inside⟩
      refine inSection_goto.2 (.inr ⟨u, ?_, inside⟩)
      rintro rfl
      exact nomatch before.symm.trans inside
    · intro quiet
      obtain entered | ⟨-, settled⟩ := enters
      · exact absurd (inSection_goto.2 (.inl entered)) quiet
      · exact settled
  case held => exact held
  case fits =>
    intro u
    by_cases same : u = t
    · subst same
      rw [goto_threads_self]
      exact fits
    · rw [goto_threads_of_ne same]
      refine (h.fits u).frame rfl ?_ (fun _ _ => Iff.rfl) ?_
      · intro f inside
        have other : f ≠ frameId := by
          rintro rfl
          exact alone ⟨u, inside⟩
        exact congrArg Frame.pinCount (BufferPool.addPin_frames_of_ne other count)
      · rintro pin member rfl
        exact kept pin member same
  case exclusive =>
    have others : ∀ u f, u ≠ t → (s.threads u).mutex = some f → state.mutex ≠ some f := by
      intro u f _ inside entered
      exact alone ⟨u, mine f entered ▸ inside⟩
    intro u v f left right
    by_cases first : u = t <;> by_cases second : v = t
    · rw [first, second]
    · rw [first, goto_threads_self] at left
      rw [goto_threads_of_ne second] at right
      exact absurd left (others v f second right)
    · rw [second, goto_threads_self] at right
      rw [goto_threads_of_ne first] at left
      exact absurd right (others u f first left)
    · rw [goto_threads_of_ne first] at left
      rw [goto_threads_of_ne second] at right
      exact h.exclusive u v f left right

/-- The thread that holds a `pinCountMutex` changes the replacer for its frame and leaves. -/
theorem Inv.setReplacer (h : Inv s) {replacer : List (Fin poolSize)}
    (mine : (s.threads t).mutex = some frameId)
    (others : ∀ f, f ≠ frameId → (f ∈ replacer ↔ f ∈ s.pool.replacer))
    (consistent : ∀ busy : Fin poolSize → Prop,
      (∀ f, f ≠ frameId → s.InSection f → busy f) →
        { s.pool with replacer }.Consistent s.pinsOf busy) :
    Inv ({ s with pool := { s.pool with replacer } }.goto t .idle) := by
  constructor
  case consistent =>
    apply consistent
    rintro f other ⟨u, inside⟩
    refine inSection_goto.2 (.inr ⟨u, ?_, inside⟩)
    rintro rfl
    exact other (Option.some.inj (inside.symm.trans mine))
  case held => exact h.held
  case fits =>
    intro u
    by_cases same : u = t
    · subst same
      rw [goto_threads_self]
      trivial
    · rw [goto_threads_of_ne same]
      refine (h.fits u).frame rfl (fun _ _ => rfl) ?_ fun _ member _ => member
      intro f inside
      apply others
      rintro rfl
      exact same (h.exclusive u t f inside mine)
  case exclusive =>
    have mutex : ∀ u f, (({ s with pool := { s.pool with replacer } }.goto t .idle).threads
        u).mutex = some f → (s.threads u).mutex = some f := by
      intro u f inside
      by_cases same : u = t
      · subst same
        rw [goto_threads_self] at inside
        cases inside
      · rwa [goto_threads_of_ne same] at inside
    intro u v f left right
    exact h.exclusive u v f (mutex u f left) (mutex v f right)

omit [DecidableEq T] in
theorem Free.mutex (free : s.Free) (u : T) : (s.threads u).mutex = none := by
  obtain idle | ⟨p, missed⟩ := free u
  · rw [idle]
    rfl
  · rw [missed]
    rfl

omit [DecidableEq T] in
theorem Free.inSection (free : s.Free) : s.InSection = fun _ => False := by
  funext f
  simp [InSection, free.mutex]

omit [DecidableEq T] in
/-- While nobody is inside the pool, the invariant is about the pool and the pins only. -/
theorem Inv.of_free {s' : SharedPool T poolSize} (free : s'.Free)
    (consistent : s'.pool.Consistent s'.pinsOf fun _ => False)
    (held : ∀ pin ∈ s'.pins, s'.pool.pageTable pin.pageId = some pin.frameId) : Inv s' := by
  constructor
  case consistent =>
    rw [free.inSection]
    exact consistent
  case held => exact held
  case fits =>
    intro u
    obtain idle | ⟨p, missed⟩ := free u
    · rw [idle]
      trivial
    · rw [missed]
      trivial
  case exclusive =>
    intro u v f inside
    exact nomatch (free.mutex u).symm.trans inside

theorem Free.goto_idle (free : s.Free) (t : T) (pool : BufferPool poolSize)
    (pins : List (Pin T poolSize)) : ({ s with pool, pins }.goto t .idle).Free := by
  intro u
  by_cases same : u = t
  · subst same
    rw [goto_threads_self]
    exact .inl rfl
  · rw [goto_threads_of_ne same]
    exact free u

omit [DecidableEq T] in
/-- The contents of the frames and the disk do not matter. -/
theorem Inv.sameBook (h : Inv s) {pool : BufferPool poolSize}
    (table : pool.pageTable = s.pool.pageTable) (replacer : pool.replacer = s.pool.replacer)
    (free : pool.freeFrames = s.pool.freeFrames)
    (pages : ∀ f, (pool.frames f).pageId = (s.pool.frames f).pageId)
    (counts : ∀ f, (pool.frames f).pinCount = (s.pool.frames f).pinCount) :
    Inv { s with pool } := by
  constructor
  case consistent => exact h.consistent.sameBook table replacer free pages counts
  case held =>
    intro pin member
    exact (congrFun table _).trans (h.held pin member)
  case fits =>
    intro u
    refine (h.fits u).frame table (fun f _ => counts f) ?_ fun _ member _ => member
    intro f _
    exact replacer ▸ Iff.rfl
  case exclusive => exact h.exclusive

/-! ### Every step -/

omit [DecidableEq T] in
theorem countP_cons (pin : Pin T poolSize) (pins : List (Pin T poolSize)) (p : UInt64) :
    (pin :: pins).countP (fun pin => pin.pageId == p) =
      pins.countP (fun pin => pin.pageId == p) + if pin.pageId = p then 1 else 0 := by
  simp [List.countP_cons]

theorem countP_erase {pin : Pin T poolSize} {pins : List (Pin T poolSize)} (member : pin ∈ pins)
    (p : UInt64) : pins.countP (fun pin => pin.pageId == p) =
      (pins.erase pin).countP (fun pin => pin.pageId == p) +
        if pin.pageId = p then 1 else 0 := by
  rw [(List.perm_cons_erase member).countP_eq, countP_cons]

theorem Inv.pinned (h : Inv s) (entered : s.threads t = .pinning pageId frameId)
    (alone : ¬ s.InSection frameId)
    (enters : state.mutex = some frameId ∨ state.mutex = none ∧
      (frameId ∈ s.pool.replacer ↔ (s.pool.frames frameId).pinCount + 1 = 0))
    (fits : s.pool.pageTable pageId = some frameId →
      { s with
        pool := s.pool.addPin frameId 1
        pins := ⟨t, pageId, frameId⟩ :: s.pins }.Fits t state) :
    Inv ({ s with
      pool := s.pool.addPin frameId 1
      pins := ⟨t, pageId, frameId⟩ :: s.pins }.goto t state) := by
  have found : s.pool.pageTable pageId = some frameId := by
    have known := h.fits t
    rwa [entered] at known
  refine h.addPin found 1 _ (by rw [entered]; rfl) alone ?_ ?_ ?_ ?_ enters (fits found)
  · rw [countP_cons, if_pos rfl]
    rfl
  · intro p other
    rw [countP_cons, if_neg other.symm]
    rfl
  · exact fun pin member _ => List.mem_cons_of_mem _ member
  · rintro pin member
    obtain rfl | old := List.mem_cons.1 member
    · exact found
    · exact h.held pin old

theorem Inv.unpinned (h : Inv s) (entered : s.threads t = .unpinning pageId frameId)
    (alone : ¬ s.InSection frameId)
    (enters : state.mutex = some frameId ∨ state.mutex = none ∧
      (frameId ∈ s.pool.replacer ↔ (s.pool.frames frameId).pinCount + -1 = 0))
    (fits : s.pool.pageTable pageId = some frameId →
      { s with
        pool := s.pool.addPin frameId (-1)
        pins := s.pins.erase ⟨t, pageId, frameId⟩ }.Fits t state) :
    Inv ({ s with
      pool := s.pool.addPin frameId (-1)
      pins := s.pins.erase ⟨t, pageId, frameId⟩ }.goto t state) := by
  have member : ⟨t, pageId, frameId⟩ ∈ s.pins := by
    have known := h.fits t
    rwa [entered] at known
  have found := h.held _ member
  have count := countP_erase member
  refine h.addPin found (-1) _ (by rw [entered]; rfl) alone ?_ ?_ ?_ ?_ enters (fits found)
  · rw [pinsOf, count pageId, if_pos rfl]
    dsimp only
    omega
  · intro p other
    rw [pinsOf, count p, if_neg other.symm]
    rfl
  · rintro pin old foreign
    apply (List.mem_erase_of_ne _).2 old
    rintro rfl
    exact foreign rfl
  · intro pin remaining
    exact h.held pin (List.mem_of_mem_erase remaining)

omit [DecidableEq T] in
/-- The pins of a page that was just fetched or deleted, as `Consistent` counts them. -/
theorem pinsOf_cons (pool : BufferPool poolSize) : ({ s with
      pool, pins := ⟨t, pageId, frameId⟩ :: s.pins } : SharedPool T poolSize).pinsOf =
    BufferPool.pinned s.pinsOf pageId := by
  funext p
  rw [pinsOf, countP_cons, BufferPool.pinned, Function.update_apply]
  by_cases same : p = pageId
  · rw [if_pos same.symm, if_pos same, same]
    rfl
  · rw [if_neg (Ne.symm same), if_neg same]
    rfl

theorem pinsOf_erase (pool : BufferPool poolSize) (member : ⟨t, pageId, frameId⟩ ∈ s.pins)
    (single : s.pinsOf pageId = 1) : ({ s with
      pool, pins := s.pins.erase ⟨t, pageId, frameId⟩ } : SharedPool T poolSize).pinsOf =
    Function.update s.pinsOf pageId 0 := by
  funext p
  have count := countP_erase member p
  rw [Function.update_apply]
  by_cases same : p = pageId
  · subst same
    rw [if_pos rfl] at count ⊢
    rw [pinsOf] at single ⊢
    dsimp only
    omega
  · rw [if_neg (Ne.symm same)] at count
    rw [if_neg same]
    exact count.symm

omit [DecidableEq T] in
theorem pinsOf_ne_zero {pin : Pin T poolSize} (member : pin ∈ s.pins) :
    s.pinsOf pin.pageId ≠ 0 := by
  intro zero
  have other := List.countP_eq_zero.1 zero pin member
  simp at other

theorem Inv.step (h : Inv s) {op : Op T} {s' : SharedPool T poolSize} (step : Step s op s') :
    Inv s' := by
  cases step with
  | found idle _ found => exact h.goto (by rw [idle]; rfl) rfl found
  | missed idle _ _ => exact h.goto (by rw [idle]; rfl) rfl trivial
  | pinFirst entered alone first =>
    rw [BufferPool.addPin_pinCount] at first
    refine h.pinned entered alone (.inl rfl) fun found => ⟨found, ?_, ?_⟩
    · rw [BufferPool.addPin_pinCount]
      exact first
    · exact (h.consistent.replacer _ _ found alone).2 (by omega)
  | @pinAgain t p f entered alone more =>
    rw [BufferPool.addPin_pinCount] at more
    refine h.pinned entered alone (.inr ⟨rfl, ?_⟩) fun _ => trivial
    have found : s.Fits t (.pinning p f) := entered ▸ h.fits t
    have count := h.consistent.pinCount _ _ found
    rw [h.consistent.replacer _ _ found alone]
    omega
  | @removed t p f replacer entered removed =>
    obtain ⟨found, pinned, member⟩ : s.Fits t (.removing p f) := entered ▸ h.fits t
    rw [LRUReplacer.remove_of_mem member] at removed
    obtain rfl := Option.some.inj removed
    refine h.setReplacer (by rw [entered]; rfl) (fun g other => List.mem_erase_of_ne other) ?_
    intro busy left
    exact h.consistent.removed found (by omega) left
  | @loaded t p readFails result f pool missed free run =>
    have consistent := h.consistent
    rw [free.inSection] at consistent
    cases consistent.fetchExclusive run with
    | page loaded table kept =>
      apply Inv.of_free (free.goto_idle t pool _)
      · rw [goto_pinsOf, pinsOf_cons]
        exact loaded
      · intro pin member
        obtain rfl | old := List.mem_cons.1 member
        · exact table
        · exact (kept _ (pinsOf_ne_zero old)).trans (h.held pin old)
  | @notLoaded t p readFails result pool missed free run =>
    have consistent := h.consistent
    rw [free.inSection] at consistent
    cases consistent.fetchExclusive run with
    | error left kept =>
      apply Inv.of_free (free.goto_idle t pool _) left
      intro pin member
      exact (kept _ (pinsOf_ne_zero member)).trans (h.held pin member)
  | @loadBlocked t p readFails result pool missed free run =>
    have consistent := h.consistent
    rw [free.inSection] at consistent
    cases consistent.fetchExclusive run
    exact h.goto (free.mutex t) rfl trivial
  | unpin idle _ member found =>
    have same := (h.held _ member).symm.trans found
    obtain rfl := Option.some.inj same
    exact h.goto (by rw [idle]; rfl) rfl member
  | unpinAbsent _ _ member missing => exact nomatch (h.held _ member).symm.trans missing
  | unpinLast entered alone last =>
    rw [BufferPool.addPin_pinCount] at last
    refine h.unpinned entered alone (.inl rfl) fun found => ⟨found, ?_, ?_⟩
    · rw [BufferPool.addPin_pinCount]
      exact last
    · intro member
      have zero := (h.consistent.replacer _ _ found alone).1 member
      omega
  | @unpinOther t p f entered alone more =>
    rw [BufferPool.addPin_pinCount] at more
    refine h.unpinned entered alone (.inr ⟨rfl, ?_⟩) fun _ => trivial
    have member : s.Fits t (.unpinning p f) := entered ▸ h.fits t
    have found : s.pool.pageTable p = some f := h.held _ member
    have count := h.consistent.pinCount p f found
    have held : s.pinsOf p ≠ 0 := pinsOf_ne_zero member
    rw [h.consistent.replacer p f found alone]
    omega
  | @inserted t p f entered =>
    obtain ⟨found, unpinned, fresh⟩ : s.Fits t (.inserting p f) := entered ▸ h.fits t
    refine h.setReplacer (by rw [entered]; rfl) ?_ ?_
    · intro g other
      simp [LRUReplacer.insert, other]
    · intro busy left
      exact h.consistent.inserted found unpinned fresh left
  | @deleted t p f pool idle free member run =>
    have consistent := h.consistent
    rw [free.inSection] at consistent
    obtain ⟨single, left, kept⟩ := consistent.deletePage run
    have free' : ({ s with
        pool, pins := s.pins.erase ⟨t, p, f⟩ } : SharedPool T poolSize).Free := free
    apply Inv.of_free free'
    · rw [pinsOf_erase pool member single]
      exact left
    · intro pin remaining
      have old := List.mem_of_mem_erase remaining
      have other : pin.pageId ≠ p := by
        intro same
        have count := congrFun (pinsOf_erase pool member single) p
        rw [Function.update_self] at count
        exact pinsOf_ne_zero remaining (same ▸ count)
      exact (kept _ other).trans (h.held pin old)
  | notDeleted _ _ _ run =>
    rw [BufferPool.deletePage_false run]
    exact h
  | deleteBlocked idle _ _ _ => exact h.goto (by rw [idle]; rfl) rfl trivial
  | @write t p f data _ _ =>
    have same : ∀ g, ((s.pool.writeFrame f data).frames g).pageId = (s.pool.frames g).pageId ∧
        ((s.pool.writeFrame f data).frames g).pinCount = (s.pool.frames g).pinCount := by
      intro g
      rw [BufferPool.writeFrame, BufferPool.setFrame_frames]
      split
      next here => exact here ▸ ⟨rfl, rfl⟩
      next => exact ⟨rfl, rfl⟩
    have table : (s.pool.writeFrame f data).pageTable = s.pool.pageTable := rfl
    exact h.sameBook table rfl rfl (fun g => (same g).1) fun g => (same g).2
  | flush _ _ => exact h.sameBook rfl rfl rfl (fun _ => rfl) fun _ => rfl

/-- In every interleaving of the threads' calls, with disk reads and writes failing at will,
the pool is coherent. -/
theorem coherent_of_run {s : SharedPool T poolSize}
    (run : Reach Step (fun _ _ => True) Opened s) : s.Coherent :=
  (run.invariant Inv (fun _ opened => opened.inv) fun _ _ _ h _ step => h.step step).coherent

theorem coherent_of_first_fetch : ∃ s : SharedPool Unit 1,
    s.pins = [⟨(), 0, 0⟩] ∧ s.pool.pageTable 0 = some 0 ∧ s.Coherent := by
  obtain ⟨disk, created⟩ := DiskManager.create_isSome
  obtain ⟨data, read⟩ := DiskManager.create_read created
  let s₀ : SharedPool Unit 1 := ⟨BufferPool.new 1 disk, fun _ => .idle, []⟩
  let s₁ := s₀.goto () (.missed 0)
  have missed : Step s₀ (.fetch () 0) s₁ := .missed rfl nofun rfl
  have fetched := BufferPool.fetchExclusive_free s₁.pool rfl read rfl
    (List.finRange_succ (n := 0)) .done
  have loaded := Step.loaded (s := s₁) (t := ()) rfl (fun _ => .inr ⟨0, rfl⟩) fetched
  refine ⟨_, rfl, rfl, coherent_of_run (.next (.next (.start ?_) trivial missed) trivial loaded)⟩
  exact ⟨⟨disk, rfl⟩, fun _ => rfl, rfl⟩

end SharedPool

end CambiumDB
