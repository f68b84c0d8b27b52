import CambiumDB.BufferPool.Consistency
import CambiumDB.Lib.Reach

/-!
# `bufferpoolmanager/read_guard.go` and `bufferpoolmanager/write_guard.go`

A guard is obtained in two moves, since other threads run in between: `fetchPage` pins the page,
and the frame's latch is taken once it is free. From then on the guard is used by calls of its
methods. `Done` gives back the pin and the latch; for a write guard it also clears `active`,
for a read guard it does not, so that later calls on a read guard follow nil pointers.
-/

namespace CambiumDB

open TransitionSystem

inductive GuardKind where
  | read
  | write
  deriving DecidableEq

/-! ### Latches -/

/-- The `sync.RWMutex` of a frame: how many hold it for reading, and whether one holds it
for writing. -/
structure Latch where
  readers : Nat
  writer : Bool

namespace Latch

/-- `RLock` and `Lock`; `none` waits. -/
def acquire (latch : Latch) : GuardKind → Option Latch
  | .read => if latch.writer then none else some { latch with readers := latch.readers + 1 }
  | .write =>
    if latch.writer ∨ latch.readers ≠ 0 then none else some { latch with writer := true }

/-- `RUnlock` and `Unlock`; `none` is the fatal error of a latch that is not held. -/
def release (latch : Latch) : GuardKind → Option Latch
  | .read =>
    if latch.readers = 0 then none else some { latch with readers := latch.readers - 1 }
  | .write => if latch.writer then some { latch with writer := false } else none

/-- How many hold the latch for one kind of access. -/
def count (latch : Latch) : GuardKind → Nat
  | .read => latch.readers
  | .write => latch.writer.toNat

theorem acquire_count {latch latch' : Latch} {kind : GuardKind}
    (taken : latch.acquire kind = some latch') (k : GuardKind) :
    latch'.count k = latch.count k + if k = kind then 1 else 0 := by
  cases kind <;> simp only [acquire] at taken <;> split at taken
  case read.isFalse => cases taken; cases k <;> rfl
  case write.isFalse free =>
    cases taken
    cases k
    · rfl
    · simp_all [count]
  all_goals cases taken

theorem release_count {latch : Latch} {kind : GuardKind} (held : latch.count kind ≠ 0) :
    ∃ latch', latch.release kind = some latch' ∧
      ∀ k, latch'.count k + (if k = kind then 1 else 0) = latch.count k := by
  cases kind
  case read =>
    refine ⟨_, if_neg held, fun k => ?_⟩
    cases k
    · exact Nat.sub_add_cancel (Nat.pos_of_ne_zero held)
    · rfl
  case write =>
    have locked : latch.writer = true := by simpa [count] using held
    refine ⟨_, if_pos locked, fun k => ?_⟩
    cases k <;> simp [count, locked]

end Latch

/-! ### The methods of the guards -/

/-- The frames with their latches. -/
structure LatchedPool (poolSize : Nat) where
  pool : BufferPool poolSize
  latches : Fin poolSize → Latch

variable {poolSize : Nat}

/-- `false` if the page is not in memory. -/
def BufferPool.unpinPage (pool : BufferPool poolSize) (pageId : UInt64) :
    Bool × BufferPool poolSize :=
  match pool.pageTable pageId with
  | none => (false, pool)
  | some frameId => (true, pool.unpin frameId)

/-- Why a call does not return. -/
inductive Halt where
  /-- a nil pointer was followed, or a latch unlocked that was not locked -/
  | panic
  /-- the call waits for a mutex that is not given back -/
  | waits
  deriving DecidableEq

/-- Follows a pointer that may be nil. -/
def deref {α : Type} : Option α → Except Halt α
  | some a => .ok a
  | none => .error .panic

/-- The fields of `ReadGuard` and `WriteGuard`. -/
structure Guard (poolSize : Nat) where
  active : Bool
  /-- `none` is nil -/
  page : Option (Fin poolSize)
  /-- `none` is nil -/
  bufferPool : Option Unit
  deriving DecidableEq

namespace Guard

/-- What `NewReadGuard` and `NewWriteGuard` return. -/
def new (frameId : Fin poolSize) : Guard poolSize := ⟨true, some frameId, some ()⟩

def getPageId (guard : Guard poolSize) (memory : LatchedPool poolSize) : Except Halt UInt64 :=
  if !guard.active then .ok 0
  else do
    let frameId ← deref guard.page
    .ok (memory.pool.frames frameId).pageId

/-- The answer `none` is a nil slice. -/
def getPageData (guard : Guard poolSize) (memory : LatchedPool poolSize) :
    Except Halt (Option Page) :=
  if !guard.active then .ok none
  else do
    let frameId ← deref guard.page
    .ok (some (memory.pool.frames frameId).data)

def isActive (guard : Guard poolSize) : Bool := guard.active

end Guard

/-- `active` is not cleared. -/
def ReadGuard.done (guard : Guard poolSize) (memory : LatchedPool poolSize) :
    Except Halt (Bool × Guard poolSize × LatchedPool poolSize) :=
  if !guard.active then .ok (false, guard, memory)
  else do
    let frameId ← deref guard.page
    let _ ← deref guard.bufferPool
    let (_, pool) := memory.pool.unpinPage (memory.pool.frames frameId).pageId
    let latch ← deref ((memory.latches frameId).release .read)
    .ok (true, { guard with page := none, bufferPool := none },
      ⟨pool, Function.update memory.latches frameId latch⟩)

namespace WriteGuard

/-- The answer is false also when the page was deleted. -/
def deletePage (guard : Guard poolSize) (memory : LatchedPool poolSize) :
    Except Halt (Bool × Guard poolSize × LatchedPool poolSize) :=
  if !guard.active then .ok (false, guard, memory)
  else do
    let frameId ← deref guard.page
    let _ ← deref guard.bufferPool
    match memory.pool.deletePage (memory.pool.frames frameId).pageId with
    | none => .error .waits
    | some (false, pool) => .ok (false, guard, { memory with pool })
    | some (true, pool) =>
      let latch ← deref ((memory.latches frameId).release .write)
      .ok (false, ⟨false, none, none⟩, ⟨pool, Function.update memory.latches frameId latch⟩)

def setDirtyFlag (guard : Guard poolSize) (memory : LatchedPool poolSize) :
    Except Halt (Bool × LatchedPool poolSize) :=
  if !guard.active then .ok (false, memory)
  else do
    let frameId ← deref guard.page
    let frame := memory.pool.frames frameId
    .ok (true, { memory with pool := memory.pool.setFrame frameId { frame with dirty := true } })

def done (guard : Guard poolSize) (memory : LatchedPool poolSize) :
    Except Halt (Bool × Guard poolSize × LatchedPool poolSize) :=
  if !guard.active then .ok (false, guard, memory)
  else do
    let frameId ← deref guard.page
    let _ ← deref guard.bufferPool
    let (_, pool) := memory.pool.unpinPage (memory.pool.frames frameId).pageId
    let latch ← deref ((memory.latches frameId).release .write)
    .ok (true, ⟨false, none, none⟩, ⟨pool, Function.update memory.latches frameId latch⟩)

end WriteGuard

inductive GuardCall where
  | done
  | deletePage
  | getPageId
  | getPageData
  | setDirtyFlag
  | isActive
  deriving DecidableEq

inductive GuardAnswer where
  | bool (answer : Bool)
  | pageId (pageId : UInt64)
  | data (data : Option Page)

/-- The result that the methods document for an inactive guard. -/
def GuardCall.inactive : GuardCall → GuardAnswer
  | .getPageId => .pageId 0
  | .getPageData => .data none
  | .done | .deletePage | .setDirtyFlag | .isActive => .bool false

/-- A read guard has no `DeletePage` and no `SetDirtyFlag`. -/
def GuardKind.offers : GuardKind → GuardCall → Bool
  | .read, .deletePage | .read, .setDirtyFlag => false
  | _, _ => true

def Guard.call (guard : Guard poolSize) (kind : GuardKind) (memory : LatchedPool poolSize) :
    GuardCall → Except Halt (GuardAnswer × Guard poolSize × LatchedPool poolSize)
  | .done => do
    let (answer, guard, memory) ← match kind with
      | .read => ReadGuard.done guard memory
      | .write => WriteGuard.done guard memory
    .ok (.bool answer, guard, memory)
  | .deletePage => do
    let (answer, guard, memory) ← WriteGuard.deletePage guard memory
    .ok (.bool answer, guard, memory)
  | .getPageId => do
    let answer ← guard.getPageId memory
    .ok (.pageId answer, guard, memory)
  | .getPageData => do
    let answer ← guard.getPageData memory
    .ok (.data answer, guard, memory)
  | .setDirtyFlag => do
    let (answer, memory) ← WriteGuard.setDirtyFlag guard memory
    .ok (.bool answer, guard, memory)
  | .isActive => .ok (.bool guard.isActive, guard, memory)

/-! ### Guards that share the pool -/

/-- A guard that somebody asked for: the page, the frame that `fetchPage` returned, and the guard
itself, which there is none of while its owner waits for the latch. -/
structure Handle (poolSize : Nat) where
  kind : GuardKind
  pageId : UInt64
  frameId : Fin poolSize
  guard : Option (Guard poolSize)
  deriving DecidableEq

/-- Guards are named by their place in the list; none is ever taken off it. -/
structure GuardTable (poolSize : Nat) where
  memory : LatchedPool poolSize
  guards : List (Handle poolSize)

/-- A call on a guard: the answer `none` is a panic. -/
structure GuardEvent (poolSize : Nat) where
  before : GuardTable poolSize
  index : Nat
  call : GuardCall
  answer : Option GuardAnswer
  after : GuardTable poolSize

namespace GuardTable

/-- The guard is left as the call made it; a call that waits for ever is no event. -/
def finish (s : GuardTable poolSize) (index : Nat) (handle : Handle poolSize) :
    Except Halt (GuardAnswer × Guard poolSize × LatchedPool poolSize) →
      Option (Option GuardAnswer × GuardTable poolSize)
  | .ok (answer, guard, memory) =>
    some (some answer, ⟨memory, s.guards.set index { handle with guard := some guard }⟩)
  | .error .panic => some (none, s)
  | .error .waits => none

/-- `none` if there is no such call, or the call never returns. -/
def call (s : GuardTable poolSize) (index : Nat) (call : GuardCall) :
    Option (Option GuardAnswer × GuardTable poolSize) := do
  let handle ← s.guards[index]?
  let guard ← handle.guard
  if handle.kind.offers call then
    s.finish index handle (guard.call handle.kind s.memory call)
  else none

/-- A new guard of the kind, whose owner now waits for the latch. -/
def fetched (s : GuardTable poolSize) (kind : GuardKind) (pageId : UInt64)
    (frameId : Fin poolSize) (pool : BufferPool poolSize) : GuardTable poolSize :=
  ⟨{ s.memory with pool }, s.guards ++ [⟨kind, pageId, frameId, none⟩]⟩

inductive Step : GuardTable poolSize → List (GuardEvent poolSize) → GuardTable poolSize → Prop
  -- `NewReadGuard` and `NewWriteGuard` up to the latch
  | fetched {s : GuardTable poolSize} (kind : GuardKind) {pageId : UInt64} {readFails : Bool}
      {result : WriteResult} {frameId : Fin poolSize} {pool : BufferPool poolSize} :
      s.memory.pool.fetchExclusive pageId readFails result = (.page frameId, pool) →
      Step s [] (s.fetched kind pageId frameId pool)
  | notFetched {s : GuardTable poolSize} {pageId : UInt64} {readFails : Bool}
      {result : WriteResult} {pool : BufferPool poolSize} :
      s.memory.pool.fetchExclusive pageId readFails result = (.error, pool) →
      Step s [] { s with memory := { s.memory with pool } }
  -- the latch is free and the guard is returned
  | latched {s : GuardTable poolSize} {index : Nat} {handle : Handle poolSize} {latch : Latch} :
      s.guards[index]? = some handle → handle.guard = none →
      (s.memory.latches handle.frameId).acquire handle.kind = some latch →
      Step s [] ⟨{ s.memory with
          latches := Function.update s.memory.latches handle.frameId latch },
        s.guards.set index { handle with guard := some (.new handle.frameId) }⟩
  | called {s s' : GuardTable poolSize} {index : Nat} {call : GuardCall} {answer : Option GuardAnswer} :
      s.call index call = some (answer, s') → Step s [⟨s, index, call, answer, s'⟩] s'
  -- the owner of a write guard changes the bytes that `GetPageData` returned
  | wrote {s : GuardTable poolSize} {index : Nat} {handle : Handle poolSize}
      {guard : Guard poolSize} {frameId : Fin poolSize} (data : Page) :
      s.guards[index]? = some handle → handle.kind = .write → handle.guard = some guard →
      guard.page = some frameId →
      Step s [] { s with memory := { s.memory with
        pool := s.memory.pool.setFrame frameId { s.memory.pool.frames frameId with data } } }

/-- The calls on guards that were made on the way from one state to another. -/
inductive Run : GuardTable poolSize → List (GuardEvent poolSize) → GuardTable poolSize → Prop
  | start {s : GuardTable poolSize} : Run s [] s
  | next {s s' s'' : GuardTable poolSize} {events events' : List (GuardEvent poolSize)} :
      Run s events s' → Step s' events' s'' → Run s (events ++ events') s''

/-- A pool that was just opened. -/
def Opened (s : GuardTable poolSize) : Prop :=
  (∃ disk, s.memory.pool = BufferPool.new poolSize disk) ∧
    s.memory.latches = (fun _ => ⟨0, false⟩) ∧ s.guards = []

end GuardTable

/-! ### What a life cycle is -/

namespace GuardEvent

/-- The guard's page was in memory and has left the page table. -/
def Deletes (e : GuardEvent poolSize) : Prop :=
  ∃ handle, e.before.guards[e.index]? = some handle ∧
    e.before.memory.pool.pageTable handle.pageId ≠ none ∧
    e.after.memory.pool.pageTable handle.pageId = none

/-- A successful `Done` or `DeletePage`. -/
def Releases (e : GuardEvent poolSize) : Prop :=
  e.call = .done ∧ e.answer = some (.bool true) ∨ e.call = .deletePage ∧ e.Deletes

def Inactive (e : GuardEvent poolSize) : Prop :=
  ∃ handle guard, e.after.guards[e.index]? = some handle ∧ handle.guard = some guard ∧
    guard.active = false

/-- The pin count of the guard's page is one less and its latch is unlocked once; no other
frame is concerned. -/
def GivesBack (e : GuardEvent poolSize) : Prop :=
  ∃ handle, e.before.guards[e.index]? = some handle ∧
    e.before.memory.pool.pageTable handle.pageId = some handle.frameId ∧
    (e.after.memory.pool.frames handle.frameId).pinCount =
      (e.before.memory.pool.frames handle.frameId).pinCount - 1 ∧
    (e.before.memory.latches handle.frameId).release handle.kind =
      some (e.after.memory.latches handle.frameId) ∧
    ∀ f, f ≠ handle.frameId →
      (e.after.memory.pool.frames f).pinCount = (e.before.memory.pool.frames f).pinCount ∧
      e.after.memory.latches f = e.before.memory.latches f

/-- No pin and no latch is given back. -/
def KeepsHold (e : GuardEvent poolSize) : Prop :=
  e.after.memory.latches = e.before.memory.latches ∧
    ∀ f, (e.after.memory.pool.frames f).pinCount = (e.before.memory.pool.frames f).pinCount

end GuardEvent

/-- The guard gave back its pin and its latch before. -/
def Released (earlier : List (GuardEvent poolSize)) (index : Nat) : Prop :=
  ∃ e ∈ earlier, e.index = index ∧ e.Releases

/-- What a call has to do, after the earlier ones. -/
structure RightCall (earlier : List (GuardEvent poolSize)) (e : GuardEvent poolSize) : Prop where
  /-- a call after the release does nothing and returns the inactive result -/
  later : Released earlier e.index → e.answer = some e.call.inactive ∧ e.after = e.before
  /-- a call before it returns, and gives back the pin and the latch if it is the release -/
  first : ¬ Released earlier e.index → e.answer ≠ none ∧ (e.call = .done → e.Releases) ∧
    (e.Releases → e.GivesBack) ∧ (¬ e.Releases → e.KeepsHold)
  deleted : e.call = .deletePage →
    (e.answer = some (.bool true) ↔ e.Deletes ∧ e.Inactive)

/-- How often a page is pinned by guards that are held or waited for. -/
def Handle.pins (handle : Handle poolSize) : Bool :=
  match handle.guard with
  | none => true
  | some guard => guard.page.isSome

def GuardTable.pinsOf (s : GuardTable poolSize) (pageId : UInt64) : Nat :=
  s.guards.countP fun handle => handle.pageId = pageId ∧ handle.pins

/-- The two ways to be wrong: a call on a read guard after its `Done`, and a `DeletePage` by the
only guard on its page. -/
def Misuse (earlier : List (GuardEvent poolSize)) (e : GuardEvent poolSize) : Prop :=
  ∃ handle, e.before.guards[e.index]? = some handle ∧
    (handle.kind = .read ∧ Released earlier e.index ∨
      e.call = .deletePage ∧ ¬ Released earlier e.index ∧ e.before.pinsOf handle.pageId = 1)

end CambiumDB
