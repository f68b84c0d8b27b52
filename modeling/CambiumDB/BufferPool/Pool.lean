import Mathlib.Logic.Function.Basic
import CambiumDB.BufferPool.DiskManager

/-!
# `bufferpoolmanager/simple_buffer_pool_manager.go` and `lru_replacer.go`

The frames, the page table, the free frames and the replacer, over the disk manager. Frame
ids are the indices of the frames array. `frameAllocationMutex` is held within one call
only, except that a failed write-back returns without unlocking it.
-/

namespace CambiumDB

open ByteBuffer

/-! ### The replacer -/

namespace LRUReplacer

variable {F : Type} [DecidableEq F]

/-- To the front of the list. -/
def insert (list : List F) (frameId : F) : List F := frameId :: list

/-- `none` is the panic of `list.Remove(nil)`. -/
def remove (list : List F) (frameId : F) : Option (List F) :=
  if frameId ∈ list then some (list.erase frameId) else none

/-- The frame at the back of the list; `none` is the panic of an empty list. -/
def victim (list : List F) : Option (F × List F) :=
  match list.getLast? with
  | some frameId => some (frameId, list.dropLast)
  | none => none

theorem remove_of_mem {list : List F} {frameId : F} (member : frameId ∈ list) :
    remove list frameId = some (list.erase frameId) := if_pos member

omit [DecidableEq F] in
theorem victim_eq_some {list rest : List F} {frameId : F}
    (taken : victim list = some (frameId, rest)) : list = rest ++ [frameId] := by
  rw [victim] at taken
  split at taken
  next last found =>
    obtain ⟨rfl, rfl⟩ := Prod.mk.inj (Option.some.inj taken)
    exact (List.dropLast_append_getLast? _ found).symm
  next => cases taken

omit [DecidableEq F] in
theorem victim_eq_none {list : List F} (none_left : victim list = none) : list = [] := by
  rw [victim] at none_left
  split at none_left
  next => cases none_left
  next empty => exact List.getLast?_eq_none_iff.1 empty

end LRUReplacer

/-! ### The pool -/

structure Frame where
  pageId : UInt64
  data : Page
  pinCount : Int
  dirty : Bool

structure BufferPool (poolSize : Nat) where
  frames : Fin poolSize → Frame
  pageTable : UInt64 → Option (Fin poolSize)
  freeFrames : List (Fin poolSize)
  replacer : List (Fin poolSize)
  /-- `frameAllocationMutex` was left locked -/
  allocationLocked : Bool
  disk : DiskManager

namespace BufferPool

variable {poolSize : Nat}

/-- `NewSimpleBufferPoolManager`. -/
def new (poolSize : Nat) (disk : DiskManager) : BufferPool poolSize where
  frames _ := ⟨0, Buffer.zero 4096, 0, false⟩
  pageTable _ := none
  freeFrames := List.finRange poolSize
  replacer := []
  allocationLocked := false
  disk := disk

def setFrame (pool : BufferPool poolSize) (frameId : Fin poolSize) (frame : Frame) :
    BufferPool poolSize :=
  { pool with frames := Function.update pool.frames frameId frame }

def addPin (pool : BufferPool poolSize) (frameId : Fin poolSize) (count : Int) :
    BufferPool poolSize :=
  pool.setFrame frameId
    { pool.frames frameId with pinCount := (pool.frames frameId).pinCount + count }

/-- The section of `fetchPage` under `pinCountMutex`. -/
def pin (pool : BufferPool poolSize) (frameId : Fin poolSize) : Option (BufferPool poolSize) :=
  let pool := pool.addPin frameId 1
  if (pool.frames frameId).pinCount = 1 then do
    let replacer ← LRUReplacer.remove pool.replacer frameId
    some { pool with replacer }
  else some pool

/-- The section of `unpinPage` under `pinCountMutex`. -/
def unpin (pool : BufferPool poolSize) (frameId : Fin poolSize) : BufferPool poolSize :=
  let pool := pool.addPin frameId (-1)
  if (pool.frames frameId).pinCount = 0 then
    { pool with replacer := LRUReplacer.insert pool.replacer frameId }
  else pool

/-- The end of `fetchPage`: the frame gets the page that was read. -/
def load (pool : BufferPool poolSize) (frameId : Fin poolSize) (pageId : UInt64) (data : Page) :
    BufferPool poolSize :=
  { pool.setFrame frameId ⟨pageId, data, 1, false⟩ with
    pageTable := Function.update pool.pageTable pageId (some frameId) }

/-- The victim of an eviction leaves the replacer and the page table. -/
def evict (pool : BufferPool poolSize) (frameId : Fin poolSize) (replacer : List (Fin poolSize)) :
    BufferPool poolSize :=
  { pool with
    replacer
    pageTable := Function.update pool.pageTable (pool.frames frameId).pageId none }

/-- How a call ends: with a frame, with an error, waiting for `frameAllocationMutex` while it
holds `lookupMutex`, or with a panic. -/
inductive Fetched (poolSize : Nat) where
  | page (frameId : Fin poolSize)
  | error
  | blocked
  | panic

/-- `fetchPage` under `lookupMutex.Lock`. -/
def fetchExclusive (pool : BufferPool poolSize) (pageId : UInt64) (readFails : Bool)
    (result : WriteResult) : Fetched poolSize × BufferPool poolSize :=
  match pool.pageTable pageId with
  | some frameId =>
    match pool.pin frameId with
    | some pool => (.page frameId, pool)
    | none => (.panic, pool)
  | none =>
    match if readFails then none else pool.disk.read pageId with
    | none => (.error, pool)
    | some data =>
      if pool.allocationLocked then (.blocked, pool)
      else
        match pool.freeFrames with
        | frameId :: rest =>
          (.page frameId, { pool with freeFrames := rest }.load frameId pageId data)
        | [] =>
          match LRUReplacer.victim pool.replacer with
          | none => (.panic, pool)
          | some (frameId, replacer) =>
            let frame := pool.frames frameId
            let pool := pool.evict frameId replacer
            if frame.dirty then
              match pool.disk.write frame.pageId frame.data result with
              | (true, disk) => (.page frameId, { pool with disk }.load frameId pageId data)
              | (false, disk) => (.error, { pool with disk, allocationLocked := true })
            else (.page frameId, pool.load frameId pageId data)

/-- `deletePage`; `none` waits for `frameAllocationMutex`. The dirty flag stays as it was. -/
def deletePage (pool : BufferPool poolSize) (pageId : UInt64) :
    Option (Bool × BufferPool poolSize) :=
  match pool.pageTable pageId with
  | none => some (false, pool)
  | some frameId =>
    let frame := pool.frames frameId
    if frame.pinCount ≠ 1 then some (false, pool)
    else if pool.allocationLocked then none
    else
      let pool := pool.setFrame frameId { frame with pageId := 0, pinCount := 0 }
      some (true, { pool with
        freeFrames := pool.freeFrames ++ [frameId]
        pageTable := Function.update pool.pageTable pageId none
        disk := pool.disk.deallocatePage pageId })

/-- Page data written through a guard together with `SetDirtyFlag`. -/
def writeFrame (pool : BufferPool poolSize) (frameId : Fin poolSize) (data : Page) :
    BufferPool poolSize :=
  pool.setFrame frameId { pool.frames frameId with data, dirty := true }

/-- The loop of `FlushAllPages` over the page table; the dirty flags stay set. -/
def flushPages (pool : BufferPool poolSize) : List UInt64 → Option DiskManager
  | [] => some pool.disk
  | pageId :: rest =>
    match pool.pageTable pageId with
    | none => pool.flushPages rest
    | some frameId => do
      let frame := pool.frames frameId
      let disk ← if frame.dirty then pool.disk.writePage pageId frame.data else some pool.disk
      { pool with disk }.flushPages rest

end BufferPool

end CambiumDB
