import CambiumDB.BufferPool.GuardLife
import CambiumDB.PageCodec.LeafNode

/-!
# The guards of `bplustree/b_plus_tree_iterator.go`

An iterator moves a read guard along the leaves. `Next` gives the guard of a leaf back before it
asks for the next one. If that fails, the cursor keeps the guard that was given back, and the
next call of `Next` or `Close` follows its nil pointers.
-/

namespace CambiumDB

open TransitionSystem

variable {poolSize : Nat}

/-! ### Programs that call guards -/

/-- The calls that were made, how the program ended, and the state it left. -/
def GuardM (poolSize : Nat) (α : Type) : Type :=
  GuardTable poolSize → List (GuardEvent poolSize) × Except Halt α × GuardTable poolSize

namespace GuardM

variable {α β : Type}

instance : Monad (GuardM poolSize) where
  pure a s := ([], .ok a, s)
  bind program rest s :=
    match program s with
    | (events, .ok a, s') =>
      let (events', ending, s'') := rest a s'
      (events ++ events', ending, s'')
    | (events, .error halt, s') => (events, .error halt, s')

def orPanic (value : Option α) : GuardM poolSize α := fun s => ([], deref value, s)

/-- A call on a guard; it waits while the guard is not returned yet. -/
def perform (index : Nat) (call : GuardCall) : GuardM poolSize GuardAnswer := fun s =>
  match s.call index call with
  | some (answer, s') => ([⟨s, index, call, answer, s'⟩], deref answer, s')
  | none => ([], .error .waits, s)

/-- `NewReadGuard` up to the latch; `none` is an error. -/
def newReadGuard (pageId : UInt64) (readFails : Bool) (result : WriteResult) :
    GuardM poolSize (Option Nat) := fun s =>
  match s.memory.pool.fetchExclusive pageId readFails result with
  | (.page frameId, pool) =>
    ([], .ok (some s.guards.length), s.fetched .read pageId frameId pool)
  | (.error, pool) => ([], .ok none, { s with memory := { s.memory with pool } })
  | (.blocked, _) => ([], .error .waits, s)
  | (.panic, _) => ([], .error .panic, s)

/-- The bytes under a guard, for a function of the codec, which panics on a nil slice. -/
def pageData (index : Nat) : GuardM poolSize Page := do
  match ← perform index .getPageData with
  | .data (some data) => pure data
  | _ => orPanic none

end GuardM

/-! ### The iterator -/

/-- The cursor's guard and slot, and the pool, which is nil once the iterator is closed. -/
structure GuardIterator where
  readGuard : Nat
  currentSlotId : Nat
  bufferPoolManager : Option Unit

namespace GuardIterator

open GuardM

/-- `none` is an error. -/
def newBPlusIterator (firstLeafNodePageId : UInt64) (readFails : Bool) (result : WriteResult) :
    GuardM poolSize (Option GuardIterator) := do
  match ← newReadGuard firstLeafNodePageId readFails result with
  | none => pure none
  | some readGuard => pure (some ⟨readGuard, 0, some ()⟩)

/-- The loop of `nextSlot`, which reads the page again for every slot. -/
def skipSlots (readGuard : Nat) : Nat → Nat → GuardM poolSize Nat
  | 0, currentSlotId => pure currentSlotId
  | remaining + 1, currentSlotId => do
    let data ← pageData readGuard
    let deleted ← orPanic (LeafNodeCodec.isSlotDeleted data currentSlotId)
    if deleted then pure currentSlotId else skipSlots readGuard remaining (currentSlotId + 1)

/-- The answer `none` is -1. -/
def nextSlot (iterator : GuardIterator) : GuardM poolSize (Option Nat) := do
  let data ← pageData iterator.readGuard
  let numSlots := LeafNodeCodec.getNumSlots data
  let currentSlotId ← skipSlots iterator.readGuard (numSlots - iterator.currentSlotId)
    iterator.currentSlotId
  pure (if currentSlotId = numSlots then none else some currentSlotId)

/-- The answer is false at the end of the iterator and for an error. -/
def next (iterator : GuardIterator) (readFails : Bool) (result : WriteResult) :
    GuardM poolSize (Bool × GuardIterator) := do
  match ← iterator.nextSlot with
  | some _ => pure (true, iterator)
  | none =>
    let data ← pageData iterator.readGuard
    let iterator := { iterator with currentSlotId := 0 }
    let nextLeafNodePageId := LeafNodeCodec.getNextLeafNodePageId data
    if nextLeafNodePageId = 0 then pure (false, iterator)
    else
      let _ ← perform iterator.readGuard .done
      let _ ← orPanic iterator.bufferPoolManager
      match ← newReadGuard nextLeafNodePageId readFails result with
      | none => pure (false, iterator)
      | some readGuard => pure (true, { iterator with readGuard })

def close (iterator : GuardIterator) : GuardM poolSize GuardIterator := do
  let _ ← perform iterator.readGuard .done
  pure { iterator with bufferPoolManager := none }

end GuardIterator

/-- Guards and iterators over one pool. -/
structure IteratorTable (poolSize : Nat) where
  table : GuardTable poolSize
  iterators : List GuardIterator

namespace IteratorTable

/-- What a call on an iterator leaves; one that does not return leaves the iterator. -/
def finish (s : IteratorTable poolSize) (index : Nat) (ending : Except Halt GuardIterator)
    (table : GuardTable poolSize) : IteratorTable poolSize :=
  match ending with
  | .ok iterator => ⟨table, s.iterators.set index iterator⟩
  | .error _ => ⟨table, s.iterators⟩

inductive Step :
    IteratorTable poolSize → List (GuardEvent poolSize) → IteratorTable poolSize → Prop
  | guard {s : IteratorTable poolSize} {events : List (GuardEvent poolSize)}
      {table : GuardTable poolSize} :
      s.table.Step events table → Step s events ⟨table, s.iterators⟩
  | opened {s : IteratorTable poolSize} {first : UInt64} {readFails : Bool}
      {result : WriteResult} {events : List (GuardEvent poolSize)}
      {ending : Except Halt (Option GuardIterator)} {table : GuardTable poolSize} :
      GuardIterator.newBPlusIterator first readFails result s.table = (events, ending, table) →
      Step s events ⟨table, s.iterators ++ ending.toOption.join.toList⟩
  | next {s : IteratorTable poolSize} {index : Nat} {iterator : GuardIterator} {readFails : Bool}
      {result : WriteResult} {events : List (GuardEvent poolSize)}
      {ending : Except Halt (Bool × GuardIterator)} {table : GuardTable poolSize} :
      s.iterators[index]? = some iterator →
      iterator.next readFails result s.table = (events, ending, table) →
      Step s events (s.finish index (ending.map Prod.snd) table)
  | closed {s : IteratorTable poolSize} {index : Nat} {iterator : GuardIterator}
      {events : List (GuardEvent poolSize)} {ending : Except Halt GuardIterator}
      {table : GuardTable poolSize} :
      s.iterators[index]? = some iterator → iterator.close s.table = (events, ending, table) →
      Step s events (s.finish index ending table)

inductive Run :
    IteratorTable poolSize → List (GuardEvent poolSize) → IteratorTable poolSize → Prop
  | start {s : IteratorTable poolSize} : Run s [] s
  | next {s s' s'' : IteratorTable poolSize} {events events' : List (GuardEvent poolSize)} :
      Run s events s' → Step s' events' s'' → Run s (events ++ events') s''

def Opened (s : IteratorTable poolSize) : Prop := s.table.Opened ∧ s.iterators = []

end IteratorTable

/-! ### The calls of a program are steps of the guards -/

theorem GuardTable.Run.single {s s' : GuardTable poolSize} {events : List (GuardEvent poolSize)}
    (step : Step s events s') : Run s events s' := by
  have run := Run.next .start step
  rwa [List.nil_append] at run

theorem GuardTable.Run.trans {s s' s'' : GuardTable poolSize}
    {events events' : List (GuardEvent poolSize)} (first : Run s events s')
    (second : Run s' events' s'') : Run s (events ++ events') s'' := by
  induction second with
  | start =>
    rw [List.append_nil]
    exact first
  | next _ step ih =>
    rw [← List.append_assoc]
    exact .next ih step

namespace GuardM

variable {α β : Type}

/-- The events of the program are calls made one after the other. -/
def Emits (program : GuardM poolSize α) : Prop :=
  ∀ s events ending s', program s = (events, ending, s') → GuardTable.Run s events s'

theorem emits_pure (a : α) : Emits (pure a : GuardM poolSize α) := by
  intro s events ending s' run
  cases run
  exact .start

theorem emits_orPanic (value : Option α) : Emits (orPanic value : GuardM poolSize α) := by
  intro s events ending s' run
  cases run
  exact .start

theorem Emits.bind {program : GuardM poolSize α} {rest : α → GuardM poolSize β}
    (first : Emits program) (second : ∀ a, Emits (rest a)) : Emits (program >>= rest) := by
  intro s events ending s' run
  dsimp only [Bind.bind] at run
  rcases here : program s with ⟨events₁, ending₁ | a, s₁⟩
  · rw [here] at run
    cases run
    exact first _ _ _ _ here
  · rw [here] at run
    rcases there : rest a s₁ with ⟨events₂, ending₂, s₂⟩
    simp only [there] at run
    cases run
    exact (first _ _ _ _ here).trans (second a _ _ _ _ there)

theorem emits_perform (index : Nat) (call : GuardCall) :
    Emits (perform index call : GuardM poolSize GuardAnswer) := by
  intro s events ending s' run
  rw [perform] at run
  split at run
  next answer s₁ called =>
    cases run
    exact .single (.called called)
  next =>
    cases run
    exact .start

theorem emits_newReadGuard (pageId : UInt64) (readFails : Bool) (result : WriteResult) :
    Emits (newReadGuard pageId readFails result : GuardM poolSize (Option Nat)) := by
  intro s events ending s' run
  rw [newReadGuard] at run
  split at run
  next fetched =>
    cases run
    exact .single (.fetched .read fetched)
  next failed =>
    cases run
    exact .single (.notFetched failed)
  next =>
    cases run
    exact .start
  next =>
    cases run
    exact .start

theorem emits_pageData (index : Nat) : Emits (pageData index : GuardM poolSize Page) := by
  apply (emits_perform index .getPageData).bind
  intro answer
  split
  next => exact emits_pure _
  next => exact emits_orPanic _

end GuardM

namespace GuardIterator

open GuardM

theorem emits_newBPlusIterator (first : UInt64) (readFails : Bool) (result : WriteResult) :
    Emits (newBPlusIterator first readFails result :
      GuardM poolSize (Option GuardIterator)) := by
  apply (emits_newReadGuard first readFails result).bind
  intro readGuard
  split <;> exact emits_pure _

theorem emits_skipSlots (readGuard remaining currentSlotId : Nat) :
    Emits (skipSlots readGuard remaining currentSlotId : GuardM poolSize Nat) := by
  induction remaining generalizing currentSlotId with
  | zero => exact emits_pure _
  | succ remaining ih =>
    apply (emits_pageData readGuard).bind
    intro data
    apply (emits_orPanic _).bind
    intro deleted
    split
    · exact emits_pure _
    · exact ih (currentSlotId + 1)

theorem emits_nextSlot (iterator : GuardIterator) :
    Emits (iterator.nextSlot : GuardM poolSize (Option Nat)) := by
  apply (emits_pageData _).bind
  intro data
  apply (emits_skipSlots _ _ _).bind
  intro currentSlotId
  exact emits_pure _

theorem emits_next (iterator : GuardIterator) (readFails : Bool) (result : WriteResult) :
    Emits (iterator.next readFails result : GuardM poolSize (Bool × GuardIterator)) := by
  apply iterator.emits_nextSlot.bind
  intro slot
  split
  next => exact emits_pure _
  next =>
    apply (emits_pageData _).bind
    intro data
    dsimp only
    split
    · exact emits_pure _
    · apply (emits_perform _ _).bind
      intro _
      apply (emits_orPanic _).bind
      intro _
      apply (emits_newReadGuard _ readFails result).bind
      intro readGuard
      split <;> exact emits_pure _

theorem emits_close (iterator : GuardIterator) :
    Emits (iterator.close : GuardM poolSize GuardIterator) := by
  apply (emits_perform _ _).bind
  intro _
  exact emits_pure _

end GuardIterator

namespace IteratorTable

variable {s s' : IteratorTable poolSize} {events : List (GuardEvent poolSize)}

theorem finish_table (index : Nat) (ending : Except Halt GuardIterator)
    (table : GuardTable poolSize) : (s.finish index ending table).table = table := by
  cases ending <;> rfl

theorem Step.guards (step : Step s events s') : s.table.Run events s'.table := by
  cases step with
  | guard step => exact .single step
  | opened run => exact GuardIterator.emits_newBPlusIterator _ _ _ _ _ _ _ run
  | next found run =>
    rw [finish_table]
    exact GuardIterator.emits_next _ _ _ _ _ _ _ run
  | closed found run =>
    rw [finish_table]
    exact GuardIterator.emits_close _ _ _ _ _ run

theorem Run.guards (run : Run s events s') : s.table.Run events s'.table := by
  induction run with
  | start => exact .start
  | next _ step ih => exact ih.trans step.guards

/-- In a run of calls on guards and iterators, every call does what the life cycle of its guard
asks for exactly if no read guard is called after its `Done` and no `DeletePage` is called by the
only guard on its page. -/
theorem guards_lifeCycle_iff (opened : s.Opened) (run : Run s events s') :
    Always RightCall events ↔ Always (fun earlier e => ¬ Misuse earlier e) events :=
  (run.guards.traced opened.1).right

/-- A pool of one frame, and a guard of either kind on its metadata page. -/
theorem exists_first_guard (kind : GuardKind) : ∃ s s' : GuardTable 1, s.Opened ∧ s.Run [] s' ∧
    s'.guards = [⟨kind, 0, 0, some (.new 0)⟩] ∧ s'.memory.pool.allocationLocked = false := by
  obtain ⟨disk, created⟩ := DiskManager.create_isSome
  obtain ⟨data, read⟩ := DiskManager.create_read created
  let s : GuardTable 1 := ⟨⟨BufferPool.new 1 disk, fun _ => ⟨0, false⟩⟩, []⟩
  have fetched := BufferPool.fetchExclusive_free s.memory.pool rfl read rfl
    (List.finRange_succ (n := 0)) .done
  have latch : ∃ latch, Latch.acquire ⟨0, false⟩ kind = some latch := by
    cases kind
    · exact ⟨⟨1, false⟩, rfl⟩
    · exact ⟨⟨0, true⟩, rfl⟩
  obtain ⟨latch, free⟩ := latch
  have waiting := GuardTable.Run.next .start (.fetched kind fetched)
  have held := GuardTable.Run.next waiting (.latched (List.getElem?_cons_zero) rfl free)
  exact ⟨s, _, ⟨⟨disk, rfl⟩, rfl, rfl⟩, held, rfl, rfl⟩

theorem Run.of_guards {t t' : GuardTable poolSize} (run : t.Run events t') :
    Run ⟨t, []⟩ events ⟨t', []⟩ := by
  induction run with
  | start => exact .start
  | next _ step ih => exact .next ih (.guard step)

theorem guards_lifeCycle_of_done : ∃ (s s' : IteratorTable 1) (events : List (GuardEvent 1)),
    s.Opened ∧ Run s events s' ∧ events.map (·.call) = [.done] ∧ Always RightCall events := by
  obtain ⟨s, s₁, opened, run, guards, -⟩ := exists_first_guard .write
  have inv := (run.traced opened).inv
  have found : s₁.guards[0]? = some ⟨.write, 0, 0, some (.new 0)⟩ := by
    rw [guards]
    rfl
  obtain ⟨latch, done⟩ := inv.call_done found rfl
  have longer := Run.of_guards (.next run (.called done))
  refine ⟨⟨s, []⟩, _, _, ⟨opened, rfl⟩, longer, rfl,
    (guards_lifeCycle_iff ⟨opened, rfl⟩ longer).2 ?_⟩
  refine always_concat.2 ⟨always_nil, ?_⟩
  rintro ⟨handle, -, ⟨-, e, member, -⟩ | ⟨delete, -⟩⟩
  · cases member
  · cases delete

/-- A second `Done` on a read guard panics, and `DeletePage` denies that it deleted the page. -/
theorem guards_break_lifeCycle :
    (∃ (s s' : IteratorTable 1) (events : List (GuardEvent 1)), s.Opened ∧ Run s events s' ∧
      events.map (fun e => (e.call, e.answer)) =
        [(.done, some (.bool true)), (.done, none)] ∧ ¬ Always RightCall events) ∧
    ∃ (s s' : IteratorTable 1) (events : List (GuardEvent 1)), s.Opened ∧ Run s events s' ∧
      events.map (fun e => (e.call, e.answer)) = [(.deletePage, some (.bool false))] ∧
      ¬ Always RightCall events := by
  constructor
  · obtain ⟨s, s₁, opened, run, guards, -⟩ := exists_first_guard .read
    have found : s₁.guards[0]? = some ⟨.read, 0, 0, some (.new 0)⟩ := by
      rw [guards]
      rfl
    obtain ⟨latch, done⟩ := (run.traced opened).inv.call_done found rfl
    set s₂ := s₁.giveBack 0 ⟨.read, 0, 0, some (.new 0)⟩ (s₁.memory.pool.unpin 0) latch
    have ended : s₂.guards[0]? = some ⟨.read, 0, 0, some (.ended .read)⟩ :=
      List.getElem?_set_self (List.getElem?_eq_some_iff.1 found).1
    have again : s₂.call 0 .done = some (none, s₂) := by
      rw [GuardTable.call_of_guard ended rfl rfl, GuardTable.call_ended_read]
      rfl
    have longer := (run.next (.called done)).next (.called again)
    refine ⟨⟨s, []⟩, _, _, ⟨opened, rfl⟩, Run.of_guards longer, rfl, fun right => ?_⟩
    refine (always_concat.1 ((longer.traced opened).right.1 right)).2 ?_
    exact ⟨_, ended, .inl ⟨rfl, _, List.mem_singleton_self _, rfl, .inl ⟨rfl, rfl⟩⟩⟩
  · obtain ⟨s, s₁, opened, run, guards, unlocked⟩ := exists_first_guard .write
    have inv := (run.traced opened).inv
    have found : s₁.guards[0]? = some ⟨.write, 0, 0, some (.new 0)⟩ := by
      rw [guards]
      rfl
    have member := List.mem_of_getElem? found
    have single : s₁.pinsOf 0 = 1 := by
      rw [GuardTable.pinsOf, guards]
      rfl
    obtain ⟨mapped, page⟩ := inv.pageId_of_held member rfl
    have count := inv.consistent.pinCount _ _ mapped
    obtain ⟨latch, release, -⟩ := inv.release member rfl
    obtain ⟨pool, delete, -⟩ := BufferPool.deletePage_true mapped
      (count.trans (congrArg Int.ofNat single)) unlocked
    have deleted : ∃ s₂, s₁.call 0 .deletePage = some (some (.bool false), s₂) := by
      rw [GuardTable.call_of_guard found rfl rfl, GuardTable.call_deletePage_new release, page,
        delete]
      exact ⟨_, rfl⟩
    obtain ⟨s₂, deleted⟩ := deleted
    have longer := run.next (.called deleted)
    refine ⟨⟨s, []⟩, _, _, ⟨opened, rfl⟩, Run.of_guards longer, rfl, fun right => ?_⟩
    refine (always_concat.1 ((longer.traced opened).right.1 right)).2 ?_
    refine ⟨_, found, .inr ⟨rfl, ?_, single⟩⟩
    rintro ⟨e, none_before, -⟩
    cases none_before

end IteratorTable

end CambiumDB
