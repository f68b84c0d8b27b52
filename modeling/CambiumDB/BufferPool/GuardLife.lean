import CambiumDB.BufferPool.Guards

/-!
# Which calls on guards are right

The pin counts and the latches agree with the guards in every state that calls lead to
(`GuardTable.Inv`). From it follows what a call on a guard can do (`GuardTable.Called`), and that
it does what it should unless it is one of the two misuses (`GuardTable.Traced`).
-/

namespace CambiumDB

open TransitionSystem

variable {poolSize : Nat}

/-! ### Unpinning and deleting in a consistent pool -/

namespace BufferPool

variable {pool : BufferPool poolSize} {pinsOf : UInt64 → Nat} {pageId : UInt64}
  {frameId : Fin poolSize}

@[simp] theorem unpin_pageTable : (pool.unpin frameId).pageTable = pool.pageTable := by
  rw [unpin]
  split <;> rfl

theorem unpin_pinCount (f : Fin poolSize) : ((pool.unpin frameId).frames f).pinCount =
    (pool.frames f).pinCount - if f = frameId then 1 else 0 := by
  have frames : (pool.unpin frameId).frames = (pool.addPin frameId (-1)).frames := by
    rw [unpin]
    split <;> rfl
  rw [frames]
  by_cases same : f = frameId
  · subst same
    simp [Int.sub_eq_add_neg]
  · simp [addPin_frames_of_ne same, same]

theorem Consistent.unpin (h : pool.Consistent pinsOf fun _ => False)
    (found : pool.pageTable pageId = some frameId) (held : pinsOf pageId ≠ 0) :
    (pool.unpin frameId).Consistent (Function.update pinsOf pageId (pinsOf pageId - 1))
      (fun _ => False) := by
  have count := h.pinCount pageId frameId found
  have fits := h.replacer pageId frameId found not_false
  have outside : frameId ∉ pool.replacer := by
    rw [fits]
    omega
  have counted : ((Function.update pinsOf pageId (pinsOf pageId - 1) pageId : Nat) : Int) =
      pinsOf pageId + -1 := by
    rw [Function.update_self]
    omega
  have others : ∀ p, p ≠ pageId →
      Function.update pinsOf pageId (pinsOf pageId - 1) p = pinsOf p :=
    fun p other => Function.update_of_ne other _ _
  rw [BufferPool.unpin]
  split
  next last =>
    -- the frame is busy until it is in the replacer
    have busy := h.addPin found (-1) (· = frameId) counted others (fun _ inside => inside.elim)
      fun quiet => (quiet rfl).elim
    exact busy.inserted found last outside fun f other inside => other inside
  next shared =>
    rw [addPin_pinCount] at shared
    exact h.addPin found (-1) _ counted others (fun _ inside => inside) fun _ =>
      ⟨fun member => absurd member outside, fun zero => absurd zero shared⟩

theorem deletePage_pinCount {pool' : BufferPool poolSize}
    (run : pool.deletePage pageId = some (true, pool'))
    (found : pool.pageTable pageId = some frameId) :
    pool'.pageTable pageId = none ∧ ∀ f, (pool'.frames f).pinCount =
      (pool.frames f).pinCount - if f = frameId then 1 else 0 := by
  rw [deletePage, found] at run
  dsimp only at run
  split_ifs at run with shared locked
  · cases run
  · obtain ⟨-, rfl⟩ := Prod.mk.inj (Option.some.inj run)
    constructor
    · exact Function.update_self _ _ _
    · intro f
      by_cases same : f = frameId
      · subst same
        simp [not_not.1 shared]
      · simp [same]

theorem Consistent.pins_ne_one (h : pool.Consistent pinsOf fun _ => False)
    (found : pool.pageTable pageId = some frameId) {pool' : BufferPool poolSize}
    (run : pool.deletePage pageId = some (false, pool')) : pinsOf pageId ≠ 1 := by
  rw [BufferPool.deletePage, found] at run
  dsimp only at run
  split_ifs at run with shared locked
  · have count := h.pinCount pageId frameId found
    omega
  · cases run

end BufferPool

/-! ### What holds between two calls -/

theorem countP_set_add {α : Type} {p : α → Bool} {l : List α} {i : Nat} {a b : α}
    (found : l[i]? = some a) : (l.set i b).countP p + (if p a then 1 else 0) =
      l.countP p + if p b then 1 else 0 := by
  obtain ⟨inside, rfl⟩ := List.getElem?_eq_some_iff.1 found
  rw [List.countP_set inside]
  split
  next counted =>
    have positive : 0 < l.countP p := List.countP_pos_iff.2 ⟨_, List.getElem_mem inside, counted⟩
    omega
  next => omega

/-- What a guard is after its release: a read guard stays active. -/
def Guard.ended (kind : GuardKind) : Guard poolSize := ⟨decide (kind = .read), none, none⟩

namespace Handle

/-- The guard was returned and not given back. -/
def Held (handle : Handle poolSize) : Prop := handle.guard = some (.new handle.frameId)

def Ended (handle : Handle poolSize) : Prop := handle.guard = some (.ended handle.kind)

/-- The guard holds its latch. -/
def latches (handle : Handle poolSize) : Bool :=
  match handle.guard with
  | none => false
  | some guard => guard.page.isSome

variable {handle : Handle poolSize}

theorem pins_of_waiting (waiting : handle.guard = none) : handle.pins = true := by
  rw [pins, waiting]

theorem latches_of_waiting (waiting : handle.guard = none) : handle.latches = false := by
  rw [latches, waiting]

theorem Held.pins (held : handle.Held) : handle.pins = true := by
  rw [Handle.pins, held]
  rfl

theorem Held.latches (held : handle.Held) : handle.latches = true := by
  rw [Handle.latches, held]
  rfl

theorem Ended.pins (ended : handle.Ended) : handle.pins = false := by
  rw [Handle.pins, ended]
  rfl

theorem Ended.latches (ended : handle.Ended) : handle.latches = false := by
  rw [Handle.latches, ended]
  rfl

theorem Held.not_ended (held : handle.Held) : ¬ handle.Ended := by
  intro ended
  exact nomatch held.pins.symm.trans ended.pins

end Handle

namespace GuardTable

variable {s s' : GuardTable poolSize} {index : Nat} {handle : Handle poolSize}
  {call : GuardCall} {answer : Option GuardAnswer}

/-- How many guards hold the latch of a frame for one kind of access. -/
def latched (s : GuardTable poolSize) (kind : GuardKind) (frameId : Fin poolSize) : Nat :=
  s.guards.countP fun handle =>
    handle.kind = kind ∧ handle.frameId = frameId ∧ handle.latches

/-- The pool counts the guards that are held or waited for, the latches count those that are
held, and a guard is held, waited for or ended. -/
structure Inv (s : GuardTable poolSize) : Prop where
  consistent : s.memory.pool.Consistent s.pinsOf fun _ => False
  shape : ∀ handle ∈ s.guards, handle.guard = none ∨ handle.Held ∨ handle.Ended
  mapped : ∀ handle ∈ s.guards, handle.pins = true →
    s.memory.pool.pageTable handle.pageId = some handle.frameId
  latch : ∀ kind f, (s.memory.latches f).count kind = s.latched kind f

theorem pinsOf_set (found : s.guards[index]? = some handle) (memory : LatchedPool poolSize)
    (new : Handle poolSize) (p : UInt64) :
    pinsOf ⟨memory, s.guards.set index new⟩ p + (if handle.pageId = p ∧ handle.pins then 1 else 0) =
      s.pinsOf p + if new.pageId = p ∧ new.pins then 1 else 0 := by
  simpa only [decide_eq_true_eq, pinsOf] using countP_set_add
    (p := fun handle => decide (handle.pageId = p ∧ handle.pins)) (b := new) found

theorem latched_set (found : s.guards[index]? = some handle) (memory : LatchedPool poolSize)
    (new : Handle poolSize) (kind : GuardKind) (f : Fin poolSize) :
    latched ⟨memory, s.guards.set index new⟩ kind f +
        (if handle.kind = kind ∧ handle.frameId = f ∧ handle.latches then 1 else 0) =
      s.latched kind f + if new.kind = kind ∧ new.frameId = f ∧ new.latches then 1 else 0 := by
  simpa only [decide_eq_true_eq, latched] using countP_set_add
    (p := fun handle => decide (handle.kind = kind ∧ handle.frameId = f ∧ handle.latches))
    (b := new) found

theorem pinsOf_ne_zero (member : handle ∈ s.guards) (pins : handle.pins = true) :
    s.pinsOf handle.pageId ≠ 0 := by
  apply Nat.ne_of_gt
  exact List.countP_pos_iff.2 ⟨handle, member, by simp [pins]⟩

theorem latched_ne_zero (member : handle ∈ s.guards) (latches : handle.latches = true) :
    s.latched handle.kind handle.frameId ≠ 0 := by
  apply Nat.ne_of_gt
  exact List.countP_pos_iff.2 ⟨handle, member, by simp [latches]⟩

theorem Opened.inv (opened : s.Opened) : s.Inv := by
  obtain ⟨⟨disk, pool⟩, latches, guards⟩ := opened
  have pins : s.pinsOf = fun _ => 0 := by
    funext p
    rw [pinsOf, guards]
    rfl
  constructor
  case consistent =>
    rw [pins, pool]
    exact BufferPool.new_consistent disk
  case shape => simp [guards]
  case mapped => simp [guards]
  case latch =>
    intro kind f
    rw [latched, guards, latches]
    cases kind <;> rfl

/-- One guard changes its state, and the latch of its frame with it. The pool may change too,
as long as it keeps the pages that are still pinned. -/
theorem Inv.set (inv : s.Inv) (found : s.guards[index]? = some handle)
    {guard : Option (Guard poolSize)} {pool : BufferPool poolSize} {latch : Latch}
    {new : Handle poolSize} (same : new = { handle with guard })
    (shape : new.guard = none ∨ new.Held ∨ new.Ended)
    (fewer : new.pins = true → handle.pins = true)
    (consistent : pool.Consistent
      (pinsOf ⟨s.memory, s.guards.set index new⟩) fun _ => False)
    (kept : s.memory.pool.KeepsPinned pool (pinsOf ⟨s.memory, s.guards.set index new⟩))
    (counts : ∀ k, latch.count k + (if handle.kind = k ∧ handle.latches then 1 else 0) =
      (s.memory.latches handle.frameId).count k + if handle.kind = k ∧ new.latches then 1 else 0) :
    GuardTable.Inv ⟨⟨pool, Function.update s.memory.latches handle.frameId latch⟩,
      s.guards.set index new⟩ := by
  constructor
  case consistent => exact consistent
  case shape =>
    intro other member
    rcases List.mem_or_eq_of_mem_set member with old | rfl
    · exact inv.shape other old
    · exact shape
  case mapped =>
    intro other member pins
    rw [kept other.pageId (pinsOf_ne_zero (s := ⟨s.memory, s.guards.set index new⟩) member pins)]
    rcases List.mem_or_eq_of_mem_set member with old | rfl
    · exact inv.mapped other old pins
    · subst same
      exact inv.mapped handle (List.mem_of_getElem? found) (fewer pins)
  case latch =>
    intro kind f
    have count := latched_set found s.memory new kind f
    have before := inv.latch kind f
    dsimp only
    rw [Function.update_apply]
    subst same
    split
    next here =>
      subst here
      have after := counts kind
      simp only [true_and] at count
      exact Nat.add_right_cancel (after.trans (before ▸ count.symm))
    next other =>
      simp only [Ne.symm other, false_and, and_false, if_false] at count
      exact before.trans count.symm

theorem Inv.mapped_of_kept (inv : s.Inv) {pool : BufferPool poolSize}
    (kept : s.memory.pool.KeepsPinned pool s.pinsOf) : ∀ handle ∈ s.guards, handle.pins = true →
      pool.pageTable handle.pageId = some handle.frameId := by
  intro handle member pins
  rw [kept handle.pageId (pinsOf_ne_zero member pins)]
  exact inv.mapped handle member pins

/-- A pool in which the same pages are pinned equally often. -/
theorem Inv.withPool (inv : s.Inv) {pool : BufferPool poolSize}
    (consistent : pool.Consistent s.pinsOf fun _ => False)
    (kept : s.memory.pool.KeepsPinned pool s.pinsOf) :
    GuardTable.Inv ⟨⟨pool, s.memory.latches⟩, s.guards⟩ where
  consistent := consistent
  shape := inv.shape
  mapped := inv.mapped_of_kept kept
  latch := inv.latch

/-- A frame changes its bytes or its dirty flag. -/
theorem Inv.setFrame (inv : s.Inv) (frameId : Fin poolSize) {frame : Frame}
    (page : frame.pageId = (s.memory.pool.frames frameId).pageId)
    (count : frame.pinCount = (s.memory.pool.frames frameId).pinCount) :
    GuardTable.Inv ⟨⟨s.memory.pool.setFrame frameId frame, s.memory.latches⟩, s.guards⟩ := by
  refine inv.withPool (inv.consistent.sameBook rfl rfl rfl ?_ ?_) fun _ _ => rfl
  all_goals
    intro f
    rw [BufferPool.setFrame_frames]
    split
    next same => simp only [same, page, count]
    next => rfl

theorem Inv.fetched (inv : s.Inv) (kind : GuardKind) {pageId : UInt64} {frameId : Fin poolSize}
    {pool : BufferPool poolSize}
    (consistent : pool.Consistent (BufferPool.pinned s.pinsOf pageId) fun _ => False)
    (found : pool.pageTable pageId = some frameId)
    (kept : s.memory.pool.KeepsPinned pool s.pinsOf) :
    (s.fetched kind pageId frameId pool).Inv := by
  have pins : (s.fetched kind pageId frameId pool).pinsOf =
      BufferPool.pinned s.pinsOf pageId := by
    funext p
    have pins : Handle.pins (⟨kind, pageId, frameId, none⟩ : Handle poolSize) = true := rfl
    rw [pinsOf, GuardTable.fetched, List.countP_append, BufferPool.pinned, Function.update_apply]
    by_cases same : p = pageId
    · subst same
      simp only [List.countP_singleton, pins, and_true, decide_true, if_true]
      rfl
    · simp only [List.countP_singleton, pins, and_true, Ne.symm same, same, decide_false, if_false,
        Bool.false_eq_true, Nat.add_zero]
      rfl
  constructor
  case consistent =>
    rw [pins]
    exact consistent
  case shape =>
    intro other member
    rcases List.mem_append.1 member with old | new
    · exact inv.shape other old
    · obtain rfl := List.mem_singleton.1 new
      exact .inl rfl
  case mapped =>
    intro other member pinned
    rcases List.mem_append.1 member with old | new
    · exact inv.mapped_of_kept kept other old pinned
    · obtain rfl := List.mem_singleton.1 new
      exact found
  case latch =>
    intro kind' f
    have latches : Handle.latches (⟨kind, pageId, frameId, none⟩ : Handle poolSize) = false := rfl
    rw [latched, GuardTable.fetched, List.countP_append]
    simp only [List.countP_singleton, latches, and_false, decide_false, Bool.false_eq_true,
      if_false, Nat.add_zero]
    exact inv.latch kind' f

theorem Inv.latched (inv : s.Inv) (found : s.guards[index]? = some handle)
    (waiting : handle.guard = none) {latch : Latch}
    (taken : (s.memory.latches handle.frameId).acquire handle.kind = some latch) :
    GuardTable.Inv ⟨⟨s.memory.pool, Function.update s.memory.latches handle.frameId latch⟩,
      s.guards.set index { handle with guard := some (.new handle.frameId) }⟩ := by
  have pins := Handle.pins_of_waiting waiting
  have held : Handle.Held { handle with guard := some (.new handle.frameId) } := rfl
  -- the page was pinned when it was fetched
  have same : pinsOf ⟨s.memory, s.guards.set index
      { handle with guard := some (.new handle.frameId) }⟩ = s.pinsOf := by
    funext p
    have count := pinsOf_set found s.memory { handle with guard := some (.new handle.frameId) } p
    rw [pins, held.pins] at count
    exact Nat.add_right_cancel count
  apply inv.set found rfl (.inr (.inl held)) (fun _ => pins)
  · rw [same]
    exact inv.consistent
  · intro p _
    rfl
  · intro k
    rw [Latch.acquire_count taken, held.latches, Handle.latches_of_waiting waiting]
    simp [eq_comm]

/-- The guard is released: `pool` and `latch` are what remains. -/
def giveBack (s : GuardTable poolSize) (index : Nat) (handle : Handle poolSize)
    (pool : BufferPool poolSize) (latch : Latch) : GuardTable poolSize :=
  ⟨⟨pool, Function.update s.memory.latches handle.frameId latch⟩,
    s.guards.set index { handle with guard := some (.ended handle.kind) }⟩

@[simp] theorem giveBack_pool (pool : BufferPool poolSize) (latch : Latch) :
    (s.giveBack index handle pool latch).memory.pool = pool := rfl

@[simp] theorem giveBack_latches (pool : BufferPool poolSize) (latch : Latch) :
    (s.giveBack index handle pool latch).memory.latches =
      Function.update s.memory.latches handle.frameId latch := rfl

theorem Inv.giveBack (inv : s.Inv) (found : s.guards[index]? = some handle) (held : handle.Held)
    {pool : BufferPool poolSize} {latch : Latch}
    (consistent : pool.Consistent
      (Function.update s.pinsOf handle.pageId (s.pinsOf handle.pageId - 1)) fun _ => False)
    (kept : s.memory.pool.KeepsPinned pool
      (Function.update s.pinsOf handle.pageId (s.pinsOf handle.pageId - 1)))
    (unlocked : ∀ k, latch.count k + (if k = handle.kind then 1 else 0) =
      (s.memory.latches handle.frameId).count k) :
    (s.giveBack index handle pool latch).Inv := by
  have ended : Handle.Ended { handle with guard := some (.ended handle.kind) } := rfl
  have fewer : pinsOf ⟨s.memory, s.guards.set index
      { handle with guard := some (.ended handle.kind) }⟩ =
        Function.update s.pinsOf handle.pageId (s.pinsOf handle.pageId - 1) := by
    funext p
    have count := pinsOf_set found s.memory { handle with guard := some (.ended handle.kind) } p
    rw [held.pins, ended.pins] at count
    rw [Function.update_apply]
    split
    next same =>
      subst same
      simp only [and_true, if_true, Bool.false_eq_true, and_false, if_false] at count
      omega
    next other => simpa [Ne.symm other] using count
  apply inv.set found rfl (.inr (.inr ended)) (fun _ => held.pins)
  · rw [fewer]
    exact consistent
  · rw [fewer]
    exact kept
  · intro k
    rw [held.latches, ended.latches, ← unlocked k]
    simp [eq_comm]

/-! ### What a call can do -/

/-- The ways in which a call on the guard of a handle can end. -/
inductive Called (s : GuardTable poolSize) (index : Nat) (handle : Handle poolSize) :
    GuardCall → Option GuardAnswer → GuardTable poolSize → Prop
  | asked {call : GuardCall} {answer : GuardAnswer} : handle.Held →
      call = .getPageId ∨ call = .getPageData ∨ call = .isActive →
      Called s index handle call (some answer) s
  | dirtied : handle.Held → Called s index handle .setDirtyFlag (some (.bool true))
      ⟨⟨s.memory.pool.setFrame handle.frameId
        { s.memory.pool.frames handle.frameId with dirty := true }, s.memory.latches⟩, s.guards⟩
  | done {latch : Latch} : handle.Held →
      (s.memory.latches handle.frameId).release handle.kind = some latch →
      Called s index handle .done (some (.bool true))
        (s.giveBack index handle (s.memory.pool.unpin handle.frameId) latch)
  | shared {pool : BufferPool poolSize} : handle.Held →
      s.memory.pool.deletePage handle.pageId = some (false, pool) →
      Called s index handle .deletePage (some (.bool false)) s
  | deleted {pool : BufferPool poolSize} {latch : Latch} : handle.Held → handle.kind = .write →
      s.memory.pool.deletePage handle.pageId = some (true, pool) →
      (s.memory.latches handle.frameId).release handle.kind = some latch →
      Called s index handle .deletePage (some (.bool false)) (s.giveBack index handle pool latch)
  | inactive {call : GuardCall} : handle.Ended → handle.kind = .write →
      Called s index handle call (some call.inactive) s
  | stillActive : handle.Ended → handle.kind = .read →
      Called s index handle .isActive (some (.bool true)) s
  | crashed {call : GuardCall} : handle.Ended → handle.kind = .read →
      Called s index handle call none s

theorem Inv.release (inv : s.Inv) (member : handle ∈ s.guards) (held : handle.Held) :
    ∃ latch, (s.memory.latches handle.frameId).release handle.kind = some latch ∧
      ∀ k, latch.count k + (if k = handle.kind then 1 else 0) =
        (s.memory.latches handle.frameId).count k := by
  apply Latch.release_count
  rw [inv.latch]
  exact latched_ne_zero member held.latches

/-- What a held guard finds in its frame. -/
theorem Inv.pageId_of_held (inv : s.Inv) (member : handle ∈ s.guards) (held : handle.Held) :
    s.memory.pool.pageTable handle.pageId = some handle.frameId ∧
      (s.memory.pool.frames handle.frameId).pageId = handle.pageId := by
  have mapped := inv.mapped handle member held.pins
  exact ⟨mapped, inv.consistent.mapped _ _ mapped⟩

theorem set_self (found : s.guards[index]? = some handle) {guard : Guard poolSize}
    (same : handle.guard = some guard) :
    s.guards.set index { handle with guard := some guard } = s.guards := by
  obtain ⟨inside, rfl⟩ := List.getElem?_eq_some_iff.1 found
  rw [← same]
  exact List.set_getElem_self inside

theorem call_done_new (kind : GuardKind) {memory : LatchedPool poolSize} {frameId : Fin poolSize}
    {latch : Latch}
    (mapped : memory.pool.pageTable (memory.pool.frames frameId).pageId = some frameId)
    (unlocked : (memory.latches frameId).release kind = some latch) :
    (Guard.new frameId).call kind memory .done = .ok (.bool true, .ended kind,
      ⟨memory.pool.unpin frameId, Function.update memory.latches frameId latch⟩) := by
  cases kind <;> simp [Guard.call, ReadGuard.done, WriteGuard.done, Guard.new, Guard.ended, deref,
    BufferPool.unpinPage, mapped, unlocked, bind, Except.bind]

theorem call_deletePage_new {memory : LatchedPool poolSize} {frameId : Fin poolSize}
    {latch : Latch} (unlocked : (memory.latches frameId).release .write = some latch) :
    (Guard.new frameId).call .write memory .deletePage =
      match memory.pool.deletePage (memory.pool.frames frameId).pageId with
      | none => .error .waits
      | some (false, pool) => .ok (.bool false, .new frameId, ⟨pool, memory.latches⟩)
      | some (true, pool) => .ok (.bool false, .ended .write,
          ⟨pool, Function.update memory.latches frameId latch⟩) := by
  rcases delete : memory.pool.deletePage (memory.pool.frames frameId).pageId with
    _ | ⟨_ | _, pool⟩ <;>
  simp [Guard.call, WriteGuard.deletePage, Guard.new, Guard.ended, deref, delete, unlocked, bind,
    Except.bind]

theorem call_ended_write (memory : LatchedPool poolSize) (call : GuardCall) :
    (Guard.ended .write).call .write memory call =
      .ok (call.inactive, .ended .write, memory) := by
  cases call <;> rfl

/-- `active` is still set and the pointers are nil. -/
theorem call_ended_read (memory : LatchedPool poolSize) (call : GuardCall) :
    (Guard.ended .read).call .read memory call =
      if call = .isActive then .ok (.bool true, .ended .read, memory) else .error .panic := by
  cases call <;> rfl

theorem call_of_guard (found : s.guards[index]? = some handle) {guard : Guard poolSize}
    (returned : handle.guard = some guard) (offered : handle.kind.offers call = true) :
    s.call index call = s.finish index handle (guard.call handle.kind s.memory call) := by
  simp [GuardTable.call, found, returned, offered]

theorem Inv.call_done (inv : s.Inv) (found : s.guards[index]? = some handle)
    (held : handle.Held) : ∃ latch, s.call index .done = some (some (.bool true),
      s.giveBack index handle (s.memory.pool.unpin handle.frameId) latch) := by
  have member := List.mem_of_getElem? found
  obtain ⟨mapped, page⟩ := inv.pageId_of_held member held
  obtain ⟨latch, unlocked, -⟩ := inv.release member held
  refine ⟨latch, ?_⟩
  rw [call_of_guard found held (by cases handle.kind <;> rfl),
    call_done_new handle.kind (page.symm ▸ mapped) unlocked]
  rfl

theorem Inv.called_held (inv : s.Inv) (found : s.guards[index]? = some handle)
    (held : handle.Held) (offered : handle.kind.offers call = true)
    (run : s.finish index handle ((Guard.new handle.frameId).call handle.kind s.memory call) =
      some (answer, s')) :
    Called s index handle call answer s' := by
  have member := List.mem_of_getElem? found
  obtain ⟨mapped, page⟩ := inv.pageId_of_held member held
  obtain ⟨latch, unlocked, -⟩ := inv.release member held
  have same := set_self found held
  cases call with
  | done =>
    rw [call_done_new handle.kind (page.symm ▸ mapped) unlocked] at run
    obtain ⟨rfl, rfl⟩ := Prod.mk.inj (Option.some.inj run)
    exact .done held unlocked
  | deletePage =>
    have kind : handle.kind = .write := by
      cases kind : handle.kind with
      | read => rw [kind] at offered; cases offered
      | write => rfl
    rw [kind, call_deletePage_new (kind ▸ unlocked), page] at run
    rcases delete : s.memory.pool.deletePage handle.pageId with _ | ⟨_ | _, pool⟩
    · rw [delete] at run
      cases run
    · rw [delete] at run
      obtain ⟨rfl, rfl⟩ := Prod.mk.inj (Option.some.inj run)
      rw [same, BufferPool.deletePage_false delete]
      exact .shared held delete
    · rw [delete] at run
      obtain ⟨rfl, rfl⟩ := Prod.mk.inj (Option.some.inj run)
      exact kind ▸ Called.deleted held kind delete unlocked
  | setDirtyFlag =>
    obtain ⟨rfl, rfl⟩ := Prod.mk.inj (Option.some.inj run)
    rw [same]
    exact .dirtied held
  | getPageId =>
    obtain ⟨rfl, rfl⟩ := Prod.mk.inj (Option.some.inj run)
    rw [same]
    exact .asked held (.inl rfl)
  | getPageData =>
    obtain ⟨rfl, rfl⟩ := Prod.mk.inj (Option.some.inj run)
    rw [same]
    exact .asked held (.inr (.inl rfl))
  | isActive =>
    obtain ⟨rfl, rfl⟩ := Prod.mk.inj (Option.some.inj run)
    rw [same]
    exact .asked held (.inr (.inr rfl))

theorem Inv.called (inv : s.Inv) (run : s.call index call = some (answer, s')) :
    ∃ handle, s.guards[index]? = some handle ∧ Called s index handle call answer s' := by
  rw [GuardTable.call] at run
  obtain ⟨handle, found, run⟩ := Option.bind_eq_some_iff.1 run
  obtain ⟨guard, returned, run⟩ := Option.bind_eq_some_iff.1 run
  refine ⟨handle, found, ?_⟩
  have member := List.mem_of_getElem? found
  split at run
  next offered =>
    rcases inv.shape handle member with waiting | held | ended
    · exact nomatch waiting.symm.trans returned
    · obtain rfl : guard = .new handle.frameId := Option.some.inj (returned.symm.trans held)
      exact inv.called_held found held offered run
    · obtain rfl : guard = .ended handle.kind := Option.some.inj (returned.symm.trans ended)
      have same := set_self found ended
      cases kind : handle.kind with
      | read =>
        rw [kind, call_ended_read] at run
        by_cases ask : call = .isActive
        · rw [if_pos ask, ← kind] at run
          obtain ⟨rfl, rfl⟩ := Prod.mk.inj (Option.some.inj run)
          rw [same, ask]
          exact .stillActive ended kind
        · rw [if_neg ask] at run
          obtain ⟨rfl, rfl⟩ := Prod.mk.inj (Option.some.inj run)
          exact .crashed ended kind
      | write =>
        rw [kind, call_ended_write, ← kind] at run
        obtain ⟨rfl, rfl⟩ := Prod.mk.inj (Option.some.inj run)
        rw [same]
        exact .inactive ended kind
  next => cases run

/-! ### A call keeps the invariant, and is right unless it is a misuse -/

theorem Called.inv (called : Called s index handle call answer s') (inv : s.Inv)
    (found : s.guards[index]? = some handle) : s'.Inv := by
  have member := List.mem_of_getElem? found
  cases called with
  | asked | shared | inactive | stillActive | crashed => exact inv
  | dirtied => exact inv.setFrame handle.frameId rfl rfl
  | @done latch held unlocked =>
    obtain ⟨latch', same, counts⟩ := inv.release member held
    obtain rfl : latch = latch' := Option.some.inj (unlocked.symm.trans same)
    have pinned := pinsOf_ne_zero member held.pins
    refine inv.giveBack found held (inv.consistent.unpin ?_ pinned) ?_ counts
    · exact inv.mapped handle member held.pins
    · intro p _
      rw [BufferPool.unpin_pageTable]
  | @deleted pool latch held kind delete unlocked =>
    obtain ⟨latch', same, counts⟩ := inv.release member held
    obtain rfl : latch = latch' := Option.some.inj (unlocked.symm.trans same)
    obtain ⟨single, consistent, others⟩ := inv.consistent.deletePage delete
    apply inv.giveBack found held _ _ counts
    · rw [single]
      exact consistent
    · -- nobody else has the page pinned
      intro p pinned
      apply others
      rintro rfl
      rw [Function.update_self, single] at pinned
      exact pinned rfl

theorem not_releases (table : s'.memory.pool.pageTable = s.memory.pool.pageTable)
    (other : ¬ (call = .done ∧ answer = some (.bool true))) :
    ¬ GuardEvent.Releases ⟨s, index, call, answer, s'⟩ := by
  rintro (done | ⟨-, handle, -, mapped, gone⟩)
  · exact other done
  · exact mapped ((congrFun table _).symm.trans gone)

theorem givesBack (found : s.guards[index]? = some handle)
    (mapped : s.memory.pool.pageTable handle.pageId = some handle.frameId)
    {pool : BufferPool poolSize} {latch : Latch}
    (unlocked : (s.memory.latches handle.frameId).release handle.kind = some latch)
    (counts : ∀ f, (pool.frames f).pinCount =
      (s.memory.pool.frames f).pinCount - if f = handle.frameId then 1 else 0) :
    GuardEvent.GivesBack ⟨s, index, call, answer, s.giveBack index handle pool latch⟩ := by
  refine ⟨handle, found, mapped, ?_, ?_, ?_⟩
  · simpa using counts handle.frameId
  · simpa using unlocked
  · intro f other
    constructor
    · simpa [other] using counts f
    · simp [other]

/-- A call on a guard releases it, or leaves all guards, pins and latches as they were. -/
theorem Called.releases_or_keeps (called : Called s index handle call answer s') (inv : s.Inv)
    (found : s.guards[index]? = some handle) :
    (handle.Held ∧ GuardEvent.Releases ⟨s, index, call, answer, s'⟩ ∧
      GuardEvent.GivesBack ⟨s, index, call, answer, s'⟩ ∧
      s'.guards = s.guards.set index { handle with guard := some (.ended handle.kind) }) ∨
    (¬ GuardEvent.Releases ⟨s, index, call, answer, s'⟩ ∧
      GuardEvent.KeepsHold ⟨s, index, call, answer, s'⟩ ∧ s'.guards = s.guards) := by
  have member := List.mem_of_getElem? found
  have unchanged : ¬ (call = .done ∧ answer = some (.bool true)) → s' = s →
      (¬ GuardEvent.Releases ⟨s, index, call, answer, s'⟩ ∧
        GuardEvent.KeepsHold ⟨s, index, call, answer, s'⟩ ∧ s'.guards = s.guards) := by
    rintro other rfl
    exact ⟨not_releases rfl other, ⟨rfl, fun _ => rfl⟩, rfl⟩
  cases called with
  | asked held ask =>
    refine .inr (unchanged ?_ rfl)
    rintro ⟨rfl, -⟩
    simp at ask
  | shared | stillActive | crashed => exact .inr (unchanged (by simp) rfl)
  | inactive =>
    refine .inr (unchanged ?_ rfl)
    rintro ⟨rfl, true⟩
    simp [GuardCall.inactive] at true
  | dirtied =>
    refine .inr ⟨not_releases rfl (by simp), ⟨rfl, fun f => ?_⟩, rfl⟩
    dsimp only
    rw [BufferPool.setFrame_frames]
    split
    next same => rw [same]
    next => rfl
  | done held unlocked =>
    have mapped := inv.mapped handle member held.pins
    exact .inl ⟨held, .inl ⟨rfl, rfl⟩,
      givesBack found mapped unlocked BufferPool.unpin_pinCount, rfl⟩
  | deleted held kind delete unlocked =>
    have mapped := inv.mapped handle member held.pins
    obtain ⟨gone, counts⟩ := BufferPool.deletePage_pinCount delete mapped
    refine .inl ⟨held, .inr ⟨rfl, handle, found, ?_, gone⟩, givesBack found mapped unlocked counts,
      rfl⟩
    simp [mapped]

theorem Called.right_iff (called : Called s index handle call answer s') (inv : s.Inv)
    (found : s.guards[index]? = some handle) {earlier : List (GuardEvent poolSize)}
    (released : Released earlier index ↔ handle.Ended) :
    RightCall earlier ⟨s, index, call, answer, s'⟩ ↔
      ¬ Misuse earlier ⟨s, index, call, answer, s'⟩ := by
  have known : Misuse earlier ⟨s, index, call, answer, s'⟩ ↔
      handle.kind = .read ∧ handle.Ended ∨
        call = .deletePage ∧ ¬ handle.Ended ∧ s.pinsOf handle.pageId = 1 := by
    rw [Misuse]
    simp only [found, Option.some.injEq, exists_eq_left', released]
  rw [known]
  have member := List.mem_of_getElem? found
  -- a call that returns, is no `DeletePage` and releases the guard if it is `Done`
  have plain : handle.Held → call ≠ .deletePage → answer ≠ none →
      (call = .done → GuardEvent.Releases ⟨s, index, call, answer, s'⟩) →
      RightCall earlier ⟨s, index, call, answer, s'⟩ := by
    intro held other returns done
    refine ⟨fun before => absurd (released.1 before) held.not_ended, fun _ => ?_,
      fun delete => absurd delete other⟩
    rcases called.releases_or_keeps inv found with ⟨-, releases, gives, -⟩ | ⟨not, keeps, -⟩
    · exact ⟨returns, done, fun _ => gives, absurd releases⟩
    · exact ⟨returns, done, fun releases => absurd releases not, fun _ => keeps⟩
  cases called with
  | asked held ask =>
    have other : call ≠ .deletePage := by
      rintro rfl
      simp at ask
    refine iff_of_true (plain held other (by simp) ?_) (by simp [held.not_ended, other])
    rintro rfl
    simp at ask
  | dirtied held =>
    exact iff_of_true (plain held (by simp) (by simp) (by simp)) (by simp [held.not_ended])
  | done held unlocked =>
    refine iff_of_true (plain held (by simp) (by simp) fun _ => .inl ⟨rfl, rfl⟩) ?_
    simp [held.not_ended]
  | shared held delete =>
    have several := inv.consistent.pins_ne_one (inv.mapped handle member held.pins) delete
    have none_deleted : ¬ GuardEvent.Deletes ⟨s, index, .deletePage, some (.bool false), s⟩ :=
      fun ⟨_, _, mapped, gone⟩ => mapped gone
    refine iff_of_true ⟨fun before => absurd (released.1 before) held.not_ended, fun _ => ?_, ?_⟩
      (by simp [held.not_ended, several])
    · refine ⟨by simp, nofun, fun releases => ?_, fun _ => ⟨rfl, fun _ => rfl⟩⟩
      exact absurd releases (not_releases rfl (by simp))
    · intro _
      simp [none_deleted]
  | deleted held kind delete unlocked =>
    -- the page is gone and the guard inactive, and still the answer is false
    have mapped := inv.mapped handle member held.pins
    refine iff_of_false (fun right => ?_)
      (not_not.2 (.inr ⟨rfl, held.not_ended, (inv.consistent.deletePage delete).1⟩))
    have gone := (BufferPool.deletePage_pinCount delete mapped).1
    have inside := (List.getElem?_eq_some_iff.1 found).1
    have answered := (right.deleted rfl).2 ⟨⟨handle, found, by simp [mapped], gone⟩,
      _, .ended handle.kind, List.getElem?_set_self inside, rfl, by simp [Guard.ended, kind]⟩
    simp at answered
  | inactive ended kind =>
    refine iff_of_true ⟨fun _ => ⟨rfl, rfl⟩, fun before => absurd (released.2 ended) before, ?_⟩
      (by simp [ended, kind])
    rintro rfl
    refine iff_of_false (by simp [GuardCall.inactive]) ?_
    rintro ⟨⟨_, _, mapped, gone⟩, -⟩
    exact mapped gone
  | stillActive ended kind =>
    refine iff_of_false (fun right => ?_) (not_not.2 (.inl ⟨kind, ended⟩))
    have answered := (right.later (released.2 ended)).1
    simp [GuardCall.inactive] at answered
  | crashed ended kind =>
    refine iff_of_false (fun right => ?_) (not_not.2 (.inl ⟨kind, ended⟩))
    exact nomatch (right.later (released.2 ended)).1

/-! ### Runs -/

/-- What is known after the events: the guards that have ended are those that were released, and
every call so far was right exactly if none was a misuse. -/
structure Traced (events : List (GuardEvent poolSize)) (s : GuardTable poolSize) : Prop where
  inv : s.Inv
  released : ∀ index handle, s.guards[index]? = some handle →
    (Released events index ↔ handle.Ended)
  named : ∀ e ∈ events, e.index < s.guards.length
  right : Always RightCall events ↔ Always (fun earlier e => ¬ Misuse earlier e) events

variable {events : List (GuardEvent poolSize)}

theorem Opened.traced (opened : s.Opened) : Traced [] s where
  inv := opened.inv
  released index handle found := by
    rw [opened.2.2] at found
    cases found
  named := by simp
  right := iff_of_true always_nil always_nil

theorem released_concat {e : GuardEvent poolSize} {j : Nat} :
    Released (events ++ [e]) j ↔ Released events j ∨ e.index = j ∧ e.Releases := by
  simp [Released, or_and_right, exists_or]

/-- A step that is no call ends no guard, and changes none that has ended. -/
theorem Traced.quiet (traced : Traced events s) (inv : s'.Inv)
    (longer : s.guards.length ≤ s'.guards.length)
    (change : ∀ (index : Nat) (new : Handle poolSize), s'.guards[index]? = some new →
      s.guards[index]? = some new ∨
        ¬ new.Ended ∧ ∀ old : Handle poolSize, s.guards[index]? = some old → ¬ old.Ended) :
    Traced events s' where
  inv := inv
  released index new found := by
    rcases change index new found with same | ⟨notEnded, before⟩
    · exact traced.released index new same
    · refine iff_of_false (fun released => ?_) notEnded
      obtain ⟨e, member, rfl, -⟩ := id released
      have here := List.getElem?_eq_getElem (traced.named e member)
      exact before _ here ((traced.released _ _ here).1 released)
  named e member := (traced.named e member).trans_le longer
  right := traced.right

theorem Traced.sameGuards (traced : Traced events s) {memory : LatchedPool poolSize}
    (inv : GuardTable.Inv ⟨memory, s.guards⟩) : Traced events ⟨memory, s.guards⟩ := by
  exact traced.quiet inv le_rfl fun _ _ found => .inl found

theorem Traced.called (traced : Traced events s)
    (run : s.call index call = some (answer, s')) :
    Traced (events ++ [⟨s, index, call, answer, s'⟩]) s' := by
  obtain ⟨handle, found, called⟩ := traced.inv.called run
  have before := traced.released index handle found
  have inside := (List.getElem?_eq_some_iff.1 found).1
  refine ⟨called.inv traced.inv found, ?_, ?_,
    always_iff_concat traced.right (called.right_iff traced.inv found before)⟩
  · intro j handle' here
    rw [released_concat]
    rcases called.releases_or_keeps traced.inv found with
      ⟨-, releases, -, guards⟩ | ⟨not, -, guards⟩
    · rw [guards, List.getElem?_set] at here
      split at here
      next same =>
        subst same
        obtain rfl := Option.some.inj here
        exact iff_of_true (.inr ⟨rfl, releases⟩) rfl
      next other =>
        rw [← traced.released j handle' here]
        simp [other]
    · rw [guards] at here
      rw [← traced.released j handle' here]
      simp [not]
  · intro e member
    have length : s'.guards.length = s.guards.length := by
      rcases called.releases_or_keeps traced.inv found with
        ⟨-, -, -, guards⟩ | ⟨-, -, guards⟩ <;> simp [guards]
    rw [length]
    rcases List.mem_append.1 member with old | new
    · exact traced.named e old
    · obtain rfl := List.mem_singleton.1 new
      exact inside

theorem Traced.step (traced : Traced events s) {events' : List (GuardEvent poolSize)}
    (step : Step s events' s') : Traced (events ++ events') s' := by
  cases step with
  | called run => exact traced.called run
  | fetched kind fetch =>
    rw [List.append_nil]
    cases traced.inv.consistent.fetchExclusive fetch with
    | page consistent found kept =>
      apply traced.quiet (traced.inv.fetched kind consistent found kept)
      · simp [GuardTable.fetched]
      · intro index new here
        rw [GuardTable.fetched, List.getElem?_append] at here
        split at here
        next => exact .inl here
        next past =>
          obtain rfl := List.mem_singleton.1 (List.mem_of_getElem? here)
          refine .inr ⟨nofun, fun old inside => ?_⟩
          exact absurd (List.getElem?_eq_some_iff.1 inside).1 past
  | notFetched fetch =>
    rw [List.append_nil]
    cases traced.inv.consistent.fetchExclusive fetch with
    | error consistent kept => exact traced.sameGuards (traced.inv.withPool consistent kept)
  | @latched index handle latch found waiting taken =>
    rw [List.append_nil]
    apply traced.quiet (traced.inv.latched found waiting taken)
    · simp
    · intro j new here
      rw [List.getElem?_set] at here
      split at here
      next same =>
        subst same
        split at here
        next =>
          obtain rfl := Option.some.inj here
          refine .inr ⟨Handle.Held.not_ended rfl, fun old before ended => ?_⟩
          obtain rfl := Option.some.inj (found.symm.trans before)
          exact nomatch waiting.symm.trans ended
        next => cases here
      next => exact .inl here
  | wrote data =>
    rw [List.append_nil]
    exact traced.sameGuards (traced.inv.setFrame _ rfl rfl)

theorem Run.traced (opened : s.Opened) (run : Run s events s') : Traced events s' := by
  induction run with
  | start => exact opened.traced
  | next _ step ih => exact ih.step step

end GuardTable

end CambiumDB
