import CambiumDB.BufferPool.Pool

/-!
# What the calls make of a buffer pool that nobody else is using

`Consistent` ties the page table, the frames, the pin counts, the free frames and the replacer
together. The changes of a pin count keep it up to the frame whose mutex is held; the calls
that run under `lookupMutex.Lock` keep it as it is.
-/

namespace CambiumDB

open ByteBuffer

namespace BufferPool

variable {poolSize : Nat}

/-- The pool holds the pages of its table, `pinsOf` says how often each page is pinned, and
the frames `busy` are between a change of their pin count and the change of the replacer that
follows from it. -/
structure Consistent (pool : BufferPool poolSize) (pinsOf : UInt64 → Nat)
    (busy : Fin poolSize → Prop) : Prop where
  mapped : ∀ p f, pool.pageTable p = some f → (pool.frames f).pageId = p
  pinCount : ∀ p f, pool.pageTable p = some f → (pool.frames f).pinCount = pinsOf p
  absent : ∀ p, pool.pageTable p = none → pinsOf p = 0
  replacerNodup : pool.replacer.Nodup
  replacerMapped : ∀ f ∈ pool.replacer, ∃ p, pool.pageTable p = some f
  replacer : ∀ p f, pool.pageTable p = some f → ¬ busy f →
    (f ∈ pool.replacer ↔ (pool.frames f).pinCount = 0)
  freeNodup : pool.freeFrames.Nodup
  free : ∀ f ∈ pool.freeFrames, ∀ p, pool.pageTable p ≠ some f

variable {pool : BufferPool poolSize} {pinsOf : UInt64 → Nat} {busy : Fin poolSize → Prop}
  {pageId : UInt64} {frameId : Fin poolSize}

theorem Consistent.injective (h : pool.Consistent pinsOf busy) {p q : UInt64}
    {f : Fin poolSize} (left : pool.pageTable p = some f) (right : pool.pageTable q = some f) :
    p = q :=
  (h.mapped p f left).symm.trans (h.mapped q f right)

theorem Consistent.mem_replacer (h : pool.Consistent pinsOf busy) {f : Fin poolSize}
    (quiet : ¬ busy f) : f ∈ pool.replacer ↔
      ∃ p, pool.pageTable p = some f ∧ (pool.frames f).pinCount = 0 := by
  constructor
  · intro member
    obtain ⟨p, found⟩ := h.replacerMapped f member
    exact ⟨p, found, (h.replacer p f found quiet).1 member⟩
  · rintro ⟨p, found, unpinned⟩
    exact (h.replacer p f found quiet).2 unpinned

theorem new_consistent (disk : DiskManager) :
    (new poolSize disk).Consistent (fun _ => 0) (fun _ => False) where
  mapped _ _ found := nomatch found
  pinCount _ _ found := nomatch found
  absent _ _ := rfl
  replacerNodup := List.nodup_nil
  replacerMapped _ member := nomatch member
  replacer _ _ found := nomatch found
  freeNodup := List.nodup_finRange poolSize
  free _ _ _ := nofun

@[simp] theorem setFrame_frames (f : Fin poolSize) (frame : Frame) :
    (pool.setFrame frameId frame).frames f = if f = frameId then frame else pool.frames f := by
  simp only [setFrame, Function.update_apply]

@[simp] theorem setFrame_pageTable (frame : Frame) :
    (pool.setFrame frameId frame).pageTable = pool.pageTable := rfl

@[simp] theorem setFrame_replacer (frame : Frame) :
    (pool.setFrame frameId frame).replacer = pool.replacer := rfl

@[simp] theorem setFrame_freeFrames (frame : Frame) :
    (pool.setFrame frameId frame).freeFrames = pool.freeFrames := rfl

@[simp] theorem load_pageTable (data : Page) : (pool.load frameId pageId data).pageTable =
    Function.update pool.pageTable pageId (some frameId) := rfl

@[simp] theorem evict_pageTable (rest : List (Fin poolSize)) :
    (pool.evict frameId rest).pageTable =
      Function.update pool.pageTable (pool.frames frameId).pageId none := rfl

@[simp] theorem addPin_pageTable (count : Int) :
    (pool.addPin frameId count).pageTable = pool.pageTable := rfl

@[simp] theorem addPin_replacer (count : Int) :
    (pool.addPin frameId count).replacer = pool.replacer := rfl

@[simp] theorem addPin_pinCount (count : Int) :
    ((pool.addPin frameId count).frames frameId).pinCount =
      (pool.frames frameId).pinCount + count := by
  simp [addPin]

theorem addPin_frames_of_ne {f : Fin poolSize} (other : f ≠ frameId) (count : Int) :
    (pool.addPin frameId count).frames f = pool.frames f := by
  simp [addPin, other]

theorem addPin_pageId (f : Fin poolSize) (count : Int) :
    ((pool.addPin frameId count).frames f).pageId = (pool.frames f).pageId := by
  by_cases same : f = frameId
  · subst same
    simp [addPin]
  · rw [addPin_frames_of_ne same]

/-- A pin count changes; the frame is busy afterwards, or the replacer fits already. -/
theorem Consistent.addPin (h : pool.Consistent pinsOf busy)
    (found : pool.pageTable pageId = some frameId) (count : Int) {pinsOf' : UInt64 → Nat}
    (busy' : Fin poolSize → Prop)
    (counted : (pinsOf' pageId : Int) = pinsOf pageId + count)
    (others : ∀ p, p ≠ pageId → pinsOf' p = pinsOf p) (wider : ∀ f, busy f → busy' f)
    (settled : ¬ busy' frameId →
      (frameId ∈ pool.replacer ↔ (pool.frames frameId).pinCount + count = 0)) :
    (pool.addPin frameId count).Consistent pinsOf' busy' where
  mapped p f here := (addPin_pageId f count).trans (h.mapped p f here)
  pinCount p f here := by
    by_cases same : f = frameId
    · subst same
      obtain rfl := h.injective here found
      rw [addPin_pinCount, h.pinCount p f found, counted]
    · have other : p ≠ pageId := by
        rintro rfl
        exact same (Option.some.inj (here.symm.trans found))
      rw [addPin_frames_of_ne same, h.pinCount p f here, others p other]
  absent p missing := by
    have other : p ≠ pageId := by
      rintro rfl
      exact nomatch missing.symm.trans found
    rw [others p other]
    exact h.absent p missing
  replacerNodup := h.replacerNodup
  replacerMapped := h.replacerMapped
  replacer p f here quiet := by
    by_cases same : f = frameId
    · subst same
      rw [addPin_pinCount]
      exact settled quiet
    · rw [addPin_frames_of_ne same]
      exact h.replacer p f here fun inside => quiet (wider f inside)
  freeNodup := h.freeNodup
  free := h.free

/-- The replacer catches up with the pin count of one frame. -/
theorem Consistent.setReplacer (h : pool.Consistent pinsOf busy)
    (found : pool.pageTable pageId = some frameId) {replacer : List (Fin poolSize)}
    {busy' : Fin poolSize → Prop} (nodup : replacer.Nodup)
    (others : ∀ f, f ≠ frameId → (f ∈ replacer ↔ f ∈ pool.replacer))
    (settled : frameId ∈ replacer ↔ (pool.frames frameId).pinCount = 0)
    (left : ∀ f, f ≠ frameId → busy f → busy' f) :
    { pool with replacer }.Consistent pinsOf busy' where
  mapped := h.mapped
  pinCount := h.pinCount
  absent := h.absent
  replacerNodup := nodup
  replacerMapped f member := by
    by_cases same : f = frameId
    · exact same ▸ ⟨pageId, found⟩
    · exact h.replacerMapped f ((others f same).1 member)
  replacer p f here quiet := by
    by_cases same : f = frameId
    · subst same
      exact settled
    · rw [others f same]
      exact h.replacer p f here fun inside => quiet (left f same inside)
  freeNodup := h.freeNodup
  free := h.free

theorem Consistent.removed (h : pool.Consistent pinsOf busy)
    (found : pool.pageTable pageId = some frameId)
    (pinned : (pool.frames frameId).pinCount ≠ 0) {busy' : Fin poolSize → Prop}
    (left : ∀ f, f ≠ frameId → busy f → busy' f) :
    { pool with replacer := pool.replacer.erase frameId }.Consistent pinsOf busy' := by
  apply h.setReplacer found (h.replacerNodup.erase frameId) _ _ left
  · intro f other
    exact List.mem_erase_of_ne other
  · constructor
    · intro member
      exact absurd member h.replacerNodup.not_mem_erase
    · intro unpinned
      exact absurd unpinned pinned

theorem Consistent.inserted (h : pool.Consistent pinsOf busy)
    (found : pool.pageTable pageId = some frameId)
    (unpinned : (pool.frames frameId).pinCount = 0) (fresh : frameId ∉ pool.replacer)
    {busy' : Fin poolSize → Prop} (left : ∀ f, f ≠ frameId → busy f → busy' f) :
    { pool with
      replacer := LRUReplacer.insert pool.replacer frameId }.Consistent pinsOf busy' := by
  apply h.setReplacer found (List.nodup_cons.2 ⟨fresh, h.replacerNodup⟩) _ _ left
  · intro f other
    simp [other]
  · simp [unpinned]

/-- What a call under `lookupMutex.Lock` leaves of the pages that are pinned. -/
def KeepsPinned (pool pool' : BufferPool poolSize) (pinsOf : UInt64 → Nat) : Prop :=
  ∀ p, pinsOf p ≠ 0 → pool'.pageTable p = pool.pageTable p

/-- One more pin on a page. -/
def pinned (pinsOf : UInt64 → Nat) (pageId : UInt64) : UInt64 → Nat :=
  Function.update pinsOf pageId (pinsOf pageId + 1)

theorem Consistent.pin (h : pool.Consistent pinsOf fun _ => False)
    (found : pool.pageTable pageId = some frameId) :
    ∃ pool', pool.pin frameId = some pool' ∧
      pool'.Consistent (BufferPool.pinned pinsOf pageId) (fun _ => False) ∧
      pool'.pageTable = pool.pageTable := by
  have count := h.pinCount pageId frameId found
  have fits := h.replacer pageId frameId found not_false
  have counted : ((BufferPool.pinned pinsOf pageId pageId : Nat) : Int) = pinsOf pageId + 1 := by
    simp [BufferPool.pinned]
  have others : ∀ p, p ≠ pageId → BufferPool.pinned pinsOf pageId p = pinsOf p := by
    intro p other
    exact Function.update_of_ne other _ _
  by_cases first : (pool.frames frameId).pinCount + 1 = 1
  · -- the frame was in the replacer and is busy until it is removed from there
    have member : frameId ∈ pool.replacer := fits.2 (by omega)
    have busy := h.addPin found 1 (· = frameId) counted others (fun _ inside => inside.elim)
      fun quiet => (quiet rfl).elim
    refine ⟨{ pool.addPin frameId 1 with replacer := pool.replacer.erase frameId }, ?_, ?_, rfl⟩
    · simp only [BufferPool.pin, addPin_pinCount, if_pos first, addPin_replacer,
        LRUReplacer.remove_of_mem member]
      rfl
    · apply busy.removed found _ fun f other inside => other inside
      rw [addPin_pinCount]
      omega
  · have settled : frameId ∈ pool.replacer ↔ (pool.frames frameId).pinCount + 1 = 0 := by
      rw [fits]
      omega
    refine ⟨pool.addPin frameId 1, ?_, ?_, rfl⟩
    · simp only [BufferPool.pin, addPin_pinCount, if_neg first]
    · exact h.addPin found 1 _ counted others (fun _ inside => inside) fun _ => settled

theorem Consistent.load (h : pool.Consistent pinsOf fun _ => False)
    (missing : pool.pageTable pageId = none) (unmapped : ∀ p, pool.pageTable p ≠ some frameId)
    (reserved : frameId ∉ pool.freeFrames) (data : Page) :
    (pool.load frameId pageId data).Consistent (BufferPool.pinned pinsOf pageId)
      fun _ => False := by
  have table : ∀ p f, (pool.load frameId pageId data).pageTable p = some f →
      p = pageId ∧ f = frameId ∨
        p ≠ pageId ∧ f ≠ frameId ∧ pool.pageTable p = some f := by
    intro p f here
    by_cases same : p = pageId
    · subst same
      exact .inl ⟨rfl, by simpa using here.symm⟩
    · rw [load_pageTable, Function.update_of_ne same] at here
      exact .inr ⟨same, fun taken => unmapped p (taken ▸ here), here⟩
  have frame : (pool.load frameId pageId data).frames frameId = ⟨pageId, data, 1, false⟩ := by
    simp [BufferPool.load]
  have others : ∀ f, f ≠ frameId →
      (pool.load frameId pageId data).frames f = pool.frames f := by
    intro f other
    simp [BufferPool.load, other]
  have outside : frameId ∉ pool.replacer := by
    intro member
    obtain ⟨p, found⟩ := h.replacerMapped frameId member
    exact unmapped p found
  constructor
  case mapped =>
    intro p f here
    obtain ⟨rfl, rfl⟩ | ⟨-, other, old⟩ := table p f here
    · rw [frame]
    · rw [others f other]
      exact h.mapped p f old
  case pinCount =>
    intro p f here
    obtain ⟨rfl, rfl⟩ | ⟨otherPage, other, old⟩ := table p f here
    · simp [frame, BufferPool.pinned, h.absent p missing]
    · rw [others f other, h.pinCount p f old, BufferPool.pinned,
        Function.update_of_ne otherPage]
  case absent =>
    intro p nowhere
    have other : p ≠ pageId := by
      rintro rfl
      simp at nowhere
    rw [BufferPool.pinned, Function.update_of_ne other]
    apply h.absent p
    rwa [load_pageTable, Function.update_of_ne other] at nowhere
  case replacerNodup => exact h.replacerNodup
  case replacerMapped =>
    intro f member
    obtain ⟨p, found⟩ := h.replacerMapped f member
    have other : p ≠ pageId := by
      rintro rfl
      exact nomatch missing.symm.trans found
    refine ⟨p, ?_⟩
    rwa [load_pageTable, Function.update_of_ne other]
  case replacer =>
    intro p f here quiet
    obtain ⟨rfl, rfl⟩ | ⟨-, other, old⟩ := table p f here
    · rw [frame]
      exact iff_of_false outside one_ne_zero
    · rw [others f other]
      exact h.replacer p f old quiet
  case freeNodup => exact h.freeNodup
  case free =>
    intro f listed p here
    obtain ⟨-, rfl⟩ | ⟨-, -, old⟩ := table p f here
    · exact reserved listed
    · exact h.free f listed p old

/-- The victim of an eviction: unpinned, and known by its own page id. -/
theorem Consistent.victim (h : pool.Consistent pinsOf fun _ => False)
    {rest : List (Fin poolSize)} (last : pool.replacer = rest ++ [frameId]) :
    pool.pageTable (pool.frames frameId).pageId = some frameId ∧
      pinsOf (pool.frames frameId).pageId = 0 := by
  have member : frameId ∈ pool.replacer := by
    simp [last]
  obtain ⟨p, found⟩ := h.replacerMapped frameId member
  have unpinned := (h.replacer p frameId found not_false).1 member
  have count := h.pinCount p frameId found
  rw [h.mapped p frameId found]
  exact ⟨found, by omega⟩

theorem Consistent.evict (h : pool.Consistent pinsOf fun _ => False)
    {rest : List (Fin poolSize)} (last : pool.replacer = rest ++ [frameId]) :
    (pool.evict frameId rest).Consistent pinsOf (fun _ => False) ∧
      ∀ p, (pool.evict frameId rest).pageTable p ≠ some frameId := by
  obtain ⟨found, unpinned⟩ := h.victim last
  have nodup := h.replacerNodup
  rw [last, List.nodup_append] at nodup
  have gone : frameId ∉ rest := by
    intro member
    exact nodup.2.2 _ member _ (List.mem_singleton.2 rfl) rfl
  have table : ∀ p f, (pool.evict frameId rest).pageTable p = some f →
      p ≠ (pool.frames frameId).pageId ∧ pool.pageTable p = some f := by
    intro p f here
    have other : p ≠ (pool.frames frameId).pageId := by
      intro same
      rw [same, evict_pageTable, Function.update_self] at here
      cases here
    rw [evict_pageTable, Function.update_of_ne other] at here
    exact ⟨other, here⟩
  constructor
  · constructor
    case mapped => exact fun p f here => h.mapped p f (table p f here).2
    case pinCount => exact fun p f here => h.pinCount p f (table p f here).2
    case absent =>
      intro p nowhere
      by_cases same : p = (pool.frames frameId).pageId
      · rw [same]
        exact unpinned
      · apply h.absent p
        rwa [evict_pageTable, Function.update_of_ne same] at nowhere
    case replacerNodup => exact nodup.1
    case replacerMapped =>
      intro f member
      have listed : f ∈ pool.replacer := by
        rw [last]
        exact List.mem_append_left _ member
      obtain ⟨p, here⟩ := h.replacerMapped f listed
      have other : p ≠ (pool.frames frameId).pageId := by
        rintro rfl
        exact gone (Option.some.inj (here.symm.trans found) ▸ member)
      refine ⟨p, ?_⟩
      rwa [evict_pageTable, Function.update_of_ne other]
    case replacer =>
      intro p f here quiet
      obtain ⟨otherPage, old⟩ := table p f here
      have other : f ≠ frameId := by
        rintro rfl
        exact otherPage (h.injective old found)
      have stays : f ∈ rest ↔ f ∈ pool.replacer := by
        simp [last, other]
      exact stays.trans (h.replacer p f old quiet)
    case freeNodup => exact h.freeNodup
    case free => exact fun f listed p here => h.free f listed p (table p f here).2
  · intro p here
    obtain ⟨other, old⟩ := table p frameId here
    exact other (h.injective old found)

/-- How `fetchPage` can end under `lookupMutex.Lock`. -/
inductive FetchOutcome (pool : BufferPool poolSize) (pageId : UInt64) (readFails : Bool)
    (result : WriteResult) : Fetched poolSize → BufferPool poolSize → Prop
  | present {frameId : Fin poolSize} {pool' : BufferPool poolSize} :
      pool.pageTable pageId = some frameId → pool.pin frameId = some pool' →
      FetchOutcome pool pageId readFails result (.page frameId) pool'
  | unlisted {frameId : Fin poolSize} :
      pool.pageTable pageId = some frameId → pool.pin frameId = none →
      FetchOutcome pool pageId readFails result .panic pool
  | unread : pool.pageTable pageId = none →
      readFails = true ∨ pool.disk.read pageId = none →
      FetchOutcome pool pageId readFails result .error pool
  | blocked {data : Page} : pool.pageTable pageId = none → pool.allocationLocked = true →
      readFails = false → pool.disk.read pageId = some data →
      FetchOutcome pool pageId readFails result .blocked pool
  | free {frameId : Fin poolSize} {rest : List (Fin poolSize)} {data : Page} :
      pool.pageTable pageId = none → readFails = false → pool.disk.read pageId = some data →
      pool.freeFrames = frameId :: rest → pool.allocationLocked = false →
      FetchOutcome pool pageId readFails result (.page frameId)
        ({ pool with freeFrames := rest }.load frameId pageId data)
  | noVictim {data : Page} : pool.pageTable pageId = none → pool.freeFrames = [] →
      pool.replacer = [] → readFails = false → pool.disk.read pageId = some data →
      pool.allocationLocked = false →
      FetchOutcome pool pageId readFails result .panic pool
  | evicted {frameId : Fin poolSize} {rest : List (Fin poolSize)} {data : Page}
      {disk : DiskManager} :
      pool.pageTable pageId = none → readFails = false → pool.disk.read pageId = some data →
      pool.freeFrames = [] → pool.replacer = rest ++ [frameId] →
      (if (pool.frames frameId).dirty then
        pool.disk.write (pool.frames frameId).pageId (pool.frames frameId).data result =
          (true, disk)
      else disk = pool.disk) →
      pool.allocationLocked = false →
      FetchOutcome pool pageId readFails result (.page frameId)
        ({ pool.evict frameId rest with disk }.load frameId pageId data)
  | writeFailed {frameId : Fin poolSize} {rest : List (Fin poolSize)} {disk : DiskManager}
      {data : Page} :
      pool.pageTable pageId = none → pool.replacer = rest ++ [frameId] →
      pool.disk.write (pool.frames frameId).pageId (pool.frames frameId).data result =
        (false, disk) →
      readFails = false → pool.disk.read pageId = some data → pool.allocationLocked = false →
      pool.freeFrames = [] →
      FetchOutcome pool pageId readFails result .error
        { pool.evict frameId rest with disk, allocationLocked := true }

theorem fetchExclusive_outcome {fetched : Fetched poolSize} {pool' : BufferPool poolSize}
    {readFails : Bool} {result : WriteResult}
    (run : pool.fetchExclusive pageId readFails result = (fetched, pool')) :
    FetchOutcome pool pageId readFails result fetched pool' := by
  rw [fetchExclusive] at run
  split at run
  next frameId found =>
    split at run
    next pool₁ pinned =>
      obtain ⟨rfl, rfl⟩ := Prod.mk.inj run
      exact .present found pinned
    next unlisted =>
      obtain ⟨rfl, rfl⟩ := Prod.mk.inj run
      exact .unlisted found unlisted
  next missing =>
    split at run
    next unread =>
      obtain ⟨rfl, rfl⟩ := Prod.mk.inj run
      refine .unread missing ?_
      by_cases fails : readFails = true
      · exact .inl fails
      · exact .inr (by simpa [fails] using unread)
    next data read =>
      have succeeds : readFails = false := by
        by_contra fails
        simp [fails] at read
      rw [succeeds] at read
      split at run
      next locked =>
        obtain ⟨rfl, rfl⟩ := Prod.mk.inj run
        exact .blocked missing locked succeeds read
      next unlocked =>
        rw [Bool.not_eq_true] at unlocked
        split at run
        next frameId rest frames =>
          obtain ⟨rfl, rfl⟩ := Prod.mk.inj run
          exact .free missing succeeds read frames unlocked
        next none_free =>
          split at run
          next empty =>
            obtain ⟨rfl, rfl⟩ := Prod.mk.inj run
            exact .noVictim missing none_free (LRUReplacer.victim_eq_none empty) succeeds read
              unlocked
          next frameId rest taken =>
            have last := LRUReplacer.victim_eq_some taken
            dsimp only at run
            split at run
            next dirty =>
              split at run
              next disk written =>
                obtain ⟨rfl, rfl⟩ := Prod.mk.inj run
                exact .evicted missing succeeds read none_free last (by rwa [if_pos dirty]) unlocked
              next disk written =>
                obtain ⟨rfl, rfl⟩ := Prod.mk.inj run
                exact .writeFailed missing last written succeeds read unlocked none_free
            next clean =>
              obtain ⟨rfl, rfl⟩ := Prod.mk.inj run
              exact .evicted missing succeeds read none_free last (by rw [if_neg clean]) unlocked

variable (pool) in
theorem fetchExclusive_free {data : Page} {rest : List (Fin poolSize)}
    (missing : pool.pageTable pageId = none) (read : pool.disk.read pageId = some data)
    (unlocked : pool.allocationLocked = false) (frames : pool.freeFrames = frameId :: rest)
    (result : WriteResult) : pool.fetchExclusive pageId false result =
      (.page frameId, { pool with freeFrames := rest }.load frameId pageId data) := by
  simp [fetchExclusive, missing, read, unlocked, frames]

/-- What `fetchPage` makes of a consistent pool under `lookupMutex.Lock`. -/
inductive Fetches (pool : BufferPool poolSize) (pageId : UInt64) (pinsOf : UInt64 → Nat) :
    Fetched poolSize → BufferPool poolSize → Prop
  | page {frameId : Fin poolSize} {pool' : BufferPool poolSize} :
      pool'.Consistent (BufferPool.pinned pinsOf pageId) (fun _ => False) →
      pool'.pageTable pageId = some frameId → pool.KeepsPinned pool' pinsOf →
      Fetches pool pageId pinsOf (.page frameId) pool'
  | error {pool' : BufferPool poolSize} : pool'.Consistent pinsOf (fun _ => False) →
      pool.KeepsPinned pool' pinsOf → Fetches pool pageId pinsOf .error pool'
  | blocked : Fetches pool pageId pinsOf .blocked pool
  | panic : pool.freeFrames = [] → pool.replacer = [] → Fetches pool pageId pinsOf .panic pool

/-- The contents of the frames and the disk do not matter. -/
theorem Consistent.sameBook (h : pool.Consistent pinsOf busy) {pool' : BufferPool poolSize}
    (table : pool'.pageTable = pool.pageTable) (replacer : pool'.replacer = pool.replacer)
    (free : pool'.freeFrames = pool.freeFrames)
    (pages : ∀ f, (pool'.frames f).pageId = (pool.frames f).pageId)
    (counts : ∀ f, (pool'.frames f).pinCount = (pool.frames f).pinCount) :
    pool'.Consistent pinsOf busy where
  mapped := by simpa only [table, pages] using h.mapped
  pinCount := by simpa only [table, counts] using h.pinCount
  absent := by simpa only [table] using h.absent
  replacerNodup := by simpa only [replacer] using h.replacerNodup
  replacerMapped := by simpa only [table, replacer] using h.replacerMapped
  replacer := by simpa only [table, replacer, counts] using h.replacer
  freeNodup := by simpa only [free] using h.freeNodup
  free := by simpa only [table, free] using h.free

theorem Consistent.withDisk (h : pool.Consistent pinsOf busy) (disk : DiskManager)
    (allocationLocked : Bool) : { pool with disk, allocationLocked }.Consistent pinsOf busy :=
  h.sameBook rfl rfl rfl (fun _ => rfl) fun _ => rfl

theorem Consistent.withFree (h : pool.Consistent pinsOf busy) {rest : List (Fin poolSize)}
    (kept : rest.Sublist pool.freeFrames) :
    { pool with freeFrames := rest }.Consistent pinsOf busy :=
  { h with
    freeNodup := h.freeNodup.sublist kept
    free := fun f listed => h.free f (kept.subset listed) }

theorem Consistent.keepsPinned_load (h : pool.Consistent pinsOf busy)
    (missing : pool.pageTable pageId = none) {pool₁ : BufferPool poolSize}
    (kept : pool.KeepsPinned pool₁ pinsOf) (data : Page) :
    pool.KeepsPinned (pool₁.load frameId pageId data) pinsOf := by
  intro p held
  have other : p ≠ pageId := by
    rintro rfl
    exact held (h.absent p missing)
  rw [load_pageTable, Function.update_of_ne other]
  exact kept p held

theorem Consistent.keepsPinned_evict (h : pool.Consistent pinsOf fun _ => False)
    {rest : List (Fin poolSize)} (last : pool.replacer = rest ++ [frameId]) :
    pool.KeepsPinned (pool.evict frameId rest) pinsOf := by
  intro p held
  have other : p ≠ (pool.frames frameId).pageId := by
    rintro rfl
    exact held (h.victim last).2
  rw [evict_pageTable, Function.update_of_ne other]

theorem Consistent.fetchExclusive (h : pool.Consistent pinsOf fun _ => False)
    {fetched : Fetched poolSize} {pool' : BufferPool poolSize} {readFails : Bool}
    {result : WriteResult}
    (run : pool.fetchExclusive pageId readFails result = (fetched, pool')) :
    Fetches pool pageId pinsOf fetched pool' := by
  cases fetchExclusive_outcome run with
  | present found pinned =>
    obtain ⟨pool₁, pin, consistent, table⟩ := h.pin found
    obtain rfl : pool' = pool₁ := Option.some.inj (pinned.symm.trans pin)
    exact .page consistent (by rw [table, found]) fun p _ => congrFun table p
  | unlisted found unlisted =>
    obtain ⟨pool₁, pin, -, -⟩ := h.pin found
    exact nomatch unlisted.symm.trans pin
  | unread => exact .error h fun _ _ => rfl
  | blocked => exact .blocked
  | @free frameId rest data missing _ _ frames =>
    have nodup : (frameId :: rest).Nodup := frames ▸ h.freeNodup
    have kept : rest.Sublist pool.freeFrames := frames ▸ List.sublist_cons_self frameId rest
    have unmapped := h.free frameId (frames ▸ List.mem_cons_self)
    refine .page ((h.withFree kept).load missing unmapped (List.nodup_cons.1 nodup).1 data) ?_
      (h.keepsPinned_load missing (fun _ _ => rfl) data)
    simp
  | noVictim _ none_free empty => exact .panic none_free empty
  | @evicted frameId rest data disk missing _ _ none_free last _ =>
    obtain ⟨consistent, unmapped⟩ := h.evict last
    have absent : (pool.evict frameId rest).pageTable pageId = none := by
      rw [evict_pageTable, Function.update_apply]
      split
      · rfl
      · exact missing
    have reserved : frameId ∉ pool.freeFrames := by
      simp [none_free]
    refine .page ((consistent.withDisk disk _).load absent unmapped reserved data) ?_
      (h.keepsPinned_load missing (h.keepsPinned_evict last) data)
    simp
  | @writeFailed frameId rest disk _ _ last =>
    exact .error ((h.evict last).1.withDisk disk true) (h.keepsPinned_evict last)

theorem deletePage_true (found : pool.pageTable pageId = some frameId)
    (single : (pool.frames frameId).pinCount = 1) (unlocked : pool.allocationLocked = false) :
    ∃ pool', pool.deletePage pageId = some (true, pool') ∧
      pool'.disk = pool.disk.deallocatePage pageId ∧
      pool'.freeFrames = pool.freeFrames ++ [frameId] ∧
      pool'.pageTable = Function.update pool.pageTable pageId none ∧
      pool'.allocationLocked = false := by
  rw [BufferPool.deletePage, found]
  dsimp only
  rw [if_neg (not_not.2 single), if_neg (by rw [unlocked]; decide)]
  exact ⟨_, rfl, rfl, rfl, rfl, unlocked⟩

theorem deletePage_false {pool' : BufferPool poolSize}
    (run : pool.deletePage pageId = some (false, pool')) : pool' = pool := by
  rw [BufferPool.deletePage] at run
  split at run
  next => exact (Prod.mk.inj (Option.some.inj run)).2.symm
  next frameId _ =>
    dsimp only at run
    split_ifs at run with shared
    · exact (Prod.mk.inj (Option.some.inj run)).2.symm
    · cases run

/-- A successful `deletePage` by the only holder of a pin. -/
theorem Consistent.deletePage (h : pool.Consistent pinsOf fun _ => False)
    {pool' : BufferPool poolSize} (run : pool.deletePage pageId = some (true, pool')) :
    pinsOf pageId = 1 ∧
      pool'.Consistent (Function.update pinsOf pageId 0) (fun _ => False) ∧
      ∀ p, p ≠ pageId → pool'.pageTable p = pool.pageTable p := by
  rw [BufferPool.deletePage] at run
  split at run
  next => cases run
  next frameId found =>
    dsimp only at run
    split_ifs at run with shared locked
    · cases run
    · obtain ⟨-, rfl⟩ := Prod.mk.inj (Option.some.inj run)
      have single : pinsOf pageId = 1 := by
        have count := h.pinCount pageId frameId found
        omega
      have others : ∀ p f, Function.update pool.pageTable pageId none p = some f →
          p ≠ pageId ∧ f ≠ frameId ∧ pool.pageTable p = some f := by
        intro p f here
        have other : p ≠ pageId := by
          rintro rfl
          simp at here
        rw [Function.update_of_ne other] at here
        refine ⟨other, ?_, here⟩
        rintro rfl
        exact other (h.injective here found)
      have outside : frameId ∉ pool.replacer := by
        rw [h.replacer pageId frameId found not_false]
        omega
      refine ⟨single, ?_, fun p other => Function.update_of_ne other _ _⟩
      constructor
      case mapped =>
        intro p f here
        obtain ⟨-, other, old⟩ := others p f here
        simpa [other] using h.mapped p f old
      case pinCount =>
        intro p f here
        obtain ⟨otherPage, other, old⟩ := others p f here
        simpa [other, otherPage] using h.pinCount p f old
      case absent =>
        intro p nowhere
        by_cases same : p = pageId
        · simp [same]
        · rw [Function.update_of_ne same]
          apply h.absent p
          simpa [same] using nowhere
      case replacerNodup => exact h.replacerNodup
      case replacerMapped =>
        intro f member
        obtain ⟨p, here⟩ := h.replacerMapped f member
        have other : p ≠ pageId := by
          rintro rfl
          exact outside (Option.some.inj (here.symm.trans found) ▸ member)
        exact ⟨p, (Function.update_of_ne other _ _).trans here⟩
      case replacer =>
        intro p f here quiet
        obtain ⟨-, other, old⟩ := others p f here
        simpa [other] using h.replacer p f old quiet
      case freeNodup =>
        apply List.Nodup.append h.freeNodup (List.nodup_singleton frameId)
        intro f listed member
        obtain rfl := List.mem_singleton.1 member
        exact h.free f listed pageId found
      case free =>
        intro f listed p here
        obtain ⟨-, other, old⟩ := others p f here
        rcases List.mem_append.1 listed with before | added
        · exact h.free f before p old
        · exact other (List.mem_singleton.1 added)

end BufferPool

end CambiumDB
