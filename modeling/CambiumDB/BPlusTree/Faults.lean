import CambiumDB.BPlusTree.Allocation

/-!
# The faults an operation meets

Which of its calls fail is given beforehand, call by call. An operation that returned depends on
the calls it made and on no later ones, so that a run can be repeated up to any of its calls and
stopped there.
-/

namespace CambiumDB

open ByteBuffer

/-- The same store with other faults ahead. -/
def World.withFaults (w : World) (f : Nat → Bool) : World := { w with faults := f }

namespace TreeM

variable {α β : Type} {m : TreeM α} {w w' : World} {a : α} {f : Nat → Bool}

/-- If it returns, it returns the same whenever the calls it made go the same. -/
structure Repeats (m : TreeM α) : Prop where
  calls : ∀ {w a w'}, m w = (.ok a, w') → w.calls ≤ w'.calls
  faults : ∀ {w a w'}, m w = (.ok a, w') → w'.faults = w.faults
  again : ∀ {w a w' f}, m w = (.ok a, w') → (∀ n < w'.calls, f n = w.faults n) →
    m (w.withFaults f) = (.ok a, w'.withFaults f)

namespace Repeats

theorem pure (a : α) : Repeats (pure a : TreeM α) where
  calls run := by cases run; exact le_refl _
  faults run := by cases run; rfl
  again run _ := by cases run; rfl

theorem orPanic (o : Option α) : Repeats (TreeM.orPanic o) := by
  cases o with
  | none => exact ⟨nofun, nofun, nofun⟩
  | some a => exact .pure a

theorem get {f : World → α} (blind : ∀ w faults, f (w.withFaults faults) = f w) :
    Repeats (TreeM.get f) where
  calls run := by cases run; exact le_refl _
  faults run := by cases run; rfl
  again run _ := by cases run; rw [get_apply, blind]

theorem modify {g : World → World} (calls : ∀ w, (g w).calls = w.calls)
    (faults : ∀ w, (g w).faults = w.faults)
    (blind : ∀ w f, g (w.withFaults f) = (g w).withFaults f) : Repeats (TreeM.modify g) where
  calls run := by cases run; rw [calls]
  faults run := by cases run; exact faults _
  again run _ := by cases run; rw [modify_apply, blind]

theorem modifyPage (id : UInt64) (f : Page → Page) : Repeats (TreeM.modifyPage id f) :=
  modify (fun _ => rfl) (fun _ => rfl) fun _ _ => rfl

theorem applyPage (id : UInt64) (f : Page → Option (α × Page)) :
    Repeats (TreeM.applyPage id f) where
  calls run := by
    obtain ⟨page, _, rfl⟩ := applyPage_inv run
    exact le_refl _
  faults run := by
    obtain ⟨page, _, rfl⟩ := applyPage_inv run
    rfl
  again {w a w' f} run _ := by
    obtain ⟨page, done, rfl⟩ := applyPage_inv run
    exact applyPage_ok (w := w.withFaults f) done

theorem bind {k : α → TreeM β} (first : Repeats m) (second : ∀ a, Repeats (k a)) :
    Repeats (m >>= k) where
  calls run := by
    obtain ⟨a, w₁, run, run'⟩ := bind_eq_ok run
    exact le_trans (first.calls run) ((second a).calls run')
  faults run := by
    obtain ⟨a, w₁, run, run'⟩ := bind_eq_ok run
    exact ((second a).faults run').trans (first.faults run)
  again run agree := by
    obtain ⟨a, w₁, run, run'⟩ := bind_eq_ok run
    have later := (second a).calls run'
    rw [bind_ok (first.again run fun n early => agree n (lt_of_lt_of_le early later))]
    refine (second a).again run' fun n early => ?_
    rw [first.faults run]
    exact agree n early

theorem deferDone {id : UInt64} (h : Repeats m) : Repeats (TreeM.deferDone id m) where
  calls run := by
    obtain ⟨w₁, inner, rfl⟩ := deferDone_inv run
    rw [World.release_calls]
    exact h.calls inner
  faults run := by
    obtain ⟨w₁, inner, rfl⟩ := deferDone_inv run
    have kept := h.faults inner
    exact kept
  again run agree := by
    obtain ⟨w₁, inner, rfl⟩ := deferDone_inv run
    rw [deferDone_ok (h.again inner agree)]
    rfl

theorem ite {p : Prop} [Decidable p] {m' : TreeM α} (yes : Repeats m) (no : Repeats m') :
    Repeats (if p then m else m') := by
  split
  · exact yes
  · exact no

theorem newGuard (id : UInt64) : Repeats (TreeM.newGuard id) where
  calls run := by
    obtain ⟨rfl, _⟩ := newGuard_inv run
    exact Nat.le_succ _
  faults run := by
    obtain ⟨rfl, _⟩ := newGuard_inv run
    rfl
  again {w a w' f} run agree := by
    obtain ⟨rfl, inside, free⟩ := newGuard_inv run
    have went : w.faults w.calls = false := by
      by_contra fault
      rw [TreeM.newGuard, Bool.not_eq_false] at *
      rw [fault] at run
      cases run
    exact newGuard_ok (w := w.withFaults f) ((agree w.calls (Nat.lt_succ_self _)).trans went) inside free

theorem newGuardOrCleanup (id : UInt64) : Repeats (TreeM.newGuardOrCleanup id) where
  calls run := (newGuard id).calls (newGuardOrCleanup_inv run)
  faults run := (newGuard id).faults (newGuardOrCleanup_inv run)
  again run agree := by
    rw [TreeM.newGuardOrCleanup, (newGuard id).again (newGuardOrCleanup_inv run) agree]

theorem logRecord (nextLSN : List LogEntry → UInt64) (record : WALRecord) :
    Repeats (TreeM.logRecord nextLSN record) where
  calls run := by
    obtain ⟨rfl, rfl⟩ := logRecord_inv run
    exact Nat.le_succ _
  faults run := by
    obtain ⟨rfl, rfl⟩ := logRecord_inv run
    rfl
  again {w a w' f} run agree := by
    obtain ⟨rfl, rfl⟩ := logRecord_inv run
    have went : w.faults w.calls = false := by
      by_contra fault
      rw [Bool.not_eq_false] at fault
      rw [TreeM.logRecord, if_pos fault] at run
      cases run
    exact logRecord_ok (w := w.withFaults f) ((agree w.calls (Nat.lt_succ_self _)).trans went)

/-- A page from the free list is no call; otherwise the next fault decides. -/
theorem newPage_again {taken : UInt64 × AllocationSource}
    (run : TreeM.newPage w = (.ok taken, w')) :
    w.calls ≤ w'.calls ∧ w'.faults = w.faults ∧ ((∀ n < w'.calls, f n = w.faults n) →
      TreeM.newPage (w.withFaults f) = (.ok taken, w'.withFaults f)) := by
  rw [TreeM.newPage] at run
  split at run
  next id rest known =>
    cases run
    refine ⟨le_refl _, rfl, fun _ => ?_⟩
    rw [TreeM.newPage]
    have same : (w.withFaults f).metadata.deallocatedPageIdList = id :: rest := known
    rw [same]
    rfl
  next known =>
    dsimp only at run
    split at run
    · cases run
    next enough =>
      cases run
      have same : (w.withFaults f).metadata.deallocatedPageIdList = [] := known
      rw [TreeM.newPage, same]
      dsimp only
      by_cases full : (w.metadata.maxAllocatedPageId + 1).toNat = w.filePages
      · have full' : ((w.withFaults f).metadata.maxAllocatedPageId + 1).toNat =
            (w.withFaults f).filePages := full
        simp only [full, full', decide_true, if_true] at enough ⊢
        refine ⟨Nat.le_succ _, by trivial, fun agree => ?_⟩
        have next : f w.calls = w.faults w.calls := agree w.calls (Nat.lt_succ_self _)
        have goes : ¬ (((w.withFaults f).faults (w.withFaults f).calls ||
            true && decide (maxFilePages < (w.withFaults f).filePages + 16)) = true) := by
          show ¬ ((f w.calls || true && decide (maxFilePages < w.filePages + 16)) = true)
          rwa [next]
        rw [if_neg goes]
        rfl
      · have full' : ¬ ((w.withFaults f).metadata.maxAllocatedPageId + 1).toNat =
            (w.withFaults f).filePages := full
        simp only [full, full', decide_false, Bool.false_eq_true, if_false] at enough ⊢
        refine ⟨Nat.le_succ _, by trivial, fun agree => ?_⟩
        have next : f w.calls = w.faults w.calls := agree w.calls (Nat.lt_succ_self _)
        have goes : ¬ (((w.withFaults f).faults (w.withFaults f).calls ||
            false && decide (maxFilePages < (w.withFaults f).filePages + 16)) = true) := by
          show ¬ ((f w.calls || false && decide (maxFilePages < w.filePages + 16)) = true)
          rwa [next]
        rw [if_neg goes]
        rfl

theorem newPage : Repeats TreeM.newPage where
  calls {w _ _} run := (newPage_again run (f := w.faults)).1
  faults {w _ _} run := (newPage_again run (f := w.faults)).2.1
  again run := (newPage_again run).2.2

end Repeats

/-- The faults as they are up to a call, and that call fails. -/
theorem exists_fault_at (w : World) (c : Nat) :
    ∃ f : Nat → Bool, (∀ n < c, f n = w.faults n) ∧ f c = true :=
  ⟨fun n => if n < c then w.faults n else true, fun _ early => if_pos early, if_neg (lt_irrefl c)⟩

/-- Under the faults `f` the operation returns an error and leaves `w'`. -/
def StopsAt (m : TreeM α) (w : World) (f : Nat → Bool) (w' : World) : Prop :=
  m (w.withFaults f) = (.error (.error .io), w'.withFaults f)

namespace StopsAt

theorem bind (h : StopsAt m w f w') (k : α → TreeM β) : StopsAt (m >>= k) w f w' :=
  bind_error h

/-- What returned without the faults returns with them, as long as they come later. -/
theorem after {k : α → TreeM β} {w₁ : World} (repeats : Repeats m) (run : m w = (.ok a, w₁))
    (agree : ∀ n < w₁.calls, f n = w.faults n) (h : StopsAt (k a) w₁ f w') :
    StopsAt (m >>= k) w f w' := by
  rw [StopsAt, bind_ok (repeats.again run agree)]
  exact h

theorem deferDone (h : StopsAt m w f w') (id : UInt64) :
    StopsAt (TreeM.deferDone id m) w f (w'.release id) := by
  rw [StopsAt, TreeM.deferDone, h]
  rfl

theorem logRecord {nextLSN : List LogEntry → UInt64} {record : WALRecord}
    (fault : f w.calls = true) : StopsAt (TreeM.logRecord nextLSN record) w f w.countCall := by
  have now : (w.withFaults f).faults (w.withFaults f).calls = true := fault
  rw [StopsAt, TreeM.logRecord, if_pos now]
  rfl

theorem newPage (freeList : w.metadata.deallocatedPageIdList = []) (fault : f w.calls = true) :
    StopsAt TreeM.newPage w f w.countCall := by
  have now : (w.withFaults f).faults (w.withFaults f).calls = true := fault
  have none : (w.withFaults f).metadata.deallocatedPageIdList = [] := freeList
  rw [StopsAt, TreeM.newPage, none]
  simp only [now, Bool.true_or, if_true]
  rfl

/-- The page that got no guard is given back. -/
theorem newGuardOrCleanup {id : UInt64} (fault : f w.calls = true) :
    StopsAt (TreeM.newGuardOrCleanup id) w f (cleanupPage id w.countCall).2 := by
  have now : (w.withFaults f).faults (w.withFaults f).calls = true := fault
  rw [StopsAt, TreeM.newGuardOrCleanup, TreeM.newGuard, if_pos (by rw [now]; rfl)]
  rfl

end StopsAt

end TreeM

namespace BPlusTree

variable (nextLSN : List LogEntry → UInt64)

theorem repeats_moveToRightLeaf (left right : UInt64) (key value : Bytes) :
    TreeM.Repeats (moveToRightLeaf nextLSN left right key value) :=
  .bind (.get fun _ _ => rfl) fun _ => .bind (.get fun _ _ => rfl) fun _ =>
    .bind (.orPanic _) fun _ => .bind (.orPanic _) fun ⟨_, _⟩ =>
    .bind (.logRecord _ _) fun _ => .bind (.modifyPage _ _) fun _ => .bind (.modifyPage _ _) fun _ =>
    .bind (.get fun _ _ => rfl) fun _ => .bind (.get fun _ _ => rfl) fun _ =>
    .bind (.orPanic _) fun ⟨_, _, _⟩ => .bind (.modifyPage _ _) fun _ =>
    .bind (.modifyPage _ _) fun _ =>
    .ite (.bind (.applyPage _ _) fun _ => .pure _) (.bind (.applyPage _ _) fun _ => .pure _)

theorem repeats_handleLeafNodeSplit (left : UInt64) (key value : Bytes) :
    TreeM.Repeats (handleLeafNodeSplit nextLSN left key value) :=
  .bind (.get fun _ _ => rfl) fun _ => .bind .newPage fun ⟨_, _⟩ =>
    .bind (.newGuardOrCleanup _) fun _ => .deferDone <|
    .bind (.logRecord _ _) fun _ => .bind (.modifyPage _ _) fun _ =>
    repeats_moveToRightLeaf nextLSN _ _ _ _

theorem repeats_installRoot (newRoot left right : UInt64) (separator : Bytes) :
    TreeM.Repeats (installRoot nextLSN newRoot separator left right) :=
  .bind (.get fun _ _ => rfl) fun _ => .bind (.logRecord _ _) fun _ =>
    .bind (.modifyPage _ _) fun _ => .bind (.applyPage _ _) fun _ =>
    .bind (.logRecord _ _) fun _ =>
    .bind (.modify (fun _ => rfl) (fun _ => rfl) fun _ _ => rfl) fun _ =>
    .modify (fun _ => rfl) (fun _ => rfl) fun _ _ => rfl

theorem repeats_handleLeafRootNodeSplit (oldRoot : UInt64) (key value : Bytes) :
    TreeM.Repeats (handleLeafRootNodeSplit nextLSN oldRoot key value) :=
  .bind (.get fun _ _ => rfl) fun _ => .bind .newPage fun ⟨_, _⟩ =>
    .bind (.newGuardOrCleanup _) fun _ => .deferDone <|
    .bind (.logRecord _ _) fun _ => .bind (.modifyPage _ _) fun _ =>
    .bind (.modifyPage _ _) fun _ =>
    .bind (repeats_handleLeafNodeSplit nextLSN _ _ _) fun ⟨_, _, _⟩ =>
    repeats_installRoot nextLSN _ _ _ _

theorem repeats_splitLeaf (id : UInt64) (key value : Bytes) :
    TreeM.Repeats (splitLeaf nextLSN id key value) :=
  .bind (.get fun _ _ => rfl) fun _ =>
    .ite (.bind (repeats_handleLeafRootNodeSplit nextLSN _ _ _) fun _ => .pure _)
      (.bind (repeats_handleLeafNodeSplit nextLSN _ _ _) fun _ => .pure _)

theorem repeats_writeLeaf (id : UInt64) (key value : Bytes) :
    TreeM.Repeats (writeLeaf nextLSN id key value) :=
  .bind (.get fun _ _ => rfl) fun _ => .bind (.get fun _ _ => rfl) fun _ =>
    .bind (.orPanic _) fun
    | some _ => .bind (.applyPage _ _) fun _ =>
        .ite (.bind (.logRecord _ _) fun _ => .bind (.modifyPage _ _) fun _ =>
          .bind (.applyPage _ _) fun _ => .pure _) (repeats_splitLeaf nextLSN _ _ _)
    | none => .bind (.applyPage _ _) fun _ =>
        .ite (.bind (.logRecord _ _) fun _ => .bind (.modifyPage _ _) fun _ =>
          .bind (.applyPage _ _) fun _ => .pure _) (repeats_splitLeaf nextLSN _ _ _)

theorem repeats_createRoot : TreeM.Repeats (createRoot nextLSN) := by
  refine .bind (.get fun _ _ => rfl) fun _ => .bind .newPage ?_
  rintro ⟨_, _⟩
  exact .bind (.logRecord _ _) fun _ => .bind (.newGuard _) fun _ => .bind (.modifyPage _ _) fun _ =>
    .bind (.logRecord _ _) fun _ => .bind (.modify (fun _ => rfl) (fun _ => rfl) fun _ _ => rfl) fun _ =>
    .bind (.logRecord _ _) fun _ => .bind (.modify (fun _ => rfl) (fun _ => rfl) fun _ _ => rfl) fun _ =>
    .bind (.modify (fun _ => rfl) (fun _ => rfl) fun _ _ => rfl) fun _ =>
    .bind (.modify (fun _ => rfl) (fun _ => rfl) fun _ _ => rfl) fun _ => .pure _

end BPlusTree

end CambiumDB
