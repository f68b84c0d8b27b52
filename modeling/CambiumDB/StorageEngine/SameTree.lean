import CambiumDB.StorageEngine.CommittedBlocks
import CambiumDB.BPlusTree.InsertRun
import Mathlib.Data.List.Induction

/-!
# Concurrent inserts into one tree

`Insert` logs its begin record before it takes the mutex of the tree, and all its other records
while it holds the mutex. So the begin record of one call may fall between the records of
another, and `Recover`, which has one pending list per tree, empties the list there.
-/

namespace CambiumDB

open ByteBuffer TransitionSystem

namespace StorageEngine

/-- A record of the log, with the call of `Insert` that appended it. -/
structure Logged where
  call : Nat
  entry : LogEntry

/-- Where a call of `Insert` is. -/
inductive Phase
  | waiting
  | begun
  | locked
  | committed
  | returned
  deriving DecidableEq

/-- The calls of `Insert` on one tree. -/
structure Inserters where
  trace : List Logged
  phase : Nat → Phase
  /-- The call that holds `bPlusTreeMutex`. -/
  mutex : Option Nat

namespace Inserters

def log (s : Inserters) : List LogEntry := s.trace.map (·.entry)

def append (s : Inserters) (call : Nat) (lsn : UInt64) (record : WALRecord) (phase : Phase) :
    Inserters :=
  { s with
    trace := s.trace ++ [⟨call, lsn, record⟩]
    phase := Function.update s.phase call phase }

/-- A step that logs nothing. -/
def move (s : Inserters) (call : Nat) (phase : Phase) (mutex : Option Nat) : Inserters :=
  { s with phase := Function.update s.phase call phase, mutex }

/-- One step of one call. A call that fails returns without a commit record. -/
inductive Acts (tree : UInt64) : Inserters → Nat → Inserters → Prop
  | begin {s : Inserters} (call : Nat) (lsn : UInt64) :
      s.phase call = .waiting → Acts tree s call (s.append call lsn (.beginOperation tree) .begun)
  | lock {s : Inserters} (call : Nat) :
      s.phase call = .begun → s.mutex = none → Acts tree s call (s.move call .locked (some call))
  | log {s : Inserters} (call : Nat) (lsn : UInt64) (record : WALRecord) :
      s.phase call = .locked → record.tree = tree → record.brackets = false →
      Acts tree s call (s.append call lsn record .locked)
  | commit {s : Inserters} (call : Nat) (lsn : UInt64) :
      s.phase call = .locked →
      Acts tree s call (s.append call lsn (.commitOperation tree) .committed)
  | unlock {s : Inserters} (call : Nat) :
      s.phase call = .locked ∨ s.phase call = .committed →
      Acts tree s call (s.move call .returned none)

/-- No call has begun. -/
structure Fresh (s : Inserters) : Prop where
  trace : s.trace = []
  phase : ∀ call, s.phase call = .waiting
  mutex : s.mutex = none

end Inserters

def isCommit (entry : LogEntry) : Bool :=
  match entry.record with
  | .commitOperation _ => true
  | _ => false

namespace Inserters

/-- The commit record of the call is in the log. -/
def Committed (s : Inserters) (call : Nat) : Prop :=
  ∃ x ∈ s.trace, x.call = call ∧ isCommit x.entry = true

/-- `Recover` finds each record inside of an operation, and it redoes every record of every
call that committed. -/
def RedoesCommitted (s : Inserters) : Prop :=
  ∃ entries, committed s.log = some entries ∧
    ∀ x ∈ s.trace, x.entry.record.brackets = false → s.Committed x.call → x.entry ∈ entries

end Inserters

/-- A begin record was logged, and no commit record after it. -/
def BegunSince (earlier : List LogEntry) : Prop :=
  ∃ before x after, earlier = before ++ x :: after ∧ isBegin x = true ∧
    ∀ y ∈ after, isCommit y = false

/-- Every other record has a begin record, of whatever call, before it and after the last commit
record; and no begin record falls between a record of a call and its commit record. -/
structure Undisturbed (s : Inserters) : Prop where
  begun : Always (fun earlier x => isBegin x = false → BegunSince earlier) s.log
  apart : Always (fun earlier y => isCommit y.entry = true → earlier.Pairwise fun x z =>
    x.call = y.call → x.entry.record.brackets = false → isBegin z.entry = false) s.trace

/-! ### An insert is such a call -/

/-- What is logged are operations of the tree. -/
structure LogsOperations (w w' : World) : Prop where
  tree : w'.tree.bPlusTreeId = w.tree.bPlusTreeId
  log : ∃ added, w'.log = w.log ++ added ∧
    ∀ e ∈ added, e.record.tree = w.tree.bPlusTreeId ∧ e.record.brackets = false

theorem LogsOperations.of_log {w w' : World} (tree : w'.tree.bPlusTreeId = w.tree.bPlusTreeId)
    (log : w'.log = w.log) : LogsOperations w w' :=
  ⟨tree, [], by simp [log]⟩

theorem LogsOperations.trans {a b c : World} (first : LogsOperations a b)
    (second : LogsOperations b c) : LogsOperations a c := by
  obtain ⟨tree, added, log, own⟩ := first
  obtain ⟨tree', added', log', own'⟩ := second
  refine ⟨tree'.trans tree, added ++ added', by rw [log', log, List.append_assoc], ?_⟩
  intro e member
  rcases List.mem_append.1 member with before | after
  · exact own e before
  · rw [← tree]
    exact own' e after

theorem logsOperations_newPage (w : World) : LogsOperations w (TreeM.newPage w).2 := by
  rw [TreeM.newPage]
  split
  · exact .of_log rfl rfl
  · dsimp only
    split
    · exact .of_log rfl rfl
    · split
      · exact .of_log rfl rfl
      · exact .of_log rfl rfl

theorem operationFrame_logsOperations (id : UInt64) : TreeM.OperationFrame id LogsOperations where
  refl w := .of_log rfl rfl
  trans := .trans
  keep related start := related.tree.trans start
  setPage w _ _ := .of_log rfl rfl
  acquire w _ := .of_log rfl rfl
  release w _ := .of_log rfl rfl
  countCall w := .of_log rfl rfl
  newPage := logsOperations_newPage
  cleanupPage w _ := .of_log rfl rfl
  append w lsn record start own operation := by
    refine ⟨rfl, [⟨lsn, record⟩], rfl, ?_⟩
    intro e member
    obtain rfl := List.mem_singleton.1 member
    exact ⟨own.trans start.symm, operation⟩
  setMetaLSN w _ := .of_log rfl rfl
  setRoot w _ := .of_log rfl rfl
  setFirstLeaf w _ := .of_log rfl rfl

/-- Under the mutex an insert logs operations, and then its commit record or nothing. -/
theorem insertLocked_log (nextLSN : List LogEntry → UInt64) (key value : Bytes) (w : World) :
    ∃ w₁, LogsOperations w w₁ ∧
      ((BPlusTree.insertLocked nextLSN key value w).2.log = w₁.log ∨
        ∃ lsn, (BPlusTree.insertLocked nextLSN key value w).2.log =
          w₁.log ++ [⟨lsn, .commitOperation w.tree.bPlusTreeId⟩]) := by
  have frame := operationFrame_logsOperations w.tree.bPlusTreeId
  have entered := frame.guardRoot nextLSN w rfl
  rw [BPlusTree.insertLocked]
  cases enter : BPlusTree.guardRoot nextLSN w with
  | mk result w₁ =>
    rw [enter] at entered
    cases result with
    | error e =>
      rw [TreeM.bind_error enter]
      exact ⟨w₁, entered, .inl rfl⟩
    | ok root =>
      rw [TreeM.bind_ok enter]
      have written := frame.writeTraversal nextLSN key value (w₁.filePages + 1) root none w₁
        entered.tree
      cases write : BPlusTree.writeTraversal nextLSN key value (w₁.filePages + 1) root none w₁ with
      | mk result w₂ =>
        rw [write] at written
        have both := entered.trans written
        cases result with
        | error e =>
          rw [TreeM.deferDone, TreeM.bind_ok (TreeM.get_apply _ _), TreeM.bind_error write]
          exact ⟨w₂, both, .inl rfl⟩
        | ok moved =>
          rw [TreeM.deferDone, TreeM.bind_ok (TreeM.get_apply _ _), TreeM.bind_ok write,
            TreeM.bind_ok (TreeM.get_apply _ _), TreeM.logIgnored, TreeM.logRecord]
          refine ⟨w₂, both, ?_⟩
          -- an error of the commit record is dropped
          split
          · exact .inl rfl
          · right
            rw [← both.tree]
            exact ⟨_, rfl⟩

namespace Inserters

section
variable {tree : UInt64} {s : Inserters} {call : Nat}

theorem log_append {lsn : UInt64} {record : WALRecord} {phase : Phase} :
    (s.append call lsn record phase).log = s.log ++ [⟨lsn, record⟩] := by
  simp [log, append]

theorem log_move {phase : Phase} {mutex : Option Nat} :
    (s.move call phase mutex).log = s.log := rfl

/-- A call that holds the mutex logs operations one after the other. -/
theorem reach_log {start : Inserters → Prop}
    (run : Reach (Acts tree) (fun _ c => c = call) start s) (locked : s.phase call = .locked)
    (added : List LogEntry)
    (own : ∀ e ∈ added, e.record.tree = tree ∧ e.record.brackets = false) :
    ∃ s', Reach (Acts tree) (fun _ c => c = call) start s' ∧ s'.phase call = .locked ∧
      s'.log = s.log ++ added := by
  induction added generalizing s with
  | nil => exact ⟨s, run, locked, by simp⟩
  | cons entry rest ih =>
    obtain ⟨ofTree, operation⟩ := own entry (by simp)
    obtain ⟨s', run', locked', log⟩ := ih (.next run rfl (.log call _ _ locked ofTree operation))
      (Function.update_self ..) fun e member => own e (by simp [member])
    refine ⟨s', run', locked', ?_⟩
    rw [log, log_append, List.append_assoc]
    rfl

/-- Whatever its result, an insert of the model is a call of these steps, if its begin record
was logged. -/
theorem insert_runs (nextLSN : List LogEntry → UInt64) {key value : Bytes} {w : World}
    (begins : w.faults w.calls = false) (same : s.log = w.log) (waiting : s.phase call = .waiting)
    (free : s.mutex = none) :
    ∃ s', Reach (Acts w.tree.bPlusTreeId) (fun _ c => c = call) (· = s) s' ∧
      s'.phase call = .returned ∧ s'.mutex = none ∧
      s'.log = (BPlusTree.insert nextLSN key value w).2.log := by
  have insert : BPlusTree.insert nextLSN key value w =
      BPlusTree.insertLocked nextLSN key value (w.begin nextLSN) := by
    rw [BPlusTree.insert, TreeM.bind_ok (TreeM.get_apply _ w),
      TreeM.bind_ok (TreeM.logIgnored_ok begins)]
    rfl
  obtain ⟨w₁, ⟨_, added, log, own⟩, final⟩ :=
    insertLocked_log nextLSN key value (w.begin nextLSN)
  have start : Reach (Acts w.tree.bPlusTreeId) (fun _ c => c = call) (· = s) s := .start rfl
  have begun := start.next rfl (.begin call (nextLSN w.log) waiting)
  have locked := begun.next rfl (.lock call (Function.update_self ..) free)
  obtain ⟨s₁, run, held, log'⟩ := reach_log locked (Function.update_self ..) added own
  have logged : s₁.log = w₁.log := by
    rw [log', log_move, log_append, log, same]
    rfl
  rw [insert]
  rcases final with failed | ⟨lsn, done⟩
  · refine ⟨_, run.next rfl (.unlock call (.inl held)), Function.update_self .., rfl, ?_⟩
    rw [log_move, logged, failed]
  · have committed := run.next rfl (.commit call lsn held)
    refine ⟨_, committed.next rfl (.unlock call (.inr (Function.update_self ..))),
      Function.update_self .., rfl, ?_⟩
    rw [log_move, log_append, done, logged]
    rfl

end

end Inserters

/-! ### Begin and commit records -/

section
variable {entry : LogEntry}

theorem isOperation_iff : IsOperation entry ↔ entry.record.brackets = false := by
  obtain ⟨lsn, record⟩ := entry
  cases record <;> simp [IsOperation, WALRecord.brackets]

theorem isCommit_iff {tree : UInt64} (own : entry.record.tree = tree) :
    isCommit entry = true ↔ entry.record = .commitOperation tree := by
  obtain ⟨lsn, record⟩ := entry
  cases record <;> simp [isCommit, WALRecord.tree] at own ⊢
  exact own

theorem isBegin_iff {tree : UInt64} (own : entry.record.tree = tree) :
    isBegin entry = true ↔ entry.record = .beginOperation tree := by
  obtain ⟨lsn, record⟩ := entry
  cases record <;> simp [isBegin, WALRecord.tree] at own ⊢
  exact own

theorem brackets_eq : entry.record.brackets = (isBegin entry || isCommit entry) := by
  obtain ⟨lsn, record⟩ := entry
  cases record <;> rfl

theorem isCommit_of_operation {lsn : UInt64} {record : WALRecord}
    (operation : record.brackets = false) : isCommit ⟨lsn, record⟩ = false := by
  cases record <;> simp [WALRecord.brackets, isCommit] at operation ⊢

theorem isCommit_of_isBegin (begins : isBegin entry = true) : isCommit entry = false := by
  obtain ⟨lsn, record⟩ := entry
  cases record <;> simp [isBegin, isCommit] at begins ⊢

end

theorem begunSince_concat {earlier : List LogEntry} {entry : LogEntry} :
    BegunSince (earlier ++ [entry]) ↔
      isBegin entry = true ∨ isCommit entry = false ∧ BegunSince earlier := by
  constructor
  · rintro ⟨before, x, after, split, begins, none⟩
    rcases List.eq_nil_or_concat after with rfl | ⟨after, last, rfl⟩
    · obtain ⟨_, same⟩ := List.append_inj' split rfl
      obtain rfl := List.singleton_inj.1 same
      exact .inl begins
    · rw [List.concat_eq_append, ← List.cons_append, ← List.append_assoc] at split
      obtain ⟨rfl, same⟩ := List.append_inj' split rfl
      obtain rfl := List.singleton_inj.1 same
      refine .inr ⟨none entry (by simp), before, x, after, rfl, begins, ?_⟩
      intro y member
      exact none y (by simp [member])
  · rintro (begins | ⟨other, before, x, after, rfl, begins, none⟩)
    · exact ⟨earlier, entry, [], rfl, begins, by simp⟩
    · refine ⟨before, x, after ++ [entry], by simp, begins, ?_⟩
      intro y member
      rcases List.mem_append.1 member with old | new
      · exact none y old
      · obtain rfl := List.mem_singleton.1 new
        exact other

theorem not_begunSince_nil : ¬ BegunSince [] := by
  rintro ⟨before, x, after, split, _⟩
  simp at split

/-! ### The log of one tree -/

section
variable {tree : UInt64} {log : List LogEntry}

/-- Blocks are read record by record: only a begin record may stand outside of them. -/
theorem blocks_cons {inside : Bool} {entry : LogEntry} {rest : List LogEntry}
    (own : entry.record.tree = tree) :
    Blocks inside (entry :: rest) ↔ (isBegin entry = false → inside = true) ∧
      Blocks (isBegin entry || inside && !isCommit entry) rest := by
  constructor
  · intro blocks
    cases blocks with
    | begin begins blocks =>
      have isBegin := isBegin_begin begins
      simp only [isBegin, Bool.true_eq_false, false_implies, true_and, Bool.true_or]
      exact blocks
    | operation operation blocks =>
      have other := isOperation_iff.1 operation
      rw [brackets_eq, Bool.or_eq_false_iff] at other
      simp only [other, implies_true, Bool.false_or, Bool.not_false, Bool.and_true, true_and]
      exact blocks
    | commit commits blocks =>
      have isCommit : isCommit entry = true := by rw [isCommit, commits]
      have other : isBegin entry = false := by rw [isBegin, commits]
      simp only [isCommit, other, implies_true, Bool.false_or, Bool.not_true, Bool.and_false,
        true_and]
      exact blocks
  · rintro ⟨within, blocks⟩
    cases first : isBegin entry with
    | true =>
      rw [first, Bool.true_or] at blocks
      exact .begin ((isBegin_iff own).1 first) blocks
    | false =>
      obtain rfl := within first
      rw [first, Bool.false_or, Bool.true_and] at blocks
      cases last : isCommit entry with
      | true =>
        rw [last] at blocks
        exact .commit ((isCommit_iff own).1 last) blocks
      | false =>
        rw [last] at blocks
        exact .operation (isOperation_iff.2 (by rw [brackets_eq, first, last]; rfl)) blocks

theorem blocks_iff {inside : Bool} {before : List LogEntry}
    (own : ∀ entry ∈ log, entry.record.tree = tree) (within : inside = true ↔ BegunSince before) :
    Blocks inside log ↔
      Always (fun earlier x => isBegin x = false → BegunSince (before ++ earlier)) log := by
  induction log generalizing inside before with
  | nil => exact ⟨fun _ => always_nil, fun _ => .nil⟩
  | cons entry rest ih =>
    rw [blocks_cons (own entry (by simp)), always_cons, List.append_nil, within]
    have next : (isBegin entry || inside && !isCommit entry) = true ↔
        BegunSince (before ++ [entry]) := by
      rw [begunSince_concat, Bool.or_eq_true, Bool.and_eq_true, Bool.not_eq_true', ← within,
        and_comm]
    rw [ih (fun e member => own e (by simp [member])) next]
    simp only [List.append_assoc, List.singleton_append]

/-- The loop of `Recover` gets through a log of blocks only. -/
theorem blocks_of_committedFrom {pending : Pending} {entries : List LogEntry}
    (own : ∀ entry ∈ log, entry.record.tree = tree)
    (redone : committedFrom pending log = some entries) : Blocks (pending tree).isSome log := by
  induction log generalizing pending entries with
  | nil => exact .nil
  | cons entry rest ih =>
    have here := own entry (by simp)
    have later := fun e member => own e (List.mem_cons_of_mem _ member)
    rw [committedFrom] at redone
    split at redone
    next owner begins =>
      obtain rfl : owner = tree := by rw [← here, begins, WALRecord.tree]
      have blocks := ih later redone
      rw [Function.update_self] at blocks
      exact .begin begins blocks
    next owner commits =>
      obtain rfl : owner = tree := by rw [← here, commits, WALRecord.tree]
      split at redone
      next => cases redone
      next operations begun =>
        obtain ⟨rest', restEq, _⟩ := Option.map_eq_some_iff.1 redone
        have blocks := ih later restEq
        rw [Function.update_self] at blocks
        rw [begun]
        exact .commit commits blocks
    next begins commits =>
      rw [here] at redone
      split at redone
      next => cases redone
      next operations begun =>
        have blocks := ih later redone
        rw [Function.update_self] at blocks
        rw [begun]
        exact .operation ⟨begins, commits⟩ blocks

theorem ofTree_eq_self (own : ∀ entry ∈ log, entry.record.tree = tree) : ofTree tree log = log := by
  rw [ofTree, List.filter_eq_self]
  intro entry member
  simp [own entry member]

theorem committed_of_blocks (own : ∀ entry ∈ log, entry.record.tree = tree)
    (blocks : Blocks false log) : committed log = some (committedBlocks [] log) := by
  have start : Agrees (fun _ => false) (fun _ => none) [] log := by
    intro other
    by_cases same : other = tree
    · refine ⟨rfl, ?_, by simp⟩
      rw [same, ofTree_eq_self own]
      exact blocks
    · have none : ofTree other log = [] := by
        rw [ofTree, List.filter_eq_nil_iff]
        intro entry member
        simp [own entry member, Ne.symm same]
      exact ⟨rfl, none ▸ .nil, by simp⟩
  exact (committedFrom_eq start).1

/-- `Recover` meets no record outside of an operation exactly where each has a begin record. -/
theorem committed_iff (own : ∀ entry ∈ log, entry.record.tree = tree) :
    (∃ entries, committed log = some entries) ↔
      Always (fun earlier x => isBegin x = false → BegunSince earlier) log := by
  have blocks : Blocks false log ↔
      Always (fun earlier x => isBegin x = false → BegunSince ([] ++ earlier)) log :=
    blocks_iff own (by simp [not_begunSince_nil])
  simp only [List.nil_append] at blocks
  rw [← blocks]
  constructor
  · rintro ⟨entries, redone⟩
    exact blocks_of_committedFrom own redone
  · intro blocks
    exact ⟨_, committed_of_blocks own blocks⟩

end

/-! ### What is redone -/

section
variable {tree : UInt64} {log : List LogEntry} {entry : LogEntry}

theorem committedBlocks_append (before log rest : List LogEntry) :
    committedBlocks before (log ++ rest) =
      committedBlocks before log ++ committedBlocks (before ++ log) rest := by
  induction log generalizing before with
  | nil => simp [committedBlocks]
  | cons entry log ih =>
    rw [List.cons_append, committedBlocks, committedBlocks, ih]
    split
    · simp
    · simp

/-- The open block of a tree ends with every record after which it did not begin anew. -/
theorem mem_openBlock {before middle : List LogEntry}
    (own : ∀ e ∈ before ++ entry :: middle, e.record.tree = tree)
    (none : ∀ z ∈ entry :: middle, isBegin z = false) :
    entry ∈ openBlock tree (before ++ entry :: middle) := by
  induction middle using List.reverseRecOn with
  | nil =>
    rw [openBlock_own (own entry (by simp)), none entry (by simp)]
    simp
  | append_singleton middle last ih =>
    have shape : before ++ entry :: (middle ++ [last]) = (before ++ entry :: middle) ++ [last] := by
      simp
    rw [shape, openBlock_own (own last (by simp)), none last (by simp)]
    simp only [Bool.false_eq_true, if_false]
    apply List.mem_append_left
    apply ih
    · intro e member
      exact own e (by rw [shape]; exact List.mem_append_left _ member)
    · intro z member
      apply none z
      rw [← List.cons_append]
      exact List.mem_append_left _ member

theorem exists_of_mem_openBlock (own : ∀ e ∈ log, e.record.tree = tree)
    (member : entry ∈ openBlock tree log) :
    ∃ before middle, log = before ++ entry :: middle ∧ ∀ z ∈ middle, isBegin z = false := by
  induction log using List.reverseRecOn with
  | nil => simp [openBlock, ofTree] at member
  | append_singleton log last ih =>
    rw [openBlock_own (own last (by simp))] at member
    split at member
    next => simp at member
    next other =>
      rcases List.mem_append.1 member with old | new
      · obtain ⟨before, middle, rfl, none⟩ := ih (fun e m => own e (List.mem_append_left _ m)) old
        refine ⟨before, middle ++ [last], by simp, ?_⟩
        intro z inside
        rcases List.mem_append.1 inside with old | new
        · exact none z old
        · rw [List.mem_singleton.1 new]
          simpa using other
      · rw [List.mem_singleton.1 new]
        exact ⟨log, [], rfl, by simp⟩

/-- A record is redone exactly where a commit record follows it before the next begin record. -/
theorem mem_committedBlocks (own : ∀ e ∈ log, e.record.tree = tree) :
    entry ∈ committedBlocks [] log ↔ ∃ before commit after, log = before ++ commit :: after ∧
      isCommit commit = true ∧ entry ∈ openBlock tree before := by
  induction log using List.reverseRecOn with
  | nil => simp [committedBlocks]
  | append_singleton log last ih =>
    have here := own last (by simp)
    rw [committedBlocks_append, List.nil_append, List.mem_append,
      ih fun e member => own e (List.mem_append_left _ member)]
    constructor
    · rintro (⟨before, commit, after, rfl, commits, member⟩ | member)
      · exact ⟨before, commit, after ++ [last], by simp, commits, member⟩
      · cases commits : isCommit last with
        | true =>
          rw [committedBlocks_commit ((isCommit_iff here).1 commits), committedBlocks,
            List.append_nil] at member
          exact ⟨log, last, [], rfl, commits, member⟩
        | false =>
          have other : ∀ owner, last.record ≠ .commitOperation owner := by
            intro owner same
            rw [isCommit, same] at commits
            cases commits
          rw [committedBlocks_other other, committedBlocks] at member
          simp at member
    · rintro ⟨before, commit, after, split, commits, member⟩
      rcases List.eq_nil_or_concat after with rfl | ⟨after, last', rfl⟩
      · obtain ⟨rfl, same⟩ := List.append_inj' split rfl
        obtain rfl := List.singleton_inj.1 same
        right
        rw [committedBlocks_commit ((isCommit_iff here).1 commits)]
        exact List.mem_append_left _ member
      · rw [List.concat_eq_append, ← List.cons_append, ← List.append_assoc] at split
        obtain ⟨rfl, _⟩ := List.append_inj' split rfl
        exact .inl ⟨before, commit, after, rfl, commits, member⟩

end

/-! ### The mutex -/

namespace Inserters

/-- What the mutex and the order of the steps of a call make of the trace. -/
structure Ordered (tree : UInt64) (s : Inserters) : Prop where
  own : ∀ x ∈ s.trace, x.entry.record.tree = tree
  early : ∀ call, s.phase call = .waiting ∨ s.phase call = .begun →
    ∀ x ∈ s.trace, x.call = call → isBegin x.entry = true
  holds : ∀ call, s.phase call = .locked ∨ s.phase call = .committed → s.mutex = some call
  uncommitted : ∀ call, s.phase call = .locked → ∀ x ∈ s.trace, x.call = call → isCommit x.entry = false
  alone : ∀ call, s.phase call = .locked → s.trace.Pairwise fun x z =>
    x.call = call → x.entry.record.brackets = false → isCommit z.entry = false
  sections : Always (fun earlier y => isCommit y.entry = true → earlier.Pairwise fun x z =>
    x.call = y.call → x.entry.record.brackets = false → isCommit z.entry = false) s.trace
  last : s.trace.Pairwise fun y x =>
    isCommit y.entry = true → x.call = y.call → x.entry.record.brackets = true

theorem ordered_fresh {tree : UInt64} {s : Inserters} (fresh : s.Fresh) : s.Ordered tree := by
  constructor
  · simp [fresh.trace]
  · simp [fresh.trace]
  · simp [fresh.phase]
  · simp [fresh.trace]
  · simp [fresh.trace]
  · rw [fresh.trace]
    exact always_nil
  · simp [fresh.trace]

section
variable {tree : UInt64} {s s' : Inserters} {call : Nat}

/-- A step that logs: what each kind of record needs of the phases of its call. -/
theorem Ordered.append (ordered : s.Ordered tree) {lsn : UInt64} {record : WALRecord}
    {phase : Phase} (own : record.tree = tree)
    (begins : phase = .waiting ∨ phase = .begun →
      s.phase call = .waiting ∧ isBegin ⟨lsn, record⟩ = true)
    (holds : phase = .locked ∨ phase = .committed → s.phase call = .locked)
    (commits : isCommit ⟨lsn, record⟩ = true → s.phase call = .locked ∧ phase ≠ .locked)
    (operates : record.brackets = false → s.phase call = .locked) :
    (s.append call lsn record phase).Ordered tree := by
  have others {c : Nat} (ne : c ≠ call) : (s.append call lsn record phase).phase c = s.phase c :=
    Function.update_of_ne ne _ _
  have self : (s.append call lsn record phase).phase call = phase := Function.update_self ..
  have trace : (s.append call lsn record phase).trace = s.trace ++ [⟨call, lsn, record⟩] := rfl
  have mutex : (s.append call lsn record phase).mutex = s.mutex := rfl
  have mem {x : Logged} : x ∈ (s.append call lsn record phase).trace ↔
      x ∈ s.trace ∨ x = ⟨call, lsn, record⟩ := by rw [trace]; simp
  generalize s.append call lsn record phase = s' at *
  constructor
  · intro x member
    rcases mem.1 member with old | rfl
    · exact ordered.own x old
    · exact own
  · intro c early x member mine
    by_cases same : c = call
    · subst same
      rw [self] at early
      obtain ⟨waiting, isBegin⟩ := begins early
      rcases mem.1 member with old | rfl
      · exact ordered.early c (.inl waiting) x old mine
      · exact isBegin
    · rw [others same] at early
      rcases mem.1 member with old | rfl
      · exact ordered.early c early x old mine
      · exact absurd mine.symm same
  · intro c held
    rw [mutex]
    by_cases same : c = call
    · subst same
      rw [self] at held
      exact ordered.holds c (.inl (holds held))
    · rw [others same] at held
      exact ordered.holds c held
  · intro c locked x member mine
    by_cases same : c = call
    · subst same
      rw [self] at locked
      rcases mem.1 member with old | rfl
      · exact ordered.uncommitted c (holds (.inl locked)) x old mine
      · exact Bool.eq_false_iff.2 fun isCommit => (commits isCommit).2 locked
    · rw [others same] at locked
      rcases mem.1 member with old | rfl
      · exact ordered.uncommitted c locked x old mine
      · exact absurd mine.symm same
  · intro c locked
    have was : s.phase c = .locked := by
      by_cases same : c = call
      · subst same
        rw [self] at locked
        exact holds (.inl locked)
      · rwa [others same] at locked
    rw [trace, List.pairwise_append]
    refine ⟨ordered.alone c was, List.pairwise_singleton .., ?_⟩
    intro x _ z member _ _
    rw [List.mem_singleton.1 member, Bool.eq_false_iff]
    -- two calls would hold the mutex
    intro isCommit
    obtain ⟨locked', left⟩ := commits isCommit
    have same : c = call := Option.some.inj
      ((ordered.holds c (.inl was)).symm.trans (ordered.holds call (.inl locked')))
    rw [same, self] at locked
    exact left locked
  · rw [trace, always_concat]
    refine ⟨ordered.sections, ?_⟩
    intro isCommit
    exact ordered.alone call (commits isCommit).1
  · rw [trace, List.pairwise_append]
    refine ⟨ordered.last, List.pairwise_singleton .., ?_⟩
    intro y member x new isCommit mine
    rw [List.mem_singleton.1 new] at mine ⊢
    rw [← Bool.not_eq_false]
    intro operation
    have locked := ordered.uncommitted call (operates operation) y member mine.symm
    rw [isCommit] at locked
    cases locked

/-- A step that logs nothing: only the call that takes the mutex comes to hold it. -/
theorem Ordered.move (ordered : s.Ordered tree) {phase : Phase} {mutex : Option Nat}
    (late : phase ≠ .waiting ∧ phase ≠ .begun ∧ phase ≠ .committed)
    (takes : phase = .locked → s.phase call = .begun ∧ mutex = some call)
    (keeps : ∀ c ≠ call, s.phase c = .locked ∨ s.phase c = .committed → mutex = some c) :
    (s.move call phase mutex).Ordered tree := by
  have others {c : Nat} (ne : c ≠ call) : (s.move call phase mutex).phase c = s.phase c :=
    Function.update_of_ne ne _ _
  have self : (s.move call phase mutex).phase call = phase := Function.update_self ..
  have trace : (s.move call phase mutex).trace = s.trace := rfl
  have holder : (s.move call phase mutex).mutex = mutex := rfl
  generalize s.move call phase mutex = s' at *
  -- a call that has just taken the mutex has logged its begin record only
  have fresh (locked : phase = .locked) : ∀ x ∈ s.trace, x.call = call → isBegin x.entry = true :=
    ordered.early call (.inr (takes locked).1)
  constructor
  all_goals try rw [trace]
  · exact ordered.own
  · intro c early
    by_cases same : c = call
    · subst same
      simp [self, late] at early
    · rw [others same] at early
      exact ordered.early c early
  · intro c held
    rw [holder]
    by_cases same : c = call
    · subst same
      simp only [self, late, or_false] at held
      exact (takes held).2
    · rw [others same] at held
      exact keeps c same held
  · intro c locked x member mine
    by_cases same : c = call
    · subst same
      rw [self] at locked
      exact isCommit_of_isBegin (fresh locked x member mine)
    · rw [others same] at locked
      exact ordered.uncommitted c locked x member mine
  · intro c locked
    by_cases same : c = call
    · subst same
      rw [self] at locked
      apply List.pairwise_of_forall_mem_list
      intro x member z _ mine operation
      rw [brackets_eq, fresh locked x member mine] at operation
      cases operation
    · rw [others same] at locked
      exact ordered.alone c locked
  · exact ordered.sections
  · exact ordered.last

theorem Ordered.acts (ordered : s.Ordered tree) (step : Acts tree s call s') :
    s'.Ordered tree := by
  cases step with
  | begin _ waiting =>
    exact ordered.append rfl (by simp [waiting, isBegin]) (by simp) (by simp [isCommit])
      (by simp [WALRecord.brackets])
  | lock begun free =>
    apply ordered.move (by simp) (by simp [begun])
    intro c _ held
    rw [ordered.holds c held] at free
    cases free
  | log _ _ locked own operation =>
    exact ordered.append own (by simp) (by simp [locked])
      (by simp [isCommit_of_operation operation]) (by simp [locked])
  | commit _ locked =>
    exact ordered.append rfl (by simp) (by simp [locked]) (by simp [locked])
      (by simp [WALRecord.brackets])
  | unlock held =>
    apply ordered.move (by simp) (by simp)
    intro c other held'
    have same := (ordered.holds c held').symm.trans (ordered.holds call held)
    exact absurd (Option.some.inj same) other

theorem Ordered.run (run : Reach (Acts tree) (fun _ _ => True) Fresh s) : s.Ordered tree :=
  run.invariant (Ordered tree) (fun _ => ordered_fresh) fun _ _ _ ordered _ step =>
    ordered.acts step

/-! ### The log of the calls -/

theorem Ordered.own_log (ordered : s.Ordered tree) : ∀ e ∈ s.log, e.record.tree = tree := by
  intro e member
  obtain ⟨x, logged, rfl⟩ := List.mem_map.1 member
  exact ordered.own x logged

/-- The commit record of a call comes after its other records. -/
theorem Ordered.exists_commit (ordered : s.Ordered tree) {x : Logged} (logged : x ∈ s.trace)
    (operation : x.entry.record.brackets = false) (commits : s.Committed x.call) :
    ∃ before middle y after, s.trace = before ++ x :: middle ++ y :: after ∧ y.call = x.call ∧
      isCommit y.entry = true := by
  obtain ⟨y, member, same, isCommit⟩ := commits
  obtain ⟨before, after, split⟩ := List.append_of_mem member
  have last := ordered.last
  rw [split] at logged last
  rcases List.mem_append.1 logged with earlier | rest
  · obtain ⟨before, middle, rfl⟩ := List.append_of_mem earlier
    exact ⟨before, middle, y, after, split, same, isCommit⟩
  · rcases List.mem_cons.1 rest with rfl | later
    · rw [brackets_eq, isCommit, Bool.or_true] at operation
      cases operation
    · have bracket := (List.pairwise_cons.1 (List.pairwise_append.1 last).2.1).1 x later isCommit
        same.symm
      rw [operation] at bracket
      cases bracket

/-- Without a begin record before its commit record, a record is redone. -/
theorem Ordered.redone (ordered : s.Ordered tree) (undisturbed : Undisturbed s) {x : Logged}
    (logged : x ∈ s.trace) (operation : x.entry.record.brackets = false)
    (commits : s.Committed x.call) : x.entry ∈ committedBlocks [] s.log := by
  obtain ⟨before, middle, y, after, split, same, isCommit⟩ :=
    ordered.exists_commit logged operation commits
  have own := ordered.own_log
  have none := undisturbed.apart (before ++ x :: middle) y after split isCommit
  rw [mem_committedBlocks own]
  rw [log, split, List.map_append, List.map_append, List.map_cons, List.map_cons] at own ⊢
  refine ⟨_, y.entry, after.map (·.entry), rfl, isCommit, ?_⟩
  apply mem_openBlock
  · intro e member
    exact own e (List.mem_append_left _ member)
  · intro z member
    rcases List.mem_cons.1 member with rfl | member
    · rw [brackets_eq] at operation
      exact (Bool.or_eq_false_iff.1 operation).1
    · obtain ⟨z, inside, rfl⟩ := List.mem_map.1 member
      exact (List.pairwise_cons.1 (List.pairwise_append.1 none).2.1).1 z inside same.symm operation

/-- A redone record is followed by a commit record, with no begin record between; and the first
commit record after the record of a call that commits is its own. -/
theorem Ordered.no_begin (ordered : s.Ordered tree) (distinct : s.log.Nodup) {x y z : Logged}
    {before middle after : List Logged} (split : s.trace = before ++ x :: middle ++ y :: after)
    (same : x.call = y.call) (operation : x.entry.record.brackets = false)
    (commits : isCommit y.entry = true) (redone : x.entry ∈ committedBlocks [] s.log)
    (between : z ∈ middle) : isBegin z.entry = false := by
  by_contra begins
  have inside : z.entry ∈ middle.map (·.entry) := List.mem_map_of_mem between
  have own := ordered.own_log
  obtain ⟨earlier, commit, later, found, isCommit, member⟩ := (mem_committedBlocks own).1 redone
  obtain ⟨before', middle', rfl, none⟩ := exists_of_mem_openBlock
    (fun e m => own e (by rw [found]; exact List.mem_append_left _ m)) member
  have shape : s.log = before.map (·.entry) ++ x.entry ::
      (middle.map (·.entry) ++ y.entry :: after.map (·.entry)) := by
    rw [log, split]
    simp
  rw [List.append_assoc, List.cons_append] at found
  -- the record is in the log once, so both descriptions of the log cut it at the same place
  have cut : middle' ++ commit :: later =
      middle.map (·.entry) ++ y.entry :: after.map (·.entry) := by
    have nodup := distinct
    rw [shape] at nodup
    have apart := List.nodup_append.1 nodup
    have left : x.entry ∉ before.map (·.entry) := fun m => apart.2.2 _ m _ (by simp) rfl
    have right := (List.nodup_cons.1 apart.2.1).1
    exact ((List.append_cons_inj_of_notMem left right).1 (shape.symm.trans found)).2.2.symm
  have first : commit ∈ middle.map (·.entry) := by
    rcases List.append_eq_append_iff.1 cut with ⟨rest, longer, tail⟩ | ⟨rest, shorter, _⟩
    · cases rest with
      | nil =>
        rw [List.append_nil] at longer
        rw [longer] at inside
        exact absurd (none _ inside) begins
      | cons head rest =>
        obtain ⟨rfl, _⟩ := List.cons.inj tail
        rw [longer]
        simp
    · rw [shorter] at none
      exact absurd (none _ (List.mem_append_left _ inside)) begins
  obtain ⟨k, member, rfl⟩ := List.mem_map.1 first
  have critical := ordered.sections (before ++ x :: middle) y after split commits
  have other := (List.pairwise_cons.1 (List.pairwise_append.1 critical).2.1).1 k member same operation
  rw [isCommit] at other
  cases other

end

/-- In every run of concurrent inserts, `Recover` finds every record inside of an operation and
redoes every record of the inserts that committed, exactly if they are undisturbed. -/
theorem redoes_committed_iff_undisturbed (tree : UInt64) {s : Inserters}
    (run : Reach (Acts tree) (fun _ _ => True) Fresh s)
    (distinct : (s.log.map (·.lsn)).Nodup) : s.RedoesCommitted ↔ Undisturbed s := by
  have ordered := Ordered.run run
  have own := ordered.own_log
  have begun := committed_iff own
  constructor
  · rintro ⟨entries, redone, all⟩
    have blocks := blocks_of_committedFrom own redone
    obtain rfl := Option.some.inj (redone.symm.trans (committed_of_blocks own blocks))
    refine ⟨begun.1 ⟨_, redone⟩, ?_⟩
    intro earlier y later split commits
    rw [List.pairwise_iff_forall_sublist]
    intro x z pair same operation
    obtain ⟨first, second, rfl, member, rest⟩ := List.cons_sublist_iff.1 pair
    obtain ⟨before, middle, rfl⟩ := List.append_of_mem member
    have shape : s.trace = before ++ x :: (middle ++ second) ++ y :: later := by
      rw [split]
      simp
    have logged : x ∈ s.trace := by
      rw [shape]
      simp
    have committed : s.Committed x.call := ⟨y, by rw [shape]; simp, same.symm, commits⟩
    exact ordered.no_begin (distinct.of_map _) shape same operation commits
      (all x logged operation committed)
      (List.mem_append_right _ (List.singleton_sublist.1 rest))
  · intro undisturbed
    obtain ⟨entries, redone⟩ := begun.2 undisturbed.begun
    have blocks := blocks_of_committedFrom own redone
    exact ⟨_, committed_of_blocks own blocks, fun x logged operation committed =>
      ordered.redone undisturbed logged operation committed⟩

/-- No call yet. -/
def idle : Inserters := ⟨[], fun _ => .waiting, none⟩

theorem fresh_idle : idle.Fresh := ⟨rfl, fun _ => rfl, rfl⟩

/-- The second insert begins when the first has committed but still holds the mutex. -/
theorem redoes_committed_of_late_begin : ∃ s : Inserters,
    Reach (Acts 1) (fun _ _ => True) Fresh s ∧ s.Committed 1 ∧ s.Committed 2 ∧
      Undisturbed s ∧ s.RedoesCommitted := by
  have start : Reach (Acts 1) (fun _ _ => True) Fresh idle := .start fresh_idle
  have run := start.next trivial (.begin 1 1 rfl)
  have run := run.next trivial (.lock 1 rfl rfl)
  have run := run.next trivial (.log 1 2 (.insertLeafNodeEntry 1 1 [1] [1]) rfl rfl rfl)
  have run := run.next trivial (.commit 1 3 rfl)
  have run := run.next trivial (.begin 2 4 rfl)
  have run := run.next trivial (.unlock 1 (.inr rfl))
  have run := run.next trivial (.lock 2 rfl rfl)
  have run := run.next trivial (.log 2 5 (.insertLeafNodeEntry 1 1 [2] [2]) rfl rfl rfl)
  have run := run.next trivial (.commit 2 6 rfl)
  obtain ⟨s, run, trace⟩ : ∃ s : Inserters, Reach (Acts 1) (fun _ _ => True) Fresh s ∧
      s.trace = [⟨1, 1, .beginOperation 1⟩, ⟨1, 2, .insertLeafNodeEntry 1 1 [1] [1]⟩,
        ⟨1, 3, .commitOperation 1⟩, ⟨2, 4, .beginOperation 1⟩,
        ⟨2, 5, .insertLeafNodeEntry 1 1 [2] [2]⟩, ⟨2, 6, .commitOperation 1⟩] := ⟨_, run, rfl⟩
  have distinct : (s.log.map (·.lsn)).Nodup := by
    rw [log, trace]
    decide
  have redoes : s.RedoesCommitted := by
    refine ⟨[⟨2, .insertLeafNodeEntry 1 1 [1] [1]⟩, ⟨5, .insertLeafNodeEntry 1 1 [2] [2]⟩], ?_, ?_⟩
    · rw [log, trace]
      rfl
    · rw [trace]
      intro x member operation _
      simp only [List.mem_cons, List.not_mem_nil, or_false] at member
      rcases member with rfl | rfl | rfl | rfl | rfl | rfl
      all_goals simp [WALRecord.brackets] at operation ⊢
  refine ⟨s, run, ?_, ?_, (redoes_committed_iff_undisturbed 1 run distinct).1 redoes, redoes⟩
  · exact ⟨⟨1, 3, .commitOperation 1⟩, by simp [trace], rfl, rfl⟩
  · exact ⟨⟨2, 6, .commitOperation 1⟩, by simp [trace], rfl, rfl⟩

/-- The second insert begins between the records of the first: they are dropped at its begin
record, and once the first has committed, the records of the second belong to no operation. -/
theorem begin_inside_an_insert : ∃ s : Inserters, Reach (Acts 1) (fun _ _ => True) Fresh s ∧
    (s.log.map (·.lsn)).Nodup ∧ ¬ s.RedoesCommitted := by
  have start : Reach (Acts 1) (fun _ _ => True) Fresh idle := .start fresh_idle
  have run := start.next trivial (.begin 1 1 rfl)
  have run := run.next trivial (.lock 1 rfl rfl)
  have run := run.next trivial (.log 1 2 (.createPage 1 1 .leaf .fileExpansion) rfl rfl rfl)
  have run := run.next trivial (.begin 2 3 rfl)
  have run := run.next trivial (.log 1 4 (.updateFirstLeafNodePageId 1 1) rfl rfl rfl)
  have run := run.next trivial (.log 1 5 (.updateRootNodePageId 1 1) rfl rfl rfl)
  have run := run.next trivial (.log 1 6 (.insertLeafNodeEntry 1 1 [1] [1]) rfl rfl rfl)
  have run := run.next trivial (.commit 1 7 rfl)
  have run := run.next trivial (.unlock 1 (.inr rfl))
  have run := run.next trivial (.lock 2 rfl rfl)
  have run := run.next trivial (.log 2 8 (.insertLeafNodeEntry 1 1 [2] [2]) rfl rfl rfl)
  have run := run.next trivial (.commit 2 9 rfl)
  refine ⟨_, run, by decide, ?_⟩
  rintro ⟨entries, redone, _⟩
  cases redone

end Inserters

end StorageEngine

end CambiumDB
