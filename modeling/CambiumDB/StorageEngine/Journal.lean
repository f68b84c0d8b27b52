import CambiumDB.BPlusTree.Refinement
import CambiumDB.StorageEngine.SameTree

/-!
# The log of inserts that run one at a time

Whatever fails in it, an insert adds one block of its tree to the log.
-/

namespace CambiumDB

open TransitionSystem

namespace StorageEngine

theorem Blocks.append {inside : Bool} {log block : List LogEntry} (blocks : Blocks inside log)
    (after : ∀ inside, Blocks inside block) : Blocks inside (log ++ block) := by
  induction blocks with
  | nil => exact after _
  | begin begins _ ih => exact .begin begins ih
  | operation operation _ ih => exact .operation operation ih
  | commit commits _ ih => exact .commit commits ih

theorem blocks_operations {operations closing : List LogEntry}
    (quiet : ∀ e ∈ operations, e.record.brackets = false) (closes : Blocks true closing) :
    Blocks true (operations ++ closing) := by
  induction operations with
  | nil => exact closes
  | cons e rest ih =>
    exact .operation (isOperation_iff.2 (quiet e (by simp)))
      (ih fun e member => quiet e (List.mem_cons_of_mem _ member))

/-- An insert into any tree of any store, with any result. -/
def Appends (nextLSN : List LogEntry → UInt64) (log : List LogEntry) (w : World)
    (log' : List LogEntry) : Prop :=
  w.log = log ∧ ∃ key value, (BPlusTree.insert nextLSN key value w).2.log = log'

/-- Its begin record is logged. -/
def Begins (_ : List LogEntry) (w : World) : Prop := w.faults w.calls = false

section
variable {nextLSN : List LogEntry → UInt64} {log log' : List LogEntry} {w : World}

theorem Appends.block (begins : Begins log w) (step : Appends nextLSN log w log') :
    ∃ block, log' = log ++ block ∧ (∀ e ∈ block, e.record.tree = w.tree.bPlusTreeId) ∧
      ∀ inside, Blocks inside block := by
  obtain ⟨rfl, key, value, rfl⟩ := step
  have insert : BPlusTree.insert nextLSN key value w =
      BPlusTree.insertLocked nextLSN key value (w.begin nextLSN) := by
    rw [BPlusTree.insert, TreeM.bind_ok (TreeM.get_apply _ w),
      TreeM.bind_ok (TreeM.logIgnored_ok begins)]
    rfl
  obtain ⟨w₁, ⟨_, operations, logged, own⟩, final⟩ :=
    insertLocked_log nextLSN key value (w.begin nextLSN)
  have begun (closing : List LogEntry) : w₁.log ++ closing = w.log ++
      ⟨nextLSN w.log, .beginOperation w.tree.bPlusTreeId⟩ :: (operations ++ closing) := by
    rw [logged, List.append_assoc]
    exact List.append_assoc w.log _ _
  have quiet := fun e member => (own e member).2
  have mine {closing : List LogEntry}
      (closes : ∀ e ∈ closing, e.record.tree = w.tree.bPlusTreeId) :
      ∀ e ∈ ⟨nextLSN w.log, .beginOperation w.tree.bPlusTreeId⟩ :: (operations ++ closing),
        e.record.tree = w.tree.bPlusTreeId := by
    intro e member
    rcases List.mem_cons.1 member with rfl | member
    · rfl
    · exact (List.mem_append.1 member).elim (fun here => (own e here).1) (closes e)
  rw [insert]
  rcases final with failed | ⟨lsn, done⟩
  · exact ⟨_, failed.trans ((List.append_nil _).symm.trans (begun [])), mine (by simp),
      fun _ => .begin rfl (blocks_operations quiet .nil)⟩
  · exact ⟨_, done.trans (begun _), mine (List.forall_mem_singleton.2 rfl),
      fun _ => .begin rfl (blocks_operations quiet (.commit rfl .nil))⟩

theorem Appends.wellBracketed (bracketed : WellBracketed log) (begins : Begins log w)
    (step : Appends nextLSN log w log') : WellBracketed log' := by
  obtain ⟨block, rfl, own, blocks⟩ := step.block begins
  intro tree
  rw [ofTree, List.filter_append]
  apply (bracketed tree).append
  intro inside
  by_cases same : w.tree.bPlusTreeId = tree
  · rw [List.filter_eq_self.2 fun e member => decide_eq_true ((own e member).trans same)]
    exact blocks inside
  · rw [List.filter_eq_nil_iff.2 fun e member found =>
      same ((own e member).symm.trans (of_decide_eq_true found))]
    exact .nil

end

/-- Whatever failed in the inserts, `Recover` finds no record out of place, and it redoes the
operations between begin and commit records. -/
theorem log_of_inserts_is_accepted (nextLSN : List LogEntry → UInt64) {log : List LogEntry}
    (reached : Reach (Appends nextLSN) Begins (· = []) log) :
    WellBracketed log ∧ committed log = some (committedBlocks [] log) := by
  have bracketed : WellBracketed log := by
    refine reached.invariant WellBracketed ?_ fun _ _ _ bracketed begins step =>
      step.wellBracketed bracketed begins
    rintro _ rfl tree
    exact .nil
  have start : Agrees (fun _ => false) (fun _ => none) [] log :=
    fun tree => ⟨rfl, bracketed tree, by simp⟩
  exact ⟨bracketed, (committedFrom_eq start).1⟩

theorem log_of_first_insert_is_accepted :
    committed (BPlusTree.insert recordLSN [1] [2] CambiumDB.newDatabase).2.log ≠ none := by
  have reached : Reach (Appends recordLSN) Begins (· = []) _ :=
    .next (l := CambiumDB.newDatabase) (.start rfl) rfl ⟨rfl, [1], [2], rfl⟩
  simp [(log_of_inserts_is_accepted recordLSN reached).2]

end StorageEngine

end CambiumDB
