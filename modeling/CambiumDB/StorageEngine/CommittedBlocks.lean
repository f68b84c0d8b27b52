import CambiumDB.StorageEngine.Recovery

/-!
# Which records `Recover` redoes

The records of one tree form blocks. A block starts with a begin record and ends with a
commit record, with the next begin record of the tree or with the log. `Recover` redoes the
blocks that end with a commit record, in the order of these records.
-/

namespace CambiumDB

namespace StorageEngine

open TreeM

/-- The record is neither a begin nor a commit record. -/
def IsOperation (entry : LogEntry) : Prop :=
  (∀ tree, entry.record ≠ .beginOperation tree) ∧ ∀ tree, entry.record ≠ .commitOperation tree

/-- The records of one tree, from a point outside or inside of a block. -/
inductive Blocks : Bool → List LogEntry → Prop
  | nil {inside : Bool} : Blocks inside []
  | begin {inside : Bool} {entry : LogEntry} {tree : UInt64} {rest : List LogEntry} :
      entry.record = .beginOperation tree → Blocks true rest → Blocks inside (entry :: rest)
  | operation {entry : LogEntry} {rest : List LogEntry} :
      IsOperation entry → Blocks true rest → Blocks true (entry :: rest)
  | commit {entry : LogEntry} {tree : UInt64} {rest : List LogEntry} :
      entry.record = .commitOperation tree → Blocks false rest → Blocks true (entry :: rest)

def ofTree (tree : UInt64) (log : List LogEntry) : List LogEntry :=
  log.filter fun entry => entry.record.tree = tree

/-- The records of every tree form blocks; those of different trees may interleave. -/
def WellBracketed (log : List LogEntry) : Prop := ∀ tree, Blocks false (ofTree tree log)

def isBegin (entry : LogEntry) : Bool :=
  match entry.record with
  | .beginOperation _ => true
  | _ => false

/-- The records of the tree after its last begin record. -/
def openBlock (tree : UInt64) (before : List LogEntry) : List LogEntry :=
  ((ofTree tree before).reverse.takeWhile fun entry => !isBegin entry).reverse

/-- For each commit record of `log`, in order, the block that it ends. -/
def committedBlocks (before : List LogEntry) : List LogEntry → List LogEntry
  | [] => []
  | entry :: rest =>
    match entry.record with
    | .commitOperation tree => openBlock tree before ++ committedBlocks (before ++ [entry]) rest
    | _ => committedBlocks (before ++ [entry]) rest

/-! ### The open block of a tree -/

section
variable {entry : LogEntry} {tree : UInt64} {before : List LogEntry}

theorem openBlock_other (other : entry.record.tree ≠ tree) :
    openBlock tree (before ++ [entry]) = openBlock tree before := by
  simp [openBlock, ofTree, List.filter_append, other]

theorem openBlock_own (own : entry.record.tree = tree) : openBlock tree (before ++ [entry]) =
    if isBegin entry then [] else openBlock tree before ++ [entry] := by
  cases first : isBegin entry with
  | true => simp [openBlock, ofTree, List.filter_append, own, first]
  | false => simp [openBlock, ofTree, List.filter_append, own, first]

theorem isBegin_begin (begins : entry.record = .beginOperation tree) : isBegin entry = true := by
  rw [isBegin, begins]

theorem isBegin_operation (operation : IsOperation entry) : isBegin entry = false := by
  rw [isBegin]
  split
  next tree begins => exact absurd begins (operation.1 tree)
  next => rfl

end

theorem committedBlocks_other {entry : LogEntry} (other : ∀ tree, entry.record ≠ .commitOperation tree)
    (before rest : List LogEntry) :
    committedBlocks before (entry :: rest) = committedBlocks (before ++ [entry]) rest := by
  rw [committedBlocks]
  split
  next tree commits => exact absurd commits (other tree)
  next => rfl

theorem committedBlocks_commit {entry : LogEntry} {tree : UInt64}
    (commits : entry.record = .commitOperation tree) (before rest : List LogEntry) :
    committedBlocks before (entry :: rest) =
      openBlock tree before ++ committedBlocks (before ++ [entry]) rest := by
  rw [committedBlocks, commits]

/-! ### The pending lists are the open blocks -/

/-- A tree has a pending list exactly inside of a block, and the list is what the block has
so far. What is left of the log goes on from there. -/
structure TreeAgrees (inside : Bool) (pending : Option (List LogEntry)) (tree : UInt64)
    (before rest : List LogEntry) : Prop where
  list : pending = if inside then some (openBlock tree before) else none
  blocks : Blocks inside (ofTree tree rest)
  operations : inside = true → ∀ entry ∈ openBlock tree before, IsOperation entry

def Agrees (inside : UInt64 → Bool) (pending : Pending) (before rest : List LogEntry) : Prop :=
  ∀ tree, TreeAgrees (inside tree) (pending tree) tree before rest

section
variable {inside : UInt64 → Bool} {pending : Pending} {before rest : List LogEntry}
  {entry : LogEntry}

/-- What one record does to its own tree; the other trees see nothing of it. -/
theorem Agrees.advance {tree : UInt64} {inside' : Bool} {list : Option (List LogEntry)}
    (agrees : Agrees inside pending before (entry :: rest)) (own : entry.record.tree = tree)
    (now : TreeAgrees inside' list tree (before ++ [entry]) rest) :
    Agrees (Function.update inside tree inside') (Function.update pending tree list)
      (before ++ [entry]) rest := by
  intro other
  by_cases same : other = tree
  · subst same
    rw [Function.update_self, Function.update_self]
    exact now
  · have foreign : entry.record.tree ≠ other := by
      rw [own]
      exact Ne.symm same
    obtain ⟨list, blocks, operations⟩ := agrees other
    rw [ofTree, List.filter_cons_of_neg (by simpa using foreign)] at blocks
    rw [Function.update_of_ne same, Function.update_of_ne same]
    constructor
    · rw [openBlock_other foreign]
      exact list
    · exact blocks
    · rw [openBlock_other foreign]
      exact operations

theorem Agrees.own (agrees : Agrees inside pending before (entry :: rest)) :
    Blocks (inside entry.record.tree) (entry :: ofTree entry.record.tree rest) := by
  have blocks := (agrees entry.record.tree).blocks
  rw [ofTree, List.filter_cons_of_pos (by simp)] at blocks
  exact blocks

/-- A begin record starts an empty block, whether or not the last one was committed. -/
theorem Agrees.begin {tree : UInt64} (agrees : Agrees inside pending before (entry :: rest))
    (begins : entry.record = .beginOperation tree)
    (blocks : Blocks true (ofTree entry.record.tree rest)) :
    Agrees (Function.update inside tree true) (Function.update pending tree (some []))
      (before ++ [entry]) rest := by
  have here : entry.record.tree = tree := by rw [begins, WALRecord.tree]
  have empty : openBlock tree (before ++ [entry]) = [] := by
    rw [openBlock_own here, isBegin_begin begins]
    rfl
  apply agrees.advance here
  constructor
  · rw [empty]
    rfl
  · rw [← here]
    exact blocks
  · rw [empty]
    exact fun _ => by simp

theorem Agrees.operation (agrees : Agrees inside pending before (entry :: rest))
    (within : inside entry.record.tree = true) (operation : IsOperation entry)
    (blocks : Blocks true (ofTree entry.record.tree rest)) :
    Agrees (Function.update inside entry.record.tree true)
      (Function.update pending entry.record.tree
        (some (openBlock entry.record.tree before ++ [entry]))) (before ++ [entry]) rest := by
  have grown : openBlock entry.record.tree (before ++ [entry]) =
      openBlock entry.record.tree before ++ [entry] := by
    rw [openBlock_own rfl, isBegin_operation operation]
    rfl
  apply agrees.advance rfl
  constructor
  · rw [grown]
    rfl
  · exact blocks
  · rw [grown]
    intro _ other member
    rcases List.mem_append.1 member with old | new
    · exact (agrees _).operations within other old
    · obtain rfl := List.mem_singleton.1 new
      exact operation

theorem Agrees.commit {tree : UInt64} (agrees : Agrees inside pending before (entry :: rest))
    (commits : entry.record = .commitOperation tree)
    (blocks : Blocks false (ofTree entry.record.tree rest)) :
    Agrees (Function.update inside tree false) (Function.update pending tree none)
      (before ++ [entry]) rest := by
  have here : entry.record.tree = tree := by rw [commits, WALRecord.tree]
  apply agrees.advance here
  constructor
  · rfl
  · rw [← here]
    exact blocks
  · nofun

end

/-! ### The loop -/

/-- On a log of blocks the loop of `Recover` finds the committed blocks. -/
theorem committedFrom_eq {inside : UInt64 → Bool} {pending : Pending} {before log : List LogEntry}
    (agrees : Agrees inside pending before log) :
    committedFrom pending log = some (committedBlocks before log) ∧
      ∀ entry ∈ committedBlocks before log, IsOperation entry := by
  induction log generalizing inside pending before with
  | nil => exact ⟨rfl, by simp [committedBlocks]⟩
  | cons entry rest ih =>
    -- outside of a block only a begin record can follow
    generalize within : inside entry.record.tree = here
    have own := agrees.own
    rw [within] at own
    cases own with
    | begin begins blocks =>
      rw [committedFrom, committedBlocks, begins]
      exact ih (agrees.begin begins blocks)
    | operation operation blocks =>
      have list := (agrees entry.record.tree).list
      rw [within, if_pos rfl] at list
      have step : committedFrom pending (entry :: rest) =
          committedFrom (Function.update pending entry.record.tree
            (some (openBlock entry.record.tree before ++ [entry]))) rest := by
        rw [committedFrom]
        split
        next tree begins => exact absurd begins (operation.1 tree)
        next tree commits => exact absurd commits (operation.2 tree)
        next => rw [list]
      rw [step, committedBlocks_other operation.2]
      exact ih (agrees.operation within operation blocks)
    | @commit _ tree _ commits blocks =>
      have own : entry.record.tree = tree := by rw [commits, WALRecord.tree]
      rw [own] at within
      have now := agrees tree
      have list := now.list
      rw [within, if_pos rfl] at list
      obtain ⟨found, operations⟩ := ih (agrees.commit commits blocks)
      rw [committedFrom, committedBlocks, commits]
      dsimp only
      rw [list, found]
      refine ⟨rfl, ?_⟩
      intro other member
      rcases List.mem_append.1 member with block | later
      · exact now.operations within other block
      · exact operations other later

/-- On every log of blocks `Recover` redoes the records of the committed blocks and nothing
else, one after the other. If each redo succeeds, only the final flush can fail. -/
theorem recover_redoes_committed_blocks {log : List LogEntry} (bracketed : WellBracketed log) :
    recoverLoop (fun _ => none) log = redoAll (committedBlocks [] log) ∧
      (∀ entry ∈ committedBlocks [] log, IsOperation entry) ∧
      ∀ w w', w.log = log → redoAll (committedBlocks [] log) w = (.ok (), w') →
        recover w = flushAllPages w' := by
  have start : Agrees (fun _ => false) (fun _ => none) [] log :=
    fun tree => ⟨rfl, bracketed tree, nofun⟩
  obtain ⟨found, operations⟩ := committedFrom_eq start
  have loop := recoverLoop_eq found
  refine ⟨loop, operations, ?_⟩
  rintro w w' rfl redone
  rw [recover, bind_ok (get_apply _ _), loop, bind_ok redone]

/-- Two trees whose blocks interleave, and an operation of the first that was abandoned. -/
theorem recover_interleaved_blocks :
    recoverLoop (fun _ => none) [⟨1, .beginOperation 1⟩, ⟨2, .updateRootNodePageId 1 4⟩,
      ⟨3, .beginOperation 2⟩, ⟨4, .beginOperation 1⟩, ⟨5, .updateRootNodePageId 2 5⟩,
      ⟨6, .updateRootNodePageId 1 6⟩, ⟨7, .commitOperation 2⟩, ⟨8, .commitOperation 1⟩] =
    redoAll [⟨5, .updateRootNodePageId 2 5⟩, ⟨6, .updateRootNodePageId 1 6⟩] := by
  refine (recover_redoes_committed_blocks ?_).1
  intro tree
  by_cases first : tree = 1
  · subst first
    exact .begin rfl (.operation ⟨by simp, by simp⟩ (.begin rfl
      (.operation ⟨by simp, by simp⟩ (.commit rfl .nil))))
  · by_cases second : tree = 2
    · subst second
      exact .begin rfl (.operation ⟨by simp, by simp⟩ (.commit rfl .nil))
    · have none : ofTree tree [⟨1, .beginOperation 1⟩, ⟨2, .updateRootNodePageId 1 4⟩,
          ⟨3, .beginOperation 2⟩, ⟨4, .beginOperation 1⟩, ⟨5, .updateRootNodePageId 2 5⟩,
          ⟨6, .updateRootNodePageId 1 6⟩, ⟨7, .commitOperation 2⟩, ⟨8, .commitOperation 1⟩] =
          [] := by
        simp [ofTree, WALRecord.tree, Ne.symm first, Ne.symm second]
      rw [none]
      exact .nil

end StorageEngine

end CambiumDB
