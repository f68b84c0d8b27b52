import CambiumDB.BPlusTree.DeleteCorrect
import CambiumDB.BPlusTree.InsertCorrect

/-!
# The tree as a map

A session is a tree together with the map that its callers expect: an entry changes when a
call returned nil and at no other time. The tree answers as that map does in every session
whose inserts meet `InsertOk`. Without the condition an insert that returned nil can be
lost: the space check asks for the entry alone, the insert for the entry and its slot.
-/

namespace CambiumDB

open ByteBuffer SlotCodec SlottedPage TreeM TransitionSystem

open LeafNodeCodec (LeafPage InsertFits TakesInsert spaceRequired)

/-! ### Sessions -/

/-- A tree that nothing was inserted into yet. -/
structure Fresh (w : World) : Prop extends Ready w where
  noRoot : w.tree.rootNodePageId = 0
  /-- page 0 is the metadata page of a new file -/
  metaPage : w.pages 0 = Buffer.zero 4096
  noRecord : ∀ entry ∈ w.log, entry.record.tree ≠ w.tree.bPlusTreeId

/-- A new database: one page, nothing allocated, an empty log. -/
def newDatabase : World where
  tree := ⟨0, 0, 0⟩
  pages _ := Buffer.zero 4096
  filePages := 1
  metadata := ⟨0, 0, [], 0, [], []⟩
  log := []
  guards := []
  history := []
  calls := 0
  faults _ := false

theorem fresh_newDatabase : Fresh newDatabase where
  freeList := rfl
  inside := Nat.zero_lt_one
  limit := by decide
  blank _ _ _ := rfl
  guards := rfl
  faults _ := rfl
  noRoot := rfl
  metaPage := rfl
  noRecord _ member := absurd member (by simp [newDatabase])

theorem Fresh.holds {w : World} (fresh : Fresh w) : Holds w fun _ => none :=
  .empty fresh.noRoot (fresh.metaPage ▸ LeafNodeCodec.leafPage_zero)

/-- The calls of a client. -/
inductive Call where
  | insert (key value : Bytes)
  | delete (key : Bytes)
  | get (key : Bytes)

namespace Call

def run (nextLSN : List LogEntry → UInt64) : Call → TreeM Unit
  | insert key value => BPlusTree.insert nextLSN key value
  | delete key => BPlusTree.delete key
  | get key => do
    let _ ← BPlusTree.get key

/-- What a call that returned nil did to the map. -/
def effect : Call → (Bytes → Option Bytes) → Bytes → Option Bytes
  | insert key value, map => Function.update map key (some value)
  | delete key, map => Function.update map key none
  | get _, map => map

end Call

structure Session where
  world : World
  map : Bytes → Option Bytes

/-- A call that returned, with nil or with an error. -/
inductive CallStep (nextLSN : List LogEntry → UInt64) (s : Session) (call : Call) : Session → Prop
  | returned {w' : World} : call.run nextLSN s.world = (.ok (), w') →
      CallStep nextLSN s call ⟨w', call.effect s.map⟩
  | failed {w' : World} {e : TreeError} : call.run nextLSN s.world = (.error (.error e), w') →
      CallStep nextLSN s call ⟨w', s.map⟩

/-- A call that returned nil. -/
inductive NilStep (nextLSN : List LogEntry → UInt64) (s : Session) (call : Call) : Session → Prop
  | returned {w' : World} : call.run nextLSN s.world = (.ok (), w') →
      NilStep nextLSN s call ⟨w', call.effect s.map⟩

def Opened (s : Session) : Prop := Fresh s.world ∧ s.map = fun _ => none

/-- The file can still grow by the pages of one split, so no disk call fails. -/
def DiskGrows (s : Session) (_ : Call) : Prop := s.world.filePages + 32 ≤ maxFilePages

/-- One more insert that returned nil. -/
theorem reach_insert {nextLSN : List LogEntry → UInt64} {allowed : Session → Call → Prop}
    {init : Session → Prop} {s : Session} {key value : Bytes} {w' : World}
    (reached : Reach (NilStep nextLSN) allowed init s) (ok : allowed s (.insert key value))
    (run : BPlusTree.insert nextLSN key value s.world = (.ok (), w')) :
    Reach (NilStep nextLSN) allowed init ⟨w', Function.update s.map key (some value)⟩ := by
  have step : NilStep nextLSN s (.insert key value) ⟨w', Function.update s.map key (some value)⟩ :=
    .returned run
  exact .next reached ok step

/-- The condition on an insert, next to a disk that can grow. -/
def CallOk (s : Session) (call : Call) : Prop :=
  DiskGrows s call ∧
    match call with
    | .insert key value => BPlusTree.InsertOk s.world key value
    | _ => True

/-- Calls that returned nil and met the condition are calls of both kinds. -/
theorem reach_callOk {nextLSN : List LogEntry → UInt64} {s : Session}
    (reached : Reach (NilStep nextLSN) CallOk (· = ⟨newDatabase, fun _ => none⟩) s) :
    Reach (NilStep nextLSN) DiskGrows (· = ⟨newDatabase, fun _ => none⟩) s ∧
      Reach (CallStep nextLSN) CallOk Opened s := by
  constructor
  · exact reached.mono (fun _ _ _ step => step) (fun _ _ ok => ok.1) fun _ start => start
  · refine reached.mono (fun s call s' step => ?_) (fun _ _ ok => ok) fun s start => ?_
    · cases step with
      | returned run => exact .returned run
    · rw [start]
      exact ⟨fresh_newDatabase, rfl⟩

/-- The tree of a session holds the map that its callers expect. -/
structure Agrees (s : Session) : Prop where
  ready : Ready s.world
  holds : Holds s.world s.map

theorem Opened.agrees {s : Session} (opened : Opened s) : Agrees s := by
  obtain ⟨fresh, empty⟩ := opened
  exact ⟨fresh.toReady, empty ▸ fresh.holds⟩

/-- What a call that meets the condition does, whether it returned nil or an error. -/
inductive Outcome (nextLSN : List LogEntry → UInt64) (s : Session) : Call → Session → Prop
  | insert {key value : Bytes} {w' : World} : BPlusTree.Inserted nextLSN key value s.world w' →
      Outcome nextLSN s (.insert key value) ⟨w', Function.update s.map key (some value)⟩
  | delete {key : Bytes} {w' : World} : BPlusTree.Deleted key s.world w' →
      Outcome nextLSN s (.delete key) ⟨w', Function.update s.map key none⟩
  | get {key : Bytes} {w' : World} : SameStore s.world w' → Outcome nextLSN s (.get key) ⟨w', s.map⟩

section
variable {nextLSN : List LogEntry → UInt64} {s s' : Session}

theorem CallStep.insert_outcome {key value : Bytes} (agrees : Agrees s)
    (ok : CallOk s (.insert key value)) (step : CallStep nextLSN s (.insert key value) s') :
    Outcome nextLSN s (.insert key value) s' := by
  obtain ⟨grows, fits⟩ := ok
  obtain ⟨w', run, outcome⟩ :=
    BPlusTree.insert_outcome nextLSN agrees.ready agrees.holds grows fits
  cases step with
  | returned run' =>
    obtain ⟨_, rfl⟩ := Prod.mk.inj (run.symm.trans run')
    exact .insert outcome
  | failed run' => cases run.symm.trans run'

theorem CallStep.delete_outcome {key : Bytes} (agrees : Agrees s)
    (step : CallStep nextLSN s (.delete key) s') : Outcome nextLSN s (.delete key) s' := by
  obtain ⟨w', run, outcome⟩ := BPlusTree.delete_outcome agrees.ready agrees.holds key
  cases entry : s.map key with
  | some value =>
    rw [entry] at run
    cases step with
    | returned run' =>
      obtain ⟨_, rfl⟩ := Prod.mk.inj (run.symm.trans run')
      exact .delete outcome
    | failed run' => cases run.symm.trans run'
  | none =>
    rw [entry] at run
    cases step with
    | returned run' => cases run.symm.trans run'
    | failed run' =>
      obtain ⟨_, rfl⟩ := Prod.mk.inj (run.symm.trans run')
      -- the key was not there, so erasing it from the map changes nothing
      have same : Function.update s.map key none = s.map := Function.update_eq_self_iff.mpr entry.symm
      have erased : Outcome nextLSN s (.delete key) _ := Outcome.delete outcome
      rwa [same] at erased

theorem CallStep.get_outcome {key : Bytes} (agrees : Agrees s)
    (step : CallStep nextLSN s (.get key) s') : Outcome nextLSN s (.get key) s' := by
  obtain ⟨w', run, same⟩ := BPlusTree.get_run agrees.ready agrees.holds key
  -- the answer is dropped: the store and the map are as they were
  have after : ((Call.get key).run nextLSN s.world).2 = w' := by
    show ((BPlusTree.get key >>= fun _ => pure ()) s.world).2 = w'
    cases entry : s.map key with
    | some value =>
      rw [entry] at run
      rw [bind_ok run]
      rfl
    | none =>
      rw [entry] at run
      rw [bind_error run]
  subst after
  cases step with
  | returned run' =>
    rw [run'] at same
    exact .get same
  | failed run' =>
    rw [run'] at same
    exact .get same

theorem CallStep.outcome {call : Call} (agrees : Agrees s) (ok : CallOk s call)
    (step : CallStep nextLSN s call s') : Outcome nextLSN s call s' := by
  cases call with
  | insert key value => exact step.insert_outcome agrees ok
  | delete key => exact step.delete_outcome agrees
  | get key => exact step.get_outcome agrees

theorem Outcome.agrees {call : Call} (agrees : Agrees s) (grows : DiskGrows s call)
    (outcome : Outcome nextLSN s call s') : Agrees s' := by
  cases outcome with
  | insert inserted =>
    obtain ⟨ready, holds⟩ := inserted.preserves nextLSN agrees.ready agrees.holds grows
    exact ⟨ready, holds⟩
  | delete deleted =>
    obtain ⟨ready, holds⟩ := deleted.preserves agrees.ready agrees.holds
    exact ⟨ready, holds⟩
  | get same => exact ⟨same.ready agrees.ready, same.holds agrees.holds⟩

theorem agrees_of_reach (reached : Reach (CallStep nextLSN) CallOk Opened s) : Agrees s :=
  reached.invariant Agrees (fun _ opened => opened.agrees) fun _ _ _ agrees ok step =>
    (step.outcome agrees ok).agrees agrees ok.1

/-- A property of the store that every outcome keeps holds in every session. -/
theorem invariant_of_reach {P : World → Prop} (start : ∀ w, Fresh w → P w)
    (keep : ∀ s call s', Agrees s → DiskGrows s call → Outcome nextLSN s call s' →
      P s.world → P s'.world) (reached : Reach (CallStep nextLSN) CallOk Opened s) : P s.world := by
  refine (reached.invariant (fun s => Agrees s ∧ P s.world) ?_ ?_).2
  · intro s opened
    exact ⟨opened.agrees, start s.world opened.1⟩
  · intro s call s' ⟨agrees, holds⟩ ok step
    have outcome := step.outcome agrees ok
    exact ⟨outcome.agrees agrees ok.1, keep s call s' agrees ok.1 outcome holds⟩

end

/-- `Get` returns the value of the last insert that returned nil, and not-found if there was
none or a delete came after it. -/
theorem get_answers_last_write (nextLSN : List LogEntry → UInt64) {s : Session}
    (reached : Reach (CallStep nextLSN) CallOk Opened s) (key : Bytes) :
    (BPlusTree.get key s.world).1 = BPlusTree.answer key (s.map key) :=
  BPlusTree.get_of_holds (agrees_of_reach reached).ready (agrees_of_reach reached).holds key

/-- A first entry that leaves room for its slot meets the condition. -/
theorem Fresh.insertOk {w : World} (fresh : Fresh w) {key value : Bytes}
    (room : spaceRequired key value + slotSize ≤ 4064) : BPlusTree.InsertOk w key value := by
  rw [BPlusTree.InsertOk, if_pos fresh.noRoot]
  exact LeafNodeCodec.clean_zero.insertFits room

/-- The session of one insert into a new database. -/
theorem reach_first (nextLSN : List LogEntry → UInt64) (key value : Bytes)
    (room : spaceRequired key value + slotSize ≤ 4064) :
    ∃ w', Reach (CallStep nextLSN) CallOk Opened
        ⟨w', Function.update (fun _ => none) key (some value)⟩ ∧
      BPlusTree.Inserted nextLSN key value newDatabase w' := by
  have ok : CallOk ⟨newDatabase, fun _ => none⟩ (.insert key value) :=
    ⟨by unfold DiskGrows; decide, fresh_newDatabase.insertOk room⟩
  obtain ⟨w', run, outcome⟩ := BPlusTree.insert_outcome nextLSN
    fresh_newDatabase.toReady fresh_newDatabase.holds ok.1 ok.2
  have opened : Opened ⟨newDatabase, fun _ => none⟩ := ⟨fresh_newDatabase, rfl⟩
  exact ⟨w', .next (.start opened) ok (.returned run), outcome⟩

theorem get_answers_first_insert : ∃ s, Reach (CallStep fun log => log.length.toUInt64 + 1) CallOk
    Opened s ∧ s.map [1] = some [2] ∧ (BPlusTree.get [1] s.world).1 = .ok [2] := by
  obtain ⟨w', reached, _⟩ := reach_first (fun log => log.length.toUInt64 + 1) [1] [2]
    (by decide)
  exact ⟨_, reached, rfl, get_answers_last_write _ reached [1]⟩

/-- The first insert of a key whose entry fits the page when its slot does not: nil is
returned and the tree stays empty. -/
theorem insert_refused (nextLSN : List LogEntry → UInt64) {w : World} (key : Bytes) {value : Bytes}
    (ready : Ready w) (grows : w.filePages + 16 ≤ maxFilePages) (empty : w.tree.rootNodePageId = 0)
    (fits : spaceRequired key value ≤ 4064) (full : 4064 < spaceRequired key value + slotSize) :
    ∃ w', BPlusTree.insert nextLSN key value w = (.ok (), w') ∧ Ready w' ∧
      Holds w' fun _ => none := by
  have alloc : (w.begin nextLSN).Allocating := ready.toAllocating.congr rfl rfl rfl fun _ _ => rfl
  have page := BPlusTree.plantRoot_page nextLSN alloc
  have leaf := LeafNodeCodec.leafPage_zero.setLSN (nextLSN (w.begin nextLSN).log)
  obtain ⟨free, garbage, _⟩ := LeafNodeCodec.leafPage_zero.sizes_setLSN (nextLSN (w.begin nextLSN).log)
  have space : packedSpace LeafNodeCodec.elementCodec [] = 4064 := rfl
  rw [LeafNodeCodec.clean_zero.free, space] at free
  rw [LeafNodeCodec.clean_zero.garbage] at garbage
  rw [← page] at leaf free garbage
  obtain ⟨final, run, held⟩ := BPlusTree.writeLeaf_refused nextLSN
    (w := (w.begin nextLSN).plantRoot nextLSN) ready.faults leaf rfl (free.symm ▸ fits)
    (free.symm ▸ full) (by omega)
  have noGuard : w.nextPage ∉ w.guards := by simp [ready.guards]
  refine ⟨_, BPlusTree.insert_first nextLSN ready.faults empty ready.toAllocating grows noGuard ?_
    run, ?_⟩
  · exact ready.faults
  · obtain ⟨ready', stored⟩ := BPlusTree.preserves_planted nextLSN ready grows held
    have nothing : denotes w.nextPage [] (fun _ => []) = fun _ => none := rfl
    exact ⟨ready', nothing ▸ .stored stored⟩

theorem insert_without_room_for_slot_is_lost :
    ∃ s, Reach (CallStep recordLSN) DiskGrows (· = ⟨newDatabase, fun _ => none⟩) s ∧
      s.map [] = some (List.replicate 4060 0) ∧
      (BPlusTree.get [] s.world).1 = .error (.error (.keyNotFound [])) := by
  obtain ⟨value, long⟩ : ∃ value : Bytes, value = List.replicate 4060 0 := ⟨_, rfl⟩
  have room : spaceRequired [] value = 4064 := by
    rw [spaceRequired, long, List.length_replicate, List.length_nil]
  have grows : newDatabase.filePages + 32 ≤ maxFilePages := by decide
  obtain ⟨w', run, ready, holds⟩ := insert_refused recordLSN []
    fresh_newDatabase.toReady (by omega) rfl (le_of_eq room) (by rw [room]; decide)
  have step : CallStep recordLSN ⟨newDatabase, fun _ => none⟩ (.insert [] value)
      ⟨w', Function.update (fun _ => none) [] (some value)⟩ := .returned run
  refine ⟨_, .next (.start rfl) grows step, ?_, BPlusTree.get_of_holds ready holds []⟩
  rw [← long]
  rfl

end CambiumDB
