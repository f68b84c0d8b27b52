import CambiumDB.BPlusTree.Refinement
import CambiumDB.Server.Protocol
import CambiumDB.StorageEngine.Engine

/-!
# Shutting down with clients connected

`Shutdown` first copies the root of the tree into the metadata, then closes the listener and
then the channel that tells the clients to leave. A client that has passed its check of the
channel still serves the request it reads. The metadata page is written by `main`, when all
clients have left.
-/

namespace CambiumDB

open ByteBuffer TransitionSystem

/-- `bufferPoolManager.Close` writes all pages and the metadata page; the file is then opened
again with `NewDirectIODiskManager` and `NewBPlusTree(0, ...)`. -/
def World.reopened (w : World) : Option World := do
  let metaDataPage ← MetaDataCodec.encodeMetaDataPage w.metadata
  let metadata ← MetaDataCodec.decodeMetaDataPage metaDataPage
  some { w with
    tree := BPlusTree.newBPlusTree metadata 0
    pages := Function.update w.pages 0 metaDataPage
    metadata
    guards := []
    history := []
    calls := 0 }

namespace Server

/-- Where the goroutine of a client is. -/
inductive Client where
  | absent
  /-- before the check of the channel -/
  | looping
  /-- past the check -/
  | reading
  | serving (operation : Operation)
  /-- in `Shutdown` -/
  | shuttingDown
  | exited
  deriving DecidableEq

/-- What `Shutdown` has done. -/
inductive Stage where
  | running
  | treeClosed
  | listenerClosed
  | channelClosed
  deriving DecidableEq

/-- The server with all its clients. The map of the session is what the answers say. -/
structure Running where
  session : CambiumDB.Session
  clients : Nat → Client
  stage : Stage

namespace Running

def move (s : Running) (client : Nat) (place : Client) : Running :=
  { s with clients := Function.update s.clients client place }

/-- A request that calls the tree. -/
def treeCall : Operation → Option Call
  | .insert key value => some (.insert key value)
  | .delete key => some (.delete key)
  | .get key => some (.get key)
  | _ => none

/-- `Run` returns: the listener is closed and no client is left. -/
def Finished (s : Running) : Prop :=
  (s.stage = .listenerClosed ∨ s.stage = .channelClosed) ∧
    ∀ c, s.clients c = .absent ∨ s.clients c = .exited

inductive Event where
  | accept (client : Nat)
  | check (client : Nat)
  | read (client : Nat) (operation : Operation)
  | invalid (client : Nat)
  | timeout (client : Nat)
  | disconnect (client : Nat)
  | call (client : Nat) (call : Call)
  | ping (client : Nat)
  | close (client : Nat)
  | closeTree (client : Nat)
  | closeListener (client : Nat)
  | closeChannel (client : Nat)
  | shutdownAgain (client : Nat)
  | restart

/-- A step of one goroutine. A call holds the mutex of the tree until it returns, so it is one
step; `Close` takes no mutex, but the root is the only word that it shares with a call. A call
that panics ends the process, so it is no step here. -/
inductive Step (nextLSN : List LogEntry → UInt64) (s : Running) : Event → Running → Prop
  | accept {c : Nat} : s.clients c = .absent → s.stage = .running ∨ s.stage = .treeClosed →
      Step nextLSN s (.accept c) (s.move c .looping)
  | check {c : Nat} : s.clients c = .looping →
      Step nextLSN s (.check c)
        (s.move c (if s.stage = .channelClosed then .exited else .reading))
  | read {c : Nat} {operation : Operation} : s.clients c = .reading →
      Step nextLSN s (.read c operation) (s.move c (.serving operation))
  /-- another op code is answered with an error -/
  | invalid {c : Nat} : s.clients c = .reading → Step nextLSN s (.invalid c) (s.move c .looping)
  | timeout {c : Nat} : s.clients c = .reading → Step nextLSN s (.timeout c) (s.move c .looping)
  | disconnect {c : Nat} : s.clients c = .reading →
      Step nextLSN s (.disconnect c) (s.move c .exited)
  | call {c : Nat} {operation : Operation} {call : Call} {session : CambiumDB.Session} :
      s.clients c = .serving operation → treeCall operation = some call →
      CallStep nextLSN s.session call session →
      Step nextLSN s (.call c call) { s.move c .looping with session }
  | ping {c : Nat} : s.clients c = .serving .ping → Step nextLSN s (.ping c) (s.move c .looping)
  | close {c : Nat} : s.clients c = .serving .close → Step nextLSN s (.close c) (s.move c .exited)
  /-- `shutdownOnce`: the first call does the work, -/
  | closeTree {c : Nat} : s.clients c = .serving .shutdown → s.stage = .running →
      Step nextLSN s (.closeTree c)
        { s.move c .shuttingDown with
          session := ⟨(BPlusTree.close s.session.world).2, s.session.map⟩
          stage := .treeClosed }
  | closeListener {c : Nat} : s.clients c = .shuttingDown → s.stage = .treeClosed →
      Step nextLSN s (.closeListener c) { s with stage := .listenerClosed }
  | closeChannel {c : Nat} : s.clients c = .shuttingDown → s.stage = .listenerClosed →
      Step nextLSN s (.closeChannel c) { s.move c .looping with stage := .channelClosed }
  /-- and the others wait until it is done. -/
  | shutdownAgain {c : Nat} : s.clients c = .serving .shutdown → s.stage = .channelClosed →
      Step nextLSN s (.shutdownAgain c) (s.move c .looping)
  /-- `main` closes the pool, and a new process opens the file. -/
  | restart {w : World} : s.Finished → s.session.world.reopened = some w →
      Step nextLSN s .restart ⟨⟨w, s.session.map⟩, fun _ => .absent, .running⟩

/-- The tree is as expected, and the root that was copied is the root. -/
structure Copied (s : Running) : Prop where
  agrees : Agrees s.session
  tree : s.session.world.tree.bPlusTreeId = 0
  roots : s.session.world.metadata.rootPages.Distinct
  leaves : s.session.world.metadata.firstLeafNodePages.Distinct
  root : s.stage ≠ .running → s.session.world.metadata.rootPages.get 0 =
    s.session.world.tree.rootNodePageId

/-- A server on a tree that holds what is expected of it. -/
structure Started (s : Running) : Prop extends s.Copied where
  clients : ∀ c, s.clients c = .absent
  stage : s.stage = .running

/-- The calls meet the condition of the tree. -/
def CallsOk (s : Running) : Event → Prop
  | .call _ call => CallOk s.session call
  | _ => True

/-- And none of them gives the tree another root once `Shutdown` has copied it; a tree without
a root is not opened again. -/
def RootKept (nextLSN : List LogEntry → UInt64) (s : Running) (event : Event) : Prop :=
  CallsOk s event ∧
    match event with
    | .call _ (.insert key value) => s.stage ≠ .running →
        (BPlusTree.insert nextLSN key value s.session.world).2.tree.rootNodePageId =
          s.session.world.tree.rootNodePageId
    | .restart => s.session.world.tree.rootNodePageId ≠ 0
    | _ => True

section
variable {nextLSN : List LogEntry → UInt64} {s s' : Running}

/-- What a call leaves of the handle and of the maps of the metadata. -/
structure CallFrame (w w' : World) (call : Call) : Prop where
  tree : w'.tree.bPlusTreeId = w.tree.bPlusTreeId
  roots : w'.metadata.rootPages = w.metadata.rootPages
  leaves : w'.metadata.firstLeafNodePages = w.metadata.firstLeafNodePages
  root : (∀ key value, call ≠ .insert key value) → w'.tree.rootNodePageId = w.tree.rootNodePageId

theorem callStep_world {session session' : CambiumDB.Session} {call : Call}
    (step : CallStep nextLSN session call session') :
    session'.world = (call.run nextLSN session.world).2 := by
  cases step with
  | returned run => rw [run]
  | failed run => rw [run]

theorem callFrame {session session' : CambiumDB.Session} {call : Call} (agrees : Agrees session)
    (step : CallStep nextLSN session call session') :
    CallFrame session.world session'.world call := by
  have unmoved {w' : World} (tree : w'.tree = session.world.tree)
      (metadata : w'.metadata = session.world.metadata) : CallFrame session.world w' call :=
    ⟨by rw [tree], by rw [metadata], by rw [metadata], fun _ => by rw [tree]⟩
  cases call with
  | insert key value =>
    have own := ownRecords_insert nextLSN key value session.world
    rw [callStep_world step]
    exact ⟨own.tree, own.roots, own.leaves, fun other => absurd rfl (other key value)⟩
  | delete key =>
    have same := sameHandle_delete key session.world
    rw [callStep_world step]
    exact unmoved same.tree same.metadata
  | get key =>
    cases step.get_outcome agrees with
    | get same => exact unmoved same.tree same.metadata

/-- Only the session and the stage matter. -/
theorem Copied.of_session (copied : s.Copied) (session : s'.session = s.session)
    (stage : s'.stage ≠ .running → s.stage ≠ .running) : s'.Copied := by
  obtain ⟨agrees, tree, roots, leaves, root⟩ := copied
  constructor
  all_goals rw [session]
  · exact agrees
  · exact tree
  · exact roots
  · exact leaves
  · exact fun stopped => root (stage stopped)

theorem Copied.call (copied : s.Copied) {c : Nat} {call : Call} {session : CambiumDB.Session}
    (ok : RootKept nextLSN s (.call c call)) (step : CallStep nextLSN s.session call session) :
    Copied { s.move c .looping with session } := by
  have frame := callFrame copied.agrees step
  refine ⟨(step.outcome copied.agrees ok.1).agrees copied.agrees ok.1.1, ?_, ?_, ?_, ?_⟩
  · exact frame.tree.trans copied.tree
  · exact frame.roots ▸ copied.roots
  · exact frame.leaves ▸ copied.leaves
  · intro stopped
    show session.world.metadata.rootPages.get 0 = session.world.tree.rootNodePageId
    rw [frame.roots, copied.root stopped]
    cases call with
    | insert key value =>
      rw [callStep_world step]
      exact (ok.2 stopped).symm
    | delete key => exact (frame.root (by simp)).symm
    | get key => exact (frame.root (by simp)).symm

/-- `Shutdown` copies the root. -/
theorem Copied.closeTree (copied : s.Copied) (c : Nat) :
    Copied { s.move c .shuttingDown with
      session := ⟨(BPlusTree.close s.session.world).2, s.session.map⟩
      stage := .treeClosed } := by
  obtain ⟨⟨ready, holds⟩, tree, roots, leaves, _⟩ := copied
  have ready' : Ready (BPlusTree.close s.session.world).2 :=
    ⟨ready.toAllocating.congr rfl rfl rfl fun _ _ => rfl, ready.guards, ready.faults⟩
  have holds' : Holds (BPlusTree.close s.session.world).2 s.session.map := by
    generalize s.session.map = map at holds
    cases holds with
    | empty root page => exact .empty root page
    | stored stored => exact .stored (stored.congr rfl rfl fun _ _ => rfl)
  refine ⟨⟨ready', holds'⟩, tree, roots.set _ _, leaves.set _ _, ?_⟩
  intro _
  show (PageMap.set _ s.session.world.tree.bPlusTreeId _).get 0 = _
  rw [PageMap.get_set, tree, if_pos rfl]
  rfl

/-- The tree of the file that `main` leaves, in the next process. -/
theorem Copied.restart (copied : s.Copied) (finished : s.Finished) {w : World}
    (reopen : s.session.world.reopened = some w)
    (present : s.session.world.tree.rootNodePageId ≠ 0) :
    Copied ⟨⟨w, s.session.map⟩, fun _ => .absent, .running⟩ := by
  obtain ⟨⟨ready, holds⟩, _, roots, leaves, root⟩ := copied
  have stopped : s.stage ≠ .running := by
    rcases finished.1 with stage | stage
    · simp [stage]
    · simp [stage]
  rw [World.reopened] at reopen
  obtain ⟨page, encoded, reopen⟩ := Option.bind_eq_some_iff.1 reopen
  rw [MetaDataCodec.decode_encode roots leaves encoded] at reopen
  obtain rfl := Option.some.inj reopen
  obtain ⟨first, rest, pairs, stored, same⟩ := holds.stored_of_root present
  have pages (id : UInt64) (other : id ≠ 0) :
      Function.update s.session.world.pages 0 page id = s.session.world.pages id :=
    Function.update_of_ne other _ _
  refine ⟨⟨⟨ready.toAllocating.congr rfl rfl rfl ?_, rfl, ready.faults⟩, ?_⟩, rfl, roots, leaves,
    fun running => absurd rfl running⟩
  · intro id later
    exact pages id (UInt64.ne_of_lt (UInt64.lt_of_le_of_lt UInt64.zero_le later)).symm
  · show Holds _ s.session.map
    rw [same]
    exact .stored (stored.congr (root stopped) rfl pages)

theorem Copied.step (copied : s.Copied) {event : Event} (ok : RootKept nextLSN s event)
    (step : Step nextLSN s event s') : s'.Copied := by
  cases step with
  | call _ _ step => exact copied.call ok step
  | closeTree _ _ => exact copied.closeTree _
  | closeListener _ stage => exact copied.of_session rfl (by simp [stage])
  | closeChannel _ stage => exact copied.of_session rfl (by simp [stage])
  | restart finished reopen => exact copied.restart finished reopen ok.2
  | _ => exact copied.of_session rfl id

theorem copied_of_run (run : Reach (Step nextLSN) (RootKept nextLSN) Started s) : s.Copied :=
  run.invariant Copied (fun _ started => started.toCopied) fun _ _ _ copied ok step =>
    copied.step ok step

end

/-- If no insert changes the root once `Shutdown` has copied it, then at every moment, through
any number of restarts, the tree answers as the answers so far say. -/
theorem answers_survive_restarts (nextLSN : List LogEntry → UInt64) {s : Running}
    (run : Reach (Step nextLSN) (RootKept nextLSN) Started s) (key : Bytes) :
    (BPlusTree.get key s.session.world).1 = BPlusTree.answer key (s.session.map key) :=
  BPlusTree.get_of_holds (copied_of_run run).agrees.ready (copied_of_run run).agrees.holds key

theorem answered_insert_is_found : ∃ s, Reach (Step recordLSN) (RootKept recordLSN) Started s ∧
    s.session.map [1] = some [2] ∧ (BPlusTree.get [1] s.session.world).1 = .ok [2] := by
  have started : Started ⟨⟨newDatabase, fun _ => none⟩, fun _ => .absent, .running⟩ :=
    ⟨⟨⟨fresh_newDatabase.toReady, fresh_newDatabase.holds⟩, rfl, List.nodup_nil, List.nodup_nil,
      fun stopped => absurd rfl stopped⟩, fun _ => rfl, rfl⟩
  have ok : CallOk ⟨newDatabase, fun _ => none⟩ (.insert [1] [2]) :=
    ⟨by unfold DiskGrows; decide, fresh_newDatabase.insertOk (by decide)⟩
  obtain ⟨w, run, _⟩ := BPlusTree.insert_outcome recordLSN started.agrees.ready
    started.agrees.holds ok.1 ok.2
  have accepted : Reach (Step recordLSN) (RootKept recordLSN) Started _ :=
    .next (l := .accept 0) (.start started) ⟨trivial, trivial⟩ (.accept rfl (.inl rfl))
  have checked := Reach.next (l := Event.check 0) accepted ⟨trivial, trivial⟩
    (.check rfl)
  have read := Reach.next (l := Event.read 0 (.insert [1] [2])) checked ⟨trivial, trivial⟩
    (.read rfl)
  have served := Reach.next (l := Event.call 0 (.insert [1] [2])) read
    ⟨ok, fun stopped => absurd rfl stopped⟩ (.call rfl rfl (.returned run))
  exact ⟨_, served, rfl, answers_survive_restarts recordLSN served [1]⟩

end Running

end Server

end CambiumDB
