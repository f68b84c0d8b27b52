import CambiumDB.BPlusTree.Refinement
import CambiumDB.Server.Server

/-!
# Requests and replies on one connection

However the bytes of a sequence of requests arrive, the loop decodes these requests and answers
each once. The client reads the answers back as long as the tree returns from every call and
the lengths in the responses fit their four bytes.
-/

namespace CambiumDB

open ByteBuffer SegmentStream

/-! ### Fields -/

theorem splitField_field (bytes : Bytes) (small : bytes.length < 2 ^ 32) (rest : Bytes) :
    splitField (field bytes ++ rest) = some (bytes, rest) := by
  have front : (field bytes ++ rest).take 4 = leBytes 4 bytes.length := by
    rw [field, List.append_assoc, List.take_left' (length_leBytes 4 _)]
  have back : (field bytes ++ rest).drop 4 = bytes ++ rest := by
    rw [field, List.append_assoc, List.drop_left' (length_leBytes 4 _)]
  have length : leNat (leBytes 4 bytes.length) = bytes.length := by
    rw [leNat_leBytes]
    exact Nat.mod_eq_of_lt small
  have size : (field bytes ++ rest).length = 4 + bytes.length + rest.length := by
    rw [field, List.length_append, List.length_append, length_leBytes]
  rw [splitField, front, back, length, size, if_pos ⟨by omega, by omega⟩, List.take_left,
    List.drop_left]

/-- What is split off is short enough for its length field, and nothing is lost. -/
theorem splitField_lengths {bytes front rest : Bytes}
    (split : splitField bytes = some (front, rest)) :
    front.length < 2 ^ 32 ∧ bytes.length = 4 + front.length + rest.length := by
  rw [splitField] at split
  split at split
  next inside =>
    obtain ⟨rfl, rfl⟩ := Prod.mk.inj (Option.some.inj split)
    have bound := leNat_lt (bytes.take 4)
    rw [List.length_take, min_eq_left inside.1] at bound
    have front : ((bytes.drop 4).take (leNat (bytes.take 4))).length = leNat (bytes.take 4) := by
      rw [List.length_take, List.length_drop]
      omega
    rw [front, List.length_drop, List.length_drop]
    omega
  next => cases split

namespace Reply

/-- The lengths in the response fit their four bytes. -/
def Fits : Reply → Prop
  | .ok => True
  | .found key value => 4 + key.length + 4 + value.length < 2 ^ 32
  | .error message => message.length < 2 ^ 32

def encode : Reply → Bytes
  | .ok => Server.encodeOKResponse
  | .found key value => Server.encodeGetResponse key value
  | .error message => Server.encodeErrorResponse message

/-- Only `Get` is answered with a pair, and it is not answered with a bare status. -/
def Answers : Operation → Reply → Prop
  | .get _, .found _ _ | .get _, .error _ => True
  | .get _, .ok => False
  | _, .found _ _ => False
  | _, _ => True

end Reply

/-- A client reads a reply that fits as it was meant, and stops behind it. -/
theorem parseReply_encode {operation : Operation} {reply : Reply}
    (answers : Reply.Answers operation reply) (fits : reply.Fits) (rest : Bytes) :
    parseReply operation (reply.encode ++ rest) = some (reply, rest) := by
  cases reply with
  | ok =>
    cases operation with
    | get key => exact absurd answers id
    | _ => rfl
  | error message =>
    have split : splitField (leBytes 4 message.length ++ message ++ rest) = some (message, rest) :=
      splitField_field message fits rest
    rw [Reply.encode, Server.encodeErrorResponse, List.cons_append, List.cons_append, parseReply,
      if_pos rfl, split]
    rfl
  | found key value =>
    have small : 4 + key.length + 4 + value.length < 2 ^ 32 := fits
    cases operation with
    | get asked =>
      obtain ⟨body, bodyEq⟩ : ∃ body, body = field key ++ field value := ⟨_, rfl⟩
      have size : body.length = 4 + key.length + 4 + value.length := by
        rw [bodyEq, List.length_append, field, field, List.length_append, List.length_append,
          length_leBytes, length_leBytes]
        omega
      have encoded : Reply.encode (.found key value) ++ rest =
          'O'.toUInt8 :: (field body ++ rest) := by
        rw [Reply.encode, Server.encodeGetResponse, field, size, bodyEq]
        rfl
      have outer : splitField (field body ++ rest) = some (body, rest) :=
        splitField_field _ (by omega) rest
      have inner : splitField body = some (key, field value) := by
        rw [bodyEq]
        exact splitField_field key (by omega) _
      have last : splitField (field value) = some (value, []) := by
        have := splitField_field value (by omega) []
        rwa [List.append_nil] at this
      rw [encoded, parseReply, if_neg (by decide), if_pos rfl, parsePayload]
      simp only [outer, inner, last, bind, Option.bind, if_true]
    | _ => exact absurd answers id

/-- Whatever a client reads fits. -/
theorem fits_of_parseReply {operation : Operation} {bytes rest : Bytes} {reply : Reply}
    (parsed : parseReply operation bytes = some (reply, rest)) : reply.Fits := by
  cases bytes with
  | nil => cases parsed
  | cons status bytes =>
    rw [parseReply] at parsed
    split at parsed
    next =>
      obtain ⟨⟨message, later⟩, split, result⟩ := Option.bind_eq_some_iff.1 parsed
      cases result
      exact (splitField_lengths split).1
    next =>
      split at parsed
      next =>
        cases operation with
        | get key =>
          obtain ⟨⟨body, later⟩, outer, parsed⟩ := Option.bind_eq_some_iff.1 parsed
          obtain ⟨⟨key, body'⟩, inner, parsed⟩ := Option.bind_eq_some_iff.1 parsed
          obtain ⟨⟨value, body''⟩, last, parsed⟩ := Option.bind_eq_some_iff.1 parsed
          obtain ⟨small, _⟩ := splitField_lengths outer
          obtain ⟨_, size⟩ := splitField_lengths inner
          obtain ⟨_, size'⟩ := splitField_lengths last
          dsimp only at parsed
          split at parsed
          next =>
            cases parsed
            show 4 + key.length + 4 + value.length < 2 ^ 32
            omega
          next => cases parsed
        | _ =>
          cases parsed
          trivial
      next => cases parsed

theorem parseReplies_encode {operations : List Operation} {replies : List Reply}
    (answers : List.Forall₂ Reply.Answers operations replies) (fits : ∀ reply ∈ replies, reply.Fits) :
    parseReplies operations (replies.flatMap Reply.encode) = some replies := by
  induction answers with
  | nil => rfl
  | @cons operation reply operations replies answers _ ih =>
    have later := ih fun reply member => fits reply (by simp [member])
    rw [List.flatMap_cons, parseReplies, parseReply_encode answers (fits reply (by simp))]
    simp only [later, bind, Option.bind]

theorem fits_of_parseReplies {operations : List Operation} {bytes : Bytes} {replies : List Reply}
    (parsed : parseReplies operations bytes = some replies) : ∀ reply ∈ replies, reply.Fits := by
  induction operations generalizing bytes replies with
  | nil =>
    cases bytes with
    | nil =>
      cases parsed
      simp
    | cons _ _ => cases parsed
  | cons operation operations ih =>
    rw [parseReplies] at parsed
    obtain ⟨⟨reply, rest⟩, first, parsed⟩ := Option.bind_eq_some_iff.1 parsed
    obtain ⟨later, parsedLater, result⟩ := Option.bind_eq_some_iff.1 parsed
    cases result
    intro other member
    rcases List.mem_cons.1 member with rfl | member
    · exact fits_of_parseReply first
    · exact ih parsedLater other member

namespace Server

/-! ### Reading a request -/

/-- Without a deadline exactly the requested bytes are read. -/
theorem readNBytes_patient (conn : Conn) (patient : conn.deadline = false) {front rest : Bytes}
    (unread : conn.inbox.unread = front ++ rest) :
    ∃ inbox, readNBytes front.length conn = (.ok front, { conn with inbox := inbox }) ∧
      inbox.unread = rest ∧ inbox.coming.length ≤ conn.inbox.coming.length := by
  have enough : front.length ≤ (conn.inbox.arrived ++ segments conn.inbox.coming).length := by
    rw [← Inbox.unread, unread, List.length_append]
    exact Nat.le_add_right _ _
  obtain ⟨inbox, done, later, fewer⟩ := fill_patient enough
  rw [← Inbox.unread, unread, List.take_left] at done
  rw [← Inbox.unread, unread, List.drop_left] at later
  refine ⟨inbox, ?_, later, fewer⟩
  rw [readNBytes, Inbox.readFull, patient, done]

/-- The length of the body and the body. -/
theorem readBody (conn : Conn) (patient : conn.deadline = false) {body rest : Bytes}
    (unread : conn.inbox.unread = field body ++ rest) (small : body.length < 2 ^ 32) :
    ∃ inbox inbox', readUInt32 conn = (.ok body.length, { conn with inbox := inbox }) ∧
      readNBytes body.length { conn with inbox := inbox } =
        (.ok body, { conn with inbox := inbox' }) ∧
      inbox'.unread = rest ∧ inbox'.coming.length ≤ conn.inbox.coming.length := by
  rw [field, List.append_assoc] at unread
  obtain ⟨inbox, length, later, fewer⟩ := readNBytes_patient conn patient unread
  rw [length_leBytes] at length
  obtain ⟨inbox', read, later', fewer'⟩ :=
    readNBytes_patient { conn with inbox := inbox } patient later
  refine ⟨inbox, inbox', ?_, read, later', fewer'.trans fewer⟩
  have value : leNat (leBytes 4 body.length) = body.length := by
    rw [leNat_leBytes]
    exact Nat.mod_eq_of_lt small
  rw [readUInt32, length]
  simp only [value]

theorem encode_cases (operation : Operation) :
    (operation.opCode ∈ noBodyOpCodes ∧ operation.body = [] ∧
        operation.encode = operation.opCode :: []) ∨
      operation.opCode ∉ noBodyOpCodes ∧
        operation.encode = operation.opCode :: field operation.body := by
  cases operation with
  | insert key value => exact .inr ⟨show 'I'.toUInt8 ∉ noBodyOpCodes by decide, rfl⟩
  | get key => exact .inr ⟨show 'G'.toUInt8 ∉ noBodyOpCodes by decide, rfl⟩
  | delete key => exact .inr ⟨show 'D'.toUInt8 ∉ noBodyOpCodes by decide, rfl⟩
  | ping => exact .inl ⟨by decide, rfl, rfl⟩
  | close => exact .inl ⟨by decide, rfl, rfl⟩
  | shutdown => exact .inl ⟨by decide, rfl, rfl⟩

/-- With nothing but whole requests on the wire, reading one ends with a timeout and reads
nothing, or returns it and reads no byte of the next one. -/
theorem readRequest_cases {conn : Conn} (waiting : conn.deadline = true) {operation : Operation}
    {rest : Bytes} (unread : conn.inbox.unread = operation.encode ++ rest)
    (small : operation.body.length < 2 ^ 32) :
    (∃ inbox, readRequest conn = (.error .timeout, { conn with inbox := inbox }) ∧
      inbox.unread = operation.encode ++ rest ∧
      inbox.coming.length < conn.inbox.coming.length) ∨
    ∃ inbox, readRequest conn = (.ok ⟨operation.opCode, operation.body⟩,
        { conn with inbox := inbox, deadline := false }) ∧
      inbox.unread = rest ∧ inbox.coming.length ≤ conn.inbox.coming.length := by
  obtain ⟨tail, head⟩ : ∃ tail, operation.encode = operation.opCode :: tail := by
    rcases encode_cases operation with ⟨_, _, head⟩ | ⟨_, head⟩
    · exact ⟨_, head⟩
    · exact ⟨_, head⟩
  rw [head, List.cons_append] at unread ⊢
  rcases fill_one unread with ⟨inbox, done, later, fewer⟩ | ⟨inbox, done, later, fewer⟩
  · right
    have first : readNBytes 1 conn = (.ok [operation.opCode], { conn with inbox := inbox }) := by
      rw [readNBytes, Inbox.readFull, waiting, done]
    rcases encode_cases operation with ⟨bare, empty, whole⟩ | ⟨long, whole⟩
    · obtain rfl : tail = [] := (List.cons.inj (head.symm.trans whole)).2
      refine ⟨inbox, ?_, later, fewer⟩
      have bare' : [operation.opCode].headD 0 ∈ noBodyOpCodes := bare
      rw [readRequest, first]
      dsimp only
      rw [if_pos bare', empty]
      rfl
    · obtain rfl : tail = field operation.body := (List.cons.inj (head.symm.trans whole)).2
      obtain ⟨inbox₁, inbox₂, length, read, later', fewer'⟩ :=
        readBody { conn with inbox := inbox, deadline := false } rfl later small
      refine ⟨inbox₂, ?_, later', fewer'.trans fewer⟩
      have long' : [operation.opCode].headD 0 ∉ noBodyOpCodes := long
      rw [readRequest, first]
      dsimp only
      rw [if_neg long', length]
      simp only [read]
      rfl
  · left
    refine ⟨inbox, ?_, later, fewer⟩
    rw [readRequest, readNBytes, Inbox.readFull, waiting, done]

/-! ### Serving requests -/

section
variable (nextLSN : List LogEntry → UInt64) (ioMessage : Nat → Bytes)

/-- What the result of a call of the tree is for the client; nothing if the call does not
return. -/
def answerOf {α : Type} (result : Except Failure α × World) (reply : α → Reply) :
    Option (Reply × World) :=
  match result with
  | (.ok a, world) => some (reply a, world)
  | (.error (.error e), world) => some (.error (errorMessage ioMessage world.calls e), world)
  | (.error _, _) => none

/-- The answer to one operation. A shutdown is not answered. -/
def answer (operation : Operation) (world : World) : Option (Reply × World) :=
  match operation with
  | .insert key value =>
    answerOf ioMessage (BPlusTree.insert nextLSN key value world) fun _ => .ok
  | .get key => answerOf ioMessage (BPlusTree.get key world) fun value => .found key value
  | .delete key => answerOf ioMessage (BPlusTree.delete key world) fun _ => .ok
  | .ping | .close => some (.ok, world)
  | .shutdown => none

def answers : List Operation → World → Option (List Reply × World)
  | [], world => some ([], world)
  | operation :: rest, world => do
    let (reply, world) ← answer nextLSN ioMessage operation world
    let (replies, world) ← answers rest world
    some (reply :: replies, world)

theorem callTree_eq {α : Type} (s : Server) {call : TreeM α} {reply : α → Reply} {r : Reply}
    {world : World} (answered : answerOf ioMessage (call s.world) reply = some (r, world)) :
    s.callTree ioMessage call (fun a => (reply a).encode) =
      (.next, { s with world := world }.respond r.encode) := by
  obtain ⟨result, w, run⟩ : ∃ result w, call s.world = (result, w) := ⟨_, _, rfl⟩
  rw [run] at answered
  rw [callTree, run]
  cases result with
  | ok a =>
    cases answered
    rfl
  | error failure =>
    cases failure with
    | error e =>
      cases answered
      rfl
    | panic | blocked | diverges => cases answered

/-- The body parsers read back what the request carries. -/
theorem decodeInsertRequestBody_body {key value : Bytes}
    (small : (Operation.insert key value).body.length < 2 ^ 32) :
    decodeInsertRequestBody (Operation.insert key value).body = some (key, value) := by
  have size : (Operation.insert key value).body.length = 4 + key.length + (4 + value.length) := by
    rw [Operation.body, List.length_append, field, field, List.length_append, List.length_append,
      length_leBytes, length_leBytes]
  have first : splitField (field key ++ field value) = some (key, field value) :=
    splitField_field key (by omega) _
  have second : splitField (field value) = some (value, []) := by
    have := splitField_field value (by omega) []
    rwa [List.append_nil] at this
  simp only [decodeInsertRequestBody, Operation.body, first, second, bind, Option.bind]

theorem decodeGetRequestBody_field {key : Bytes} (small : (field key).length < 2 ^ 32) :
    decodeGetRequestBody (field key) = some key := by
  have size : (field key).length = 4 + key.length := by
    rw [field, List.length_append, length_leBytes]
  have first := splitField_field key (by omega) []
  rw [List.append_nil] at first
  simp only [decodeGetRequestBody, first, bind, Option.bind]

/-- The switch does what the operation asks for and answers once. -/
theorem serveRequest_answer {s : Server} {operation : Operation}
    (small : operation.body.length < 2 ^ 32) {reply : Reply} {world : World}
    (answered : answer nextLSN ioMessage operation s.world = some (reply, world)) :
    serveRequest nextLSN ioMessage s operation.opCode operation.body =
      (if operation = .close then .finished else .next,
        { s.note operation with world := world }.respond reply.encode) := by
  cases operation with
  | ping =>
    cases answered
    rfl
  | close =>
    cases answered
    rfl
  | shutdown => cases answered
  | insert key value =>
    have this : (Operation.insert key value).opCode = 'I'.toUInt8 := rfl
    have notPing : ¬ (Operation.insert key value).opCode = 'P'.toUInt8 :=
      show ¬ 'I'.toUInt8 = 'P'.toUInt8 by decide
    rw [serveRequest, if_neg notPing, if_pos this, decodeInsertRequestBody_body small,
      if_neg fun close => by cases close]
    exact callTree_eq ioMessage (s.note (.insert key value)) answered
  | delete key =>
    have this : (Operation.delete key).opCode = 'D'.toUInt8 := rfl
    have notPing : ¬ (Operation.delete key).opCode = 'P'.toUInt8 :=
      show ¬ 'D'.toUInt8 = 'P'.toUInt8 by decide
    have notInsert : ¬ (Operation.delete key).opCode = 'I'.toUInt8 :=
      show ¬ 'D'.toUInt8 = 'I'.toUInt8 by decide
    have decoded : decodeDeleteRequestBody (Operation.delete key).body = some key :=
      decodeGetRequestBody_field small
    rw [serveRequest, if_neg notPing, if_neg notInsert, if_pos this, decoded,
      if_neg fun close => by cases close]
    exact callTree_eq ioMessage (s.note (.delete key)) answered
  | get key =>
    have this : (Operation.get key).opCode = 'G'.toUInt8 := rfl
    have notPing : ¬ (Operation.get key).opCode = 'P'.toUInt8 :=
      show ¬ 'G'.toUInt8 = 'P'.toUInt8 by decide
    have notInsert : ¬ (Operation.get key).opCode = 'I'.toUInt8 :=
      show ¬ 'G'.toUInt8 = 'I'.toUInt8 by decide
    have notDelete : ¬ (Operation.get key).opCode = 'D'.toUInt8 :=
      show ¬ 'G'.toUInt8 = 'D'.toUInt8 by decide
    have decoded : decodeGetRequestBody (Operation.get key).body = some key :=
      decodeGetRequestBody_field small
    rw [serveRequest, if_neg notPing, if_neg notInsert, if_neg notDelete, if_pos this, decoded,
      if_neg fun close => by cases close]
    exact callTree_eq ioMessage (s.note (.get key)) answered

/-- The state after an operation was decoded and answered. -/
structure Served (s s' : Server) (operation : Operation) (reply : Reply) (world : World)
    (rest : Bytes) : Prop where
  world : s'.world = world
  running : s'.shutdown = s.shutdown
  unread : s'.conn.inbox.unread = rest
  fewer : s'.conn.inbox.coming.length ≤ s.conn.inbox.coming.length
  written : s'.conn.written = s.conn.written ++ reply.encode
  served : s'.conn.served = s.conn.served ++ [(operation, rest)]

/-- The state after the deadline passed. -/
structure Waited (s s' : Server) : Prop where
  world : s'.world = s.world
  running : s'.shutdown = s.shutdown
  unread : s'.conn.inbox.unread = s.conn.inbox.unread
  fewer : s'.conn.inbox.coming.length < s.conn.inbox.coming.length
  written : s'.conn.written = s.conn.written
  served : s'.conn.served = s.conn.served

theorem handleRequest_cases {s : Server} (waiting : s.conn.deadline = true) {operation : Operation}
    {rest : Bytes} (unread : s.conn.inbox.unread = operation.encode ++ rest)
    (small : operation.body.length < 2 ^ 32) {reply : Reply} {world : World}
    (answered : answer nextLSN ioMessage operation s.world = some (reply, world)) :
    ∃ s', (handleRequest nextLSN ioMessage s = (.next, s') ∧ Waited s s') ∨
      handleRequest nextLSN ioMessage s =
        (if operation = .close then .finished else .next, s') ∧
        Served s s' operation reply world rest := by
  rcases readRequest_cases waiting unread small with
    ⟨inbox, read, later, fewer⟩ | ⟨inbox, read, later, fewer⟩
  · refine ⟨{ s with conn := { s.conn with inbox := inbox } }, .inl ⟨?_, ?_⟩⟩
    · rw [handleRequest, read]
    · exact ⟨rfl, rfl, later.trans unread.symm, fewer, rfl, rfl⟩
  · obtain ⟨s₁, s₁Eq⟩ : ∃ s₁ : Server, s₁ =
      { s with conn := { s.conn with inbox := inbox, deadline := false } } := ⟨_, rfl⟩
    have answered₁ : answer nextLSN ioMessage operation s₁.world = some (reply, world) := by
      rw [s₁Eq]
      exact answered
    refine ⟨{ s₁.note operation with world := world }.respond reply.encode, .inr ⟨?_, ?_⟩⟩
    · rw [handleRequest, read, ← serveRequest_answer nextLSN ioMessage small answered₁, s₁Eq]
    · subst s₁Eq
      exact ⟨rfl, rfl, later, fewer, rfl, by rw [← later]; rfl⟩

/-- One pass of the loop: it waits for the next request or serves it. -/
theorem handleClient_pass {s : Server} (running : s.shutdown = false) {operation : Operation}
    {rest : Bytes} (unread : s.conn.inbox.unread = operation.encode ++ rest)
    (small : operation.body.length < 2 ^ 32) {reply : Reply} {world : World}
    (answered : answer nextLSN ioMessage operation s.world = some (reply, world)) (fuel : Nat) :
    ∃ s', (handleClient nextLSN ioMessage (fuel + 1) s = handleClient nextLSN ioMessage fuel s' ∧
        Waited s s') ∨
      handleClient nextLSN ioMessage (fuel + 1) s =
        (if operation = .close then (.finished, s') else handleClient nextLSN ioMessage fuel s') ∧
        Served s s' operation reply world rest := by
  obtain ⟨s₀, s₀Eq⟩ : ∃ s₀ : Server, s₀ = { s with conn := { s.conn with deadline := true } } :=
    ⟨_, rfl⟩
  have open_ : ¬ s.shutdown = true := by rw [running]; decide
  have unread₀ : s₀.conn.inbox.unread = operation.encode ++ rest := by rw [s₀Eq]; exact unread
  have answered₀ : answer nextLSN ioMessage operation s₀.world = some (reply, world) := by
    rw [s₀Eq]
    exact answered
  -- setting the deadline changes nothing that `Waited` and `Served` speak about
  obtain ⟨s', ⟨run, waited⟩ | ⟨run, served⟩⟩ :=
    handleRequest_cases nextLSN ioMessage (by rw [s₀Eq]) unread₀ small answered₀
  · subst s₀Eq
    refine ⟨s', .inl ⟨?_, waited.world, waited.running, waited.unread, waited.fewer,
      waited.written, waited.served⟩⟩
    rw [handleClient, if_neg open_, run]
  · subst s₀Eq
    refine ⟨s', .inr ⟨?_, served.world, served.running, served.unread, served.fewer,
      served.written, served.served⟩⟩
    rw [handleClient, if_neg open_, run]
    by_cases last : operation = .close
    · rw [if_pos last, if_pos last]
    · rw [if_neg last, if_neg last]

/-! ### The conversation -/

def encodeAll (requests : List Operation) : Bytes := requests.flatMap Operation.encode

/-- Each operation with the bytes behind its request. -/
def servedOf : List Operation → List (Operation × Bytes)
  | [] => []
  | operation :: rest => (operation, encodeAll rest) :: servedOf rest

/-- A request before the last one, with a body whose length fits. -/
def InSession : Operation → Prop
  | .close | .shutdown => False
  | operation => operation.body.length < 2 ^ 32

/-- Requests of one client, the last one a close. -/
inductive Session : List Operation → Prop
  | close : Session [.close]
  | request {operation : Operation} {rest : List Operation} :
      InSession operation → Session rest → Session (operation :: rest)

theorem InSession.small {operation : Operation} (inside : InSession operation) :
    operation.body.length < 2 ^ 32 := by
  cases operation with
  | close | shutdown => exact absurd inside id
  | ping | insert _ _ | get _ | delete _ => exact inside

theorem InSession.ne_close {operation : Operation} (inside : InSession operation) :
    operation ≠ .close := by
  rintro rfl
  exact inside

/-- The loop ended after the close: what was decoded, what was written, and the store. -/
structure Ended (s s' : Server) (requests : List Operation) (replies : List Reply)
    (world : World) : Prop where
  world : s'.world = world
  unread : s'.conn.inbox.unread = []
  written : s'.conn.written = s.conn.written ++ replies.flatMap Reply.encode
  served : s'.conn.served = s.conn.served ++ servedOf requests

section
variable {s s₁ s' : Server} {requests : List Operation} {replies : List Reply} {world : World}

theorem Ended.waited (waited : Waited s s₁) (ended : Ended s₁ s' requests replies world) :
    Ended s s' requests replies world where
  world := ended.world
  unread := ended.unread
  written := by rw [ended.written, waited.written]
  served := by rw [ended.served, waited.served]

theorem Ended.after {operation : Operation} {reply : Reply} {world₁ : World}
    (first : Served s s₁ operation reply world₁ (encodeAll requests))
    (ended : Ended s₁ s' requests replies world) :
    Ended s s' (operation :: requests) (reply :: replies) world where
  world := ended.world
  unread := ended.unread
  written := by rw [ended.written, first.written, List.flatMap_cons, List.append_assoc]
  served := by rw [ended.served, first.served, servedOf, List.append_assoc, List.singleton_append]

theorem Ended.refl (unread : s.conn.inbox.unread = []) : Ended s s [] [] s.world :=
  ⟨rfl, unread, by simp, by simp [servedOf]⟩

end

/-- The loop on the requests of a session. Every pass takes an arrival or a request. -/
theorem handleClient_answers (fuel : Nat) {s : Server} {requests : List Operation}
    {replies : List Reply} {world : World} (running : s.shutdown = false)
    (session : Session requests) (unread : s.conn.inbox.unread = encodeAll requests)
    (answered : answers nextLSN ioMessage requests s.world = some (replies, world))
    (enough : s.conn.inbox.coming.length + requests.length ≤ fuel) :
    ∃ s', handleClient nextLSN ioMessage fuel s = (.finished, s') ∧
      Ended s s' requests replies world := by
  induction fuel generalizing s requests replies with
  | zero =>
    cases session with
    | close => simp at enough
    | request _ _ => simp at enough
  | succ fuel ih =>
    obtain ⟨operation, rest, rfl⟩ : ∃ operation rest, requests = operation :: rest := by
      cases session with
      | close => exact ⟨_, _, rfl⟩
      | request _ _ => exact ⟨_, _, rfl⟩
    have small : operation.body.length < 2 ^ 32 := by
      cases session with
      | close => decide
      | request inside _ => exact inside.small
    obtain ⟨⟨reply, world₁⟩, first, later⟩ := Option.bind_eq_some_iff.1 answered
    obtain ⟨⟨replies, world₂⟩, later, result⟩ := Option.bind_eq_some_iff.1 later
    cases result
    rw [encodeAll, List.flatMap_cons] at unread
    obtain ⟨s₁, ⟨run, waited⟩ | ⟨run, served⟩⟩ :=
      handleClient_pass nextLSN ioMessage running unread small first fuel
    · have fewer := waited.fewer
      obtain ⟨s', run', ended⟩ := ih (s := s₁) (waited.running.trans running) session
        (waited.unread.trans unread) (by rw [waited.world]; exact answered) (by omega)
      exact ⟨s', run.trans run', ended.waited waited⟩
    · cases session with
      | close =>
        cases later
        exact ⟨s₁, run, (served.world ▸ Ended.refl served.unread).after served⟩
      | request inside session =>
        have fewer := served.fewer
        rw [if_neg inside.ne_close] at run
        obtain ⟨s', run', ended⟩ := ih (s := s₁) (served.running.trans running) session
          served.unread (by rw [served.world]; exact later) (by simp at enough; omega)
        exact ⟨s', run.trans run', ended.after served⟩

theorem answerOf_answers {α : Type} {operation : Operation} {result : Except Failure α × World}
    {meant : α → Reply} {reply : Reply} {world : World} (kind : ∀ a, Reply.Answers operation (meant a))
    (failed : ∀ message, Reply.Answers operation (.error message))
    (answered : answerOf ioMessage result meant = some (reply, world)) :
    Reply.Answers operation reply := by
  obtain ⟨outcome, w⟩ := result
  cases outcome with
  | ok a =>
    cases answered
    exact kind a
  | error failure =>
    cases failure with
    | error e =>
      cases answered
      exact failed _
    | panic | blocked | diverges => cases answered

theorem answer_answers {operation : Operation} {w world : World} {reply : Reply}
    (answered : answer nextLSN ioMessage operation w = some (reply, world)) :
    Reply.Answers operation reply := by
  cases operation with
  | insert key value =>
    have kind (_ : Unit) : Reply.Answers (.insert key value) .ok := trivial
    exact answerOf_answers ioMessage kind (fun _ => trivial) answered
  | get key =>
    have kind (value : Bytes) : Reply.Answers (.get key) (.found key value) := trivial
    exact answerOf_answers ioMessage kind (fun _ => trivial) answered
  | delete key =>
    have kind (_ : Unit) : Reply.Answers (.delete key) .ok := trivial
    exact answerOf_answers ioMessage kind (fun _ => trivial) answered
  | ping | close =>
    cases answered
    trivial
  | shutdown => cases answered

theorem answers_answers {requests : List Operation} {w world : World} {replies : List Reply}
    (answered : answers nextLSN ioMessage requests w = some (replies, world)) :
    List.Forall₂ Reply.Answers requests replies := by
  induction requests generalizing w replies with
  | nil =>
    cases answered
    exact .nil
  | cons operation requests ih =>
    obtain ⟨⟨reply, w₁⟩, first, later⟩ := Option.bind_eq_some_iff.1 answered
    obtain ⟨⟨replies, w₂⟩, later, result⟩ := Option.bind_eq_some_iff.1 later
    cases result
    exact .cons (answer_answers nextLSN ioMessage first) (ih later)

/-- The server decodes the requests, each up to its last byte, ends after the close with
everything read, and a client reads one reply for each request, the one that the tree gave. -/
structure FramedExactly (requests : List Operation) (coming : List (Arrival UInt8)) (w : World)
    (s : Server) (replies : List Reply) : Prop where
  finished : serve nextLSN ioMessage (connect w coming) = (.finished, s)
  decoded : s.conn.served = servedOf requests
  consumed : s.conn.inbox.unread = []
  given : answers nextLSN ioMessage requests w = some (replies, s.world)
  read : parseReplies requests s.conn.written = some replies

theorem one_le_length_encode (operation : Operation) : 1 ≤ operation.encode.length := by
  cases operation <;> simp [Operation.encode]

theorem length_le_encodeAll (requests : List Operation) :
    requests.length ≤ (encodeAll requests).length := by
  induction requests with
  | nil => exact Nat.le_refl 0
  | cons operation requests ih =>
    have first := one_le_length_encode operation
    rw [encodeAll, List.flatMap_cons, List.length_append, List.length_cons]
    rw [encodeAll] at ih
    omega

/-- For every session and every way its bytes arrive: the conversation is framed exactly if and
only if every call of the tree returns and every reply fits its length fields. -/
theorem framing_iff {requests : List Operation} (session : Session requests)
    {coming : List (Arrival UInt8)} (sent : segments coming = encodeAll requests) (w : World) :
    (∃ s replies, FramedExactly nextLSN ioMessage requests coming w s replies) ↔
      ∃ replies world, answers nextLSN ioMessage requests w = some (replies, world) ∧
        ∀ reply ∈ replies, reply.Fits := by
  constructor
  · rintro ⟨s, replies, framed⟩
    exact ⟨replies, s.world, framed.given, fits_of_parseReplies framed.read⟩
  · rintro ⟨replies, world, answered, fits⟩
    have unread : (connect w coming).conn.inbox.unread = encodeAll requests := sent
    have enough := length_le_encodeAll requests
    obtain ⟨s, run, ended⟩ := handleClient_answers nextLSN ioMessage
      (coming.length + (encodeAll requests).length + 1) (s := connect w coming) rfl session
      unread answered (by show coming.length + _ ≤ _; omega)
    have written : s.conn.written = replies.flatMap Reply.encode := ended.written
    refine ⟨s, replies, ?_, ended.served, ended.unread, ?_, ?_⟩
    · rw [serve, unread]
      exact run
    · rw [ended.world]
      exact answered
    · rw [written]
      exact parseReplies_encode (answers_answers nextLSN ioMessage answered) fits

/-- A key that is missing from a new database. -/
theorem answer_get_newDatabase (key : Bytes) : ∃ world,
    answer nextLSN ioMessage (.get key) newDatabase =
      some (.error (ascii "key " ++ key ++ ascii " not found"), world) := by
  obtain ⟨world, run, _⟩ :=
    BPlusTree.get_run fresh_newDatabase.toReady fresh_newDatabase.holds key
  refine ⟨world, ?_⟩
  rw [answer, run]
  rfl

theorem answers_get_newDatabase (key : Bytes) : ∃ world,
    answers nextLSN ioMessage [.get key, .close] newDatabase =
      some ([.error (ascii "key " ++ key ++ ascii " not found"), .ok], world) := by
  obtain ⟨world, first⟩ := answer_get_newDatabase nextLSN ioMessage key
  refine ⟨world, ?_⟩
  simp only [answers, first, bind, Option.bind]
  rfl

end

/-- A request that is cut after its op code, behind a deadline that passed. -/
theorem framing_of_missing_key :
    Session [.get [7], .close] ∧
      ∃ s replies, FramedExactly (fun log => log.length.toUInt64 + 1)
        (fun _ => ascii "input/output error") [.get [7], .close]
        [.timeout, .segment ['G'.toUInt8], .segment [5, 0, 0, 0, 1, 0, 0, 0, 7], .timeout,
          .segment ['C'.toUInt8]] newDatabase s replies := by
  have session : Session [.get [7], .close] :=
    .request (show (field [7]).length < 2 ^ 32 by decide) .close
  obtain ⟨world, answered⟩ := answers_get_newDatabase (fun log => log.length.toUInt64 + 1)
    (fun _ => ascii "input/output error") [7]
  refine ⟨session, (framing_iff _ _ session (by decide) newDatabase).2 ⟨_, world, answered, ?_⟩⟩
  intro reply member
  rcases List.mem_cons.1 member with rfl | member
  · show (ascii "key " ++ [7] ++ ascii " not found").length < 2 ^ 32
    decide
  · rw [List.mem_singleton.1 member]
    trivial

/-- The body of this request fits its length field and the message that answers it does not. -/
theorem framing_of_long_missing_key : ∃ requests, Session requests ∧
    ∀ nextLSN ioMessage coming, segments coming = encodeAll requests →
      ¬ ∃ s replies, FramedExactly nextLSN ioMessage requests coming newDatabase s replies := by
  obtain ⟨key, size⟩ : ∃ key : Bytes, key.length = 2 ^ 32 - 5 :=
    ⟨List.replicate _ 0, List.length_replicate⟩
  refine ⟨[.get key, .close], .request ?_ .close, ?_⟩
  · show (field key).length < 2 ^ 32
    rw [field, List.length_append, length_leBytes, size]
    decide
  · rintro nextLSN ioMessage coming - ⟨s, replies, framed⟩
    obtain ⟨world, answered⟩ := answers_get_newDatabase nextLSN ioMessage key
    have given := framed.given
    rw [answered] at given
    obtain ⟨rfl, -⟩ := Prod.mk.inj (Option.some.inj given)
    have fits : (ascii "key " ++ key ++ ascii " not found").length < 2 ^ 32 :=
      fits_of_parseReplies framed.read _ (List.mem_cons_self ..)
    have texts : (ascii "key ").length = 4 ∧ (ascii " not found").length = 10 := by decide
    rw [List.length_append, List.length_append, texts.1, texts.2, size] at fits
    omega

end Server

end CambiumDB
