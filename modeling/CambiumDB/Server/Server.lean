import CambiumDB.BPlusTree.Tree
import CambiumDB.Lib.Stream
import CambiumDB.Server.Protocol

/-!
# `server/server.go`, `request_decoder.go` and `response_encoder.go`

One client's connection. The read deadline is there while the server waits for the first byte
of a request; a deadline that passes ends the read with an error. A write appends to the
output. `ioMessage` gives the texts of the errors that the log or the disk reports, by the number
of the call that failed.
-/

namespace CambiumDB

open ByteBuffer SegmentStream

namespace Server

/-! ### Requests -/

structure Conn where
  inbox : Inbox UInt8
  deadline : Bool
  written : Bytes
  /-- A ghost: the operations that were decoded, each with the bytes that were unread then. -/
  served : List (Operation × Bytes)

structure Request where
  opCode : UInt8
  body : Bytes

def noBodyOpCodes : List UInt8 := ['P'.toUInt8, 'S'.toUInt8, 'C'.toUInt8]

def readNBytes (n : Nat) (conn : Conn) : Except ReadError Bytes × Conn :=
  ((conn.inbox.readFull conn.deadline n).1,
    { conn with inbox := (conn.inbox.readFull conn.deadline n).2 })

def readUInt32 (conn : Conn) : Except ReadError Nat × Conn :=
  match readNBytes 4 conn with
  | (.ok data, conn) => (.ok (leNat data), conn)
  | (.error e, conn) => (.error e, conn)

def readRequest (conn : Conn) : Except ReadError Request × Conn :=
  match readNBytes 1 conn with
  | (.error e, conn) => (.error e, conn)
  | (.ok opCodeByte, conn) =>
    -- the rest of the request is read without a deadline
    let conn := { conn with deadline := false }
    let opCode := opCodeByte.headD 0
    if opCode ∈ noBodyOpCodes then (.ok ⟨opCode, []⟩, conn)
    else
      match readUInt32 conn with
      | (.error e, conn) => (.error e, conn)
      | (.ok requestBodyLength, conn) =>
        match readNBytes requestBodyLength conn with
        | (.error e, conn) => (.error e, conn)
        | (.ok requestBody, conn) => (.ok ⟨opCode, requestBody⟩, conn)

/-- `none` is a slice expression out of range. -/
def decodeInsertRequestBody (body : Bytes) : Option (Bytes × Bytes) := do
  let (key, body) ← splitField body
  let (value, _) ← splitField body
  some (key, value)

def decodeGetRequestBody (body : Bytes) : Option Bytes := do
  let (key, _) ← splitField body
  some key

def decodeDeleteRequestBody (body : Bytes) : Option Bytes := do
  let (key, _) ← splitField body
  some key

/-! ### Responses -/

/-- The lengths are written as `uint32`. -/
def encodeGetResponse (key value : Bytes) : Bytes :=
  'O'.toUInt8 :: leBytes 4 (4 + key.length + 4 + value.length) ++
    (leBytes 4 key.length ++ key ++ (leBytes 4 value.length ++ value))

def encodeErrorResponse (message : Bytes) : Bytes :=
  'E'.toUInt8 :: leBytes 4 message.length ++ message

def encodeOKResponse : Bytes := ['O'.toUInt8]

def encodeShutdownMessage : Bytes := ['S'.toUInt8]

/-- The text of an error of the tree. -/
def errorMessage (ioMessage : Nat → Bytes) (calls : Nat) : TreeError → Bytes
  | .keyNotFound key => ascii "key " ++ key ++ ascii " not found"
  | .io => ioMessage calls
  | .commitWithoutBegin => ascii "CommitOperation without BeginOperation"
  | .operationWithoutBegin => ascii "Operation without BeginOperation"

end Server

/-- The server as one client sees it. -/
structure Server where
  conn : Server.Conn
  world : World
  /-- The channel `shutdown` is closed. -/
  shutdown : Bool

namespace Server

/-- What a call means for the loop: go on, close the connection, or the process is gone. -/
inductive Outcome where
  | next
  | finished
  | crashed (failure : Failure)

def respond (s : Server) (response : Bytes) : Server :=
  { s with conn := { s.conn with written := s.conn.written ++ response } }

def note (s : Server) (operation : Operation) : Server :=
  { s with conn :=
    { s.conn with served := s.conn.served ++ [(operation, s.conn.inbox.unread)] } }

section
variable (nextLSN : List LogEntry → UInt64) (ioMessage : Nat → Bytes)

/-- A call of the tree with the response to its result. An error of the tree is reported, a
panic ends the process. -/
def callTree {α : Type} (s : Server) (call : TreeM α) (response : α → Bytes) : Outcome × Server :=
  match call s.world with
  | (.ok a, world) => (.next, { s with world := world }.respond (response a))
  | (.error (.error e), world) =>
    (.next, { s with world := world }.respond
      (encodeErrorResponse (errorMessage ioMessage world.calls e)))
  | (.error failure, world) => (.crashed failure, { s with world := world })

/-- The switch of `handleRequest` over the op code. -/
def serveRequest (s : Server) (opCode : UInt8) (body : Bytes) : Outcome × Server :=
  if opCode = 'P'.toUInt8 then (.next, (s.note .ping).respond encodeOKResponse)
  else if opCode = 'I'.toUInt8 then
    match decodeInsertRequestBody body with
    | none => (.crashed .panic, s)
    | some (key, value) =>
      (s.note (.insert key value)).callTree ioMessage (BPlusTree.insert nextLSN key value)
        fun _ => encodeOKResponse
  else if opCode = 'D'.toUInt8 then
    match decodeDeleteRequestBody body with
    | none => (.crashed .panic, s)
    | some key =>
      (s.note (.delete key)).callTree ioMessage (BPlusTree.delete key) fun _ => encodeOKResponse
  else if opCode = 'G'.toUInt8 then
    match decodeGetRequestBody body with
    | none => (.crashed .panic, s)
    | some key =>
      (s.note (.get key)).callTree ioMessage (BPlusTree.get key) fun value =>
        encodeGetResponse key value
  else if opCode = 'C'.toUInt8 then
    (.finished, (s.note .close).respond encodeOKResponse)
  else if opCode = 'S'.toUInt8 then
    -- `Shutdown` closes the tree; there is no response
    (.next, { s.note .shutdown with
      world := (BPlusTree.close s.world).2
      shutdown := true })
  else (.next, s.respond (encodeErrorResponse (ascii "invalid op code")))

/-- A read that timed out is no error. -/
def handleRequest (s : Server) : Outcome × Server :=
  match readRequest s.conn with
  | (.error .timeout, conn) => (.next, { s with conn := conn })
  | (.error .eof, conn) => (.finished, { s with conn := conn })
  | (.ok request, conn) =>
    serveRequest nextLSN ioMessage { s with conn := conn } request.opCode request.body

/-- The loop of the client's goroutine. -/
def handleClient : Nat → Server → Outcome × Server
  | 0, s => (.crashed .diverges, s)
  | fuel + 1, s =>
    if s.shutdown then (.finished, s.respond encodeShutdownMessage)
    else
      match handleRequest nextLSN ioMessage
        { s with conn := { s.conn with deadline := true } } with
      | (.next, s) => handleClient fuel s
      | (outcome, s) => (outcome, s)

/-- Each pass of the loop reads a byte or waits for an arrival. -/
def serve (s : Server) : Outcome × Server :=
  handleClient nextLSN ioMessage (s.conn.inbox.coming.length + s.conn.inbox.unread.length + 1) s

end

/-- A client that connects to a running server. -/
def connect (world : World) (coming : List (Arrival UInt8)) : Server :=
  ⟨⟨⟨[], coming⟩, false, [], []⟩, world, false⟩

end Server

end CambiumDB
