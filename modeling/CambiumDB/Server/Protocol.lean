import CambiumDB.Lib.ByteBuffer

/-!
# The wire protocol

What a client sends and how it reads the replies, as the README describes it.
-/

namespace CambiumDB

open ByteBuffer

/-- The bytes of a text without characters past `0x7f`. -/
def ascii (text : String) : Bytes := text.toList.map Char.toUInt8

/-- A field with its length in front. -/
def field (bytes : Bytes) : Bytes := leBytes 4 bytes.length ++ bytes

/-- A length and as many bytes, and what follows. -/
def splitField (bytes : Bytes) : Option (Bytes × Bytes) :=
  let length := leNat (bytes.take 4)
  if 4 ≤ bytes.length ∧ 4 + length ≤ bytes.length then
    some ((bytes.drop 4).take length, (bytes.drop 4).drop length)
  else none

inductive Operation where
  | insert (key value : Bytes)
  | get (key : Bytes)
  | delete (key : Bytes)
  | ping
  | close
  | shutdown
  deriving DecidableEq

namespace Operation

def opCode : Operation → UInt8
  | .insert _ _ => 'I'.toUInt8
  | .get _ => 'G'.toUInt8
  | .delete _ => 'D'.toUInt8
  | .ping => 'P'.toUInt8
  | .close => 'C'.toUInt8
  | .shutdown => 'S'.toUInt8

def body : Operation → Bytes
  | .insert key value => field key ++ field value
  | .get key | .delete key => field key
  | .ping | .close | .shutdown => []

def encode (operation : Operation) : Bytes :=
  match operation with
  | .insert _ _ | .get _ | .delete _ => operation.opCode :: field operation.body
  | .ping | .close | .shutdown => [operation.opCode]

end Operation

/-- What a reply tells the client. -/
inductive Reply where
  | ok
  | found (key value : Bytes)
  | error (message : Bytes)
  deriving DecidableEq

/-- What follows the status of a success: a pair after `Get`, nothing after the others. -/
def parsePayload : Operation → Bytes → Option (Reply × Bytes)
  | .get _, bytes => do
    let (body, rest) ← splitField bytes
    let (key, body) ← splitField body
    let (value, body) ← splitField body
    if body = [] then some (.found key value, rest) else none
  | _, bytes => some (.ok, bytes)

/-- The reply to an operation, and the bytes after it. -/
def parseReply (operation : Operation) : Bytes → Option (Reply × Bytes)
  | [] => none
  | status :: rest =>
    if status = 'E'.toUInt8 then do
      let (message, rest) ← splitField rest
      some (.error message, rest)
    else if status = 'O'.toUInt8 then parsePayload operation rest
    else none

/-- One reply for each operation, up to the end of the output. -/
def parseReplies : List Operation → Bytes → Option (List Reply)
  | [], [] => some []
  | [], _ :: _ => none
  | operation :: rest, bytes => do
    let (reply, bytes) ← parseReply operation bytes
    let replies ← parseReplies rest bytes
    some (reply :: replies)

end CambiumDB
