import CambiumDB.Server.Framing

/-!
# The bodies of requests

The decoders slice a body at a running pointer, by lengths that the body itself names. A body
that ends before a field it announces is not rejected: the slice panics, and with it the process.
-/

namespace CambiumDB

open ByteBuffer

/-! ### Fields of a body -/

theorem leBytes_leNat (bytes : Bytes) : leBytes bytes.length (leNat bytes) = bytes := by
  induction bytes with
  | nil => rfl
  | cons b rest ih =>
    have low : UInt8.ofNat (b.toNat + 256 * leNat rest) = b := by
      apply UInt8.toNat_inj.mp
      have small : b.toNat < 256 := b.toNat_lt
      simp only [UInt8.toNat_ofNat', Nat.reducePow]
      omega
    have high : (b.toNat + 256 * leNat rest) / 256 = leNat rest := by
      have small : b.toNat < 256 := b.toNat_lt
      omega
    rw [List.length_cons, leNat, leBytes, low, high, ih]

/-- What is split off is the field that the bytes begin with. -/
theorem splitField_eq_some {bytes front rest : Bytes} :
    splitField bytes = some (front, rest) ↔
      bytes = field front ++ rest ∧ front.length < 2 ^ 32 := by
  constructor
  · intro split
    refine ⟨?_, (splitField_lengths split).1⟩
    rw [splitField] at split
    split at split
    next inside =>
      obtain ⟨rfl, rfl⟩ := Prod.mk.inj (Option.some.inj split)
      have length : ((bytes.drop 4).take (leNat (bytes.take 4))).length = leNat (bytes.take 4) := by
        rw [List.length_take, List.length_drop]
        omega
      have four : (bytes.take 4).length = 4 := by
        rw [List.length_take]
        omega
      -- the first four bytes are the length, written again
      have again : leBytes 4 (leNat (bytes.take 4)) = bytes.take 4 := by
        have same := leBytes_leNat (bytes.take 4)
        rwa [four] at same
      rw [field, length, again, List.append_assoc, List.take_append_drop, List.take_append_drop]
    next => cases split
  · rintro ⟨rfl, small⟩
    exact splitField_field front small rest

/-- The body begins with these fields, each behind its length. -/
def Delimited (body : Bytes) (fields : List Bytes) : Prop :=
  (∃ rest, body = fields.flatMap field ++ rest) ∧ ∀ bytes ∈ fields, bytes.length < 2 ^ 32

/-- The body does not end before its first `n` fields do. -/
def FieldsInside : Nat → Bytes → Prop
  | 0, _ => True
  | n + 1, body => 4 ≤ body.length ∧ 4 + leNat (body.take 4) ≤ body.length ∧
      FieldsInside n (body.drop (4 + leNat (body.take 4)))

/-- The first `n` fields. -/
def splitFields : Nat → Bytes → Option (List Bytes)
  | 0, _ => some []
  | n + 1, body => do
    let (bytes, body) ← splitField body
    let fields ← splitFields n body
    some (bytes :: fields)

theorem splitFields_eq_some {n : Nat} {body : Bytes} {fields : List Bytes} :
    splitFields n body = some fields ↔ fields.length = n ∧ Delimited body fields := by
  induction n generalizing body fields with
  | zero =>
    rw [splitFields, Option.some.injEq, List.length_eq_zero_iff]
    constructor
    · rintro rfl
      exact ⟨rfl, ⟨body, rfl⟩, fun _ member => absurd member List.not_mem_nil⟩
    · rintro ⟨rfl, _⟩
      rfl
  | succ n ih =>
    constructor
    · intro run
      obtain ⟨⟨bytes, later⟩, first, run⟩ := Option.bind_eq_some_iff.mp run
      obtain ⟨others, found, same⟩ := Option.bind_eq_some_iff.mp run
      obtain rfl := Option.some.inj same
      obtain ⟨rfl, small⟩ := splitField_eq_some.mp first
      obtain ⟨count, ⟨rest, rfl⟩, short⟩ := ih.mp found
      refine ⟨congrArg (· + 1) count, ⟨rest, ?_⟩, ?_⟩
      · rw [List.flatMap_cons, List.append_assoc]
      · exact List.forall_mem_cons.mpr ⟨small, short⟩
    · rintro ⟨count, ⟨rest, whole⟩, short⟩
      cases fields with
      | nil => cases count
      | cons bytes others =>
        rw [List.flatMap_cons, List.append_assoc] at whole
        have first : splitField body = some (bytes, others.flatMap field ++ rest) :=
          splitField_eq_some.mpr ⟨whole, short bytes List.mem_cons_self⟩
        have found : splitFields n (others.flatMap field ++ rest) = some others :=
          ih.mpr ⟨Nat.succ.inj count, ⟨rest, rfl⟩, fun other member =>
            short other (List.mem_cons_of_mem _ member)⟩
        simp only [splitFields, first, found, bind, Option.bind]

theorem splitFields_isSome {n : Nat} {body : Bytes} :
    (splitFields n body).isSome ↔ FieldsInside n body := by
  induction n generalizing body with
  | zero => exact iff_of_true rfl trivial
  | succ n ih =>
    rw [FieldsInside, ← ih]
    by_cases inside : 4 ≤ body.length ∧ 4 + leNat (body.take 4) ≤ body.length
    · have first : splitField body = some ((body.drop 4).take (leNat (body.take 4)),
          body.drop (4 + leNat (body.take 4))) := by
        rw [splitField, if_pos inside, List.drop_drop]
      rw [splitFields, first]
      cases found : splitFields n (body.drop (4 + leNat (body.take 4))) with
      | none => simp [found]
      | some others => simp [found, inside]
    · have first : splitField body = none := by rw [splitField, if_neg inside]
      rw [splitFields, first]
      simp only [bind, Option.bind, Option.isSome_none, Bool.false_eq_true, false_iff]
      exact fun fits => inside ⟨fits.1, fits.2.1⟩

namespace Server

/-! ### The pointer of the decoders -/

/-- `body[low:high]`. The body was made as long as it is, so it has no more capacity. -/
def slice (body : Bytes) (low high : Nat) : Option Bytes :=
  if low ≤ high ∧ high ≤ body.length then some ((body.drop low).take (high - low)) else none

/-- The length at the pointer, a copy of as many bytes, and the pointer behind them. -/
def copyField (body : Bytes) (pointer : Nat) : Option (Bytes × Nat) := do
  let length ← slice body pointer (pointer + 4)
  let pointer := pointer + 4
  let bytes ← slice body pointer (pointer + leNat length)
  some (bytes, pointer + leNat length)

theorem copyField_eq {body : Bytes} {pointer : Nat} (inside : pointer ≤ body.length) :
    (copyField body pointer).map (fun found => (found.1, body.drop found.2)) =
      splitField (body.drop pointer) := by
  rw [copyField, splitField, List.length_drop]
  by_cases front : pointer + 4 ≤ body.length
  · have length : slice body pointer (pointer + 4) = some ((body.drop pointer).take 4) := by
      rw [slice, if_pos ⟨by omega, front⟩, Nat.add_sub_cancel_left]
    simp only [length, bind, Option.bind]
    generalize leNat ((body.drop pointer).take 4) = n
    by_cases back : pointer + 4 + n ≤ body.length
    · rw [slice, if_pos ⟨by omega, back⟩, if_pos (by omega), List.drop_drop, List.drop_drop,
        Nat.add_sub_cancel_left]
      rfl
    · rw [slice, if_neg (by omega), if_neg (by omega)]
      rfl
  · have length : slice body pointer (pointer + 4) = none := by
      rw [slice, if_neg (by omega)]
    simp only [length, bind, Option.bind]
    rw [if_neg (by omega)]
    rfl

theorem copyField_le {body bytes : Bytes} {pointer next : Nat}
    (found : copyField body pointer = some (bytes, next)) : next ≤ body.length := by
  obtain ⟨length, _, found⟩ := Option.bind_eq_some_iff.mp found
  obtain ⟨copied, second, same⟩ := Option.bind_eq_some_iff.mp found
  obtain ⟨_, rfl⟩ := Prod.mk.inj (Option.some.inj same)
  rw [slice] at second
  split at second
  next bounds => exact bounds.2
  next => cases second

/-- The decoders of `Get` and `Delete`, at the pointer. -/
theorem decodeGetRequestBody_eq (body : Bytes) :
    decodeGetRequestBody body = (copyField body 0).map Prod.fst := by
  have same := copyField_eq (Nat.zero_le body.length)
  rw [List.drop_zero] at same
  rw [decodeGetRequestBody, ← same]
  cases copyField body 0 with
  | none => rfl
  | some found => rfl

theorem decodeInsertRequestBody_eq (body : Bytes) : decodeInsertRequestBody body = (do
    let (key, pointer) ← copyField body 0
    let (value, _) ← copyField body pointer
    some (key, value)) := by
  have first := copyField_eq (Nat.zero_le body.length)
  rw [List.drop_zero] at first
  rw [decodeInsertRequestBody, ← first]
  cases run : copyField body 0 with
  | none => rfl
  | some found =>
    have second := copyField_eq (copyField_le run)
    simp only [Option.map_some, bind, Option.bind, ← second]
    cases copyField body found.2 with
    | none => rfl
    | some other => rfl

/-! ### Requests with a body -/

inductive BodyRequest where
  | insert
  | get
  | delete
  deriving DecidableEq

namespace BodyRequest

def opCode : BodyRequest → UInt8
  | insert => 'I'.toUInt8
  | get => 'G'.toUInt8
  | delete => 'D'.toUInt8

def fieldCount : BodyRequest → Nat
  | insert => 2
  | get | delete => 1

/-- The fields that the decoder of the request returns. -/
def decode : BodyRequest → Bytes → Option (List Bytes)
  | insert, body => (decodeInsertRequestBody body).map fun pair => [pair.1, pair.2]
  | get, body => (decodeGetRequestBody body).map fun key => [key]
  | delete, body => (decodeDeleteRequestBody body).map fun key => [key]

theorem decode_eq (request : BodyRequest) (body : Bytes) :
    request.decode body = splitFields request.fieldCount body := by
  cases request with
  | insert =>
    simp only [decode, decodeInsertRequestBody, fieldCount, splitFields, bind, Option.bind]
    cases splitField body with
    | none => rfl
    | some found =>
      simp only
      cases splitField found.2 with
      | none => rfl
      | some other => rfl
  | get | delete =>
    simp only [decode, decodeGetRequestBody, decodeDeleteRequestBody, fieldCount, splitFields, bind,
      Option.bind]
    cases splitField body with
    | none => rfl
    | some found => rfl

end BodyRequest

section
variable (nextLSN : List LogEntry → UInt64) (ioMessage : Nat → Bytes)

/-- The decoder returns the fields that the lengths in the body delimit, or the client gets an
error response. -/
def Handled (request : BodyRequest) (body : Bytes) : Prop :=
  (∃ fields, request.decode body = some fields ∧ fields.length = request.fieldCount ∧
      Delimited body fields) ∨
    ∀ s : Server, ∃ message s', serveRequest nextLSN ioMessage s request.opCode body = (.next, s') ∧
      s'.conn.written = s.conn.written ++ encodeErrorResponse message

/-- A slice out of range ends the process; nothing is written. -/
theorem serveRequest_crashes {request : BodyRequest} {body : Bytes}
    (none : request.decode body = none) (s : Server) :
    serveRequest nextLSN ioMessage s request.opCode body = (.crashed .panic, s) := by
  cases request with
  | insert =>
    rw [BodyRequest.decode, Option.map_eq_none_iff] at none
    rw [serveRequest, BodyRequest.opCode, if_neg (by decide), if_pos rfl, none]
  | get =>
    rw [BodyRequest.decode, Option.map_eq_none_iff] at none
    rw [serveRequest, BodyRequest.opCode, if_neg (by decide), if_neg (by decide),
      if_neg (by decide), if_pos rfl, none]
  | delete =>
    rw [BodyRequest.decode, Option.map_eq_none_iff] at none
    rw [serveRequest, BodyRequest.opCode, if_neg (by decide), if_neg (by decide), if_pos rfl, none]

theorem not_handled_of_none {request : BodyRequest} {body : Bytes}
    (none : request.decode body = none) : ¬ Handled nextLSN ioMessage request body := by
  rintro (⟨fields, some_, _⟩ | answered)
  · rw [none] at some_
    cases some_
  · obtain ⟨_, _, run, _⟩ := answered (connect newDatabase [])
    rw [serveRequest_crashes nextLSN ioMessage none] at run
    cases run

/-- A body is handled exactly if it does not end before the fields it announces. -/
theorem body_handled_iff (request : BodyRequest) (body : Bytes) :
    Handled nextLSN ioMessage request body ↔ FieldsInside request.fieldCount body := by
  rw [← splitFields_isSome, ← request.decode_eq]
  constructor
  · intro handled
    cases decoded : request.decode body with
    | none => exact absurd handled (not_handled_of_none nextLSN ioMessage decoded)
    | some fields => rfl
  · intro returns
    obtain ⟨fields, decoded⟩ := Option.isSome_iff_exists.mp returns
    have delimited := decoded
    rw [request.decode_eq, splitFields_eq_some] at delimited
    exact .inl ⟨fields, decoded, delimited⟩

end

/-- A `Get` whose body is empty: the process of the server is gone. -/
theorem empty_body_crashes_server :
    (serve recordLSN (fun _ => []) (connect newDatabase
      [.segment ['G'.toUInt8, 0, 0, 0, 0]])).1 = .crashed .panic ∧
    ¬ Handled recordLSN (fun _ => []) .get [] := by
  constructor
  · rfl
  · exact not_handled_of_none _ _ rfl

end Server

end CambiumDB
