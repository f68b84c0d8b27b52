import Mathlib.Data.List.Basic
import Mathlib.Data.List.GetD
import Mathlib.Tactic.Ring
import Mathlib.Tactic.Cases

/-!
# Byte buffers

Fixed-size byte buffers that are read and written at offsets, little-endian
integers inside them, and slices that carry a length and a capacity.

A write never grows a buffer: the part of the source that would land past the
end is dropped. A read past the end yields zero bytes. Two buffers are equal
when they agree at every offset, so each fact below is a fact about `byte`.
-/

namespace ByteBuffer

abbrev Bytes := List UInt8

/-! ### Little-endian integers -/

/-- The low `k` base-256 digits of `n`, least significant first. -/
def leBytes : Nat → Nat → Bytes
  | 0, _ => []
  | k + 1, n => UInt8.ofNat n :: leBytes k (n / 256)

def leNat : Bytes → Nat
  | [] => 0
  | b :: bs => b.toNat + 256 * leNat bs

@[simp] theorem length_leBytes (k n : Nat) : (leBytes k n).length = k := by
  induction k generalizing n with
  | zero => rfl
  | succ k ih => simp only [leBytes, List.length_cons, ih]

theorem leNat_leBytes (k n : Nat) : leNat (leBytes k n) = n % 256 ^ k := by
  induction k generalizing n with
  | zero => simp [leBytes, leNat, Nat.mod_one]
  | succ k ih =>
    have digit : (UInt8.ofNat n).toNat = n % 256 := by simp
    simp only [leBytes, leNat, ih, digit]
    rw [pow_succ, Nat.mul_comm (256 ^ k) 256, Nat.mod_mul]

theorem leNat_lt (bs : Bytes) : leNat bs < 256 ^ bs.length := by
  induction bs with
  | nil => simp [leNat]
  | cons b bs ih =>
    have small : b.toNat < 256 := b.toNat_lt
    simp only [leNat, List.length_cons, pow_succ]
    omega

/-! ### Buffers -/

structure Buffer (size : Nat) where
  data : Vector UInt8 size
  deriving DecidableEq

namespace Buffer

variable {size : Nat}

/-- The byte at offset `i`, zero past the end. -/
def byte (b : Buffer size) (i : Nat) : UInt8 :=
  if h : i < size then b.data[i] else 0

/-- The `len` bytes from `off` on. -/
def read (b : Buffer size) (off len : Nat) : Bytes :=
  List.ofFn fun i : Fin len => b.byte (off + i)

/-- Copies `src` to offset `off`, as far as it fits. -/
def write (b : Buffer size) (off : Nat) (src : Bytes) : Buffer size :=
  ⟨Vector.ofFn fun i : Fin size =>
    if off ≤ i.val ∧ i.val < off + src.length then src.getD (i.val - off) 0 else b.byte i.val⟩

def zero (size : Nat) : Buffer size := ⟨Vector.replicate size 0⟩

/-- The unsigned integer on `k` bytes at `off`. -/
def getLE (b : Buffer size) (off k : Nat) : Nat := leNat (b.read off k)

def putLE (b : Buffer size) (off k n : Nat) : Buffer size := b.write off (leBytes k n)

def setByte (b : Buffer size) (off : Nat) (v : UInt8) : Buffer size := b.write off [v]

theorem ext_byte {a b : Buffer size} (same : ∀ i, i < size → a.byte i = b.byte i) : a = b := by
  obtain ⟨u⟩ := a
  obtain ⟨v⟩ := b
  congr 1
  apply Vector.ext
  intro i h
  simpa only [byte, h, dif_pos] using same i h

@[simp] theorem byte_zero (i : Nat) : (zero size).byte i = 0 := by
  simp [byte, zero]

theorem byte_write (b : Buffer size) (off : Nat) (src : Bytes) (i : Nat) :
    (b.write off src).byte i =
      if off ≤ i ∧ i < off + src.length ∧ i < size then src.getD (i - off) 0 else b.byte i := by
  by_cases h : i < size
  · simp [byte, write, h]
  · simp [byte, h]

/-- A write leaves every byte outside its range alone. -/
theorem byte_write_outside (b : Buffer size) (off : Nat) (src : Bytes) {i : Nat}
    (outside : i < off ∨ off + src.length ≤ i) : (b.write off src).byte i = b.byte i := by
  rw [byte_write, if_neg]
  omega

theorem byte_write_inside (b : Buffer size) (off : Nat) (src : Bytes) {i : Nat}
    (room : off + src.length ≤ size) (lower : off ≤ i) (upper : i < off + src.length) :
    (b.write off src).byte i = src.getD (i - off) 0 := by
  rw [byte_write, if_pos]
  omega

@[simp] theorem write_nil (b : Buffer size) (off : Nat) : b.write off [] = b := by
  apply ext_byte
  intro i _
  exact byte_write_outside b off [] (by simp; omega)

@[simp] theorem length_read (b : Buffer size) (off len : Nat) : (b.read off len).length = len := by
  simp [read]

theorem getD_read (b : Buffer size) (off len : Nat) {i : Nat} (h : i < len) :
    (b.read off len).getD i 0 = b.byte (off + i) := by
  rw [List.getD_eq_getElem _ _ (by simpa using h)]
  simp [read]

theorem getElem_read (b : Buffer size) (off len i : Nat) (h : i < (b.read off len).length) :
    (b.read off len)[i] = b.byte (off + i) := by
  simp [read]

/-- Two reads agree when the bytes they cover agree. -/
theorem read_congr {a b : Buffer size} {off off' len : Nat}
    (same : ∀ i, i < len → a.byte (off + i) = b.byte (off' + i)) :
    a.read off len = b.read off' len := by
  apply List.ext_getElem (by simp)
  intro i h _
  rw [getElem_read, getElem_read]
  exact same i (by simpa using h)

theorem read_write_outside (b : Buffer size) (off : Nat) (src : Bytes) {at_ len : Nat}
    (outside : at_ + len ≤ off ∨ off + src.length ≤ at_) :
    (b.write off src).read at_ len = b.read at_ len := by
  apply read_congr
  intro i h
  exact byte_write_outside b off src (by omega)

theorem read_write_same (b : Buffer size) (off : Nat) (src : Bytes)
    (room : off + src.length ≤ size) : (b.write off src).read off src.length = src := by
  apply List.ext_getElem (by simp)
  intro i _ h
  rw [getElem_read, byte_write_inside b off src room (by omega) (by omega), Nat.add_sub_cancel_left,
    List.getD_eq_getElem _ _ h]

theorem read_append (b : Buffer size) (off m n : Nat) :
    b.read off (m + n) = b.read off m ++ b.read (off + m) n := by
  apply List.ext_getElem (by simp)
  intro i h _
  rw [getElem_read, List.getElem_append]
  split
  · rw [getElem_read]
  next past =>
    simp only [length_read] at past
    rw [getElem_read, length_read]
    congr 1
    omega

/-- The buffer holds the bytes from `off` on. -/
def HasAt (b : Buffer size) (off : Nat) (bs : Bytes) : Prop := b.read off bs.length = bs

theorem hasAt_append (b : Buffer size) (off : Nat) (front back : Bytes) :
    b.HasAt off (front ++ back) ↔ b.HasAt off front ∧ b.HasAt (off + front.length) back := by
  rw [HasAt, HasAt, HasAt, List.length_append, read_append]
  constructor
  · intro both
    exact List.append_inj both (by simp)
  · rintro ⟨first, second⟩
    rw [first, second]

/-- A read that starts with known bytes determines those bytes. -/
theorem read_take (b : Buffer size) (off m n : Nat) (h : m ≤ n) :
    (b.read off n).take m = b.read off m := by
  obtain ⟨k, rfl⟩ := Nat.exists_eq_add_of_le h
  rw [read_append, List.take_left' (by simp)]

/-- Overwriting the middle of a known run of bytes. -/
theorem read_write_middle (b : Buffer size) (off : Nat) (front middle back new : Bytes)
    (stored : b.read off (front.length + middle.length + back.length) = front ++ middle ++ back)
    (length : new.length = middle.length)
    (room : off + (front.length + middle.length + back.length) ≤ size) :
    (b.write (off + front.length) new).read off (front.length + middle.length + back.length) =
      front ++ new ++ back := by
  rw [read_append, read_append] at stored ⊢
  obtain ⟨outer, tail⟩ := List.append_inj stored (by simp)
  obtain ⟨head, _⟩ := List.append_inj outer (by simp)
  have written := read_write_same b (off + front.length) new (by omega)
  rw [length] at written
  rw [read_write_outside _ _ _ (.inl (le_refl _)), head, written,
    read_write_outside _ _ _ (.inr (by omega)), tail]

/-- Two writes side by side are one write. -/
theorem write_append (b : Buffer size) (off : Nat) (src src' : Bytes) :
    (b.write off src).write (off + src.length) src' = b.write off (src ++ src') := by
  apply ext_byte
  intro i inside
  simp only [byte_write, List.length_append]
  by_cases second : off + src.length ≤ i ∧ i < off + src.length + src'.length
  · rw [if_pos (by omega), if_pos (by omega), List.getD_append_right _ _ _ _ (by omega)]
    congr 1
    omega
  rw [if_neg (by omega)]
  by_cases first : off ≤ i ∧ i < off + src.length
  · rw [if_pos (by omega), if_pos (by omega), List.getD_append _ _ _ _ (by omega)]
  · rw [if_neg (by omega), if_neg (by omega)]

/-- Writes to disjoint ranges commute. -/
theorem write_comm (b : Buffer size) {off off' : Nat} {src src' : Bytes}
    (apart : off + src.length ≤ off' ∨ off' + src'.length ≤ off) :
    (b.write off src).write off' src' = (b.write off' src').write off src := by
  apply ext_byte
  intro i _
  simp only [byte_write]
  split
  · rw [if_neg (by omega)]
  · rfl

/-! ### Integers in a buffer -/

theorem getLE_zero (off k : Nat) : (zero size).getLE off k = 0 := by
  have blank : (zero size).read off k = List.replicate k 0 := by
    apply List.ext_getElem
    · simp
    · intro i _ _
      rw [getElem_read, byte_zero, List.getElem_replicate]
  rw [getLE, blank]
  clear blank
  induction k with
  | zero => rfl
  | succ k ih =>
    rw [List.replicate_succ, leNat, ih]
    rfl

theorem getLE_lt (b : Buffer size) (off k : Nat) : b.getLE off k < 256 ^ k := by
  have h := leNat_lt (b.read off k)
  rwa [length_read] at h

theorem getLE_putLE_same (b : Buffer size) (off k n : Nat) (room : off + k ≤ size) :
    (b.putLE off k n).getLE off k = n % 256 ^ k := by
  have h := read_write_same b off (leBytes k n) (by simpa using room)
  rw [length_leBytes] at h
  rw [getLE, putLE, h, leNat_leBytes]

theorem getLE_write_outside (b : Buffer size) (off : Nat) (src : Bytes) {at_ k : Nat}
    (outside : at_ + k ≤ off ∨ off + src.length ≤ at_) :
    (b.write off src).getLE at_ k = b.getLE at_ k := by
  rw [getLE, getLE, read_write_outside b off src outside]

theorem getLE_putLE_outside (b : Buffer size) (off k n : Nat) {at_ j : Nat}
    (outside : at_ + j ≤ off ∨ off + k ≤ at_) :
    (b.putLE off k n).getLE at_ j = b.getLE at_ j :=
  getLE_write_outside b off _ (by simpa using outside)

theorem byte_putLE_outside (b : Buffer size) (off k n : Nat) {i : Nat}
    (outside : i < off ∨ off + k ≤ i) : (b.putLE off k n).byte i = b.byte i :=
  byte_write_outside b off _ (by simpa using outside)

theorem putLE_comm (b : Buffer size) {off off' k k' : Nat} (n n' : Nat)
    (apart : off + k ≤ off' ∨ off' + k' ≤ off) :
    (b.putLE off k n).putLE off' k' n' = (b.putLE off' k' n').putLE off k n :=
  write_comm b (by simpa using apart)

theorem byte_setByte_same (b : Buffer size) (off : Nat) (v : UInt8) (room : off < size) :
    (b.setByte off v).byte off = v := by
  rw [setByte, byte_write_inside b off [v] room (le_refl _) (by simp)]
  simp

theorem byte_setByte_outside (b : Buffer size) (off : Nat) (v : UInt8) {i : Nat} (h : i ≠ off) :
    (b.setByte off v).byte i = b.byte i :=
  byte_write_outside b off [v] (by simp only [List.length_cons, List.length_nil]; omega)

theorem getLE_setByte_outside (b : Buffer size) (off : Nat) (v : UInt8) {at_ k : Nat}
    (outside : at_ + k ≤ off ∨ off < at_) : (b.setByte off v).getLE at_ k = b.getLE at_ k :=
  getLE_write_outside b off [v] (by simp only [List.length_cons, List.length_nil]; omega)

end Buffer

/-! ### Slices -/

/-- A window on a longer run of bytes. Indexing is checked against `len`, while
slicing may reach up to `cap`; `byte` is the underlying memory from the window's start. -/
structure Slice where
  byte : Nat → UInt8
  len : Nat
  cap : Nat

namespace Slice

/-- `s[lo:hi]`; `none` when the bounds are refused. -/
def sub (s : Slice) (lo hi : Nat) : Option Slice :=
  if lo ≤ hi ∧ hi ≤ s.cap then some ⟨fun i => s.byte (lo + i), hi - lo, s.cap - lo⟩ else none

/-- `s[lo:]`. -/
def drop (s : Slice) (lo : Nat) : Option Slice :=
  if lo ≤ s.len then s.sub lo s.len else none

def toBytes (s : Slice) : Bytes := List.ofFn fun i : Fin s.len => s.byte i

/-- Little-endian integer on the first `k` bytes; `none` when the slice is shorter. -/
def getLE (s : Slice) (k : Nat) : Option Nat :=
  if k ≤ s.len then some (leNat (List.ofFn fun i : Fin k => s.byte i)) else none

def ofBytes (bs : Bytes) : Slice := ⟨fun i => bs.getD i 0, bs.length, bs.length⟩

/-- The slice begins with the bytes `bs`. -/
def StartsWith (s : Slice) (bs : Bytes) : Prop :=
  bs.length ≤ s.len ∧ s.len ≤ s.cap ∧ ∀ i, i < bs.length → s.byte i = bs.getD i 0

theorem StartsWith.ofBytes (bs tail : Bytes) : (Slice.ofBytes (bs ++ tail)).StartsWith bs := by
  refine ⟨by simp [Slice.ofBytes], le_refl _, ?_⟩
  intro i h
  simp only [Slice.ofBytes]
  rw [List.getD_append _ _ _ _ h]

/-- Skipping a known prefix leaves the rest of the known bytes. -/
theorem StartsWith.drop {s : Slice} (as bs : Bytes) (h : s.StartsWith (as ++ bs)) :
    ∃ t, s.drop as.length = some t ∧ t.StartsWith bs ∧ t.len = s.len - as.length := by
  obtain ⟨hlen, hcap, hbyte⟩ := h
  rw [List.length_append] at hlen
  have dropped : s.drop as.length =
      some ⟨fun i => s.byte (as.length + i), s.len - as.length, s.cap - as.length⟩ := by
    rw [Slice.drop, if_pos (by omega), Slice.sub, if_pos (by omega)]
  refine ⟨_, dropped, ⟨?_, ?_, ?_⟩, rfl⟩
  · simp only
    omega
  · simp only
    omega
  · intro i hi
    have known := hbyte (as.length + i) (by rw [List.length_append]; omega)
    rw [known, List.getD_append_right _ _ _ _ (by omega), Nat.add_sub_cancel_left]

theorem StartsWith.getLE {s : Slice} (k n : Nat) (bs : Bytes)
    (h : s.StartsWith (leBytes k n ++ bs)) : s.getLE k = some (n % 256 ^ k) := by
  obtain ⟨hlen, _, hbyte⟩ := h
  rw [List.length_append, length_leBytes] at hlen
  rw [Slice.getLE, if_pos (by omega)]
  congr 1
  rw [← leNat_leBytes]
  congr 1
  apply List.ext_getElem (by simp)
  intro i hi hi'
  rw [List.getElem_ofFn]
  have bound : i < k := by simpa using hi
  rw [hbyte i (by rw [List.length_append, length_leBytes]; omega),
    List.getD_append _ _ _ _ (by rw [length_leBytes]; omega), List.getD_eq_getElem _ _ hi']

/-- The bytes of a sub-slice that lies over a known prefix. -/
theorem StartsWith.sub {s : Slice} (as bs cs : Bytes) (h : s.StartsWith (as ++ bs ++ cs)) :
    ∃ t, s.sub as.length (as.length + bs.length) = some t ∧ t.toBytes = bs := by
  obtain ⟨hlen, hcap, hbyte⟩ := h
  simp only [List.length_append] at hlen
  refine ⟨_, by rw [Slice.sub, if_pos (by omega)], ?_⟩
  apply List.ext_getElem (by simp [toBytes])
  intro i _ hi
  simp only [toBytes, List.getElem_ofFn]
  rw [hbyte (as.length + i) (by simp only [List.length_append]; omega),
    List.getD_append _ _ _ _ (by simp only [List.length_append]; omega),
    List.getD_append_right _ _ _ _ (by omega), Nat.add_sub_cancel_left, List.getD_eq_getElem _ _ hi]

theorem StartsWith.take {s : Slice} (as bs : Bytes) (h : s.StartsWith (as ++ bs)) :
    ∃ t, s.sub 0 as.length = some t ∧ t.StartsWith as := by
  obtain ⟨hlen, hcap, hbyte⟩ := h
  rw [List.length_append] at hlen
  refine ⟨⟨fun i => s.byte (0 + i), as.length - 0, s.cap - 0⟩, ?_, ?_, ?_, ?_⟩
  · rw [Slice.sub, if_pos (by omega)]
  · exact le_refl _
  · exact (by omega : as.length ≤ s.cap)
  · intro i hi
    show s.byte (0 + i) = as.getD i 0
    rw [Nat.zero_add, hbyte i (by rw [List.length_append]; omega), List.getD_append _ _ _ _ hi]

end Slice

end ByteBuffer
