import CambiumDB.Lib.ByteBuffer

/-!
# Files

A file is its size and its bytes. It is written and read at offsets; a write past the end
makes it larger, a read past the end fails.
-/

namespace ByteBuffer

/-- The buffer whose byte at offset `i` is `f i`. -/
def Buffer.ofBytes (size : Nat) (f : Nat → UInt8) : Buffer size := ⟨Vector.ofFn fun i => f i⟩

theorem Buffer.byte_ofBytes {size : Nat} (f : Nat → UInt8) {i : Nat} (inside : i < size) :
    (Buffer.ofBytes size f).byte i = f i := by
  simp [Buffer.byte, Buffer.ofBytes, inside]

structure File where
  size : Nat
  byte : Nat → UInt8

namespace File

def empty : File := ⟨0, fun _ => 0⟩

/-- Bytes between the old end and the written range are zero. -/
def write (f : File) (off : Nat) (src : Bytes) : File where
  size := if src = [] then f.size else max f.size (off + src.length)
  byte i :=
    if off ≤ i ∧ i < off + src.length then src.getD (i - off) 0
    else if i < f.size then f.byte i else 0

def read (f : File) (off len : Nat) : Option (Buffer len) :=
  if off + len ≤ f.size then some (Buffer.ofBytes len fun i => f.byte (off + i)) else none

section
variable (f : File) (off len : Nat) (src : Bytes)

theorem size_le_write : f.size ≤ (f.write off src).size := by
  simp only [write]
  split
  · exact le_refl _
  · exact le_max_left ..

/-- A write that starts inside the file ends at the later of the two ends. -/
theorem size_write (inside : off ≤ f.size) :
    (f.write off src).size = max f.size (off + src.length) := by
  simp only [write]
  split
  next none =>
    rw [none, List.length_nil]
    omega
  next => rfl

theorem read_of_bytes {b : Buffer len} (inside : off + len ≤ f.size)
    (same : ∀ i, i < len → b.byte i = f.byte (off + i)) : f.read off len = some b := by
  rw [read, if_pos inside]
  congr 1
  apply Buffer.ext_byte
  intro i small
  rw [Buffer.byte_ofBytes _ small, same i small]

/-- What was written is read back. -/
theorem read_write_same (b : Buffer len) (some_ : 0 < len) :
    (f.write off (b.read 0 len)).read off len = some b := by
  have length : (b.read 0 len).length = len := Buffer.length_read ..
  have nonempty : b.read 0 len ≠ [] := fun none => by simp [none] at length; omega
  apply read_of_bytes
  · simp only [write, if_neg nonempty, length]
    omega
  · intro i small
    simp only [write, length]
    rw [if_pos (by omega), Nat.add_sub_cancel_left, Buffer.getD_read _ _ _ small, Nat.zero_add]

/-- Zero bytes that were written are read back. -/
theorem read_zeros (count : Nat) {at_ : Nat} (some_ : 0 < len) (lower : off ≤ at_)
    (upper : at_ + len ≤ off + count) :
    (f.write off (List.replicate count 0)).read at_ len = some (Buffer.zero len) := by
  have nonempty : List.replicate count (0 : UInt8) ≠ [] := by simp; omega
  apply read_of_bytes
  · simp only [write, if_neg nonempty, List.length_replicate]
    omega
  · intro i small
    simp only [write, List.length_replicate]
    rw [Buffer.byte_zero, if_pos (by omega)]
    simp [List.getD]

/-- A write elsewhere is not seen. -/
theorem read_write_outside (inside : off + len ≤ f.size) {at_ : Nat}
    (outside : off + len ≤ at_ ∨ at_ + src.length ≤ off) :
    (f.write at_ src).read off len = f.read off len := by
  have larger := size_le_write f at_ src
  rw [read, read, if_pos (le_trans inside larger), if_pos inside]
  congr 1
  apply Buffer.ext_byte
  intro i small
  rw [Buffer.byte_ofBytes _ small, Buffer.byte_ofBytes _ small]
  simp only [write]
  rw [if_neg (by omega), if_pos (by omega)]

end

end File

end ByteBuffer
