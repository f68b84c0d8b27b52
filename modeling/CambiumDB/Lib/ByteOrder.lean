import CambiumDB.Lib.ByteBuffer
import Mathlib.Data.List.Lex

/-! Byte strings in lexicographic order, and the three-way comparison that decides it. -/

namespace ByteBuffer

instance linearOrderByte : LinearOrder UInt8 where
  le_refl _ := Nat.le_refl _
  le_trans _ _ _ := Nat.le_trans
  lt_iff_le_not_ge a b := by
    simp only [UInt8.lt_iff_toNat_lt, UInt8.le_iff_toNat_le]
    omega
  le_antisymm a b h k := UInt8.toNat_inj.mp (Nat.le_antisymm h k)
  le_total a b := Nat.le_total a.toNat b.toNat
  toDecidableLE := inferInstance
  toDecidableEq := inferInstance
  toDecidableLT := inferInstance
  compare_eq_compareOfLessAndEq _ _ := rfl

/-- Three-way lexicographic comparison; a proper initial segment is smaller. -/
def compareBytes : Bytes → Bytes → Ordering
  | [], [] => .eq
  | [], _ :: _ => .lt
  | _ :: _, [] => .gt
  | a :: as, b :: bs => if a < b then .lt else if b < a then .gt else compareBytes as bs

private theorem compareBytes_cases (a b : Bytes) :
    (compareBytes a b = .lt ∧ a < b) ∨ (compareBytes a b = .eq ∧ a = b) ∨
      (compareBytes a b = .gt ∧ b < a) := by
  induction a generalizing b with
  | nil =>
    cases b with
    | nil => exact .inr (.inl ⟨rfl, rfl⟩)
    | cons b bs => exact .inl ⟨rfl, List.Lex.nil⟩
  | cons a as ih =>
    cases b with
    | nil => exact .inr (.inr ⟨rfl, List.Lex.nil⟩)
    | cons b bs =>
      simp only [compareBytes]
      rcases lt_trichotomy a b with less | rfl | more
      · exact .inl ⟨if_pos less, List.Lex.rel less⟩
      · simp only [lt_irrefl, if_false]
        rcases ih bs with ⟨result, order⟩ | ⟨result, rfl⟩ | ⟨result, order⟩
        · exact .inl ⟨result, List.Lex.cons order⟩
        · exact .inr (.inl ⟨result, rfl⟩)
        · exact .inr (.inr ⟨result, List.Lex.cons order⟩)
      · simp only [not_lt.mpr (le_of_lt more), if_false, more, if_true]
        exact .inr (.inr ⟨trivial, List.Lex.rel more⟩)

@[simp] theorem compareBytes_eq_lt (a b : Bytes) : compareBytes a b = .lt ↔ a < b := by
  rcases compareBytes_cases a b with ⟨result, order⟩ | ⟨result, rfl⟩ | ⟨result, order⟩
  · simp [result, order]
  · simp [result]
  · simp [result, not_lt.mpr (le_of_lt order)]

@[simp] theorem compareBytes_eq_eq (a b : Bytes) : compareBytes a b = .eq ↔ a = b := by
  rcases compareBytes_cases a b with ⟨result, order⟩ | ⟨result, rfl⟩ | ⟨result, order⟩
  · simp [result, ne_of_lt order]
  · simp [result]
  · simp [result, ne_of_gt order]

@[simp] theorem compareBytes_eq_gt (a b : Bytes) : compareBytes a b = .gt ↔ b < a := by
  rcases compareBytes_cases a b with ⟨result, order⟩ | ⟨result, rfl⟩ | ⟨result, order⟩
  · simp [result, not_lt.mpr (le_of_lt order)]
  · simp [result]
  · simp [result, order]

end ByteBuffer
