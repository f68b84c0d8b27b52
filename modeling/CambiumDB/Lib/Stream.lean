import Mathlib.Data.List.Basic

/-!
# Elements that arrive in segments

A reader that waits for a number of elements, as `io.ReadFull` does on a connection. What is
still to come is a list of segments, and of moments at which a read deadline passes while the
reader waits.
-/

namespace CambiumDB

namespace SegmentStream

variable {α : Type}

inductive Arrival (α : Type) where
  | segment (elements : List α)
  | timeout

inductive ReadError where
  | timeout
  | eof
  deriving DecidableEq

structure Inbox (α : Type) where
  arrived : List α
  coming : List (Arrival α)

def segments : List (Arrival α) → List α
  | [] => []
  | .segment elements :: rest => elements ++ segments rest
  | .timeout :: rest => segments rest

/-- Everything that is not read yet. -/
def Inbox.unread (s : Inbox α) : List α := s.arrived ++ segments s.coming

/-- Wait until `n` elements have arrived. What has arrived is lost when the read fails. -/
def fill (deadline : Bool) (n : Nat) :
    List α → List (Arrival α) → Except ReadError (List α) × Inbox α
  | arrived, [] =>
    if n ≤ arrived.length then (.ok (arrived.take n), ⟨arrived.drop n, []⟩)
    else (.error .eof, ⟨[], []⟩)
  | arrived, .segment elements :: rest =>
    if n ≤ arrived.length then (.ok (arrived.take n), ⟨arrived.drop n, .segment elements :: rest⟩)
    else fill deadline n (arrived ++ elements) rest
  | arrived, .timeout :: rest =>
    if n ≤ arrived.length then (.ok (arrived.take n), ⟨arrived.drop n, .timeout :: rest⟩)
    else if deadline then (.error .timeout, ⟨[], rest⟩)
    else fill deadline n arrived rest

theorem fill_arrived {deadline : Bool} {n : Nat} {arrived : List α} (coming : List (Arrival α))
    (here : n ≤ arrived.length) :
    fill deadline n arrived coming = (.ok (arrived.take n), ⟨arrived.drop n, coming⟩) := by
  cases coming with
  | nil => rw [fill, if_pos here]
  | cons arrival rest =>
    cases arrival with
    | segment elements => rw [fill, if_pos here]
    | timeout => rw [fill, if_pos here]

def Inbox.readFull (deadline : Bool) (n : Nat) (s : Inbox α) :
    Except ReadError (List α) × Inbox α :=
  fill deadline n s.arrived s.coming

/-- Without a deadline the first `n` unread elements are returned, however they arrive. -/
theorem fill_patient {n : Nat} {arrived : List α} {coming : List (Arrival α)}
    (enough : n ≤ (arrived ++ segments coming).length) :
    ∃ s, fill false n arrived coming = (.ok ((arrived ++ segments coming).take n), s) ∧
      s.unread = (arrived ++ segments coming).drop n ∧ s.coming.length ≤ coming.length := by
  induction coming generalizing arrived with
  | nil =>
    rw [segments, List.append_nil] at enough ⊢
    refine ⟨⟨arrived.drop n, []⟩, fill_arrived [] enough, ?_, Nat.le_refl _⟩
    rw [Inbox.unread, segments, List.append_nil]
  | cons arrival rest ih =>
    by_cases here : n ≤ arrived.length
    · refine ⟨⟨arrived.drop n, arrival :: rest⟩, ?_, ?_, Nat.le_refl _⟩
      · rw [fill_arrived _ here, List.take_append_of_le_length here]
      · rw [Inbox.unread, List.drop_append_of_le_length here]
    · cases arrival with
      | segment elements =>
        rw [fill, if_neg here]
        rw [segments, ← List.append_assoc] at enough ⊢
        obtain ⟨s, done, unread, fewer⟩ := ih enough
        exact ⟨s, done, unread, Nat.le_succ_of_le fewer⟩
      | timeout =>
        rw [fill, if_neg here]
        obtain ⟨s, done, unread, fewer⟩ := ih enough
        exact ⟨s, done, unread, Nat.le_succ_of_le fewer⟩

/-- One element with a deadline: it is returned, or the deadline passes and nothing is lost. -/
theorem fill_one {arrived : List α} {coming : List (Arrival α)} {x : α} {rest : List α}
    (unread : arrived ++ segments coming = x :: rest) :
    (∃ s, fill true 1 arrived coming = (.ok [x], s) ∧ s.unread = rest ∧
        s.coming.length ≤ coming.length) ∨
      ∃ s, fill true 1 arrived coming = (.error .timeout, s) ∧ s.unread = x :: rest ∧
        s.coming.length < coming.length := by
  -- an element that is there is taken at once
  have first {arrived : List α} (coming : List (Arrival α))
      (unread : x :: arrived ++ segments coming = x :: rest) :
      fill true 1 (x :: arrived) coming = (.ok [x], ⟨arrived, coming⟩) ∧
        Inbox.unread ⟨arrived, coming⟩ = rest :=
    ⟨fill_arrived coming (by simp), (List.cons.inj unread).2⟩
  induction coming generalizing arrived with
  | nil =>
    cases arrived with
    | nil => cases unread
    | cons y arrived =>
      obtain ⟨rfl, _⟩ := List.cons.inj unread
      obtain ⟨done, later⟩ := first [] unread
      exact .inl ⟨_, done, later, Nat.le_refl _⟩
  | cons arrival coming ih =>
    cases arrived with
    | cons y arrived =>
      obtain ⟨rfl, _⟩ := List.cons.inj unread
      obtain ⟨done, later⟩ := first (arrival :: coming) unread
      exact .inl ⟨_, done, later, Nat.le_refl _⟩
    | nil =>
      cases arrival with
      | timeout =>
        rw [fill, if_neg (by simp)]
        exact .inr ⟨⟨[], coming⟩, rfl, unread, Nat.lt_succ_self _⟩
      | segment elements =>
        rw [fill, if_neg (by simp)]
        rcases ih unread with ⟨s, done, same, fewer⟩ | ⟨s, done, same, fewer⟩
        · exact .inl ⟨s, done, same, Nat.le_succ_of_le fewer⟩
        · exact .inr ⟨s, done, same, Nat.lt_succ_of_lt fewer⟩

end SegmentStream

end CambiumDB
