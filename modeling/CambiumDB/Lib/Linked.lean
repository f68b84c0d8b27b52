import Mathlib.Data.List.Nodup

/-!
# Chains of links

`Linked next a visited b`: following `next` from `a` visits exactly `visited`, in this
order, and then arrives at `b`.
-/

variable {α : Type}

inductive Linked (next : α → α) : α → List α → α → Prop
  | nil (a : α) : Linked next a [] a
  | cons {a b : α} {visited : List α} :
      Linked next (next a) visited b → Linked next a (a :: visited) b

namespace Linked

variable {next next' : α → α} {a b x y : α} {visited before after : List α}

theorem stop (chain : Linked next a [] b) : a = b := by
  cases chain with
  | nil _ => rfl

theorem head (chain : Linked next a (x :: visited) b) : a = x := by
  cases chain with
  | cons _ => rfl

theorem tail (chain : Linked next a (x :: visited) b) : Linked next (next x) visited b := by
  cases chain with
  | cons rest => exact rest

theorem append_iff : Linked next a (before ++ after) b ↔
    ∃ middle, Linked next a before middle ∧ Linked next middle after b := by
  constructor
  · intro chain
    induction before generalizing a with
    | nil => exact ⟨a, .nil a, chain⟩
    | cons x before ih =>
      cases chain with
      | cons rest =>
        obtain ⟨middle, front, back⟩ := ih rest
        exact ⟨middle, .cons front, back⟩
  · rintro ⟨middle, front, back⟩
    induction front with
    | nil _ => exact back
    | cons _ ih => exact .cons (ih back)

/-- A chain depends on the links of the visited elements only. -/
theorem congr (chain : Linked next a visited b) (same : ∀ x ∈ visited, next' x = next x) :
    Linked next' a visited b := by
  induction chain with
  | nil a => exact .nil a
  | @cons a b visited _ ih =>
    have rest := ih fun x member => same x (List.mem_cons_of_mem a member)
    rw [← same a List.mem_cons_self] at rest
    exact .cons rest

/-- A new element takes over the link of `x` and `x` links to it. -/
theorem insertAfter (chain : Linked next a (before ++ x :: after) b)
    (nodup : (before ++ x :: after).Nodup) (toNew : next' x = y) (fromNew : next' y = next x)
    (same : ∀ z ∈ before ++ x :: after, z ≠ x → next' z = next z) :
    Linked next' a (before ++ x :: y :: after) b := by
  obtain ⟨middle, front, back⟩ := append_iff.mp chain
  obtain rfl := back.head
  have apart := List.nodup_append.mp nodup
  have front' : Linked next' a before middle := by
    refine front.congr fun z member => same z (List.mem_append_left _ member) ?_
    exact apart.2.2 z member middle List.mem_cons_self
  have back' : Linked next' (next middle) after b := by
    refine back.tail.congr fun z member => ?_
    have different : z ≠ middle := fun equal =>
      (List.nodup_cons.mp apart.2.1).1 (equal ▸ member)
    exact same z (List.mem_append_right _ (List.mem_cons_of_mem _ member)) different
  rw [← fromNew] at back'
  have linked : Linked next' (next' middle) (y :: after) b := by
    rw [toNew]
    exact .cons back'
  exact append_iff.mpr ⟨middle, front', .cons linked⟩

end Linked
