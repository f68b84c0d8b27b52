import Mathlib.Data.List.Nodup

/-!
# Linked lists with handles

A linked list hands out a handle for each element that is pushed, and an element is removed by
its handle, from anywhere in the list. Handles are never given out twice.
-/

namespace HandleList

structure Element (α : Type) where
  handle : Nat
  value : α
  deriving DecidableEq

end HandleList

open HandleList
structure HandleList (α : Type) where
  elements : List (Element α)
  /-- The next handle. -/
  next : Nat

namespace HandleList

variable {α : Type}

def empty : HandleList α := ⟨[], 0⟩

def pushFront (list : HandleList α) (value : α) : Element α × HandleList α :=
  (⟨list.next, value⟩, ⟨⟨list.next, value⟩ :: list.elements, list.next + 1⟩)

def back (list : HandleList α) : Option (Element α) := list.elements.getLast?

/-- The element with this handle is taken out; one that was taken out before is not there. -/
def remove (list : HandleList α) (e : Element α) : HandleList α :=
  { list with elements := list.elements.filter fun x => x.handle ≠ e.handle }

def values (list : HandleList α) : List α := list.elements.map Element.value

/-- No two elements share a handle, and the next one is new. -/
structure Fresh (list : HandleList α) : Prop where
  distinct : (list.elements.map Element.handle).Nodup
  new : ∀ e ∈ list.elements, e.handle < list.next

theorem fresh_empty : Fresh (empty : HandleList α) :=
  ⟨List.nodup_nil, fun _ member => absurd member List.not_mem_nil⟩

namespace Fresh

variable {list : HandleList α} (h : list.Fresh)
include h

theorem pushFront (value : α) : (list.pushFront value).2.Fresh := by
  constructor
  · refine List.nodup_cons.mpr ⟨?_, h.distinct⟩
    rw [List.mem_map]
    rintro ⟨e, member, same⟩
    exact absurd same (Nat.ne_of_lt (h.new e member))
  · intro e member
    rcases List.mem_cons.mp member with rfl | old
    · exact Nat.lt_succ_self _
    · exact Nat.lt_succ_of_lt (h.new e old)

theorem remove (e : Element α) : (list.remove e).Fresh := by
  constructor
  · exact h.distinct.sublist (List.filter_sublist.map _)
  · intro x member
    exact h.new x (List.mem_of_mem_filter member)

theorem eq_of_handle {e x : Element α} (left : e ∈ list.elements) (right : x ∈ list.elements)
    (same : e.handle = x.handle) : e = x :=
  List.inj_on_of_nodup_map h.distinct left right same

/-- The handle leads to this element only. -/
theorem remove_middle {before after : List (Element α)} {e : Element α}
    (here : list.elements = before ++ e :: after) :
    (list.remove e).elements = before ++ after := by
  have distinct := h.distinct
  rw [here, List.map_append, List.map_cons, List.nodup_append] at distinct
  obtain ⟨_, behind, apart⟩ := distinct
  have inFront : ∀ x ∈ before, x.handle ≠ e.handle := fun x member =>
    apart _ (List.mem_map_of_mem member) _ List.mem_cons_self
  have inBack : ∀ x ∈ after, x.handle ≠ e.handle := fun x member same =>
    (List.nodup_cons.mp behind).1 (same ▸ List.mem_map_of_mem member)
  rw [HandleList.remove, here, List.filter_append, List.filter_cons]
  simp only [ne_eq, not_true_eq_false, decide_false, Bool.false_eq_true, if_false]
  rw [List.filter_eq_self.mpr (by simpa using inFront),
    List.filter_eq_self.mpr (by simpa using inBack)]

end Fresh

end HandleList
