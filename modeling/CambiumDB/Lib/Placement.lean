import CambiumDB.Lib.Router

/-!
# Entries placed by their keys

The children of a router hold lists of entries, and every entry lies in the child that its
key is routed to. The entries are then sorted across the children whenever each child's
list is, and a child can be split at the key of one of its entries.
-/

namespace Router

variable {K C E : Type} [LinearOrder K] {key : E → K} {first : C} {rest : List (K × C)}
  {entries : C → List E}

structure Placed (key : E → K) (first : C) (rest : List (K × C)) (entries : C → List E) :
    Prop where
  sorted : (rest.map Prod.fst).Pairwise (· < ·)
  nodup : (children first rest).Nodup
  routed : ∀ c ∈ children first rest, ∀ e ∈ entries c, route (key e) first rest = c

namespace Placed

/-- Keys increase from child to child. -/
theorem sorted_entries (placed : Placed key first rest entries)
    (each : ∀ c ∈ children first rest, SortedList.Sorted key (entries c)) :
    SortedList.Sorted key ((children first rest).flatMap entries) := by
  rw [SortedList.Sorted, List.pairwise_flatMap]
  constructor
  · exact each
  · refine (route_lt first rest placed.nodup).imp_of_mem ?_
    intro c c' member member' less e held e' held'
    exact less (key e) (key e') (placed.routed c member e held) (placed.routed c' member' e' held')

/-- The key of an entry that is not the first of its child is no separator: the child holds
a smaller key. The separators therefore divide strictly around it. -/
theorem exists_cut (placed : Placed key first rest entries) {c : C} {i : Nat} {e : E}
    (child : c ∈ children first rest) (ordered : SortedList.Sorted key (entries c))
    (middle : (entries c)[i]? = some e) (positive : 0 < i) : ∃ before after,
      rest = before ++ after ∧ (∀ entry ∈ before, entry.1 < key e) ∧
      ∀ entry ∈ after, key e < entry.1 := by
  have held : e ∈ entries c := List.mem_of_getElem? middle
  obtain ⟨smaller, front⟩ : ∃ smaller, smaller ∈ (entries c).take i := by
    have bound := (List.getElem?_eq_some_iff.mp middle).1
    exact List.exists_mem_of_length_pos (by rw [List.length_take]; omega)
  have less := (SortedList.Sorted.cut key ordered middle).1 smaller front
  have fresh : key e ∉ rest.map Prod.fst := by
    intro member
    refine route_ne_of_lt_separator placed.sorted placed.nodup member less ?_
    rw [placed.routed c child e held, placed.routed c child smaller (List.mem_of_mem_take front)]
  obtain ⟨before, after, rfl, below, above⟩ := exists_cut_at (key e) placed.sorted
  refine ⟨before, after, rfl, fun entry member => ?_, above⟩
  refine lt_of_le_of_ne (below entry member) fun same => fresh ?_
  rw [← same]
  exact List.mem_map_of_mem (List.mem_append_left _ member)

variable [DecidableEq C]

theorem rewritten (placed : Placed key first rest entries) {c : C} {new : List E}
    (routed : ∀ e ∈ new, route (key e) first rest = c) :
    Placed key first rest (Function.update entries c new) := by
  refine ⟨placed.sorted, placed.nodup, fun p member e held => ?_⟩
  by_cases same : p = c
  · subst same
    rw [Function.update_self] at held
    exact routed e held
  · rw [Function.update_of_ne same] at held
    exact placed.routed p member e held

variable {before after : List (K × C)} {sep : K} {c new : C} {left right : List E}

/-- The child that the separator is routed to keeps the entries below it and a new child
gets the others. -/
theorem split (placed : Placed key first (before ++ after) entries)
    (cut : route sep first (before ++ after) = c)
    (below : ∀ entry ∈ before, entry.1 < sep) (above : ∀ entry ∈ after, sep < entry.1)
    (fresh : new ∉ children first (before ++ after))
    (leftKeys : ∀ e ∈ left, key e < sep ∧ route (key e) first (before ++ after) = c)
    (rightKeys : ∀ e ∈ right, sep ≤ key e ∧ route (key e) first (before ++ after) = c) :
    Placed key first (before ++ (sep, new) :: after)
      (Function.update (Function.update entries c left) new right) := by
  have perm := children_perm sep new first before after
  constructor
  · have sorted := placed.sorted
    rw [List.map_append, List.pairwise_append] at sorted ⊢
    rw [List.map_cons, List.pairwise_cons]
    obtain ⟨front, back, across⟩ := sorted
    refine ⟨front, ⟨?_, back⟩, ?_⟩
    · intro k member
      obtain ⟨entry, here, rfl⟩ := List.mem_map.mp member
      exact above entry here
    · intro k member other position
      rcases List.mem_cons.mp position with rfl | later
      · obtain ⟨entry, here, rfl⟩ := List.mem_map.mp member
        exact below entry here
      · exact across k member other later
  · rw [perm.nodup_iff, List.nodup_cons]
    exact ⟨fresh, placed.nodup⟩
  · intro p member e held
    rw [route_split placed.sorted placed.nodup below above, cut]
    rcases List.mem_cons.mp (perm.mem_iff.mp member) with rfl | old
    · rw [Function.update_self] at held
      obtain ⟨reached, here⟩ := rightKeys e held
      rw [if_pos ⟨here, reached⟩]
    · have other : p ≠ new := fun same => fresh (same ▸ old)
      rw [Function.update_of_ne other] at held
      by_cases same : p = c
      · subst same
        rw [Function.update_self] at held
        obtain ⟨less, here⟩ := leftKeys e held
        rw [if_neg fun both => not_lt.mpr both.2 less, here]
      · rw [Function.update_of_ne same] at held
        have here := placed.routed p old e held
        rw [if_neg fun both => same (here ▸ both.1), here]

end Placed

/-- A list that is divided over two neighbouring children stays the same list. -/
theorem flatMap_split [DecidableEq C] {front back : List C} {c new : C}
    (nodup : (front ++ c :: back).Nodup) (fresh : new ∉ front ++ c :: back) (entries : C → List E)
    (i : Nat) : (front ++ c :: new :: back).flatMap
      (Function.update (Function.update entries c ((entries c).take i)) new ((entries c).drop i)) =
      (front ++ c :: back).flatMap entries := by
  have apart : c ≠ new := fun same => fresh (by simp [same])
  have elsewhere {x : C} (member : x ∈ front ++ c :: back) (other : x ≠ c) :
      Function.update (Function.update entries c ((entries c).take i)) new ((entries c).drop i) x =
        entries x := by
    have old : x ≠ new := fun same => fresh (same ▸ member)
    rw [Function.update_of_ne old, Function.update_of_ne other]
  obtain ⟨_, behind, across⟩ := List.nodup_append.mp nodup
  have frontSame := List.flatMap_congr fun x (member : x ∈ front) =>
    elsewhere (List.mem_append_left _ member) (across x member c List.mem_cons_self)
  have backSame := List.flatMap_congr fun x (member : x ∈ back) =>
    elsewhere (List.mem_append_right _ (List.mem_cons_of_mem _ member))
      (fun same => (List.nodup_cons.mp behind).1 (same ▸ member))
  rw [List.flatMap_append, List.flatMap_append, List.flatMap_cons, List.flatMap_cons,
    List.flatMap_cons, frontSame, backSame, Function.update_of_ne apart, Function.update_self,
    Function.update_self, ← List.append_assoc ((entries c).take i), List.take_append_drop]

end Router
