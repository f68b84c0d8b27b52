import CambiumDB.Lib.SortedList

/-!
# Routing by separators

A node with a first child and a list of separators, each with the child to its right. A
key goes to the child right of the last separator that is not greater. Splitting a child
at a separator moves exactly the keys from that separator on to the new child.
-/

namespace Router

variable {K C : Type} [LinearOrder K]

def route (key : K) (first : C) : List (K × C) → C
  | [] => first
  | (sep, child) :: rest => if key < sep then first else route key child rest

def children (first : C) (rest : List (K × C)) : List C := first :: rest.map Prod.snd

theorem route_mem (key : K) (first : C) (rest : List (K × C)) :
    route key first rest ∈ children first rest := by
  induction rest generalizing first with
  | nil => simp [route, children]
  | cons entry rest ih =>
    obtain ⟨sep, child⟩ := entry
    by_cases below : key < sep
    · simp [route, below, children]
    · have later := ih child
      rw [route, if_neg below, children, List.map_cons]
      exact List.mem_cons_of_mem _ later

omit [LinearOrder K] in
theorem children_perm (sep : K) (new first : C) (before after : List (K × C)) :
    (children first (before ++ (sep, new) :: after)).Perm
      (new :: children first (before ++ after)) := by
  rw [children, children, List.map_append, List.map_append, List.map_cons]
  refine (List.Perm.cons first List.perm_middle).trans ?_
  exact List.Perm.swap new first _

/-- A key at or above every separator goes to the last child. -/
theorem route_append {key : K} {first : C} {before after : List (K × C)}
    (below : ∀ entry ∈ before, entry.1 ≤ key) :
    route key first (before ++ after) = route key (route key first before) after := by
  induction before generalizing first with
  | nil => rfl
  | cons entry before ih =>
    obtain ⟨sep, child⟩ := entry
    have passed : ¬ key < sep := not_lt.mpr (below (sep, child) (by simp))
    rw [List.cons_append, route, if_neg passed, route, if_neg passed]
    exact ih fun e he => below e (by simp [he])

/-- A key below the first separator goes to the first child. -/
theorem route_below {key : K} {first : C} {rest : List (K × C)}
    (above : ∀ entry ∈ rest, key < entry.1) : route key first rest = first := by
  cases rest with
  | nil => rfl
  | cons entry rest => rw [route, if_pos (above entry (by simp))]

/-- Separators above the key at the end of the list do not matter. -/
theorem route_append_above {key : K} {first : C} {before after : List (K × C)}
    (above : ∀ entry ∈ after, key < entry.1) :
    route key first (before ++ after) = route key first before := by
  induction before generalizing first with
  | nil => exact route_below above
  | cons entry before ih =>
    obtain ⟨sep, child⟩ := entry
    rw [List.cons_append, route, route, ih]

/-- Keys that no separator divides are routed alike. -/
theorem route_congr {key key' : K} {first : C} {rest : List (K × C)}
    (same : ∀ entry ∈ rest, key < entry.1 ↔ key' < entry.1) :
    route key first rest = route key' first rest := by
  induction rest generalizing first with
  | nil => rfl
  | cons entry rest ih =>
    obtain ⟨sep, child⟩ := entry
    have here : key < sep ↔ key' < sep := same (sep, child) List.mem_cons_self
    rw [route, route, ih fun e member => same e (List.mem_cons_of_mem _ member)]
    simp only [here]

/-- A separator that is put in takes over the keys up to the next one. -/
theorem route_insert {sep key : K} {new first : C} {before after : List (K × C)}
    (sorted : (after.map Prod.fst).Pairwise (· < ·)) (below : ∀ entry ∈ before, entry.1 < sep)
    (above : ∀ entry ∈ after, sep < entry.1) [Decidable (∀ entry ∈ after, key < entry.1)] :
    route key first (before ++ (sep, new) :: after) =
      if sep ≤ key ∧ ∀ entry ∈ after, key < entry.1 then new
      else route key first (before ++ after) := by
  by_cases reached : sep ≤ key
  · have passed : ∀ entry ∈ before, entry.1 ≤ key := fun e member =>
      (below e member).le.trans reached
    rw [route_append passed, route_append passed, route, if_neg (not_lt.2 reached)]
    split
    next taken => exact route_below taken.2
    next kept =>
      -- the key has passed the next separator, which leads on as before
      cases after with
      | nil => exact absurd ⟨reached, by simp⟩ kept
      | cons entry after =>
        obtain ⟨next, child⟩ := entry
        rw [List.map_cons, List.pairwise_cons] at sorted
        have further : ¬ key < next := by
          intro less
          refine kept ⟨reached, fun e member => ?_⟩
          rcases List.mem_cons.1 member with rfl | later
          · exact less
          · exact less.trans (sorted.1 e.1 (List.mem_map_of_mem later))
        rw [route, route, if_neg further, if_neg further]
  · have less := not_le.1 reached
    rw [if_neg fun taken => reached taken.1, route_append_above, route_append_above]
    · exact fun e member => less.trans (above e member)
    · intro e member
      rcases List.mem_cons.1 member with rfl | later
      · exact less
      · exact less.trans (above e later)

/-- A separator in the middle sends the keys below it to the part before it. -/
theorem route_middle {key sep : K} {first child : C} {before after : List (K × C)}
    (sorted : ((before ++ (sep, child) :: after).map Prod.fst).Pairwise (· < ·)) :
    route key first (before ++ (sep, child) :: after) =
      if key < sep then route key first before else route key child after := by
  rw [List.pairwise_map, List.pairwise_append, List.pairwise_cons] at sorted
  obtain ⟨_, ⟨above, _⟩, across⟩ := sorted
  split
  next less =>
    apply route_append_above
    intro e member
    rcases List.mem_cons.1 member with rfl | later
    · exact less
    · exact less.trans (above e later)
  next reached =>
    have passed : ∀ entry ∈ before, entry.1 ≤ key := fun e member =>
      (across e member (sep, child) List.mem_cons_self).le.trans (not_lt.1 reached)
    rw [route_append passed, route, if_neg reached]

/-- A separator that is added lies right of the child it is routed to. -/
theorem children_cut {sep : K} (first : C) {before after : List (K × C)}
    (below : ∀ entry ∈ before, entry.1 ≤ sep) (above : ∀ entry ∈ after, sep < entry.1) :
    ∃ front, ∀ added, children first (before ++ added) =
      front ++ route sep first (before ++ after) :: added.map Prod.snd := by
  rw [route_append below, route_below above]
  induction before generalizing first with
  | nil => exact ⟨[], fun added => rfl⟩
  | cons entry before ih =>
    obtain ⟨left, child⟩ := entry
    obtain ⟨front, cut⟩ := ih child fun e member => below e (List.mem_cons_of_mem _ member)
    have passed : ¬ sep < left := not_lt.mpr (below (left, child) List.mem_cons_self)
    refine ⟨first :: front, fun added => ?_⟩
    rw [route, if_neg passed, List.cons_append, List.cons_append, ← cut added]
    rfl

/-- Children are routed to in the order of the keys. -/
theorem route_lt (first : C) (rest : List (K × C)) (nodup : (children first rest).Nodup) :
    (children first rest).Pairwise fun a b =>
      ∀ k k', route k first rest = a → route k' first rest = b → k < k' := by
  induction rest generalizing first with
  | nil => exact List.pairwise_singleton _ _
  | cons entry rest ih =>
    obtain ⟨sep, child⟩ := entry
    obtain ⟨outside, nodup'⟩ := List.nodup_cons.mp nodup
    -- a key is routed past the first child exactly when it passes the first separator
    have passes {k : K} {c : C} (member : c ∈ children child rest)
        (routed : route k first ((sep, child) :: rest) = c) :
        ¬ k < sep ∧ route k child rest = c := by
      by_cases less : k < sep
      · rw [route, if_pos less] at routed
        exact absurd (routed ▸ member) outside
      · rw [route, if_neg less] at routed
        exact ⟨less, routed⟩
    refine List.pairwise_cons.mpr ⟨?_, ?_⟩
    · intro b member k k' here there
      have less : k < sep := by
        by_contra above
        rw [route, if_neg above] at here
        exact outside (here ▸ route_mem k child rest)
      exact lt_of_lt_of_le less (not_lt.mp (passes member there).1)
    · refine (ih child nodup').imp_of_mem ?_
      intro a b memberA memberB less k k' here there
      exact less k k' (passes memberA here).2 (passes memberB there).2

/-- Separators that a key has passed, and those still above it. -/
theorem exists_cut_at (key : K) {rest : List (K × C)}
    (sorted : (rest.map Prod.fst).Pairwise (· < ·)) :
    ∃ before after, rest = before ++ after ∧ (∀ entry ∈ before, entry.1 ≤ key) ∧
      ∀ entry ∈ after, key < entry.1 := by
  induction rest with
  | nil => exact ⟨[], [], rfl, by simp, by simp⟩
  | cons entry rest ih =>
    rw [List.map_cons, List.pairwise_cons] at sorted
    by_cases above : key < entry.1
    · refine ⟨[], entry :: rest, rfl, by simp, ?_⟩
      intro e he
      rcases List.mem_cons.mp he with rfl | later
      · exact above
      · exact above.trans (sorted.1 e.1 (List.mem_map_of_mem later))
    · obtain ⟨before, after, rfl, below, above'⟩ := ih sorted.2
      refine ⟨entry :: before, after, rfl, ?_, above'⟩
      intro e he
      rcases List.mem_cons.mp he with rfl | later
      · exact not_lt.mp above
      · exact below e later

/-- A separator divides the keys below it from itself. -/
theorem route_ne_of_lt_separator {key sep : K} {first : C} {rest : List (K × C)}
    (sorted : (rest.map Prod.fst).Pairwise (· < ·)) (nodup : (children first rest).Nodup)
    (member : sep ∈ rest.map Prod.fst) (less : key < sep) :
    route key first rest ≠ route sep first rest := by
  induction rest generalizing first with
  | nil => cases member
  | cons entry rest ih =>
    obtain ⟨s, child⟩ := entry
    rw [List.map_cons, List.pairwise_cons] at sorted
    rw [children, List.map_cons, List.nodup_cons] at nodup
    -- `sep` itself is never routed to the first child
    have passed : ¬ sep < s := by
      rcases List.mem_cons.mp member with rfl | later
      · exact lt_irrefl _
      · exact not_lt.mpr (le_of_lt (sorted.1 sep later))
    rw [route, route, if_neg passed]
    by_cases low : key < s
    · rw [if_pos low]
      intro same
      exact nodup.1 (same ▸ route_mem sep child rest)
    · rw [if_neg low]
      rcases List.mem_cons.mp member with rfl | later
      · exact absurd less low
      · exact ih sorted.2 nodup.2 later

/-- Splitting the child that `sep` is routed to. -/
theorem route_split [DecidableEq C] {sep : K} {new first : C} {before after : List (K × C)}
    (sorted : ((before ++ after).map Prod.fst).Pairwise (· < ·))
    (nodup : (children first (before ++ after)).Nodup)
    (below : ∀ entry ∈ before, entry.1 < sep) (above : ∀ entry ∈ after, sep < entry.1) (key : K) :
    route key first (before ++ (sep, new) :: after) =
      if route key first (before ++ after) = route sep first (before ++ after) ∧ sep ≤ key then new
      else route key first (before ++ after) := by
  induction before generalizing first with
  | nil =>
    rw [List.nil_append, List.nil_append, route_below above, route]
    by_cases less : key < sep
    · simp [less, route_below fun e he => less.trans (above e he), not_le.mpr less]
    · rw [if_neg less]
      cases after with
      | nil => simp [route, not_lt.mp less]
      | cons entry after =>
        obtain ⟨next, child⟩ := entry
        by_cases within : key < next
        · simp [route, within, not_lt.mp less]
        · -- a key past the next separator never returns to the first child
          have other : route key child after ≠ first := by
            intro same
            have member := route_mem key child after
            rw [same] at member
            rw [List.nil_append, children, List.map_cons, List.nodup_cons] at nodup
            exact nodup.1 member
          simp [route, within, other]
  | cons entry before ih =>
    obtain ⟨low, child⟩ := entry
    rw [List.cons_append, List.map_cons, List.pairwise_cons] at sorted
    have distinct := nodup
    rw [List.cons_append, children, List.map_cons, List.nodup_cons] at distinct
    have passed : ¬ sep < low := not_lt.mpr (le_of_lt (below (low, child) (by simp)))
    rw [List.cons_append, List.cons_append, route, route, route, if_neg passed]
    by_cases less : key < low
    · -- the key stays left of the separator just passed
      have other : first ≠ route sep child (before ++ after) := by
        intro same
        have member := route_mem sep child (before ++ after)
        rw [← same] at member
        exact distinct.1 member
      simp [less, other]
    · rw [if_neg less, if_neg less]
      exact ih sorted.2 distinct.2 fun e he => below e (by simp [he])

/-! ### The range of each child -/

/-- A key at or above the lower bound and below the upper one. -/
def Within (lower upper : Option K) (key : K) : Prop :=
  (∀ bound ∈ lower, bound ≤ key) ∧ ∀ bound ∈ upper, key < bound

/-- Every child with the separators around it. -/
def ranges (lower upper : Option K) (first : C) : List (K × C) → List (C × Option K × Option K)
  | [] => [(first, lower, upper)]
  | (sep, child) :: rest => (first, lower, some sep) :: ranges (some sep) upper child rest

omit [LinearOrder K] in
theorem ranges_children (lower upper : Option K) (first : C) (rest : List (K × C)) :
    (ranges lower upper first rest).map Prod.fst = children first rest := by
  induction rest generalizing lower first with
  | nil => rfl
  | cons entry rest ih => rw [ranges, List.map_cons, ih, children, children, List.map_cons]

/-- A key lies in the range of the child it is routed to. -/
theorem route_within {lower upper : Option K} {first child : C} {rest : List (K × C)}
    (nodup : (children first rest).Nodup) {low high : Option K}
    (range : (child, low, high) ∈ ranges lower upper first rest) {key : K}
    (within : Within lower upper key) (routed : route key first rest = child) :
    Within low high key := by
  induction rest generalizing lower first with
  | nil =>
    obtain ⟨_, rfl, rfl⟩ : child = first ∧ low = lower ∧ high = upper := by
      simpa [ranges] using range
    exact within
  | cons entry rest ih =>
    obtain ⟨sep, next⟩ := entry
    have distinct := nodup
    rw [children, List.map_cons, List.nodup_cons] at distinct
    rw [route] at routed
    rcases List.mem_cons.mp range with here | later
    · obtain ⟨rfl, rfl, rfl⟩ : child = first ∧ low = lower ∧ high = some sep := by
        simpa using here
      by_cases less : key < sep
      · exact ⟨within.1, by simpa using less⟩
      · rw [if_neg less] at routed
        exact absurd (routed ▸ route_mem key next rest) distinct.1
    · have member : child ∈ children next rest := by
        rw [← ranges_children (some sep) upper]
        exact List.mem_map_of_mem later
      have reached : ¬ key < sep := by
        intro less
        rw [if_pos less] at routed
        exact distinct.1 (routed ▸ member)
      rw [if_neg reached] at routed
      exact ih distinct.2 later ⟨by simpa using reached, within.2⟩ routed

end Router
