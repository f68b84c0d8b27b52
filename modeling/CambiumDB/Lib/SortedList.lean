import Mathlib.Order.Basic
import Mathlib.Data.List.Pairwise
import Mathlib.Data.Finset.Card
import Mathlib.Order.Interval.Finset.Nat
import Mathlib.Algebra.Ring.Nat

/-!
# Sorted lists as finite maps

A list of elements whose keys are strictly increasing is a finite map from keys to
elements. `lookup` reads it, `insert`, `erase` and `modify` update it, and cutting the
list at one of its elements cuts the key space at that element's key.
-/

namespace SortedList

variable {E K : Type} [LinearOrder K] (key : E → K)

def Sorted (l : List E) : Prop := l.Pairwise fun a b => key a < key b

/-- Puts `e` behind every leading element whose key is not greater. -/
def insert (e : E) : List E → List E
  | [] => [e]
  | x :: xs => if key e < key x then e :: x :: xs else x :: insert e xs

def lookup (k : K) (l : List E) : Option E := l.find? fun e => decide (key e = k)

def erase (k : K) (l : List E) : List E := l.filter fun e => decide (key e ≠ k)

def modify (k : K) (f : E → E) (l : List E) : List E :=
  l.map fun e => if key e = k then f e else e

/-! ### Lookup -/

theorem lookup_eq_none_iff (k : K) (l : List E) : lookup key k l = none ↔ ∀ e ∈ l, key e ≠ k := by
  simp [lookup, List.find?_eq_none]

theorem key_of_lookup {k : K} {l : List E} {e : E} (found : lookup key k l = some e) :
    key e = k := by
  have := List.find?_some found
  simpa using this

theorem mem_of_lookup {k : K} {l : List E} {e : E} (found : lookup key k l = some e) : e ∈ l :=
  List.mem_of_find?_eq_some found

theorem lookup_append (k : K) (as bs : List E) :
    lookup key k (as ++ bs) = (lookup key k as).or (lookup key k bs) := by
  simp [lookup, List.find?_append]

theorem lookup_append_of_left {k : K} {as bs : List E} (absent : ∀ e ∈ bs, key e ≠ k) :
    lookup key k (as ++ bs) = lookup key k as := by
  rw [lookup_append, (lookup_eq_none_iff key k bs).mpr absent, Option.or_none]

theorem lookup_append_of_right {k : K} {as bs : List E} (absent : ∀ e ∈ as, key e ≠ k) :
    lookup key k (as ++ bs) = lookup key k bs := by
  rw [lookup_append, (lookup_eq_none_iff key k as).mpr absent, Option.none_or]

theorem lookup_cons (k : K) (e : E) (l : List E) :
    lookup key k (e :: l) = if key e = k then some e else lookup key k l := by
  by_cases same : key e = k <;> simp [lookup, same]

theorem Sorted.nodup_keys {l : List E} (sorted : Sorted key l) : (l.map key).Nodup := by
  rw [List.nodup_iff_pairwise_ne, List.pairwise_map]
  exact sorted.imp fun less => ne_of_lt less

/-! ### Insertion -/

theorem mem_insert (e x : E) (l : List E) : x ∈ insert key e l ↔ x = e ∨ x ∈ l := by
  induction l with
  | nil => simp [insert]
  | cons y ys ih =>
    simp only [insert]
    split
    · simp
    · simp only [List.mem_cons, ih]
      exact ⟨fun h => by tauto, fun h => by tauto⟩

/-- `insert` lands between the keys that are not greater and those that are. -/
theorem insert_append (e : E) (as bs : List E) (below : ∀ a ∈ as, key a ≤ key e)
    (above : ∀ b ∈ bs, key e < key b) : insert key e (as ++ bs) = as ++ e :: bs := by
  induction as with
  | nil =>
    cases bs with
    | nil => rfl
    | cons b bs => simp [insert, above b (by simp)]
  | cons a as ih =>
    have first : ¬ key e < key a := not_lt.mpr (below a (by simp))
    rw [List.cons_append, insert, if_neg first, ih fun x hx => below x (by simp [hx])]
    rfl

theorem Sorted.insert {e : E} {l : List E} (sorted : Sorted key l)
    (absent : ∀ x ∈ l, key x ≠ key e) : Sorted key (insert key e l) := by
  induction l with
  | nil => simp [SortedList.insert, Sorted]
  | cons x xs ih =>
    have sorted' := sorted
    rw [Sorted, List.pairwise_cons] at sorted'
    simp only [SortedList.insert]
    split
    next less =>
      rw [Sorted, List.pairwise_cons]
      refine ⟨fun y hy => ?_, sorted⟩
      rcases List.mem_cons.mp hy with rfl | tail
      · exact less
      · exact less.trans (sorted'.1 y tail)
    next notLess =>
      rw [Sorted, List.pairwise_cons]
      refine ⟨fun y hy => ?_, ih sorted'.2 fun z hz => absent z (by simp [hz])⟩
      rcases (mem_insert key e y xs).mp hy with rfl | tail
      · exact lt_of_le_of_ne (not_lt.mp notLess) (absent x (by simp))
      · exact sorted'.1 y tail

theorem lookup_insert {e : E} {l : List E} (absent : ∀ x ∈ l, key x ≠ key e) (k : K) :
    lookup key k (insert key e l) = if key e = k then some e else lookup key k l := by
  induction l with
  | nil => simp [insert, lookup_cons]
  | cons x xs ih =>
    have other : key x ≠ key e := absent x (by simp)
    simp only [insert]
    split
    · rw [lookup_cons]
    · rw [lookup_cons, lookup_cons, ih fun y hy => absent y (by simp [hy])]
      by_cases same : key e = k
      · rw [if_neg (same ▸ other), if_pos same, if_pos same]
      · simp only [same, if_false]

/-! ### Removal and replacement -/

theorem Sorted.erase {l : List E} (sorted : Sorted key l) (k : K) : Sorted key (erase key k l) :=
  sorted.sublist List.filter_sublist

theorem mem_erase (k : K) (x : E) (l : List E) : x ∈ erase key k l ↔ x ∈ l ∧ key x ≠ k := by
  simp [erase]

theorem erase_absent {k : K} {l : List E} (absent : lookup key k l = none) : erase key k l = l :=
  List.filter_eq_self.mpr fun x member => by
    simpa using (lookup_eq_none_iff key k l).mp absent x member

theorem lookup_erase (k k' : K) (l : List E) :
    lookup key k (erase key k' l) = if k = k' then none else lookup key k l := by
  induction l with
  | nil => simp [erase, lookup]
  | cons x xs ih =>
    have ih' : lookup key k (xs.filter fun e => decide (key e ≠ k')) =
        if k = k' then none else lookup key k xs := ih
    by_cases removed : key x = k'
    · rw [SortedList.erase, List.filter_cons_of_neg (by simpa using removed), ih', lookup_cons]
      by_cases same : k = k'
      · simp [same]
      · rw [if_neg same, if_neg same, if_neg fun h => same (h.symm.trans removed)]
    · rw [SortedList.erase, List.filter_cons_of_pos (by simpa using removed), lookup_cons, ih',
        lookup_cons]
      by_cases hit : key x = k
      · rw [if_pos hit, if_neg (hit ▸ removed), if_pos hit]
      · simp only [hit, if_false]

theorem erase_append_cons {k : K} {as bs : List E} {e : E} (at_ : key e = k)
    (left : ∀ a ∈ as, key a ≠ k) (right : ∀ b ∈ bs, key b ≠ k) :
    erase key k (as ++ e :: bs) = as ++ bs := by
  have keepLeft : as.filter (fun x => decide (key x ≠ k)) = as :=
    List.filter_eq_self.mpr fun a ha => by simpa using left a ha
  have keepRight : bs.filter (fun x => decide (key x ≠ k)) = bs :=
    List.filter_eq_self.mpr fun b hb => by simpa using right b hb
  rw [SortedList.erase, List.filter_append, List.filter_cons_of_neg (by simpa using at_), keepLeft,
    keepRight]

theorem modify_append_cons {k : K} {f : E → E} {as bs : List E} {e : E} (at_ : key e = k)
    (left : ∀ a ∈ as, key a ≠ k) (right : ∀ b ∈ bs, key b ≠ k) :
    modify key k f (as ++ e :: bs) = as ++ f e :: bs := by
  have keepLeft : as.map (fun x => if key x = k then f x else x) = as := by
    conv_rhs => rw [← List.map_id as]
    exact List.map_congr_left fun a ha => by simp [left a ha]
  have keepRight : bs.map (fun x => if key x = k then f x else x) = bs := by
    conv_rhs => rw [← List.map_id bs]
    exact List.map_congr_left fun b hb => by simp [right b hb]
  rw [modify, List.map_append, List.map_cons, keepLeft, keepRight, if_pos at_]

theorem Sorted.modify {l : List E} (sorted : Sorted key l) (k : K) {f : E → E}
    (keeps : ∀ e, key (f e) = key e) : Sorted key (modify key k f l) := by
  rw [Sorted, SortedList.modify, List.pairwise_map]
  refine sorted.imp fun {a b} less => ?_
  split <;> split <;> simpa only [keeps] using less

theorem lookup_modify {f : E → E} (keeps : ∀ e, key (f e) = key e) (k k' : K) (l : List E) :
    lookup key k (modify key k' f l) =
      if k = k' then (lookup key k l).map f else lookup key k l := by
  induction l with
  | nil => simp [modify, lookup]
  | cons x xs ih =>
    have ih' : lookup key k (xs.map fun e => if key e = k' then f e else e) =
        if k = k' then (lookup key k xs).map f else lookup key k xs := ih
    rw [modify, List.map_cons, lookup_cons, ih', lookup_cons]
    by_cases hit : key x = k
    · by_cases same : k = k'
      · simp [hit, same, keeps]
      · simp [hit, same]
    · by_cases changed : key x = k'
      · have other : ¬ k' = k := changed ▸ hit
        simp only [changed, if_true, keeps, other, if_false]
      · simp only [changed, if_false, hit]

/-! ### Cutting a sorted list -/

theorem Sorted.cut {l : List E} (sorted : Sorted key l) {i : Nat} {m : E} (at_ : l[i]? = some m) :
    (∀ e ∈ l.take i, key e < key m) ∧ (∀ e ∈ l.drop i, key m ≤ key e) := by
  obtain ⟨h, rfl⟩ := List.getElem?_eq_some_iff.mp at_
  have whole : l.take i ++ l[i] :: l.drop (i + 1) = l := by
    rw [← List.drop_eq_getElem_cons h, List.take_append_drop]
  rw [Sorted, ← whole, List.pairwise_append, List.pairwise_cons] at sorted
  refine ⟨fun e he => sorted.2.2 e he _ List.mem_cons_self, fun e he => ?_⟩
  rw [List.drop_eq_getElem_cons h] at he
  rcases List.mem_cons.mp he with rfl | tail
  · exact le_refl _
  · exact le_of_lt (sorted.2.1.1 e tail)

/-- Below the cut key a lookup only needs the front, from the cut key on only the back. -/
theorem Sorted.lookup_cut {l : List E} (sorted : Sorted key l) {i : Nat} {m : E}
    (at_ : l[i]? = some m) (k : K) :
    lookup key k l = if k < key m then lookup key k (l.take i) else lookup key k (l.drop i) := by
  obtain ⟨front, back⟩ := sorted.cut key at_
  conv_lhs => rw [← List.take_append_drop i l]
  split
  next less =>
    exact lookup_append_of_left key fun e he => ne_of_gt (less.trans_le (back e he))
  next notLess =>
    exact lookup_append_of_right key fun e he => ne_of_lt ((front e he).trans_le (not_lt.mp notLess))

theorem Sorted.take {l : List E} (sorted : Sorted key l) (i : Nat) : Sorted key (l.take i) :=
  sorted.sublist (List.take_sublist i l)

theorem Sorted.drop {l : List E} (sorted : Sorted key l) (i : Nat) : Sorted key (l.drop i) :=
  sorted.sublist (List.drop_sublist i l)

end SortedList

/-! # Disjoint regions -/

namespace Region

/-- Pairwise disjoint regions inside `[lo, hi)` have total width at most `hi - lo`. -/
theorem sum_width_le {α : Type} (start width : α → Nat) (lo hi : Nat) (l : List α)
    (inside : ∀ a ∈ l, lo ≤ start a ∧ start a + width a ≤ hi)
    (apart : l.Pairwise fun a b => start a + width a ≤ start b ∨ start b + width b ≤ start a) :
    (l.map width).sum ≤ hi - lo := by
  -- the covered offsets form a set of exactly that size
  have covered : ∃ s : Finset Nat, s.card = (l.map width).sum ∧ s ⊆ Finset.Ico lo hi ∧
      ∀ x ∈ s, ∃ a ∈ l, start a ≤ x ∧ x < start a + width a := by
    induction l with
    | nil => exact ⟨∅, by simp⟩
    | cons a l ih =>
      rw [List.pairwise_cons] at apart
      obtain ⟨s, size, inner, cover⟩ := ih (fun b hb => inside b (by simp [hb])) apart.2
      have here := inside a (by simp)
      have disjoint : Disjoint (Finset.Ico (start a) (start a + width a)) s := by
        rw [Finset.disjoint_left]
        intro x hx hs
        obtain ⟨b, hb, lower, upper⟩ := cover x hs
        rw [Finset.mem_Ico] at hx
        have := apart.1 b hb
        omega
      refine ⟨Finset.Ico (start a) (start a + width a) ∪ s, ?_, ?_, ?_⟩
      · rw [Finset.card_union_of_disjoint disjoint, Nat.card_Ico, size, List.map_cons,
          List.sum_cons]
        omega
      · apply Finset.union_subset _ inner
        intro x hx
        rw [Finset.mem_Ico] at hx ⊢
        omega
      · intro x hx
        rcases Finset.mem_union.mp hx with new | old
        · exact ⟨a, by simp, Finset.mem_Ico.mp new⟩
        · obtain ⟨b, hb, bounds⟩ := cover x old
          exact ⟨b, by simp [hb], bounds⟩
  obtain ⟨s, size, inner, -⟩ := covered
  have := Finset.card_le_card inner
  rw [Nat.card_Ico] at this
  omega

end Region
