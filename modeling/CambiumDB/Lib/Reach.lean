import Mathlib.Logic.Basic

/-!
# Runs of a labelled transition system

`Reach step allowed init s`: the state `s` is the end of a run that starts in an initial
state and whose every step has an allowed label. Restricting the labels state by state is
how a condition on the steps of a run is written.
-/

namespace TransitionSystem

variable {S L : Type}

inductive Reach (step : S → L → S → Prop) (allowed : S → L → Prop) (init : S → Prop) : S → Prop
  | start {s : S} : init s → Reach step allowed init s
  | next {s s' : S} {l : L} :
      Reach step allowed init s → allowed s l → step s l s' → Reach step allowed init s'

variable {step : S → L → S → Prop} {allowed : S → L → Prop} {init : S → Prop}

/-- What holds initially and is kept by every allowed step holds in every reached state. -/
theorem Reach.invariant (Inv : S → Prop) (base : ∀ s, init s → Inv s)
    (keep : ∀ s l s', Inv s → allowed s l → step s l s' → Inv s') {s : S}
    (reached : Reach step allowed init s) : Inv s := by
  induction reached with
  | start initial => exact base _ initial
  | next _ permitted taken ih => exact keep _ _ _ ih permitted taken

/-- A run is also a run of a system that takes more steps. -/
theorem Reach.mono {step' : S → L → S → Prop} {allowed' : S → L → Prop} {init' : S → Prop}
    (steps : ∀ s l s', step s l s' → step' s l s') (labels : ∀ s l, allowed s l → allowed' s l)
    (starts : ∀ s, init s → init' s) {s : S} (reached : Reach step allowed init s) :
    Reach step' allowed' init' s := by
  induction reached with
  | start initial => exact .start (starts _ initial)
  | next _ permitted taken ih => exact .next ih (labels _ _ permitted) (steps _ _ _ taken)

/-! ### Histories -/

variable {E : Type}

/-- `P earlier e` holds for every event `e` of the history, with the events before it. -/
def Always (P : List E → E → Prop) (events : List E) : Prop :=
  ∀ earlier e later, events = earlier ++ e :: later → P earlier e

variable {P Q : List E → E → Prop} {events : List E}

theorem always_nil : Always P [] := by
  intro earlier e later split
  simp at split

theorem always_concat {e : E} : Always P (events ++ [e]) ↔ Always P events ∧ P events e := by
  constructor
  · intro always
    constructor
    · rintro earlier e' later rfl
      exact always earlier e' (later ++ [e]) (by simp)
    · exact always events e [] rfl
  · rintro ⟨before, last⟩ earlier e' later split
    rcases List.eq_nil_or_concat later with rfl | ⟨later, e'', rfl⟩
    · obtain ⟨rfl, same⟩ := List.append_inj' split rfl
      obtain rfl := List.singleton_inj.1 same
      exact last
    · rw [List.concat_eq_append, ← List.cons_append, ← List.append_assoc] at split
      exact before earlier e' later (List.append_inj' split rfl).1

theorem always_cons {e : E} :
    Always P (e :: events) ↔ P [] e ∧ Always (fun earlier => P (e :: earlier)) events := by
  constructor
  · intro always
    constructor
    · exact always [] e events rfl
    · rintro earlier e' later rfl
      exact always (e :: earlier) e' later rfl
  · rintro ⟨first, rest⟩ earlier e' later split
    cases earlier with
    | nil =>
      obtain ⟨rfl, _⟩ := List.cons.inj split
      exact first
    | cons first' earlier =>
      rw [List.cons_append] at split
      obtain ⟨rfl, tail⟩ := List.cons.inj split
      exact rest earlier e' later tail

/-- Two properties that agree so far and agree on the new event. -/
theorem always_iff_concat {e : E} (agree : Always P events ↔ Always Q events)
    (last : P events e ↔ Q events e) :
    Always P (events ++ [e]) ↔ Always Q (events ++ [e]) := by
  rw [always_concat, always_concat, agree, last]

end TransitionSystem
