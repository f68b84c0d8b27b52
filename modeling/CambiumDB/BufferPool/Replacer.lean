import Mathlib.Data.Finmap
import CambiumDB.BufferPool.Pool
import CambiumDB.Lib.HandleList

/-!
# The LRU replacer with its list and its map

`lru_replacer.go` keeps a linked list of the frames and a map from a frame to its list element.
They stay in step, so the replacer is the plain list of the pool's model, and the frame at the
back is the one whose latest insert is the oldest.
-/

namespace CambiumDB

open HandleList

namespace LRUReplacer

variable {F : Type} [DecidableEq F]

/-! ### The Go struct -/

/-- Each call holds the mutex from its first to its last line. -/
structure State (F : Type) where
  list : HandleList F
  frameMap : Finmap fun _ : F => Element F

namespace State

/-- `NewLRUReplacer`. -/
def new : State F := ⟨.empty, ∅⟩

/-- `none` is the panic of `list.Remove(nil)`. -/
def victim (r : State F) : Option (F × State F) :=
  match r.list.back with
  | none => none
  | some frameElement => some (frameElement.value,
      ⟨r.list.remove frameElement, r.frameMap.erase frameElement.value⟩)

def insert (r : State F) (frameId : F) : State F :=
  let (frameElement, list) := r.list.pushFront frameId
  ⟨list, r.frameMap.insert frameId frameElement⟩

/-- A frame that is not in the map reads as a nil element. -/
def remove (r : State F) (frameId : F) : Option (State F) :=
  match r.frameMap.lookup frameId with
  | none => none
  | some frameElement => some ⟨r.list.remove frameElement, r.frameMap.erase frameId⟩

def size (r : State F) : Nat := r.frameMap.keys.card

def frames (r : State F) : List F := r.list.values

/-! ### The list and the map -/

/-- The map holds, for each frame of the list, the handle of its element. -/
structure InStep (r : State F) : Prop where
  fresh : r.list.Fresh
  handles : ∀ frameId e, r.frameMap.lookup frameId = some e ↔
    e ∈ r.list.elements ∧ e.value = frameId

theorem inStep_new : InStep (new : State F) := by
  refine ⟨fresh_empty, fun frameId e => ?_⟩
  simp [new, HandleList.empty]

namespace InStep

variable {r : State F} (h : InStep r)
include h

theorem mem_frames {frameId : F} : frameId ∈ r.frames ↔ frameId ∈ r.frameMap := by
  rw [Finmap.mem_iff, frames, values, List.mem_map]
  simp only [h.handles]

theorem nodup : r.frames.Nodup := by
  refine List.Nodup.map_on ?_ (List.Nodup.of_map _ h.fresh.distinct)
  intro e left x right same
  -- both are the element that the map holds for the frame
  have first := (h.handles e.value e).mpr ⟨left, rfl⟩
  have second := (h.handles e.value x).mpr ⟨right, same.symm⟩
  exact Option.some.inj (first.symm.trans second)

theorem size_eq : r.size = r.frames.length := by
  have keys : r.frameMap.keys = r.frames.toFinset := by
    ext frameId
    rw [Finmap.mem_keys, List.mem_toFinset, h.mem_frames]
  rw [size, keys, List.toFinset_card_of_nodup h.nodup]

theorem insert {frameId : F} (absent : frameId ∉ r.frames) : InStep (r.insert frameId) := by
  refine ⟨h.fresh.pushFront frameId, fun f e => ?_⟩
  show Finmap.lookup f (r.frameMap.insert frameId ⟨r.list.next, frameId⟩) = some e ↔
    e ∈ (⟨r.list.next, frameId⟩ : Element F) :: r.list.elements ∧ e.value = f
  by_cases here : f = frameId
  · subst here
    rw [Finmap.lookup_insert, Option.some.injEq, List.mem_cons]
    constructor
    · rintro rfl
      exact ⟨.inl rfl, rfl⟩
    · rintro ⟨rfl | old, same⟩
      · rfl
      · exact absurd (List.mem_map.mpr ⟨e, old, same⟩) absent
  · rw [Finmap.lookup_insert_of_ne _ here, h.handles, List.mem_cons]
    constructor
    · rintro ⟨old, same⟩
      exact ⟨.inr old, same⟩
    · rintro ⟨rfl | old, same⟩
      · exact absurd same.symm here
      · exact ⟨old, same⟩

/-- An element leaves the list and its frame leaves the map. -/
theorem takeOut {before after : List (Element F)} {e : Element F}
    (here : r.list.elements = before ++ e :: after) :
    InStep ⟨r.list.remove e, r.frameMap.erase e.value⟩ ∧
      (r.list.remove e).elements = before ++ after := by
  have left := h.fresh.remove_middle here
  refine ⟨⟨h.fresh.remove e, fun f x => ?_⟩, left⟩
  -- what is left over is what is not this element
  have rest : x ∈ (r.list.remove e).elements ↔ x ∈ r.list.elements ∧ x.handle ≠ e.handle := by
    simp [HandleList.remove, List.mem_filter]
  have member : e ∈ r.list.elements := by simp [here]
  have found := (h.handles e.value e).mpr ⟨member, rfl⟩
  rw [rest]
  by_cases same : f = e.value
  · subst same
    rw [Finmap.lookup_erase]
    constructor
    · intro none
      cases none
    · rintro ⟨⟨old, other⟩, value⟩
      have twice := (h.handles e.value x).mpr ⟨old, value⟩
      obtain rfl := Option.some.inj (found.symm.trans twice)
      exact absurd rfl other
  · rw [Finmap.lookup_erase_ne same, h.handles]
    constructor
    · rintro ⟨old, value⟩
      refine ⟨⟨old, fun handle => ?_⟩, value⟩
      obtain rfl := h.fresh.eq_of_handle old member handle
      exact same value.symm
    · rintro ⟨⟨old, _⟩, value⟩
      exact ⟨old, value⟩

/-- `remove` takes the frame out of the middle and keeps the order of the others. -/
theorem remove {frameId : F} (present : frameId ∈ r.frames) :
    ∃ r' before after, r.remove frameId = some r' ∧ InStep r' ∧
      r.frames = before ++ frameId :: after ∧ r'.frames = before ++ after := by
  obtain ⟨e, member, rfl⟩ := List.mem_map.mp present
  obtain ⟨before, after, here⟩ := List.append_of_mem member
  obtain ⟨kept, left⟩ := h.takeOut here
  refine ⟨_, before.map Element.value, after.map Element.value, ?_, kept, ?_, ?_⟩
  · rw [State.remove, (h.handles e.value e).mpr ⟨member, rfl⟩]
  · rw [frames, values, here, List.map_append, List.map_cons]
  · rw [frames, values, left, List.map_append]

theorem victim (nonempty : r.frames ≠ []) : ∃ frameId r', r.victim = some (frameId, r') ∧
    InStep r' ∧ r.frames = r'.frames ++ [frameId] := by
  rw [frames, values, ne_eq, List.map_eq_nil_iff] at nonempty
  obtain ⟨before, e, here⟩ := List.eq_nil_or_concat r.list.elements |>.resolve_left nonempty
  have last : r.list.back = some e := by
    rw [back, here, List.concat_eq_append, List.getLast?_concat]
  rw [List.concat_eq_append] at here
  obtain ⟨kept, left⟩ := h.takeOut here
  refine ⟨e.value, _, ?_, kept, ?_⟩
  · rw [State.victim, last]
  · rw [frames, frames, values, values, here, left, List.append_nil, List.map_append]
    rfl

/-- Over the plain list of the pool's model, `remove` and `victim` do the same. -/
theorem remove_frames {frameId : F} (present : frameId ∈ r.frames) :
    (r.remove frameId).map frames = LRUReplacer.remove r.frames frameId := by
  obtain ⟨r', before, after, run, _, whole, rest⟩ := h.remove present
  have once := h.nodup
  rw [whole, List.nodup_append] at once
  have notBefore : frameId ∉ before := fun member => once.2.2 _ member _ (by simp) rfl
  rw [run, remove_of_mem present, Option.map_some, rest, whole, List.erase_append_right _ notBefore,
    List.erase_cons_head]

end InStep

end State

/-! ### Recency -/

/-- What a call did. -/
inductive Event (F : Type) where
  | insert (frameId : F)
  | remove (frameId : F)
  | victim (frameId : F)

/-- The number of the latest insert of a frame, if it has not left since; the newest event comes
first. -/
def since : List (Event F) → F → Option Nat
  | [], _ => none
  | .insert g :: rest, f => if f = g then some rest.length else since rest f
  | .remove g :: rest, f => if f = g then none else since rest f
  | .victim g :: rest, f => if f = g then none else since rest f

theorem since_lt {history : List (Event F)} {f : F} {t : Nat} (found : since history f = some t) :
    t < history.length := by
  induction history with
  | nil => cases found
  | cons event rest ih =>
    rw [List.length_cons]
    cases event with
    | insert g =>
      rw [since] at found
      split at found
      · cases found
        exact Nat.lt_succ_self _
      · exact Nat.lt_succ_of_lt (ih found)
    | remove g | victim g =>
      rw [since] at found
      split at found
      · cases found
      · exact Nat.lt_succ_of_lt (ih found)

def Newer (history : List (Event F)) (a b : F) : Prop :=
  ∃ t u, since history a = some t ∧ since history b = some u ∧ u < t

/-- The frames of the replacer are those that were inserted and have not left, the latest first. -/
structure Tracks (r : State F) (history : List (Event F)) : Prop extends r.InStep where
  present : ∀ f, f ∈ r.frames ↔ ∃ t, since history f = some t
  order : r.frames.Pairwise (Newer history)

theorem tracks_new : Tracks (State.new : State F) [] where
  toInStep := State.inStep_new
  present f := by simp [since, State.new, State.frames, values, HandleList.empty]
  order := .nil

namespace Tracks

variable {r : State F} {history : List (Event F)} (h : Tracks r history)
include h

theorem insert {f : F} (absent : since history f = none) :
    Tracks (r.insert f) (.insert f :: history) := by
  have out : f ∉ r.frames := by
    rw [h.present]
    rintro ⟨t, found⟩
    rw [absent] at found
    cases found
  have others {g : F} (other : g ≠ f) : since (.insert f :: history) g = since history g :=
    if_neg other
  have first : since (.insert f :: history) f = some history.length := if_pos rfl
  refine ⟨h.toInStep.insert out, fun g => ?_, ?_⟩
  · show g ∈ f :: r.frames ↔ _
    rw [List.mem_cons]
    by_cases here : g = f
    · subst here
      exact iff_of_true (.inl rfl) ⟨_, first⟩
    · rw [others here, h.present]
      exact or_iff_right here
  · have apart : ∀ g ∈ r.frames, g ≠ f := fun g member same => out (same ▸ member)
    refine List.Pairwise.cons ?_ (h.order.imp_of_mem ?_)
    · intro g member
      obtain ⟨u, found⟩ := (h.present g).mp member
      exact ⟨_, u, first, (others (apart g member)).trans found, since_lt found⟩
    · rintro a b left right ⟨t, u, newer, older, less⟩
      exact ⟨t, u, (others (apart a left)).trans newer, (others (apart b right)).trans older, less⟩

/-- A frame leaves, by `remove` or as the victim. -/
theorem leave {r' : State F} (kept : r'.InStep) {before after : List F} {f : F}
    (whole : r.frames = before ++ f :: after) (rest : r'.frames = before ++ after)
    {event : Event F}
    (leaves : ∀ g, since (event :: history) g = if g = f then none else since history g) :
    Tracks r' (event :: history) := by
  have once := h.nodup
  rw [whole] at once
  have out : f ∉ r'.frames := by
    rw [rest]
    exact (List.nodup_middle.mp once).notMem
  have sub : List.Sublist r'.frames r.frames := by
    rw [rest, whole]
    exact (List.Sublist.refl before).append (List.sublist_cons_self f after)
  have others {g : F} (member : g ∈ r'.frames) :
      since (event :: history) g = since history g := by
    have other : g ≠ f := by
      rintro rfl
      exact out member
    rw [leaves, if_neg other]
  refine ⟨kept, fun g => ?_, ?_⟩
  · constructor
    · intro member
      rw [others member]
      exact (h.present g).mp (sub.subset member)
    · rintro ⟨t, found⟩
      rw [leaves] at found
      split at found
      · cases found
      next other =>
        have member := (h.present g).mpr ⟨t, found⟩
        rw [whole] at member
        rw [rest]
        simp only [List.mem_append, List.mem_cons, other, false_or] at member ⊢
        exact member
  · refine (h.order.sublist sub).imp_of_mem ?_
    rintro a b left right ⟨t, u, newer, older, less⟩
    exact ⟨t, u, (others left).trans newer, (others right).trans older, less⟩

theorem remove {f : F} {t : Nat} (found : since history f = some t) : ∃ r' before after,
    r.remove f = some r' ∧ Tracks r' (.remove f :: history) ∧
      r.frames = before ++ f :: after ∧ r'.frames = before ++ after := by
  obtain ⟨r', before, after, run, kept, whole, rest⟩ :=
    h.toInStep.remove ((h.present f).mpr ⟨t, found⟩)
  exact ⟨r', before, after, run, h.leave kept whole rest fun _ => rfl, whole, rest⟩

/-- The frame at the back has the oldest insert. -/
theorem oldest {front : List F} {f : F} (whole : r.frames = front ++ [f]) :
    ∃ t, since history f = some t ∧ ∀ g u, since history g = some u → t ≤ u := by
  obtain ⟨t, found⟩ := (h.present f).mp (by simp [whole])
  refine ⟨t, found, fun g u other => ?_⟩
  have member := (h.present g).mpr ⟨u, other⟩
  have order := h.order
  rw [whole, List.mem_append, List.mem_singleton] at member
  rw [whole, List.pairwise_append] at order
  rcases member with inFront | rfl
  · obtain ⟨v, t', newer, older, less⟩ := order.2.2 g inFront f (List.mem_singleton_self f)
    rw [found] at older
    rw [other] at newer
    cases older
    cases newer
    exact le_of_lt less
  · rw [found] at other
    cases other
    exact le_refl _

theorem victim {g : F} {u : Nat} (some_ : since history g = some u) : ∃ f r' t,
    r.victim = some (f, r') ∧ Tracks r' (.victim f :: history) ∧
      r.frames = r'.frames ++ [f] ∧ since history f = some t ∧
      ∀ other v, since history other = some v → t ≤ v := by
  have nonempty : r.frames ≠ [] := List.ne_nil_of_mem ((h.present g).mpr ⟨u, some_⟩)
  obtain ⟨f, r', run, kept, whole⟩ := h.toInStep.victim nonempty
  obtain ⟨t, found, first⟩ := h.oldest whole
  exact ⟨f, r', t, run, h.leave kept whole (List.append_nil _).symm fun _ => rfl, whole, found,
    first⟩

end Tracks

/-! ### Runs -/

/-- The calls so far and the replacer after them: a frame is inserted when it is not present,
removed when it is, and a victim is asked for when there is one. -/
inductive Run : State F → List (Event F) → Prop
  | new : Run .new []
  | insert {r : State F} {history : List (Event F)} {f : F} :
      Run r history → since history f = none → Run (r.insert f) (.insert f :: history)
  | remove {r r' : State F} {history : List (Event F)} {f : F} :
      Run r history → since history f ≠ none → r.remove f = some r' →
        Run r' (.remove f :: history)
  | victim {r r' : State F} {history : List (Event F)} {f : F} :
      Run r history → (∃ g, since history g ≠ none) → r.victim = some (f, r') →
        Run r' (.victim f :: history)

theorem Run.tracks {r : State F} {history : List (Event F)} (run : Run r history) :
    Tracks r history := by
  induction run with
  | new => exact tracks_new
  | insert _ absent ih => exact ih.insert absent
  | remove _ present done ih =>
    obtain ⟨t, found⟩ := Option.ne_none_iff_exists'.mp present
    obtain ⟨_, _, _, done', tracks, _⟩ := ih.remove found
    obtain rfl := Option.some.inj (done.symm.trans done')
    exact tracks
  | victim _ some_ done ih =>
    obtain ⟨g, present⟩ := some_
    obtain ⟨u, found⟩ := Option.ne_none_iff_exists'.mp present
    obtain ⟨_, _, _, done', tracks, _⟩ := ih.victim found
    cases done.symm.trans done'
    exact tracks

/-- After any calls the list and the map hold the same frames, each once: those that were inserted
and have not left. The next call of any kind returns, `remove` and `victim` keep the order of the
other frames, and the victim is the frame whose latest insert is the oldest. -/
theorem replacer_refines_recency {r : State F} {history : List (Event F)} (run : Run r history) :
    r.frames.Nodup ∧ (∀ f, f ∈ r.frames ↔ f ∈ r.frameMap) ∧
      (∀ f, f ∈ r.frames ↔ since history f ≠ none) ∧
      r.size = r.list.elements.length ∧
      (∀ f, since history f = none → (r.insert f).frames = f :: r.frames) ∧
      (∀ f, since history f ≠ none → ∃ r' before after, r.remove f = some r' ∧
        r.frames = before ++ f :: after ∧ r'.frames = before ++ after) ∧
      ((∃ g, since history g ≠ none) → ∃ f r' t, r.victim = some (f, r') ∧
        r.frames = r'.frames ++ [f] ∧ since history f = some t ∧
        ∀ g u, since history g = some u → t ≤ u) := by
  have tracks := run.tracks
  have length : r.frames.length = r.list.elements.length := List.length_map _
  refine ⟨tracks.nodup, fun f => tracks.mem_frames, fun f => ?_, ?_, fun f _ => rfl, fun f present => ?_,
    ?_⟩
  · rw [tracks.present, Option.ne_none_iff_exists']
  · rw [tracks.size_eq, length]
  · obtain ⟨t, found⟩ := Option.ne_none_iff_exists'.mp present
    obtain ⟨r', before, after, done, _, whole, rest⟩ := tracks.remove found
    exact ⟨r', before, after, done, whole, rest⟩
  · rintro ⟨g, present⟩
    obtain ⟨u, found⟩ := Option.ne_none_iff_exists'.mp present
    obtain ⟨f, r', t, done, _, whole, first, oldest⟩ := tracks.victim found
    exact ⟨f, r', t, done, whole, first, oldest⟩

/-- Frame 1 is used again after 2 and 3, so 2 is the victim. -/
theorem replacer_evicts_oldest : ∃ (r r' : State Nat) (history : List (Event Nat)),
    Run r history ∧ r.frames = [1, 3, 2] ∧ r.victim = some (2, r') ∧ r'.frames = [1, 3] := by
  have three : Run (((State.new.insert 1).insert 2).insert 3)
      [.insert (3 : Nat), .insert 2, .insert 1] := .insert (.insert (.insert .new rfl) rfl) rfl
  obtain ⟨r, _, _, removed, _⟩ := (replacer_refines_recency three).2.2.2.2.2.1 1 (by decide)
  have two : r.frames = [3, 2] := by
    have left := three.tracks.remove_frames (show 1 ∈ [3, 2, 1] by decide)
    rw [removed] at left
    exact Option.some.inj left
  have again : Run (r.insert 1) (.insert 1 :: .remove 1 :: [.insert 3, .insert 2, .insert 1]) :=
    .insert (.remove three (by decide) removed) rfl
  obtain ⟨f, r', _, evicted, whole, _⟩ :=
    (replacer_refines_recency again).2.2.2.2.2.2 ⟨1, by decide⟩
  have frames : (r.insert 1).frames = [1, 3] ++ [2] := congrArg (1 :: ·) two
  rw [frames] at whole
  obtain ⟨others, last⟩ := List.append_inj' whole rfl
  cases last
  exact ⟨_, r', _, again, frames, evicted, others.symm⟩

end LRUReplacer

end CambiumDB
