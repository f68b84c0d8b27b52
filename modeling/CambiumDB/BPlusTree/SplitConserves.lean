import CambiumDB.BPlusTree.DisciplinedInsert
import CambiumDB.BPlusTree.InternalSplit
import CambiumDB.PageCodec.InternalRouting

/-!
# What a split keeps

`HandleLeafNodeSplit` and `HandleInternalNodeSplit` cut a node by the bytes of its old elements and
drop the answer of the insertion that follows. The new element is in one of the halves exactly if
it fits there.
-/

namespace CambiumDB

open ByteBuffer HeaderConfig HeaderCodec SlotCodec SlottedPage TreeM

open LeafNodeCodec (spaceRequired livePairs)

namespace BPlusTree

/-! ### The pages of a split -/

section
variable {E : Type} {c : ElementCodec E} {splice : List E → E → List E}

/-- The elements of a page written anew after an insertion: the element is in exactly if it fits. -/
def withElement (c : ElementCodec E) (splice : List E → E → List E) (es : List E) (e : E) : List E :=
  if width c e + slotSize ≤ packedSpace c es then splice es e else es

/-- A page that has one element more has taken it. -/
theorem fits_of_length (splice : List E → E → List E) {es : List E} {e : E}
    (more : (withElement c splice es e).length = es.length + 1) :
    width c e + slotSize ≤ packedSpace c es := by
  by_contra full
  rw [withElement, if_neg full] at more
  omega

variable [c.Lawful] {insertSlot : Page → Slot → E → Option (Page × Nat)}

/-- A page written anew takes an element exactly if it fits; else it stays as it is. -/
theorem halfOf_insertElement {page page' : Page} {entries : List (Slot × E)} {type : UInt8}
    {lsn next : UInt64} (half : HalfOf c page entries type lsn next)
    (ordered : (entries.map Prod.snd).Pairwise fun a b => c.key a ≤ c.key b)
    (splices : Splices c insertSlot splice) {e : E} {answer : Bool}
    (done : insertElement c insertSlot page (width c e) e = some (answer, page')) :
    liveElements c page' = some (withElement c splice (entries.map Prod.snd) e) ∧
      page'.byte nodeTypeOffset = type := by
  have accounted := accounted_packed half.repr ordered
  have free := free_packed (c := c) entries
  rcases accounted.insertElement_cases splices e with
    ⟨small, room, page₁, taken, holds, keeps⟩ | ⟨full, _, refused⟩ | ⟨_, _, panics⟩
  · rw [taken] at done
    cases done
    rw [free] at room
    rw [elements_packed] at holds
    rw [holds.liveElements, withElement, if_pos (by rw [slotSize]; omega)]
    exact ⟨rfl, keeps.1.trans half.type⟩
  · rw [refused] at done
    cases done
    rw [free] at full
    have same : Contains c (updateCRC page) (entries.map Prod.snd) :=
      ⟨_, _, _, half.repr.updateCRC, elements_packed ..⟩
    -- the size may wrap, but then it is larger than any page
    have tight : packedSpace c (entries.map Prod.snd) ≤ 4096 := Nat.sub_le _ _
    rw [same.liveElements, withElement, if_neg (by rw [slotSize]; omega)]
    exact ⟨rfl, (byte_updateCRC page (le_refl 4)).trans half.type⟩
  · rw [panics] at done
    cases done

/-- The elements and the types of both pages after a cut at `i` and the insertion that follows
it. -/
theorem intoSide_elements {page right l r l' r' : Page} {cells : List (Cell E)}
    {floor garbage skip i : Nat} {rightId : UInt64} {separator : Bytes} {lower : Prop}
    (repr : Repr c page cells floor garbage)
    (ordered : (elements cells).Pairwise fun a b => c.key a ≤ c.key b)
    (splices : Splices c insertSlot splice) {e : E}
    (cut : splitNode c skip page right rightId i = some (l, r, separator))
    (into : IntoSide lower (fun page => insertElement c insertSlot page (width c e) e) l r l' r') :
    ∃ m, (elements cells)[i]? = some m ∧ c.key m = separator ∧
      l'.byte nodeTypeOffset = page.byte nodeTypeOffset ∧
      r'.byte nodeTypeOffset = right.byte nodeTypeOffset ∧
      (lower → liveElements c l' = some (withElement c splice ((elements cells).take i) e) ∧
        liveElements c r' = some ((elements cells).drop (i + skip))) ∧
      (¬ lower → liveElements c l' = some ((elements cells).take i) ∧
        liveElements c r' = some (withElement c splice ((elements cells).drop (i + skip)) e)) := by
  cases middle : (elements cells)[i]? with
  | none =>
    rw [splitNode_past repr skip right rightId middle] at cut
    cases cut
  | some m =>
    obtain ⟨_, _, run, leftHalf, rightHalf⟩ := splitNode_spec repr skip right rightId middle
    rw [run] at cut
    cases cut
    refine ⟨m, rfl, rfl, ?_⟩
    rw [← live_map_snd] at ordered ⊢
    simp only [← List.map_take, ← List.map_drop]
    have leftOrdered : (((live cells).take i).map Prod.snd).Pairwise
        fun a b => c.key a ≤ c.key b := by
      rw [List.map_take]
      exact ordered.sublist (List.take_sublist _ _)
    have rightOrdered : (((live cells).drop (i + skip)).map Prod.snd).Pairwise
        fun a b => c.key a ≤ c.key b := by
      rw [List.map_drop]
      exact ordered.sublist (List.drop_sublist _ _)
    have leftHolds : Contains c l (((live cells).take i).map Prod.snd) :=
      ⟨_, _, _, leftHalf.repr, elements_packed ..⟩
    have rightHolds : Contains c r (((live cells).drop (i + skip)).map Prod.snd) :=
      ⟨_, _, _, rightHalf.repr, elements_packed ..⟩
    rcases into with ⟨lower, answer, inserted, rfl⟩ | ⟨upper, answer, inserted, rfl⟩
    · obtain ⟨outcome, type⟩ := halfOf_insertElement leftHalf leftOrdered splices inserted
      exact ⟨type, rightHalf.type, fun _ => ⟨outcome, rightHolds.liveElements⟩,
        fun upper => absurd lower upper⟩
    · obtain ⟨outcome, type⟩ := halfOf_insertElement rightHalf rightOrdered splices inserted
      exact ⟨leftHalf.type, type, fun lower => absurd lower upper,
        fun _ => ⟨leftHolds.liveElements, outcome⟩⟩

end

/-- A page of the file stays what it is when a new page is handed out. -/
theorem newPage_pages {w w' : World} {result : UInt64 × AllocationSource} {id : UInt64}
    (inside : id.toNat < w.filePages) (run : newPage w = (.ok result, w')) :
    w'.pages id = w.pages id := by
  rw [newPage] at run
  split at run
  · obtain rfl := (Prod.mk.inj run).2
    rfl
  · dsimp only at run
    split at run
    · cases run
    · obtain rfl := (Prod.mk.inj run).2
      split
      · exact if_neg fun added => by omega
      · rfl

/-! ### Leaves -/

/-- The live pairs of both pages are the old ones and the new one, cut at the key handed up. -/
def LeafSplitConserves (old left right : Page) (key value extraKey : Bytes) : Prop :=
  ∃ es ls rs, livePairs old = some es ∧ livePairs left = some ls ∧ livePairs right = some rs ∧
    (ls ++ rs).Perm (⟨key, value⟩ :: es) ∧ (∀ e ∈ ls, e.key < extraKey) ∧
    ∀ e ∈ rs, extraKey ≤ e.key

/-- The half that the key belongs to has room for the entry and its slot. -/
def LeafHalfTakes (page : Page) (key value : Bytes) : Prop :=
  match splitPlan page key with
  | some (_, half) =>
    spaceRequired key value + slotSize ≤ packedSpace LeafNodeCodec.elementCodec half
  | none => False

variable {nextLSN : List LogEntry → UInt64} {w w' : World}

/-- The pages of a leaf split that returned. -/
theorem handleLeafNodeSplit_inv {left : UInt64} {key value : Bytes}
    {result : Bytes × UInt64 × UInt64} (held : left ∈ w.guards) (inside : left.toNat < w.filePages)
    (run : handleLeafNodeSplit nextLSN left key value w = (.ok result, w')) :
    ∃ lsn right page i l r separator, LeafNodeCodec.findSplitNodeIndex (w.pages left) = some i ∧
      LeafNodeCodec.splitNode (HeaderCodec.setLSN (w.pages left) lsn) page right i =
        some (l, r, separator) ∧ result = (separator, left, right) ∧
      IntoSide (key < separator) (LeafNodeCodec.insertElement · key value) l r (w'.pages left)
        (w'.pages right) := by
  rw [handleLeafNodeSplit, bind_ok (get_apply _ _)] at run
  obtain ⟨⟨right, source⟩, w₁, taken, run⟩ := bind_eq_ok run
  obtain ⟨free, w₂, inner, rfl⟩ := created_inv run
  have kept := newPage_pages inside taken
  have apart : left ≠ right := by
    rintro rfl
    rw [(newPage_frame taken).2.2.1] at free
    exact free held
  rw [bind_ok (modifyPage_apply _ _ _)] at inner
  obtain ⟨_, i, l, r, separator, l', r', _, _, index, cut, into, rfl, rfl⟩ :=
    moveToRightLeaf_inv apart inner
  rw [World.setPage_pages_ne _ apart, World.append_pages, World.acquire_pages, kept] at index cut
  refine ⟨_, right, _, i, l, r, separator, index, cut, rfl, ?_⟩
  rw [World.release_pages, World.setPage_pages_ne _ apart, World.setPage_pages_self,
    World.release_pages, World.setPage_pages_self]
  exact into

theorem perm_withElement (es : List LeafNodeElement) (e : LeafNodeElement)
    (fits : width LeafNodeCodec.elementCodec e + slotSize ≤
      packedSpace LeafNodeCodec.elementCodec es) :
    (withElement LeafNodeCodec.elementCodec LeafNodeCodec.spliceInto es e).Perm (e :: es) := by
  rw [withElement, if_pos fits]
  exact LeafNodeCodec.spliceInto_perm es e

theorem leafSplit_conserves_iff {page right l r l' r' : Page} {key value separator : Bytes}
    {lsn rightId : UInt64} {i : Nat} (wellFormed : LeafNodeCodec.WellFormed page)
    (index : LeafNodeCodec.findSplitNodeIndex page = some i)
    (cut : LeafNodeCodec.splitNode (HeaderCodec.setLSN page lsn) right rightId i =
      some (l, r, separator))
    (into : IntoSide (key < separator) (LeafNodeCodec.insertElement · key value) l r l' r') :
    LeafSplitConserves page l' r' key value separator ↔ LeafHalfTakes page key value := by
  obtain ⟨cells, floor, garbage, sound⟩ := wellFormed.sound
  have pairs : livePairs page = some (elements cells) := LeafNodeCodec.livePairs_eq sound.repr
  have size : width LeafNodeCodec.elementCodec ⟨key, value⟩ = spaceRequired key value :=
    LeafNodeCodec.width_eq ⟨key, value⟩
  obtain ⟨m, middle, rfl, _, _, lowerHalf, upperHalf⟩ := intoSide_elements
    (sound.setLSN lsn).accounted.repr (sound.setLSN lsn).accounted.ordered
    LeafNodeCodec.splices (e := ⟨key, value⟩) cut (by rw [size]; exact into)
  have plan : splitPlan page key = some (m.key,
      if key < m.key then (elements cells).take i else (elements cells).drop i) := by
    simp only [splitPlan, index, pairs, middle, bind, Option.bind]
  obtain ⟨below, above⟩ := SortedList.Sorted.cut _ sound.sorted middle
  simp only [Nat.add_zero] at lowerHalf upperHalf
  have whole := List.take_append_drop i (elements cells)
  have total := congrArg List.length whole
  rw [List.length_append] at total
  rw [LeafHalfTakes, plan, ← size]
  by_cases lower : key < m.key
  · obtain ⟨left, back⟩ := lowerHalf lower
    simp only [if_pos lower]
    constructor
    · rintro ⟨es, ls, rs, old, left', back', perm, _⟩
      obtain rfl := Option.some.inj (pairs.symm.trans old)
      obtain rfl := Option.some.inj (left.symm.trans left')
      obtain rfl := Option.some.inj (back.symm.trans back')
      have count := perm.length_eq
      rw [List.length_append, List.length_cons] at count
      exact fits_of_length LeafNodeCodec.spliceInto (by omega)
    · intro fits
      refine ⟨_, _, _, pairs, left, back, ?_, ?_, above⟩
      · conv_rhs => rw [← whole]
        exact (perm_withElement _ _ fits).append_right _
      · intro e member
        rw [(perm_withElement _ _ fits).mem_iff] at member
        rcases List.mem_cons.1 member with rfl | old
        · exact lower
        · exact below e old
  · obtain ⟨left, back⟩ := upperHalf lower
    simp only [if_neg lower]
    constructor
    · rintro ⟨es, ls, rs, old, left', back', perm, _⟩
      obtain rfl := Option.some.inj (pairs.symm.trans old)
      obtain rfl := Option.some.inj (left.symm.trans left')
      obtain rfl := Option.some.inj (back.symm.trans back')
      have count := perm.length_eq
      rw [List.length_append, List.length_cons] at count
      exact fits_of_length LeafNodeCodec.spliceInto (by omega)
    · intro fits
      refine ⟨_, _, _, pairs, left, back, ?_, below, ?_⟩
      · conv_rhs => rw [← whole]
        exact ((perm_withElement _ _ fits).append_left _).trans List.perm_middle
      · intro e member
        rw [(perm_withElement _ _ fits).mem_iff] at member
        rcases List.mem_cons.1 member with rfl | old
        · exact not_lt.1 lower
        · exact above e old

/-! ### Internal nodes -/

/-- An element that belongs to the front: only the separator behind the front may be repointed. -/
theorem spliceInto_front {lo hi : List InternalNodeElement} {m e : InternalNodeElement}
    (later : ∀ x ∈ m :: hi, e.key < x.key) : ∃ m', m'.key = m.key ∧
      InternalNodeCodec.spliceInto (lo ++ m :: hi) e =
        InternalNodeCodec.spliceInto lo e ++ m' :: hi := by
  have smaller : (m :: hi).filter (fun x => decide (x.key < e.key)) = [] :=
    List.filter_eq_nil_iff.2 fun x member => by simpa using (later x member).le
  have equal : (m :: hi).filter (fun x => decide (x.key = e.key)) = [] :=
    List.filter_eq_nil_iff.2 fun x member => by simpa using (later x member).ne'
  have greater : (m :: hi).filter (fun x => decide (e.key < x.key)) = m :: hi :=
    List.filter_eq_self.2 fun x member => by simpa using later x member
  simp only [InternalNodeCodec.spliceInto, List.filter_append, smaller, equal, greater,
    List.append_nil]
  cases lo.filter fun x => decide (e.key < x.key) with
  | nil => exact ⟨{ m with leftChildNodePageId := e.rightChildNodePageId }, rfl, by simp⟩
  | cons x rest => exact ⟨m, rfl, by simp⟩

/-- An element that belongs to the back: only the separator before the back may be repointed. -/
theorem spliceInto_back {lo hi : List InternalNodeElement} {m e : InternalNodeElement}
    (earlier : ∀ x ∈ lo ++ [m], x.key < e.key) : ∃ m', m'.key = m.key ∧
      InternalNodeCodec.spliceInto (lo ++ m :: hi) e =
        lo ++ m' :: InternalNodeCodec.spliceInto hi e := by
  have smaller : (lo ++ [m]).filter (fun x => decide (x.key < e.key)) = lo ++ [m] :=
    List.filter_eq_self.2 fun x member => by simpa using earlier x member
  have equal : (lo ++ [m]).filter (fun x => decide (x.key = e.key)) = [] :=
    List.filter_eq_nil_iff.2 fun x member => by simpa using (earlier x member).ne
  have greater : (lo ++ [m]).filter (fun x => decide (e.key < x.key)) = [] :=
    List.filter_eq_nil_iff.2 fun x member => by simpa using (earlier x member).le
  have regroup : lo ++ m :: hi = (lo ++ [m]) ++ hi := by simp
  simp only [regroup, InternalNodeCodec.spliceInto, List.filter_append _ hi, smaller, equal, greater,
    List.nil_append]
  cases inside : hi.filter fun x => decide (x.key < e.key) with
  | nil =>
    refine ⟨{ m with rightChildNodePageId := e.leftChildNodePageId }, rfl, ?_⟩
    rw [List.append_nil, List.modifyLast_concat]
    simp [List.modifyLast, List.modifyLast.go]
  | cons x rest =>
    refine ⟨m, rfl, ?_⟩
    rw [List.modifyLast_append_of_right_ne_nil _ _ _ (by simp)]
    simp

/-- The elements of both pages and the separator handed up are the old elements and the new one:
as separators in any case, and with their children if the new one was not there yet. -/
def NodeSplitConserves (old left right : Page) (new : InternalNodeElement) (splitKey : Bytes) :
    Prop :=
  ∃ es ls rs, liveElements InternalNodeCodec.elementCodec old = some es ∧
    liveElements InternalNodeCodec.elementCodec left = some ls ∧
    liveElements InternalNodeCodec.elementCodec right = some rs ∧
    (ls.map InternalNodeElement.key ++ splitKey :: rs.map InternalNodeElement.key).Perm
      (new.key :: es.map InternalNodeElement.key) ∧
    ((∀ e ∈ es, e.key ≠ new.key) → ∃ m, m.key = splitKey ∧
      InternalNodeCodec.spliceInto es new = ls ++ m :: rs)

/-- The half that the separator belongs to has room for it and its slot. -/
def NodeHalfTakes (page : Page) (key : Bytes) : Prop :=
  ∃ i es m, InternalNodeCodec.findSplitNodeIndex page = some i ∧
    liveElements InternalNodeCodec.elementCodec page = some es ∧ es[i]? = some m ∧
    InternalNodeCodec.separatorSpace key ≤ packedSpace InternalNodeCodec.elementCodec
      (if key < m.key then es.take i else es.drop (i + 1))

theorem nodeSplit_conserves_iff {page right l r l' r' : Page} {new : InternalNodeElement}
    {separator : Bytes} {lsn rightId : UInt64} {i : Nat}
    (wellFormed : InternalNodeCodec.WellFormed page)
    (index : InternalNodeCodec.findSplitNodeIndex page = some i)
    (cut : InternalNodeCodec.splitNode (HeaderCodec.setLSN page lsn) right rightId i =
      some (l, r, separator))
    (into : IntoSide (new.key < separator) (InternalNodeCodec.insertElement · new.key
      new.leftChildNodePageId new.rightChildNodePageId) l r l' r') :
    NodeSplitConserves page l' r' new separator ↔ NodeHalfTakes page new.key := by
  obtain ⟨cells, floor, garbage, sound⟩ := wellFormed
  have holds : Contains InternalNodeCodec.elementCodec page (elements cells) :=
    ⟨_, _, _, sound.repr, rfl⟩
  have listed := holds.liveElements
  have size : width InternalNodeCodec.elementCodec new + slotSize =
      InternalNodeCodec.separatorSpace new.key := by
    rw [InternalNodeCodec.width_eq]
    rfl
  obtain ⟨m, middle, rfl, _, _, lowerHalf, upperHalf⟩ := intoSide_elements
    (sound.setLSN lsn).accounted.repr (sound.setLSN lsn).accounted.ordered
    InternalNodeCodec.splices (e := new) cut (by rw [InternalNodeCodec.width_eq]; exact into)
  obtain ⟨inside, here⟩ := List.getElem?_eq_some_iff.1 middle
  have whole : elements cells = (elements cells).take i ++ m :: (elements cells).drop (i + 1) := by
    rw [← here, ← List.drop_eq_getElem_cons inside, List.take_append_drop]
  have takes : NodeHalfTakes page new.key ↔ width InternalNodeCodec.elementCodec new + slotSize ≤
      packedSpace InternalNodeCodec.elementCodec
        (if new.key < m.key then (elements cells).take i else (elements cells).drop (i + 1)) := by
    rw [size]
    constructor
    · rintro ⟨i', es, m', found, read, entry, fits⟩
      obtain rfl := Option.some.inj (index.symm.trans found)
      obtain rfl := Option.some.inj (listed.symm.trans read)
      obtain rfl := Option.some.inj (middle.symm.trans entry)
      exact fits
    · intro fits
      exact ⟨i, _, m, index, listed, middle, fits⟩
  rw [takes]
  generalize (elements cells).take i = lo at *
  generalize (elements cells).drop (i + 1) = hi at *
  have sorted := sound.sorted
  rw [whole] at sorted listed
  obtain ⟨_, back, front⟩ := List.pairwise_append.1 sorted
  by_cases lower : new.key < m.key
  · obtain ⟨leftRead, rightRead⟩ := lowerHalf lower
    rw [if_pos lower]
    constructor
    · rintro ⟨es, ls, rs, old, left', right', perm, _⟩
      obtain rfl := Option.some.inj (listed.symm.trans old)
      obtain rfl := Option.some.inj (leftRead.symm.trans left')
      obtain rfl := Option.some.inj (rightRead.symm.trans right')
      have count := perm.length_eq
      simp only [List.length_append, List.length_cons, List.length_map] at count
      exact fits_of_length InternalNodeCodec.spliceInto (by omega)
    · intro fits
      rw [withElement, if_pos fits] at leftRead
      refine ⟨_, _, _, listed, leftRead, rightRead, ?_, fun _ => spliceInto_front ?_⟩
      · rw [List.map_append, List.map_cons]
        exact (InternalNodeCodec.spliceInto_keys lo new).append_right _
      · intro x member
        rcases List.mem_cons.1 member with rfl | later
        · exact lower
        · exact lower.trans ((List.pairwise_cons.1 back).1 x later)
  · obtain ⟨leftRead, rightRead⟩ := upperHalf lower
    rw [if_neg lower]
    constructor
    · rintro ⟨es, ls, rs, old, left', right', perm, _⟩
      obtain rfl := Option.some.inj (listed.symm.trans old)
      obtain rfl := Option.some.inj (leftRead.symm.trans left')
      obtain rfl := Option.some.inj (rightRead.symm.trans right')
      have count := perm.length_eq
      simp only [List.length_append, List.length_cons, List.length_map] at count
      exact fits_of_length InternalNodeCodec.spliceInto (by omega)
    · intro fits
      rw [withElement, if_pos fits] at rightRead
      refine ⟨_, _, _, listed, leftRead, rightRead, ?_, fun absent => spliceInto_back ?_⟩
      · have moved := (((InternalNodeCodec.spliceInto_keys hi new).cons m.key).append_left
          (lo.map InternalNodeElement.key)).trans
            ((List.Perm.swap new.key m.key _).append_left _)
        rw [List.map_append, List.map_cons]
        exact moved.trans List.perm_middle
      · intro x member
        have last : m.key < new.key :=
          lt_of_le_of_ne (not_lt.1 lower) (absent m (List.mem_append_right lo List.mem_cons_self))
        rcases List.mem_append.1 member with early | at_
        · exact (front x early m List.mem_cons_self).trans last
        · rw [List.mem_singleton.1 at_]
          exact last

/-- The pages of an internal split that returned. -/
theorem handleInternalNodeSplit_inv {left parent insertLeft insertRight : UInt64}
    {insertKey : Bytes} {result : Bytes × UInt64 × UInt64} (held : left ∈ w.guards)
    (inside : left.toNat < w.filePages) (parentHeld : parent ∈ w.guards) (other : parent ≠ left)
    (run : handleInternalNodeSplit nextLSN left parent insertKey insertLeft insertRight w =
      (.ok result, w')) :
    ∃ lsn right page i l r separator,
      InternalNodeCodec.findSplitNodeIndex (w.pages left) = some i ∧
      InternalNodeCodec.splitNode (HeaderCodec.setLSN (w.pages left) lsn) page right i =
        some (l, r, separator) ∧ result = (separator, left, right) ∧
      IntoSide (insertKey < separator)
        (InternalNodeCodec.insertElement · insertKey insertLeft insertRight) l r (w'.pages left)
        (w'.pages right) := by
  rw [handleInternalNodeSplit, bind_ok (get_apply _ _)] at run
  obtain ⟨⟨right, source⟩, w₁, taken, run⟩ := bind_eq_ok run
  obtain ⟨free, w₂, inner, rfl⟩ := created_inv run
  have kept := newPage_pages inside taken
  rw [(newPage_frame taken).2.2.1] at free
  have apart : left ≠ right := by
    rintro rfl
    exact free held
  have parentApart : parent ≠ right := by
    rintro rfl
    exact free parentHeld
  rw [bind_ok (modifyPage_apply _ _ _)] at inner
  obtain ⟨_, i, l, r, separator, l', r', _, _, index, cut, into, rfl, rfl⟩ :=
    moveToRightNode_inv apart other parentApart inner
  rw [World.setPage_pages_ne _ apart, World.append_pages, World.acquire_pages, kept] at index cut
  refine ⟨_, right, _, i, l, r, separator, index, cut, rfl, ?_⟩
  rw [World.release_pages, World.setPage_pages_ne _ apart, World.setPage_pages_self,
    World.release_pages, World.setPage_pages_self]
  exact into

/-- A split that returns nil has kept every element and taken the new one exactly if the half that
the new one belongs to had room for it. -/
theorem splits_conserve_iff (nextLSN : List LogEntry → UInt64) :
    (∀ w w' left key value extraKey l r, left ∈ w.guards → left.toNat < w.filePages →
      LeafNodeCodec.WellFormed (w.pages left) →
      handleLeafNodeSplit nextLSN left key value w = (.ok (extraKey, l, r), w') →
      (LeafSplitConserves (w.pages left) (w'.pages l) (w'.pages r) key value extraKey ↔
        LeafHalfTakes (w.pages left) key value)) ∧
    (∀ w w' left parent key leftChild rightChild splitKey l r, left ∈ w.guards →
      left.toNat < w.filePages → parent ∈ w.guards → parent ≠ left →
      InternalNodeCodec.WellFormed (w.pages left) →
      handleInternalNodeSplit nextLSN left parent key leftChild rightChild w =
        (.ok (splitKey, l, r), w') →
      (NodeSplitConserves (w.pages left) (w'.pages l) (w'.pages r) ⟨key, leftChild, rightChild⟩
        splitKey ↔ NodeHalfTakes (w.pages left) key)) := by
  constructor
  · intro w w' left key value extraKey l r held inside wellFormed run
    obtain ⟨lsn, right, page, i, _, _, separator, index, cut, same, into⟩ :=
      handleLeafNodeSplit_inv held inside run
    cases same
    exact leafSplit_conserves_iff wellFormed index cut into
  · intro w w' left parent key leftChild rightChild splitKey l r held inside parentHeld other
      wellFormed run
    obtain ⟨lsn, right, page, i, _, _, separator, index, cut, same, into⟩ :=
      handleInternalNodeSplit_inv held inside parentHeld other run
    cases same
    exact nodeSplit_conserves_iff wellFormed index cut into

/-- An insertion of an entry that is not larger than any page could be returns. -/
theorem insertElement_returns {page : Page} {pairs : List LeafNodeElement}
    (clean : LeafNodeCodec.Clean page pairs) {key value : Bytes}
    (small : spaceRequired key value + slotSize < 65536) :
    ∃ answer page', LeafNodeCodec.insertElement page key value = some (answer, page') := by
  obtain ⟨cells, floor, exact_, rfl⟩ := clean
  have accounted : Accounted LeafNodeCodec.elementCodec page cells floor 0 :=
    ⟨exact_.repr, exact_.sorted.le, exact_.account.le⟩
  have size := LeafNodeCodec.width_eq ⟨key, value⟩
  have outcome := accounted.insertElement_cases LeafNodeCodec.splices ⟨key, value⟩
  rw [size] at outcome
  rcases outcome with ⟨_, _, page', taken, _⟩ | ⟨_, _, refused⟩ | ⟨large, _⟩
  · exact ⟨_, page', taken⟩
  · exact ⟨_, _, refused⟩
  · exact absurd small (not_lt.2 large)

/-- A leaf split of two entries at the second one, with every call succeeding: it returns whether
or not the half has room. -/
theorem leafSplit_returns (nextLSN : List LogEntry → UInt64) {w : World} {leaf : UInt64}
    (faults : ∀ n, w.faults n = false) (alloc : w.Allocating)
    (space : w.filePages + 16 ≤ maxFilePages) (free : w.nextPage ∉ w.guards)
    (old : leaf ≤ w.metadata.maxAllocatedPageId) {a b : LeafNodeElement}
    (page : LeafNodeCodec.LeafPage (w.pages leaf) [a, b])
    (clean : LeafNodeCodec.Clean (w.pages leaf) [a, b])
    (wider : width LeafNodeCodec.elementCodec b < width LeafNodeCodec.elementCodec a)
    (sum : width LeafNodeCodec.elementCodec a + width LeafNodeCodec.elementCodec b < 65536)
    {key value : Bytes} (small : spaceRequired key value + slotSize < 65536) :
    ∃ w', handleLeafNodeSplit nextLSN leaf key value w = (.ok (b.key, leaf, w.nextPage), w') := by
  have apart : leaf ≠ w.nextPage := UInt64.ne_of_lt (alloc.lt_nextPage old)
  obtain ⟨w₁, created⟩ : ∃ w₁, w₁ = w.create nextLSN .leaf := ⟨_, rfl⟩
  have same : w₁.pages leaf = w.pages leaf := created ▸ World.create_other alloc .leaf old
  have fresh : w₁.pages w.nextPage = LeafNodeCodec.setLSN (Buffer.zero 4096) (nextLSN w.log) :=
    created ▸ World.create_page alloc .leaf
  have index := clean.findSplitNodeIndex
  rw [show LeafNodeCodec.splitIndex [a, b] = 1 from splitLoop_pair wider sum] at index
  have middle : [a, b][1]? = some b := rfl
  have type := ((LeafNodeCodec.leafPage_zero.setLSN (nextLSN w.log)).setLSN (nextLSN w₁.log)).type
  obtain ⟨left₀, right₀, cut, _, _, halves⟩ := (page.setLSN (nextLSN w₁.log)).splitNode type
    w.nextPage middle
  obtain ⟨cleanLeft, cleanRight⟩ := halves (clean.setLSN _)
  obtain ⟨answer, left₁, right₁, inserted⟩ : ∃ answer left₁ right₁, if key < b.key then
      LeafNodeCodec.insertElement left₀ key value = some (answer, left₁) ∧ right₁ = right₀
    else LeafNodeCodec.insertElement right₀ key value = some (answer, right₁) ∧ left₁ = left₀ := by
    split
    · obtain ⟨answer, left₁, done⟩ := insertElement_returns cleanLeft small
      exact ⟨answer, left₁, right₀, done, rfl⟩
    · obtain ⟨answer, right₁, done⟩ := insertElement_returns cleanRight small
      exact ⟨answer, left₀, right₁, done, rfl⟩
  have moved := moveToRightLeaf_run nextLSN (w := w₁) (created ▸ faults) apart
    (same.symm ▸ page) fresh rfl (same.symm ▸ index) (same.symm ▸ cut) inserted
  rw [created] at moved
  exact ⟨_, handleLeafNodeSplit_created nextLSN faults alloc space free moved⟩

/-- A tree whose only leaf, under a guard, holds entries of 2000 and 1900 bytes: anything larger
than 146 bytes makes it split at the second one. -/
theorem exists_full_leaf (nextLSN : List LogEntry → UInt64) : ∃ w leaf a b,
    leaf ∈ w.guards ∧ leaf.toNat < w.filePages ∧ LeafNodeCodec.WellFormed (w.pages leaf) ∧
    packedSpace LeafNodeCodec.elementCodec [⟨[2], b⟩] = 2155 ∧
    LeafNodeCodec.LeafPage (w.pages leaf) [⟨[1], a⟩, ⟨[2], b⟩] ∧
    LeafNodeCodec.findSplitNodeIndex (w.pages leaf) = some 1 ∧
    ∀ key value, 146 < spaceRequired key value → spaceRequired key value + slotSize < 65536 →
      LeafNodeCodec.hasEnoughSpaceToInsertElement (w.pages leaf) key value =
        some (false, w.pages leaf) ∧
      ∃ w' right, handleLeafNodeSplit nextLSN leaf key value w = (.ok ([2], leaf, right), w') := by
  have limit : 100 ≤ maxFilePages := by decide
  obtain ⟨a, lengthA⟩ : ∃ a : Bytes, a.length = 2000 := ⟨_, List.length_replicate (a := 0)⟩
  obtain ⟨b, lengthB⟩ : ∃ b : Bytes, b.length = 1900 := ⟨_, List.length_replicate (a := 0)⟩
  have needA : spaceRequired [1] a = 2005 := by rw [spaceRequired, lengthA]; rfl
  have needB : spaceRequired [2] b = 1905 := by rw [spaceRequired, lengthB]; rfl
  have widthA : width LeafNodeCodec.elementCodec ⟨[1], a⟩ = 2005 :=
    (LeafNodeCodec.width_eq _).trans needA
  have widthB : width LeafNodeCodec.elementCodec ⟨[2], b⟩ = 1905 :=
    (LeafNodeCodec.width_eq _).trans needB
  have one : packedSpace LeafNodeCodec.elementCodec [⟨[1], a⟩] = 2055 := by
    simp [packedSpace, headerSize, widthA]
  have both : packedSpace LeafNodeCodec.elementCodec [⟨[1], a⟩, ⟨[2], b⟩] = 146 := by
    simp [packedSpace, headerSize, widthA, widthB]
  obtain ⟨s, leaf, pairs, _, tidy, two, small⟩ := reach_two nextLSN
    (show ([1] : Bytes) < [2] by decide) (by rw [needA]; decide) (by rw [one, needB]; decide)
  have member : leaf ∈ Router.children leaf ([] : List (Bytes × UInt64)) := by
    simp [Router.children]
  have page := tidy.stored.leaves leaf member
  have clean := tidy.clean leaf member
  rw [two] at page clean
  have old := (tidy.stored.allocated leaf member).2
  have alloc : (s.world.acquire leaf).Allocating :=
    tidy.ready.toAllocating.congr rfl rfl rfl fun _ _ => rfl
  have free : (s.world.acquire leaf).nextPage ∉ (s.world.acquire leaf).guards := by
    rw [World.acquire_guards, tidy.ready.guards, List.mem_singleton]
    exact (UInt64.ne_of_lt (alloc.lt_nextPage old)).symm
  have index := clean.findSplitNodeIndex
  rw [show LeafNodeCodec.splitIndex [⟨[1], a⟩, ⟨[2], b⟩] = 1 from
    splitLoop_pair (by rw [widthA, widthB]; decide) (by rw [widthA, widthB]; decide)] at index
  refine ⟨s.world.acquire leaf, leaf, a, b, List.mem_cons_self, tidy.ready.within old, ?_,
    by simp [packedSpace, headerSize, widthB], page, index, ?_⟩
  · obtain ⟨cells, floor, exact_, listed⟩ := clean
    refine exact_.wellFormed ?_
    rintro rfl
    cases listed
  · intro key value large bounded
    refine ⟨page.check_full (clean.noSpace (by omega) (by rw [both]; exact large)), ?_⟩
    obtain ⟨w', run⟩ := leafSplit_returns nextLSN (w := s.world.acquire leaf) tidy.ready.faults alloc
      (show s.world.filePages + 16 ≤ maxFilePages by omega) free old page clean
      (by rw [widthA, widthB]; decide) (by rw [widthA, widthB]; decide) bounded
    exact ⟨w', _, run⟩

/-- An entry for a key behind the second one has to share the right half with it. -/
theorem leafHalfTakes_behind {page : Page} {a b key value : Bytes}
    (leaf : LeafNodeCodec.LeafPage page [⟨[1], a⟩, ⟨[2], b⟩])
    (index : LeafNodeCodec.findSplitNodeIndex page = some 1) (behind : ¬ key < [2]) :
    LeafHalfTakes page key value ↔
      spaceRequired key value + slotSize ≤ packedSpace LeafNodeCodec.elementCodec [⟨[2], b⟩] := by
  have plan : splitPlan page key = some ([2], [⟨[2], b⟩]) := by
    simp only [splitPlan, index, leaf.livePairs, bind, Option.bind]
    exact congrArg some (congrArg _ (if_neg behind))
  rw [LeafHalfTakes, plan]

/-- A world of three pages with these separators on page 1, and both other pages under a guard. -/
def nodeWorld (page : Page) : World :=
  { newDatabase with
    pages := Function.update (fun _ => Buffer.zero 4096) 1 page
    filePages := 3
    metadata := ⟨0, 0, [], 2, [], []⟩
    guards := [1, 2] }

theorem allocating_nodeWorld (page : Page) : (nodeWorld page).Allocating := by
  refine ⟨rfl, show (2 : UInt64).toNat < 3 by decide, show 3 ≤ maxFilePages by decide, ?_⟩
  intro id later inside
  have after : 2 < id.toNat := UInt64.lt_iff_toNat_lt.1 later
  have three : id.toNat < 3 := inside
  omega

theorem splits_conserve_small_elements :
    (∃ w w' left value r, handleLeafNodeSplit (fun log => log.length.toUInt64 + 1) left [3] value w =
        (.ok ([2], left, r), w') ∧
      LeafSplitConserves (w.pages left) (w'.pages left) (w'.pages r) [3] value [2]) ∧
    ∃ w w' r, handleInternalNodeSplit (fun log => log.length.toUInt64 + 1) 1 2 [6] 40 50 w =
        (.ok ([5], 1, r), w') ∧
      NodeSplitConserves (w.pages 1) (w'.pages 1) (w'.pages r) ⟨[6], 40, 50⟩ [5] := by
  constructor
  · obtain ⟨w, leaf, a, b, held, inside, wellFormed, half, page, index, splits⟩ :=
      exists_full_leaf fun log => log.length.toUInt64 + 1
    obtain ⟨value, long⟩ : ∃ value : Bytes, value.length = 1000 :=
      ⟨_, List.length_replicate (a := 0)⟩
    have need : spaceRequired [3] value = 1005 := by rw [spaceRequired, long]; rfl
    obtain ⟨_, w', right, run⟩ := splits [3] value (by rw [need]; decide) (by rw [need]; decide)
    refine ⟨w, w', leaf, value, right, run, ?_⟩
    refine ((splits_conserve_iff _).1 w w' leaf [3] value _ _ _ held inside wellFormed run).2 ?_
    rw [leafHalfTakes_behind page index (by decide), need, half]
    decide
  · obtain ⟨page, three⟩ := InternalNodeCodec.exists_three_separators
    obtain ⟨wellFormed, listed⟩ := three.wellFormed (by decide)
    have same : (nodeWorld page).pages 1 = page := by simp [nodeWorld]
    have found := three.findSplitNodeIndex
    rw [← same] at three wellFormed listed found
    obtain ⟨w', lsn, run, _⟩ := handleInternalNodeSplit_last (fun log => log.length.toUInt64 + 1)
      50 (fun _ => rfl) (allocating_nodeWorld page) (show (1 : UInt64) ≤ 2 by decide) three
      (show InternalNodeCodec.splitIndex _ = 2 by decide) rfl (show ([5] : Bytes) < [6] by decide)
      (by decide) (by decide) (show 3 + 16 ≤ maxFilePages by decide)
      (show (2 : UInt64) + 1 ∉ [1, 2] by decide) (show (2 : UInt64) ≤ 2 by decide) (by decide)
    refine ⟨nodeWorld page, w', _, run, ?_⟩
    refine ((splits_conserve_iff _).2 (nodeWorld page) w' 1 2 [6] 40 50 _ _ _
      (show (1 : UInt64) ∈ [1, 2] by decide) (show (1 : UInt64).toNat < 3 by decide)
      (show (2 : UInt64) ∈ [1, 2] by decide) (by decide) wellFormed run).2 ?_
    exact ⟨2, _, _, found, listed, rfl, by decide⟩

/-- An entry of 3000 bytes is sent to a right half of 1900 bytes and refused there, and nobody
looks at the answer. -/
theorem leafSplit_drops_entry :
    ¬ ∀ nextLSN w w' left key value checked extraKey l r, left ∈ w.guards →
      left.toNat < w.filePages →
      LeafNodeCodec.WellFormed (w.pages left) →
      LeafNodeCodec.findValue (w.pages left) key = some none →
      LeafNodeCodec.hasEnoughSpaceToInsertElement (w.pages left) key value = some (false, checked) →
      handleLeafNodeSplit nextLSN left key value w = (.ok (extraKey, l, r), w') →
      LeafSplitConserves (w.pages left) (w'.pages l) (w'.pages r) key value extraKey := by
  intro conserves
  obtain ⟨w, leaf, a, b, held, inside, wellFormed, half, page, index, splits⟩ :=
    exists_full_leaf recordLSN
  obtain ⟨value, long⟩ : ∃ value : Bytes, value.length = 3000 :=
    ⟨_, List.length_replicate (a := 0)⟩
  have need : spaceRequired [3] value = 3005 := by rw [spaceRequired, long]; rfl
  obtain ⟨full, w', right, run⟩ := splits [3] value (by rw [need]; decide) (by rw [need]; decide)
  have kept := conserves recordLSN w w' leaf [3] value _ _ _ _ held inside wellFormed
    (page.findValue [3]) full run
  obtain ⟨lsn, _, fresh, i, _, _, separator, found, cut, same, into⟩ :=
    handleLeafNodeSplit_inv held inside run
  cases same
  have takes := (leafSplit_conserves_iff wellFormed found cut into).1 kept
  rw [leafHalfTakes_behind page index (by decide), need, half] at takes
  exact absurd takes (by decide)

end BPlusTree

end CambiumDB
