import CambiumDB.BPlusTree.Discipline

/-!
# An insert under a discipline

Which pages are in disorder at each point of an insert: a new page until the split or the
separator is written to it, a node whose child was split until it has taken the separator or is
split itself, and the first leaf until its entry is written. An insert that returns has put all
of them in order before it gives their guards back.
-/

namespace CambiumDB

open ByteBuffer TreeM

namespace BPlusTree

variable {nextLSN : List LogEntry → UInt64} {w w' : World}

/-! ### Splits that returned -/

/-- The entry went into the left half if it belongs there and else into the right one, or was
refused there. -/
def IntoSide (lower : Prop) (insert : Page → Option (Bool × Page)) (left right left' right' : Page) :
    Prop :=
  (lower ∧ ∃ answer, insert left = some (answer, left') ∧ right' = right) ∨
    ¬ lower ∧ ∃ answer, insert right = some (answer, right') ∧ left' = left

theorem moveToRightLeaf_inv {left right : UInt64} {key value : Bytes}
    {result : Bytes × UInt64 × UInt64} (apart : left ≠ right)
    (run : moveToRightLeaf nextLSN left right key value w = (.ok result, w')) :
    ∃ record index l r separator l' r', record.pages = [left, right] ∧ record.IsLeafSplit ∧
      LeafNodeCodec.findSplitNodeIndex (w.pages left) = some index ∧
      LeafNodeCodec.splitNode (HeaderCodec.setLSN (w.pages left) (nextLSN w.log))
        (HeaderCodec.setLSN (w.pages right) (nextLSN w.log)) right index = some (l, r, separator) ∧
      IntoSide (key < separator) (LeafNodeCodec.insertElement · key value) l r l' r' ∧
      result = (separator, left, right) ∧
      w' = ((w.append (nextLSN w.log) record).setPage left l').setPage right r' := by
  rw [moveToRightLeaf, bind_ok (get_apply _ _), bind_ok (get_apply _ _)] at run
  obtain ⟨index, w₁, found, run⟩ := bind_eq_ok run
  obtain ⟨found, rfl⟩ := orPanic_inv found
  obtain ⟨⟨length, elements⟩, w₂, encoded, run⟩ := bind_eq_ok run
  obtain ⟨_, rfl⟩ := orPanic_inv encoded
  obtain ⟨lsn, w₃, logged, run⟩ := bind_eq_ok run
  generalize recordEq : WALRecord.splitLeafNode _ _ _ _ _ _ _ _ _ = record at logged
  have named : record.pages = [left, right] := by
    rw [← recordEq]
    rfl
  have kind : record.IsLeafSplit := by
    rw [← recordEq]
    trivial
  obtain ⟨rfl, rfl⟩ := logRecord_inv logged
  rw [bind_ok (modifyPage_apply _ _ _), bind_ok (modifyPage_apply _ _ _), bind_ok (get_apply _ _),
    bind_ok (get_apply _ _)] at run
  obtain ⟨⟨l, r, separator⟩, w₄, returned, run⟩ := bind_eq_ok run
  obtain ⟨cut, rfl⟩ := orPanic_inv returned
  rw [World.setPage_pages_self, World.setPage_pages_ne _ apart, World.setPage_pages_ne _ apart.symm,
    World.setPage_pages_self] at cut
  simp only [LeafNodeCodec.setLSN, World.append_pages] at cut run
  rw [bind_ok (modifyPage_apply _ _ _), bind_ok (modifyPage_apply _ _ _)] at run
  split at run
  next less =>
    have lower := (compareBytes_eq_lt _ _).1 less
    obtain ⟨answer, w₅, inserted, run⟩ := bind_eq_ok run
    obtain ⟨final, into, rfl⟩ := applyPage_inv inserted
    rw [World.setPage_pages_ne _ apart, World.setPage_pages_self] at into
    refine ⟨record, index, l, r, separator, final, r, named, kind, found, cut,
      .inl ⟨lower, answer, into, rfl⟩, (Except.ok.inj (Prod.mk.inj run).1).symm, ?_⟩
    rw [← (Prod.mk.inj run).2]
    simp only [World.setPage_setPage, World.setPage_comm _ apart]
  next notLess =>
    have upper := fun lower => notLess ((compareBytes_eq_lt _ _).2 lower)
    obtain ⟨answer, w₅, inserted, run⟩ := bind_eq_ok run
    obtain ⟨final, into, rfl⟩ := applyPage_inv inserted
    rw [World.setPage_pages_self] at into
    refine ⟨record, index, l, r, separator, l, final, named, kind, found, cut,
      .inr ⟨upper, answer, into, rfl⟩, (Except.ok.inj (Prod.mk.inj run).1).symm, ?_⟩
    rw [← (Prod.mk.inj run).2]
    simp only [World.setPage_setPage, World.setPage_comm _ apart]

theorem moveToRightNode_inv {left right parent insertLeft insertRight : UInt64} {insertKey : Bytes}
    {result : Bytes × UInt64 × UInt64} (apart : left ≠ right) (leftApart : parent ≠ left)
    (rightApart : parent ≠ right)
    (run : moveToRightNode nextLSN left right parent insertKey insertLeft insertRight w =
      (.ok result, w')) :
    ∃ record index l r separator l' r', record.pages = [left, right] ∧ record.IsNodeSplit ∧
      InternalNodeCodec.findSplitNodeIndex (w.pages left) = some index ∧
      InternalNodeCodec.splitNode (HeaderCodec.setLSN (w.pages left) (nextLSN w.log))
        (HeaderCodec.setLSN (w.pages right) (nextLSN w.log)) right index = some (l, r, separator) ∧
      IntoSide (insertKey < separator)
        (InternalNodeCodec.insertElement · insertKey insertLeft insertRight) l r l' r' ∧
      result = (separator, left, right) ∧
      w' = (((w.append (nextLSN w.log) record).setPage parent
        (HeaderCodec.setLSN (w.pages parent) (nextLSN w.log))).setPage left l').setPage right r' := by
  rw [moveToRightNode, bind_ok (get_apply _ _), bind_ok (get_apply _ _)] at run
  obtain ⟨index, w₁, found, run⟩ := bind_eq_ok run
  obtain ⟨found, rfl⟩ := orPanic_inv found
  obtain ⟨⟨length, elements⟩, w₂, encoded, run⟩ := bind_eq_ok run
  obtain ⟨_, rfl⟩ := orPanic_inv encoded
  obtain ⟨lsn, w₃, logged, run⟩ := bind_eq_ok run
  generalize recordEq : WALRecord.splitInternalNode _ _ _ _ _ _ _ _ _ = record at logged
  have named : record.pages = [left, right] := by
    rw [← recordEq]
    rfl
  have kind : record.IsNodeSplit := by
    rw [← recordEq]
    trivial
  obtain ⟨rfl, rfl⟩ := logRecord_inv logged
  rw [bind_ok (modifyPage_apply _ _ _), bind_ok (modifyPage_apply _ _ _),
    bind_ok (modifyPage_apply _ _ _), bind_ok (get_apply _ _), bind_ok (get_apply _ _)] at run
  obtain ⟨⟨l, r, separator⟩, w₄, returned, run⟩ := bind_eq_ok run
  obtain ⟨cut, rfl⟩ := orPanic_inv returned
  rw [World.setPage_pages_ne _ leftApart.symm, World.setPage_pages_self,
    World.setPage_pages_ne _ rightApart.symm, World.setPage_pages_ne _ apart,
    World.setPage_pages_ne _ apart.symm, World.setPage_pages_self] at cut
  simp only [InternalNodeCodec.setLSN, World.append_pages] at cut run
  rw [bind_ok (modifyPage_apply _ _ _), bind_ok (modifyPage_apply _ _ _)] at run
  split at run
  next less =>
    have lower := (compareBytes_eq_lt _ _).1 less
    obtain ⟨answer, w₅, inserted, run⟩ := bind_eq_ok run
    obtain ⟨final, into, rfl⟩ := applyPage_inv inserted
    rw [World.setPage_pages_ne _ apart, World.setPage_pages_self] at into
    refine ⟨record, index, l, r, separator, final, r, named, kind, found, cut,
      .inl ⟨lower, answer, into, rfl⟩, (Except.ok.inj (Prod.mk.inj run).1).symm, ?_⟩
    rw [← (Prod.mk.inj run).2]
    simp only [World.setPage_setPage, World.setPage_comm _ apart, World.setPage_comm _ leftApart,
      World.setPage_comm _ rightApart, World.setPage_pages_ne _ leftApart,
      World.setPage_pages_ne _ rightApart, World.append_pages]
  next notLess =>
    have upper := fun lower => notLess ((compareBytes_eq_lt _ _).2 lower)
    obtain ⟨answer, w₅, inserted, run⟩ := bind_eq_ok run
    obtain ⟨final, into, rfl⟩ := applyPage_inv inserted
    rw [World.setPage_pages_self] at into
    refine ⟨record, index, l, r, separator, l, final, named, kind, found, cut,
      .inr ⟨upper, answer, into, rfl⟩, (Except.ok.inj (Prod.mk.inj run).1).symm, ?_⟩
    rw [← (Prod.mk.inj run).2]
    simp only [World.setPage_setPage, World.setPage_comm _ apart, World.setPage_comm _ leftApart,
      World.setPage_comm _ rightApart, World.setPage_pages_ne _ leftApart,
      World.setPage_pages_ne _ rightApart, World.append_pages]

/-- The start of the splits: the guard on the new page and the record of its creation. -/
theorem created_inv {α : Type} {id tree : UInt64} {type : NodeType} {source : AllocationSource}
    {f : UInt64 → TreeM α} {a : α} (run : (newGuardOrCleanup id >>= fun _ =>
      deferDone id (logRecord nextLSN (.createPage tree id type source) >>= f)) w = (.ok a, w')) :
    id ∉ w.guards ∧ ∃ w₁, f (nextLSN w.log) ((w.acquire id).append (nextLSN w.log)
      (.createPage tree id type source)) = (.ok a, w₁) ∧ w' = w₁.release id := by
  obtain ⟨_, w₁, guarded, run⟩ := bind_eq_ok run
  obtain ⟨rfl, _, free⟩ := newGuard_inv (newGuardOrCleanup_inv guarded)
  obtain ⟨w₂, inner, rfl⟩ := deferDone_inv run
  obtain ⟨lsn, w₃, logged, inner⟩ := bind_eq_ok inner
  obtain ⟨rfl, rfl⟩ := logRecord_inv logged
  exact ⟨free, w₂, inner, rfl⟩

end BPlusTree

namespace Orderly

variable {nextLSN : List LogEntry → UInt64} {w w' : World} {d : PageDiscipline}
  {rooted : Prop} {dirty : Set UInt64} {roles : Roles} (h : Orderly d rooted dirty roles w)
include h

/-! ### Splits keep the discipline -/

theorem moveToRightLeaf {left right : UInt64} {key value : Bytes}
    {result : Bytes × UInt64 × UInt64} (leftRole : roles left = some .leaf)
    (rightRole : roles right = some .leaf) (apart : left ≠ right)
    (run : BPlusTree.moveToRightLeaf nextLSN left right key value w = (.ok result, w')) :
    Orderly d rooted (dirty \ {left, right})
      (Function.update (Function.update roles left none) right none) w' := by
  obtain ⟨record, index, l, r, separator, l', r', named, _, _, cut, into, _, rfl⟩ :=
    BPlusTree.moveToRightLeaf_inv apart run
  have halves := d.splitLeaf (d.fit_setLSN _ (h.held _ _ leftRole).2.2) (d.stamp _ _) (d.stamp _ _) cut
  obtain ⟨leftFit, leftStamped, leftGood⟩ := halves l (.inl rfl)
  obtain ⟨rightFit, rightStamped, rightGood⟩ := halves r (.inr rfl)
  rcases into with ⟨_, answer, inserted, rfl⟩ | ⟨_, answer, inserted, rfl⟩
  · exact h.split leftRole rightRole apart named (d.insertLeaf leftFit leftStamped inserted) rightGood
  · exact h.split leftRole rightRole apart named leftGood (d.insertLeaf rightFit rightStamped inserted)

theorem moveToRightNode {left right parent insertLeft insertRight : UInt64}
    {insertKey : Bytes} {result : Bytes × UInt64 × UInt64} (leftRole : roles left = some .internal)
    (rightRole : roles right = some .internal) (parentRole : roles parent = some .internal)
    (apart : left ≠ right) (leftApart : parent ≠ left) (rightApart : parent ≠ right)
    (run : BPlusTree.moveToRightNode nextLSN left right parent insertKey insertLeft insertRight w =
      (.ok result, w')) :
    Orderly d rooted (insert parent (dirty \ {left, right}))
      (Function.update (Function.update roles left none) right none) w' := by
  obtain ⟨record, index, l, r, separator, l', r', named, _, _, cut, into, _, rfl⟩ :=
    BPlusTree.moveToRightNode_inv apart leftApart rightApart run
  have halves := d.splitNode (d.fit_setLSN _ (h.held _ _ leftRole).2.2) (d.stamp _ _) (d.stamp _ _) cut
  obtain ⟨leftFit, leftStamped, leftGood⟩ := halves l (.inl rfl)
  obtain ⟨rightFit, rightStamped, rightGood⟩ := halves r (.inr rfl)
  rcases into with ⟨_, answer, inserted, rfl⟩ | ⟨_, answer, inserted, rfl⟩
  · exact h.split_under leftRole rightRole apart named
      (d.insertNode leftFit leftStamped inserted) rightGood parentRole leftApart rightApart
  · exact h.split_under leftRole rightRole apart named leftGood
      (d.insertNode rightFit rightStamped inserted) parentRole leftApart rightApart

theorem role_of_free {id : UInt64} (free : id ∉ w.guards) : roles id = none := by
  cases known : roles id with
  | none => rfl
  | some type => exact absurd (h.held id type known).1 free

omit h in
/-- What is left of the roles once a page that was taken for a split is given back. -/
theorem give_back {left right : UInt64} {type : NodeType} {dirty' dirty'' : Set UInt64}
    (fresh : roles right = none) (apart : left ≠ right)
    (inner : Orderly d rooted dirty' (Function.update (Function.update
      (Function.update roles right (some type)) left none) right none) w')
    (more : dirty' ⊆ dirty'') (old : ∀ p ∈ dirty'', p ≠ left ∧ roles p ≠ none) :
    Orderly d rooted dirty'' (Function.update roles left none) (w'.release right) := by
  have outside : right ∉ dirty' := fun inside => (old right (more inside)).2 fresh
  refine (inner.release outside).weaken more ?_ ?_
  · intro p type' known
    have here : p ≠ left := by
      rintro rfl
      rw [Function.update_self] at known
      cases known
    rw [Function.update_of_ne here] at known
    have other : p ≠ right := by
      rintro rfl
      rw [fresh] at known
      cases known
    rw [Function.update_of_ne other, Function.update_of_ne other, Function.update_of_ne here,
      Function.update_of_ne other, known]
  · intro p inside
    rw [Function.update_of_ne (old p inside).1]
    exact (old p inside).2

theorem handleLeafNodeSplit {left : UInt64} {key value : Bytes}
    {result : Bytes × UInt64 × UInt64} (leftRole : roles left = some .leaf)
    (run : BPlusTree.handleLeafNodeSplit nextLSN left key value w = (.ok result, w')) :
    Orderly d rooted (dirty \ {left}) (Function.update roles left none) w' := by
  rw [BPlusTree.handleLeafNodeSplit, bind_ok (get_apply _ _)] at run
  obtain ⟨⟨right, source⟩, w₁, taken, run⟩ := bind_eq_ok run
  obtain ⟨present, start, own, fit⟩ := h.newPage taken
  obtain ⟨free, w₂, inner, rfl⟩ := BPlusTree.created_inv run
  have fresh := start.role_of_free free
  have apart : left ≠ right := by
    rintro rfl
    rw [leftRole] at fresh
    cases fresh
  rw [bind_ok (modifyPage_apply _ _ _)] at inner
  have created := start.create w.tree.bPlusTreeId (nextLSN w₁.log) source own (fit .leaf)
    (d.fit_setLSN (nextLSN w₁.log) (fit .leaf))
  have moved := created.moveToRightLeaf (by rw [Function.update_of_ne apart, leftRole])
    (Function.update_self ..) apart inner
  apply give_back fresh apart moved
  · rintro q ⟨inside, other⟩
    simp only [Set.mem_insert_iff, Set.mem_singleton_iff, not_or] at inside other
    exact ⟨inside.resolve_left other.2, other.1⟩
  · rintro q ⟨inside, other⟩
    exact ⟨other, h.role q inside⟩

theorem handleInternalNodeSplit {left parent insertLeft insertRight : UInt64} {insertKey : Bytes}
    {result : Bytes × UInt64 × UInt64} (leftRole : roles left = some .internal)
    (parentRole : roles parent = some .internal) (leftApart : parent ≠ left)
    (run : BPlusTree.handleInternalNodeSplit nextLSN left parent insertKey insertLeft insertRight w =
      (.ok result, w')) :
    Orderly d rooted (insert parent (dirty \ {left})) (Function.update roles left none) w' := by
  rw [BPlusTree.handleInternalNodeSplit, bind_ok (get_apply _ _)] at run
  obtain ⟨⟨right, source⟩, w₁, taken, run⟩ := bind_eq_ok run
  obtain ⟨present, start, own, fit⟩ := h.newPage taken
  obtain ⟨free, w₂, inner, rfl⟩ := BPlusTree.created_inv run
  have fresh := start.role_of_free free
  have old {id : UInt64} (role : roles id = some .internal) : id ≠ right := by
    rintro rfl
    rw [role] at fresh
    cases fresh
  rw [bind_ok (modifyPage_apply _ _ _)] at inner
  have created := start.create w.tree.bPlusTreeId (nextLSN w₁.log) source own (fit .internal)
    (d.fit_setLSN (nextLSN w₁.log) (fit .internal))
  have moved := created.moveToRightNode (by rw [Function.update_of_ne (old leftRole), leftRole])
    (Function.update_self ..) (by rw [Function.update_of_ne (old parentRole), parentRole])
    (old leftRole) leftApart (old parentRole) inner
  apply give_back fresh (old leftRole) moved
  · rintro q (here | ⟨inside, other⟩)
    · exact .inl here
    · simp only [Set.mem_insert_iff, Set.mem_singleton_iff, not_or] at inside other
      exact .inr ⟨inside.resolve_left other.2, other.1⟩
  · rintro q (here | ⟨inside, other⟩)
    · rw [here, parentRole]
      exact ⟨leftApart, by simp⟩
    · exact ⟨other, h.role q inside⟩

/-- The separator is the last write to the new root. -/
theorem installRoot {newRoot left right : UInt64} {extraKey : Bytes}
    (present : newRoot ≠ 0) (role : roles newRoot = some .internal)
    (run : BPlusTree.installRoot nextLSN newRoot extraKey left right w = (.ok (), w')) :
    Orderly d rooted (dirty \ {newRoot}) (Function.update roles newRoot none) w' := by
  rw [BPlusTree.installRoot, bind_ok (get_apply _ _)] at run
  obtain ⟨lsn, w₁, logged, run⟩ := bind_eq_ok run
  obtain ⟨rfl, rfl⟩ := logRecord_inv logged
  rw [bind_ok (modifyPage_apply _ _ _)] at run
  obtain ⟨answer, w₂, inserted, run⟩ := bind_eq_ok run
  obtain ⟨final, into, rfl⟩ := applyPage_inv inserted
  rw [World.setPage_pages_self] at into
  obtain ⟨lsn, w₃, moved, run⟩ := bind_eq_ok run
  obtain ⟨rfl, rfl⟩ := logRecord_inv moved
  rw [bind_ok (modify_apply _ _)] at run
  obtain rfl := (Prod.mk.inj run).2
  have good := d.insertNode (d.fit_setLSN (nextLSN w.log) (h.held _ _ role).2.2) (d.stamp _ _) into
  rw [World.setPage_setPage]
  exact (((h.write role rfl good).append_silent _ rfl).setMetaLSN _).setRoot present

theorem handleLeafRootNodeSplit {oldRoot : UInt64} {key value : Bytes}
    (role : roles oldRoot = some .leaf)
    (run : BPlusTree.handleLeafRootNodeSplit nextLSN oldRoot key value w = (.ok (), w')) :
    Orderly d rooted (dirty \ {oldRoot}) (Function.update roles oldRoot none) w' := by
  rw [BPlusTree.handleLeafRootNodeSplit, bind_ok (get_apply _ _)] at run
  obtain ⟨⟨newRoot, source⟩, w₁, taken, run⟩ := bind_eq_ok run
  obtain ⟨present, start, own, fit⟩ := h.newPage taken
  obtain ⟨free, w₂, inner, rfl⟩ := BPlusTree.created_inv run
  have fresh := start.role_of_free free
  have apart : oldRoot ≠ newRoot := by
    rintro rfl
    rw [role] at fresh
    cases fresh
  rw [bind_ok (modifyPage_apply _ _ _), bind_ok (modifyPage_apply _ _ _), World.setPage_setPage,
    World.setPage_pages_self] at inner
  have created := start.create w.tree.bPlusTreeId (nextLSN w₁.log) source own (fit .internal)
    (d.fit_setNodeType (d.fit_setLSN (nextLSN w₁.log) (fit .internal)))
  obtain ⟨⟨extraKey, left, right⟩, w₃, halved, inner⟩ := bind_eq_ok inner
  have split := created.handleLeafNodeSplit (by rw [Function.update_of_ne apart, role]) halved
  have installed := split.installRoot present
    (by rw [Function.update_of_ne apart.symm, Function.update_self]) inner
  apply give_back fresh apart installed
  · rintro q ⟨⟨inside, other⟩, here⟩
    exact ⟨inside.resolve_left here, other⟩
  · rintro q ⟨inside, other⟩
    exact ⟨other, h.role q inside⟩

theorem handleInternalRootNodeSplit {oldRoot insertLeft insertRight : UInt64} {insertKey : Bytes}
    (role : roles oldRoot = some .internal)
    (run : BPlusTree.handleInternalRootNodeSplit nextLSN oldRoot insertKey insertLeft insertRight w =
      (.ok (), w')) :
    Orderly d rooted (dirty \ {oldRoot}) (Function.update roles oldRoot none) w' := by
  rw [BPlusTree.handleInternalRootNodeSplit, bind_ok (get_apply _ _)] at run
  obtain ⟨⟨newRoot, source⟩, w₁, taken, run⟩ := bind_eq_ok run
  obtain ⟨present, start, own, fit⟩ := h.newPage taken
  obtain ⟨free, w₂, inner, rfl⟩ := BPlusTree.created_inv run
  have fresh := start.role_of_free free
  have apart : oldRoot ≠ newRoot := by
    rintro rfl
    rw [role] at fresh
    cases fresh
  rw [bind_ok (modifyPage_apply _ _ _)] at inner
  have created := start.create w.tree.bPlusTreeId (nextLSN w₁.log) source own (fit .internal)
    (d.fit_setLSN (nextLSN w₁.log) (fit .internal))
  obtain ⟨⟨extraKey, left, right⟩, w₃, halved, inner⟩ := bind_eq_ok inner
  have split := created.handleInternalNodeSplit (by rw [Function.update_of_ne apart, role])
    (Function.update_self ..) apart.symm halved
  have installed := split.installRoot present
    (by rw [Function.update_of_ne apart.symm, Function.update_self]) inner
  apply give_back fresh apart installed
  · rintro q ⟨stamped | ⟨inside, other⟩, here⟩
    · exact absurd stamped here
    · exact ⟨inside.resolve_left here, other⟩
  · rintro q ⟨inside, other⟩
    exact ⟨other, h.role q inside⟩

/-! ### An insert keeps the discipline -/

theorem splitLeaf {id : UInt64} {key value : Bytes} {result : Option (Bytes × UInt64 × UInt64)}
    (role : roles id = some .leaf)
    (run : BPlusTree.splitLeaf nextLSN id key value w = (.ok result, w')) :
    Orderly d rooted (dirty \ {id}) (Function.update roles id none) w' := by
  rw [BPlusTree.splitLeaf, bind_ok (get_apply _ _)] at run
  split at run
  · obtain ⟨_, w₁, root, run⟩ := bind_eq_ok run
    obtain rfl := (Prod.mk.inj run).2
    exact h.handleLeafRootNodeSplit role root
  · obtain ⟨_, w₁, below, run⟩ := bind_eq_ok run
    obtain rfl := (Prod.mk.inj run).2
    exact h.handleLeafNodeSplit role below

theorem writeLeaf {id : UInt64} {key value : Bytes} {result : Option (Bytes × UInt64 × UInt64)}
    (role : roles id = some .leaf)
    (run : BPlusTree.writeLeaf nextLSN id key value w = (.ok result, w')) :
    Orderly d rooted (dirty \ {id}) (Function.update roles id none) w' := by
  have fit := (h.held _ _ role).2.2
  rw [BPlusTree.writeLeaf, bind_ok (get_apply _ _), bind_ok (get_apply _ _)] at run
  obtain ⟨found, w₁, searched, run⟩ := bind_eq_ok run
  obtain ⟨found', same⟩ := orPanic_inv searched
  rw [same] at run
  cases found with
  | some oldValue =>
    obtain ⟨enough, w₂, asked, run⟩ := bind_eq_ok run
    obtain ⟨checked, check, rfl⟩ := applyPage_inv asked
    have fit' : d.Fit .leaf checked ∧ (enough = false → checked = w.pages id) := by
      have check' := check
      rw [LeafNodeCodec.hasEnoughSpaceToUpdateValue] at check'
      split at check'
      · obtain ⟨rfl, rfl⟩ := Prod.mk.inj (Option.some.inj check')
        exact ⟨fit, by simp⟩
      · exact ⟨d.fit_checkLeaf fit check', by
          rintro rfl
          exact SlottedPage.hasEnoughSpace_false check'⟩
    cases enough with
    | true =>
      obtain ⟨lsn, w₃, logged, run⟩ := bind_eq_ok run
      obtain ⟨rfl, rfl⟩ := logRecord_inv logged
      rw [bind_ok (modifyPage_apply _ _ _)] at run
      obtain ⟨_, w₄, changed, run⟩ := bind_eq_ok run
      obtain ⟨final, written, rfl⟩ := applyPage_inv changed
      obtain rfl := (Prod.mk.inj run).2
      rw [World.setPage_pages_self, World.append_pages, World.setPage_pages_self] at written
      obtain ⟨final', set, pair⟩ := Option.map_eq_some_iff.1 written
      cases pair
      rw [World.setPage_setPage]
      exact h.write_checked role fit'.1 rfl (d.setValue fit found' check set)
    | false =>
      rw [fit'.2 rfl] at run
      exact h.setPage_self id |>.splitLeaf role run
  | none =>
    obtain ⟨enough, w₂, asked, run⟩ := bind_eq_ok run
    obtain ⟨checked, check, rfl⟩ := applyPage_inv asked
    have fit' := d.fit_checkLeaf fit check
    cases enough with
    | true =>
      obtain ⟨lsn, w₃, logged, run⟩ := bind_eq_ok run
      obtain ⟨rfl, rfl⟩ := logRecord_inv logged
      rw [bind_ok (modifyPage_apply _ _ _)] at run
      obtain ⟨_, w₄, changed, run⟩ := bind_eq_ok run
      obtain ⟨final, inserted, rfl⟩ := applyPage_inv changed
      obtain rfl := (Prod.mk.inj run).2
      rw [World.setPage_pages_self, World.append_pages, World.setPage_pages_self] at inserted
      rw [World.setPage_setPage]
      exact h.write_checked role fit' rfl
        (d.insertLeaf (d.fit_setLSN _ fit') (d.stamp _ _) inserted)
    | false =>
      obtain rfl := SlottedPage.hasEnoughSpace_false check
      exact h.setPage_self id |>.splitLeaf role run

/-- The separator goes into the node, or the node is split; then the parent has been given an LSN
that is not its own. -/
theorem writeSeparator {id left right : UInt64} {parent : Option UInt64} {extraKey : Bytes}
    {result : Option (Bytes × UInt64 × UInt64)} (role : roles id = some .internal)
    (above : ∀ p, parent = some p → roles p = some .internal ∧ p ≠ id)
    (run : BPlusTree.writeSeparator nextLSN id parent extraKey left right w = (.ok result, w')) :
    Orderly d rooted (dirty \ {id}) (Function.update roles id none) w' ∨
      result.isSome ∧ ∃ p, parent = some p ∧
        Orderly d rooted (insert p (dirty \ {id})) (Function.update roles id none) w' := by
  have fit := (h.held _ _ role).2.2
  rw [BPlusTree.writeSeparator, bind_ok (get_apply _ _)] at run
  obtain ⟨enough, w₂, asked, run⟩ := bind_eq_ok run
  obtain ⟨checked, check, rfl⟩ := applyPage_inv asked
  have fit' := d.fit_checkNode fit check
  cases enough with
  | true =>
    obtain ⟨lsn, w₃, logged, run⟩ := bind_eq_ok run
    obtain ⟨rfl, rfl⟩ := logRecord_inv logged
    rw [bind_ok (modifyPage_apply _ _ _)] at run
    obtain ⟨_, w₄, changed, run⟩ := bind_eq_ok run
    obtain ⟨final, inserted, rfl⟩ := applyPage_inv changed
    obtain rfl := (Prod.mk.inj run).2
    rw [World.setPage_pages_self, World.append_pages, World.setPage_pages_self] at inserted
    rw [World.setPage_setPage]
    exact .inl (h.write_checked role fit' rfl
      (d.insertNode (d.fit_setLSN _ fit') (d.stamp _ _) inserted))
  | false =>
    obtain rfl := SlottedPage.hasEnoughSpace_false check
    have start := h.setPage_self id
    rw [if_neg (by decide), bind_ok (get_apply _ _)] at run
    split at run
    · obtain ⟨_, w₃, root, run⟩ := bind_eq_ok run
      obtain rfl := (Prod.mk.inj run).2
      exact .inl (start.handleInternalRootNodeSplit role root)
    · obtain ⟨p, w₃, known, run⟩ := bind_eq_ok run
      obtain ⟨rfl, rfl⟩ := orPanic_inv known
      obtain ⟨_, w₄, below, run⟩ := bind_eq_ok run
      obtain ⟨same, rfl⟩ := Prod.mk.inj run
      cases same
      obtain ⟨parentRole, apart⟩ := above p rfl
      exact .inr ⟨rfl, p, rfl, start.handleInternalNodeSplit role parentRole apart below⟩

theorem release_free {id : UInt64} (free : roles id = none) : Orderly d rooted dirty roles (w.release id) := by
  have released := h.release fun inside => h.role id inside free
  rw [Function.update_eq_self_iff.2 free.symm] at released
  exact released

end Orderly

/-- The pages that a descent for the key comes through. -/
inductive OnPath (pages : UInt64 → Page) (key : Bytes) (root : UInt64) : UInt64 → Prop
  | root : OnPath pages key root root
  | child {id child : UInt64} : OnPath pages key root id →
      HeaderCodec.isLeafNode (pages id) = false →
      InternalNodeCodec.findNextChildNodePageId (pages id) key = some child →
      OnPath pages key root child

theorem OnPath.through {pages : UInt64 → Page} {key : Bytes} {root child id : UInt64}
    (internal : HeaderCodec.isLeafNode (pages root) = false)
    (next : InternalNodeCodec.findNextChildNodePageId (pages root) key = some child)
    (path : OnPath pages key child id) : OnPath pages key root id := by
  induction path with
  | root => exact .child .root internal next
  | child _ internal' next' ih => exact .child ih internal' next'

/-- The codec by the type byte can write to every page on the way of the key. -/
def PageDiscipline.Passable (d : PageDiscipline) (w : World) (key : Bytes) (root : UInt64) : Prop :=
  ∀ id, OnPath w.pages key root id → d.Own w.metadata.maxAllocatedPageId id ∧
    d.Fit (nodeType (w.pages id)) (w.pages id)

namespace Orderly

variable {nextLSN : List LogEntry → UInt64} {w w' : World} {d : PageDiscipline}
  {rooted : Prop} {dirty : Set UInt64} {roles : Roles}

theorem nodeType_leaf {page : Page} (leaf : HeaderCodec.isLeafNode page = true) :
    nodeType page = .leaf := by
  rw [nodeType, if_pos leaf]

theorem nodeType_internal {page : Page} (internal : HeaderCodec.isLeafNode page = false) :
    nodeType page = .internal := by
  rw [nodeType, if_neg (by rw [internal]; decide)]

/-- On the way down nothing is in disorder, but a first leaf. -/
theorem writeTraversal {key value : Bytes} {fuel : Nat} {id : UInt64} {parent : Option UInt64}
    {result : Option (Bytes × UInt64 × UInt64)} (h : Orderly d rooted dirty roles w)
    (role : roles id = some (nodeType (w.pages id))) (only : dirty ⊆ {id})
    (calm : HeaderCodec.isLeafNode (w.pages id) = false → dirty = ∅)
    (above : ∀ p, parent = some p → roles p = some .internal ∧ p ≠ id)
    (passable : HeaderCodec.isLeafNode (w.pages id) = false → d.Passable w key id)
    (run : BPlusTree.writeTraversal nextLSN key value fuel id parent w = (.ok result, w')) :
    Orderly d rooted ∅ (Function.update roles id none) w' ∨
      result.isSome ∧ ∃ p, parent = some p ∧ Orderly d rooted {p} (Function.update roles id none) w' := by
  induction fuel generalizing id parent result w w' dirty roles with
  | zero => cases run
  | succ fuel ih =>
    rw [BPlusTree.writeTraversal, BPlusTree.isLeafNode, bind_ok (get_apply _ _)] at run
    cases type : HeaderCodec.isLeafNode (w.pages id) with
    | true =>
      rw [type, if_pos rfl] at run
      rw [nodeType_leaf type] at role
      have written := h.writeLeaf role run
      rw [Set.sdiff_eq_empty.2 only] at written
      exact .inl written
    | false =>
      rw [nodeType_internal type] at role
      obtain rfl := calm type
      rw [type, if_neg (by decide), bind_ok (get_apply _ _)] at run
      obtain ⟨child, w₁, searched, run⟩ := bind_eq_ok run
      obtain ⟨next, same⟩ := orPanic_inv searched
      rw [same] at run
      obtain ⟨_, w₂, guarded, run⟩ := bind_eq_ok run
      obtain ⟨rfl, _, free⟩ := newGuard_inv guarded
      obtain ⟨w₃, inner, rfl⟩ := deferDone_inv run
      obtain ⟨below, w₄, lower, inner⟩ := bind_eq_ok inner
      have fresh := h.role_of_free free
      have apart : id ≠ child := by
        rintro rfl
        rw [role] at fresh
        cases fresh
      have passable' : d.Passable w key child := fun q path =>
        passable type q (path.through type next)
      obtain ⟨own, fit⟩ := passable' child .root
      have entered := h.acquire own fit
      -- the roles below are those above and the role of the child
      have restored : Function.update (Function.update roles child (some (nodeType (w.pages child))))
          child none = roles := by
        rw [Function.update_idem, Function.update_eq_self_iff.2 fresh.symm]
      have returned := ih entered (Function.update_self ..) (Set.empty_subset _) (fun _ => rfl)
        (by
          rintro p ⟨⟩
          rw [Function.update_of_ne apart]
          exact ⟨role, apart⟩)
        (fun _ => passable') lower
      rw [restored] at returned
      have childFree : Function.update roles id none child = none := by
        rw [Function.update_of_ne apart.symm, fresh]
      cases below with
      | none =>
        obtain ⟨same, rfl⟩ := Prod.mk.inj inner
        obtain returned | ⟨some_, _⟩ := returned
        · refine .inl (release_free (weaken returned (Set.Subset.refl _) ?_ (by simp)) childFree)
          intro p known here
          by_cases other : p = id
          · rw [other, Function.update_self] at here
            cases here
          · rw [Function.update_of_ne other] at here
            exact here
        · cases some_
      | some separator =>
        obtain ⟨extraKey, left, right⟩ := separator
        have start : Orderly d rooted {id} roles w₄ := by
          rcases returned with settled | ⟨_, p, same, stamped⟩
          · refine settled.weaken (Set.empty_subset _) (fun _ _ known => known) ?_
            rintro p rfl
            rw [role]
            simp
          · obtain rfl := Option.some.inj same
            exact stamped
        have written := start.writeSeparator role above inner
        simp only [Set.sdiff_self, insert_empty_eq] at written
        rcases written with settled | ⟨some_, p, parentEq, stamped⟩
        · exact .inl (settled.release_free childFree)
        · exact .inr ⟨some_, p, parentEq, stamped.release_free childFree⟩

theorem logIgnored {record : WALRecord} (h : Orderly d rooted dirty roles w) (silent : record.pages = []) :
    Orderly d rooted dirty roles (logRecord nextLSN record w).2 := by
  rw [logRecord]
  split
  · exact h.countCall
  · exact h.append_silent _ silent

/-- The first leaf of a tree is in disorder until it is written to. -/
theorem createRoot {id : UInt64} (h : Orderly d rooted ∅ roles w)
    (run : BPlusTree.createRoot nextLSN w = (.ok id, w')) :
    Orderly d True {id} (Function.update roles id (some .leaf)) w' ∧
      HeaderCodec.isLeafNode (w'.pages id) = HeaderCodec.isLeafNode w.freshPage := by
  rw [BPlusTree.createRoot, bind_ok (get_apply _ _)] at run
  obtain ⟨⟨root, source⟩, w₁, taken, run⟩ := bind_eq_ok run
  obtain ⟨present, start, own, fit⟩ := h.newPage taken
  obtain ⟨lsn, w₂, logged, run⟩ := bind_eq_ok run
  obtain ⟨rfl, rfl⟩ := logRecord_inv logged
  obtain ⟨_, w₃, guarded, run⟩ := bind_eq_ok run
  obtain ⟨rfl, _, _⟩ := newGuard_inv guarded
  rw [bind_ok (modifyPage_apply _ _ _)] at run
  obtain ⟨lsn, w₄, first, run⟩ := bind_eq_ok run
  obtain ⟨rfl, rfl⟩ := logRecord_inv first
  rw [bind_ok (modify_apply _ _)] at run
  obtain ⟨lsn, w₅, moved, run⟩ := bind_eq_ok run
  obtain ⟨rfl, rfl⟩ := logRecord_inv moved
  rw [bind_ok (modify_apply _ _), bind_ok (modify_apply _ _), bind_ok (modify_apply _ _)] at run
  obtain ⟨same, rfl⟩ := Prod.mk.inj run
  obtain rfl := Except.ok.inj same
  have planted := start.plant w.tree.bPlusTreeId (nextLSN w₁.log) source own (Set.notMem_empty _) (d.fit_setLSN (nextLSN w₁.log) (fit .leaf))
  rw [insert_empty_eq] at planted
  refine ⟨(((((planted.append_silent _ rfl).setMetaLSN _).append_silent _ rfl).setMetaLSN
    _).setFirstLeaf _).setRoot present, ?_⟩
  rw [← newPage_freshPage taken]
  exact (congrArg HeaderCodec.isLeafNode (World.setPage_pages_self ..)).trans
    (HeaderCodec.isLeafNode_setLSN _ _)

theorem insertLocked {key value : Bytes} (h : Orderly d rooted ∅ (fun _ => none) w)
    (passable : w.tree.rootNodePageId ≠ 0 → d.Passable w key w.tree.rootNodePageId)
    (first : w.tree.rootNodePageId = 0 → HeaderCodec.isLeafNode w.freshPage = true)
    (run : BPlusTree.insertLocked nextLSN key value w = (.ok (), w')) :
    Orderly d True ∅ (fun _ => none) w' := by
  rw [BPlusTree.insertLocked] at run
  obtain ⟨root, w₁, guarded, run⟩ := bind_eq_ok run
  obtain ⟨w₂, inner, rfl⟩ := deferDone_inv run
  rw [bind_ok (get_apply _ _)] at inner
  obtain ⟨result, w₃, traversed, inner⟩ := bind_eq_ok inner
  rw [bind_ok (get_apply _ _)] at inner
  obtain rfl := (Prod.mk.inj inner).2
  have written : Orderly d True ∅ (fun _ => none) w₃ := by
    rw [BPlusTree.guardRoot, bind_ok (get_apply _ _)] at guarded
    have none_ {type : NodeType} : Function.update (Function.update (fun _ => none) root (some type))
        root none = (fun _ => none : Roles) := by
      rw [Function.update_idem, Function.update_eq_self]
    split at guarded
    next empty =>
      obtain ⟨created, type⟩ := h.createRoot guarded
      have leaf := type.trans (first empty)
      rw [← nodeType_leaf leaf] at created
      have result := created.writeTraversal (Function.update_self ..) (Set.Subset.refl _)
        (fun internal => by rw [leaf] at internal; cases internal) (by rintro p ⟨⟩)
        (fun internal => by rw [leaf] at internal; cases internal) traversed
      rw [none_] at result
      rcases result with settled | ⟨_, p, parent, _⟩
      · exact settled
      · cases parent
    next present =>
      obtain ⟨_, w₄, entered, rest⟩ := bind_eq_ok guarded
      obtain ⟨rfl, _, _⟩ := newGuard_inv entered
      obtain ⟨same, rfl⟩ := Prod.mk.inj rest
      obtain rfl := Except.ok.inj same
      obtain ⟨own, fit⟩ := passable present _ .root
      have result := ((h.with_root present).acquire own fit).writeTraversal (Function.update_self ..)
        (Set.empty_subset _) (fun _ => rfl) (by rintro p ⟨⟩) (fun _ => passable present) traversed
      rw [none_] at result
      rcases result with settled | ⟨_, p, parent, _⟩
      · exact settled
      · cases parent
  exact (written.logIgnored rfl).release_free rfl

/-- An insert that returns from a store in order leaves a store in order. -/
theorem insert {key value : Bytes} (h : Orderly d rooted ∅ (fun _ => none) w)
    (passable : w.tree.rootNodePageId ≠ 0 → d.Passable w key w.tree.rootNodePageId)
    (first : w.tree.rootNodePageId = 0 → HeaderCodec.isLeafNode w.freshPage = true)
    (run : BPlusTree.insert nextLSN key value w = (.ok (), w')) :
    Orderly d True ∅ (fun _ => none) w' := by
  rw [BPlusTree.insert, bind_ok (get_apply _ _)] at run
  obtain ⟨_, w₁, begun, run⟩ := bind_eq_ok run
  obtain rfl := (Prod.mk.inj begun).2
  rw [logRecord] at run
  split at run
  next => exact insertLocked (w := w.countCall) h.countCall passable first run
  next => exact insertLocked (w := w.append _ _) (h.append_silent _ rfl) passable first run

end Orderly

end CambiumDB
