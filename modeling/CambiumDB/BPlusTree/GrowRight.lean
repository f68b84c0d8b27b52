import CambiumDB.BPlusTree.CleanRun

/-!
# Trees that grow to the right

Entries in key order, each a little smaller than the one before and so large that a leaf holds
two of them and never three. From the third entry on every insert splits the last leaf behind its
first entry: the tree has one leaf for each entry but the last.
-/

namespace CambiumDB

open ByteBuffer HeaderConfig SlotCodec SlottedPage Router TreeM TransitionSystem

open LeafNodeCodec (LeafPage Clean spaceRequired splitIndex)

open InternalNodeCodec (InternalPage separatorSpace)

/-- The first `n` entries of such a sequence. -/
structure GrowsRight (e : Nat → LeafNodeElement) (n : Nat) : Prop where
  increasing : ∀ i j, i < j → j < n → (e i).key < (e j).key
  narrower : ∀ i, i + 1 < n →
    width LeafNodeCodec.elementCodec (e (i + 1)) < width LeafNodeCodec.elementCodec (e i)
  pair : ∀ i, i + 1 < n → width LeafNodeCodec.elementCodec (e i) +
    width LeafNodeCodec.elementCodec (e (i + 1)) + 8 ≤ 4064
  full : ∀ i, i + 2 < n → 4064 < width LeafNodeCodec.elementCodec (e i) +
    width LeafNodeCodec.elementCodec (e (i + 1)) + 8 +
    width LeafNodeCodec.elementCodec (e (i + 2))

namespace GrowsRight

variable {e : Nat → LeafNodeElement} {n i : Nat} (grows : GrowsRight e n)

theorem spaceRequired_eq (a : LeafNodeElement) :
    spaceRequired a.key a.value = width LeafNodeCodec.elementCodec a :=
  (LeafNodeCodec.width_eq a).symm

theorem packed_one (a : LeafNodeElement) : packedSpace LeafNodeCodec.elementCodec [a] =
    4060 - width LeafNodeCodec.elementCodec a := by
  simp only [packedSpace, dataSize_cons, dataSize_nil, headerSize, List.length_cons,
    List.length_nil]
  omega

theorem packed_two (a b : LeafNodeElement) : packedSpace LeafNodeCodec.elementCodec [a, b] =
    4056 - (width LeafNodeCodec.elementCodec a + width LeafNodeCodec.elementCodec b) := by
  simp only [packedSpace, dataSize_cons, dataSize_nil, headerSize, List.length_cons,
    List.length_nil]
  omega

include grows

theorem next_pair (bound : i + 2 < n) : width LeafNodeCodec.elementCodec (e (i + 1)) +
    width LeafNodeCodec.elementCodec (e (i + 2)) + 8 ≤ 4064 :=
  grows.pair (i + 1) bound

theorem not_lt {j : Nat} (less : i < j) (bound : j < n) : ¬ (e j).key < (e i).key :=
  lt_asymm (grows.increasing i j less bound)

theorem splitIndex_eq (bound : i + 1 < n) : splitIndex [e i, e (i + 1)] = 1 := by
  have narrower := grows.narrower i bound
  have pair := grows.pair i bound
  exact splitLoop_pair narrower (by omega)

theorem absent (bound : i + 2 < n) :
    SortedList.lookup LeafNodeElement.key (e (i + 2)).key [e i, e (i + 1)] = none := by
  have first := grows.increasing i (i + 2) (by omega) bound
  have second := grows.increasing (i + 1) (i + 2) (by omega) bound
  rw [SortedList.lookup_eq_none_iff]
  simp [ne_of_lt first, ne_of_lt second]

theorem middle (bound : i + 2 < n) :
    [e i, e (i + 1)][splitIndex [e i, e (i + 1)]]? = some (e (i + 1)) := by
  rw [grows.splitIndex_eq (by omega)]
  rfl

theorem noRoom (bound : i + 2 < n) : packedSpace LeafNodeCodec.elementCodec [e i, e (i + 1)] <
    spaceRequired (e (i + 2)).key (e (i + 2)).value := by
  have full := grows.full i bound
  have pair := grows.pair i (by omega)
  rw [packed_two, spaceRequired_eq]
  omega

theorem small (bound : i + 2 < n) : spaceRequired (e (i + 2)).key (e (i + 2)).value < 65536 := by
  have pair := grows.next_pair bound
  rw [spaceRequired_eq]
  omega

/-- The second half of a full leaf has room for the next entry. -/
theorem room (bound : i + 2 < n) :
    spaceRequired (e (i + 2)).key (e (i + 2)).value + slotSize ≤
      packedSpace LeafNodeCodec.elementCodec (if (e (i + 2)).key < (e (i + 1)).key then
        [e i, e (i + 1)].take (splitIndex [e i, e (i + 1)])
      else [e i, e (i + 1)].drop (splitIndex [e i, e (i + 1)])) := by
  have pair := grows.next_pair bound
  rw [if_neg (grows.not_lt (by omega) bound), grows.splitIndex_eq (by omega), spaceRequired_eq,
    slotSize]
  show _ ≤ packedSpace LeafNodeCodec.elementCodec [e (i + 1)]
  rw [packed_one]
  omega

theorem rightPairs_eq (bound : i + 2 < n) : BPlusTree.rightPairs [e i, e (i + 1)]
    (splitIndex [e i, e (i + 1)]) (e (i + 1)).key (e (i + 2)).key (e (i + 2)).value =
      [e (i + 1), e (i + 2)] := by
  have behind := grows.not_lt (i := i + 1) (j := i + 2) (by omega) bound
  rw [grows.splitIndex_eq (by omega), BPlusTree.rightPairs, if_neg behind]
  exact if_neg behind

omit grows

/-- One byte for the key and about half a page for the value. -/
def entries (i : Nat) : LeafNodeElement := ⟨[i.toUInt8], List.replicate (2020 - i) 0⟩

theorem width_entries {i : Nat} (small : i < 256) :
    width LeafNodeCodec.elementCodec (entries i) = 2025 - i := by
  rw [LeafNodeCodec.width_eq, entries, List.length_replicate]
  simp only [List.length_cons, List.length_nil]
  omega

theorem growsRight_entries : GrowsRight entries 256 where
  increasing i j less bound := by
    refine List.Lex.rel ?_
    rw [UInt8.lt_iff_toNat_lt, Nat.toUInt8_eq, Nat.toUInt8_eq, UInt8.toNat_ofNat',
      UInt8.toNat_ofNat']
    omega
  narrower i bound := by
    rw [width_entries bound, width_entries (by omega)]
    omega
  pair i bound := by
    rw [width_entries bound, width_entries (by omega)]
    omega
  full i bound := by
    rw [width_entries bound, width_entries (i := i + 1) (by omega), width_entries (i := i) (by omega)]
    omega

end GrowsRight

/-- The tree after the first `m + 2` entries: `m` separators, and the last two entries share the
last leaf. -/
structure Grown (e : Nat → LeafNodeElement) (m : Nat) (w : World) (first : UInt64)
    (rest : List (Bytes × UInt64)) (pairs : UInt64 → List LeafNodeElement) : Prop
    extends Tidy w first rest pairs where
  separators : rest.map Prod.fst = (List.range m).map fun i => (e (i + 1)).key
  last : pairs (route (e m).key first rest) = [e m, e (m + 1)]
  fileSize : w.filePages ≤ 17 + 32 * m

namespace Grown

variable {e : Nat → LeafNodeElement} {n m : Nat} {w : World} {first : UInt64}
  {rest : List (Bytes × UInt64)} {pairs : UInt64 → List LeafNodeElement}

theorem height (grown : Grown e m w first rest pairs) (pos : 0 < m) : rest ≠ [] := by
  rintro rfl
  have none := grown.separators
  obtain ⟨m, rfl⟩ := Nat.exists_eq_succ_of_ne_zero pos.ne'
  simp [List.range_succ] at none

theorem separator_mem (grown : Grown e m w first rest pairs) {i : Nat} (pos : 0 < i)
    (bound : i ≤ m) : (e i).key ∈ rest.map Prod.fst := by
  rw [grown.separators]
  refine List.mem_map.mpr ⟨i - 1, List.mem_range.mpr (by omega), ?_⟩
  rw [Nat.sub_add_cancel pos]

/-- No separator is above the last but one entry. -/
theorem separator_le (grown : Grown e m w first rest pairs) (grows : GrowsRight e n)
    (bound : m < n) {entry : Bytes × UInt64} (member : entry ∈ rest) : entry.1 ≤ (e m).key := by
  have isKey := List.mem_map_of_mem (f := Prod.fst) member
  rw [grown.separators] at isKey
  obtain ⟨i, inRange, key⟩ := List.mem_map.mp isKey
  rw [← key]
  rcases Nat.lt_or_eq_of_le (Nat.succ_le_of_lt (List.mem_range.mp inRange)) with less | rfl
  · exact le_of_lt (grows.increasing _ _ less bound)
  · exact le_refl _

/-- Each entry but the last has a leaf of its own. -/
theorem leaf_ne (grown : Grown e m w first rest pairs) (grows : GrowsRight e n) (bound : m < n)
    {i j : Nat} (less : i < j) (inside : j ≤ m) :
    route (e i).key first rest ≠ route (e j).key first rest :=
  route_ne_of_lt_separator grown.stored.sorted grown.stored.nodup
    (grown.separator_mem (by omega) inside) (grows.increasing i j less (by omega))

theorem leaf_injective (grown : Grown e m w first rest pairs) (grows : GrowsRight e n)
    (bound : m < n) :
    Function.Injective fun i : Fin (m + 1) => route (e i).key first rest := by
  intro i j same
  rcases Nat.lt_trichotomy i j with less | equal | more
  · exact absurd same (grown.leaf_ne grows bound less (by omega))
  · exact Fin.ext equal
  · exact absurd same.symm (grown.leaf_ne grows bound more (by omega))

/-- The next entry goes to the last leaf. -/
theorem route_next (grown : Grown e m w first rest pairs) (grows : GrowsRight e n)
    (bound : m + 2 < n) : route (e (m + 2)).key first rest = route (e m).key first rest := by
  apply route_congr
  intro entry member
  have below := grown.separator_le grows (by omega) member
  have later := grows.increasing m (m + 2) (by omega) bound
  constructor
  · exact fun less => absurd (less.trans_le below) (lt_asymm later)
  · exact fun less => absurd less (not_lt.mpr below)

theorem separatorSpace_sum (grown : Grown e m w first rest pairs) :
    (rest.map fun entry => separatorSpace entry.1).sum =
      ((List.range m).map fun i => separatorSpace (e (i + 1)).key).sum := by
  have spaces := congrArg (List.map separatorSpace) grown.separators
  rw [List.map_map, List.map_map] at spaces
  exact congrArg List.sum spaces

section
variable (nextLSN : List LogEntry → UInt64)

/-- The next entry goes to the leaf of the last two. -/
theorem held (grown : Grown e m w first rest pairs) (grows : GrowsRight e n) (bound : m + 2 < n) :
    pairs (route (e (m + 2)).key first rest) = [e m, e (m + 1)] := by
  rw [grown.route_next grows bound]
  exact grown.last

/-- The third entry splits the leaf that is the root. -/
theorem split_root (grown : Grown e 0 w first rest pairs) (grows : GrowsRight e n)
    (bound : 2 < n) (separator : separatorSpace (e 1).key ≤ 4064) :
    BPlusTree.InsertOk w (e 2).key (e 2).value ∧
      ∃ w' rest' pairs', BPlusTree.insert nextLSN (e 2).key (e 2).value w = (.ok (), w') ∧
        Grown e 1 w' first rest' pairs' := by
  have limit : 200 ≤ maxFilePages := by decide
  have noSeparator : rest = [] := List.map_eq_nil_iff.mp grown.separators
  subst noSeparator
  have size := grown.fileSize
  have held : pairs first = [e 0, e 1] := grown.last
  have middle := grows.middle bound
  have ok := grown.toTidy.insertOk_split held (grows.small bound) (grows.noRoom bound) middle
    (grows.absent bound) (grows.room bound) separator
  obtain ⟨w', new, run, larger, tidy⟩ := grown.toTidy.splitRoot nextLSN (by omega) held
    (grows.small bound) (grows.noRoom bound) middle (grows.absent bound) (grows.room bound) separator
  refine ⟨ok, w', _, _, run, tidy, rfl, ?_, by omega⟩
  have routed : route (e 1).key first [((e 1).key, new)] = new := if_neg (lt_irrefl _)
  show Function.update _ new _ (route (e 1).key first [((e 1).key, new)]) = _
  rw [routed, Function.update_self]
  exact grows.rightPairs_eq bound

/-- From then on the next entry splits the last leaf below the root. -/
theorem split_last (grown : Grown e m w first rest pairs) (grows : GrowsRight e n)
    (pos : 0 < m) (bound : m + 2 < n) (space : 32 * m + 100 ≤ maxFilePages)
    (separators : ((List.range (m + 1)).map fun i => separatorSpace (e (i + 1)).key).sum ≤ 4064) :
    BPlusTree.InsertOk w (e (m + 2)).key (e (m + 2)).value ∧
      ∃ w' rest' pairs', BPlusTree.insert nextLSN (e (m + 2)).key (e (m + 2)).value w = (.ok (), w') ∧
        Grown e (m + 1) w' first rest' pairs' := by
  have size := grown.fileSize
  have height := grown.height pos
  have held := grown.held grows bound
  have room : separatorSpace (e (m + 1)).key +
      (rest.map fun entry => separatorSpace entry.1).sum ≤ 4064 := by
    rw [grown.separatorSpace_sum]
    simp only [List.range_succ, List.map_append, List.sum_append, List.map_cons, List.map_nil,
      List.sum_cons, List.sum_nil] at separators ⊢
    omega
  have middle := grows.middle bound
  have ok := grown.toTidy.insertOk_split held (grows.small bound) (grows.noRoom bound) middle
    (grows.absent bound) (grows.room bound) room
  obtain ⟨w', before, after, new, run, larger, rfl, below, above, tidy⟩ :=
    grown.toTidy.splitLeaf nextLSN height (by omega) held (grows.small bound) (grows.noRoom bound)
      middle (grows.absent bound) (grows.room bound) room
  -- the separator that goes up is above all of the others
  obtain rfl : after = [] := by
    rw [List.eq_nil_iff_forall_not_mem]
    intro entry member
    have lower := grown.separator_le grows (by omega) (List.mem_append_right before member)
    have higher := grows.increasing m (m + 1) (by omega) (by omega)
    exact lt_asymm (above entry member) (lower.trans_lt higher)
  refine ⟨ok, w', _, _, run, tidy, ?_, ?_, by omega⟩
  · have old := grown.separators
    rw [List.append_nil] at old
    rw [List.map_append, old, List.range_succ, List.map_append]
    rfl
  · have routed : route (e (m + 1)).key first (before ++ [((e (m + 1)).key, new)]) = new := by
      rw [route_append fun entry member => le_of_lt (below entry member)]
      exact if_neg (lt_irrefl _)
    show Function.update _ new _ (route (e (m + 1)).key first (before ++ [((e (m + 1)).key, new)])) = _
    rw [routed, Function.update_self]
    exact grows.rightPairs_eq bound

/-- Inserting the entries one after the other, as long as the root has room for the
separators. -/
theorem reach (grows : GrowsRight e n) (bound : m + 1 < n) (space : 32 * m + 200 ≤ maxFilePages)
    (separators : ((List.range m).map fun i => separatorSpace (e (i + 1)).key).sum ≤ 4064) :
    ∃ s first rest pairs, Reach (NilStep nextLSN) CallOk (· = ⟨newDatabase, fun _ => none⟩) s ∧
      Grown e m s.world first rest pairs := by
  -- by induction on the separators: the root splits for the first, the last leaf for the others
  induction m with
  | zero =>
    have pair : width LeafNodeCodec.elementCodec (e 0) + width LeafNodeCodec.elementCodec (e 1) + 8 ≤
        4064 := grows.pair 0 bound
    have first : spaceRequired (e 0).key (e 0).value + slotSize ≤ 4064 := by
      rw [GrowsRight.spaceRequired_eq, slotSize]
      omega
    have second : spaceRequired (e 1).key (e 1).value + slotSize ≤
        packedSpace LeafNodeCodec.elementCodec [⟨(e 0).key, (e 0).value⟩] := by
      rw [GrowsRight.packed_one, GrowsRight.spaceRequired_eq, slotSize]
      show _ ≤ 4060 - width LeafNodeCodec.elementCodec (e 0)
      omega
    obtain ⟨s, leaf, pairs, reached, tidy, held, small⟩ :=
      reach_two nextLSN (grows.increasing 0 1 (by omega) bound) first second
    exact ⟨s, leaf, [], pairs, reached, tidy, rfl, held, by omega⟩
  | succ m ih =>
    have fewer : ((List.range m).map fun i => separatorSpace (e (i + 1)).key).sum ≤ 4064 := by
      simp only [List.range_succ, List.map_append, List.sum_append] at separators
      omega
    obtain ⟨s, first, rest, pairs, reached, grown⟩ := ih (by omega) (by omega) fewer
    have size := grown.fileSize
    have disk : s.world.filePages + 32 ≤ maxFilePages := by omega
    cases m with
    | zero =>
      obtain ⟨ok, w', rest', pairs', run, grown'⟩ := grown.split_root nextLSN grows bound (by
        simpa using separators)
      exact ⟨_, first, rest', pairs', reach_insert reached ⟨disk, ok⟩ run, grown'⟩
    | succ m =>
      obtain ⟨ok, w', rest', pairs', run, grown'⟩ :=
        grown.split_last nextLSN grows (by omega) bound (by omega) separators
      exact ⟨_, first, rest', pairs', reach_insert reached ⟨disk, ok⟩ run, grown'⟩

end

end Grown

end CambiumDB
