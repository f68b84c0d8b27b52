import CambiumDB.BPlusTree.GrowRight
import CambiumDB.BufferPool.FetchFailures

/-!
# Readers of one tree and the frames they pin

A `Get` keeps the guard of the root until it has come back from the leaf. The engine opens its
pool with five frames, so five clients at five leaves of one tree need six.
-/

namespace CambiumDB

open ByteBuffer Router TreeM TransitionSystem

open InternalNodeCodec (separatorSpace)

namespace World

/-- The disk of a store whose pages have all been written back. -/
def flushed (w : World) : DiskManager where
  file := ⟨4096 * w.filePages, fun i => (w.pages (i / 4096).toUInt64).byte (i % 4096)⟩
  metadata := w.metadata

theorem flushed_read {w : World} {id : UInt64} (inside : id.toNat < w.filePages)
    (limit : w.filePages ≤ maxFilePages) : w.flushed.read id = some (w.pages id) := by
  have bound : 4096 * maxFilePages = DiskManager.maxFileSize := by decide
  have within : w.flushed.InFile id := by
    show 4096 * (id.toNat + 1) ≤ 4096 * w.filePages
    omega
  have small : w.flushed.file.size ≤ DiskManager.maxFileSize := by
    show 4096 * w.filePages ≤ _
    omega
  rw [within.read_eq small]
  apply File.read_of_bytes
  · show 4096 * id.toNat + 4096 ≤ 4096 * w.filePages
    omega
  · intro i inPage
    have page : (4096 * id.toNat + i) / 4096 = id.toNat := by omega
    have offset : (4096 * id.toNat + i) % 4096 = i := by omega
    show _ = (w.pages ((4096 * id.toNat + i) / 4096).toUInt64).byte ((4096 * id.toNat + i) % 4096)
    rw [page, offset, Nat.toUInt64_eq, UInt64.ofNat_toNat]

end World

namespace BPlusTree

/-- At some moment of the call it had exactly these guards, the last one first. -/
def HoldsTogether (guards : List UInt64) (w' : World) : Prop :=
  ∃ moment ∈ w'.history, moment.guards = guards

theorem get_holdsTogether {w : World} {first : UInt64} {rest : List (Bytes × UInt64)}
    {pairs : UInt64 → List LeafNodeElement} (ready : Ready w) (stored : Stored w first rest pairs)
    (height : rest ≠ []) (key : Bytes) :
    HoldsTogether [route key first rest, w.tree.rootNodePageId] (get key w).2 := by
  rw [get_twoLevels ready stored height key]
  have guards : route key first rest :: (w.acquire w.tree.rootNodePageId).guards =
      [route key first rest, w.tree.rootNodePageId] := by
    rw [World.acquire_guards, ready.guards]
  refine ⟨⟨w.pages, _, w.log⟩, ?_, guards⟩
  simp [World.release, World.visit, World.acquire]

end BPlusTree

/-- Five inserted pairs of a tree with five leaves are read at the same time, through the pool of
the engine: the last of the five to ask for its leaf finds neither a free frame nor a victim. -/
theorem concurrent_gets_exhaust_pool :
    ∃ (s : Session) (key : Fin 5 → Bytes) (leaf : Fin 5 → UInt64) (pool : SharedPool (Fin 5) 5),
      Reach (NilStep recordLSN) CallOk (· = ⟨newDatabase, fun _ => none⟩) s ∧
      (∀ t, BPlusTree.HoldsTogether [leaf t, s.world.tree.rootNodePageId]
        (BPlusTree.get (key t) s.world).2) ∧
      Reach SharedPool.Step (SharedPool.Descends fun t => [s.world.tree.rootNodePageId, leaf t])
        SharedPool.Opened pool ∧
      pool.pool.disk = s.world.flushed ∧ pool.Free ∧ pool.threads 4 = .missed (leaf 4) ∧
      ¬ SharedPool.Answers (leaf 4) (pool.pool.fetchExclusive (leaf 4) false .done) := by
  obtain ⟨s, first, rest, pairs, reached, grown⟩ := Grown.reach (m := 4) recordLSN
    GrowsRight.growsRight_entries (by omega) (by decide) (by decide)
  have height := grown.height (by omega)
  have outside := (grown.stored.nodeRoot height).2
  have readable {id : UInt64} (allocated : id ≤ s.world.metadata.maxAllocatedPageId) :
      ∃ data, s.world.flushed.read id = some data :=
    ⟨_, World.flushed_read (grown.ready.within allocated) grown.ready.limit⟩
  have distinct : Function.Injective fun t : Fin 5 => route (GrowsRight.entries t).key first rest :=
    grown.leaf_injective GrowsRight.growsRight_entries (by omega)
  have below : ∀ t : Fin 5, route (GrowsRight.entries t).key first rest ≠
      s.world.tree.rootNodePageId := fun t same => outside (same ▸ route_mem _ first rest)
  have rootReadable := readable grown.stored.rootAllocated.2
  obtain ⟨pool, walked, onDisk, free, missed, panics⟩ := SharedPool.clients_exhaust_pool distinct
    below rootReadable (fun t => readable (grown.stored.allocated _ (route_mem _ first rest)).2)
  refine ⟨s, fun t => (GrowsRight.entries t).key, _, pool, reached, ?_, walked, onDisk, free,
    missed, ?_⟩
  · intro t
    exact BPlusTree.get_holdsTogether grown.ready grown.stored height _
  · intro answers
    have last : (Fin.last 4 : Fin 5) = 4 := rfl
    rw [last] at panics
    rw [panics] at answers
    exact answers

end CambiumDB
