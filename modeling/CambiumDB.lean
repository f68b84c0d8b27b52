import CambiumDB.BufferPool.Allocator
import CambiumDB.BufferPool.NewPages
import CambiumDB.BPlusTree.Structure
import CambiumDB.BPlusTree.Iterator
import CambiumDB.StorageEngine.RedoChecksum
import CambiumDB.BPlusTree.LiveChecksums
import CambiumDB.PageCodec.SplitIndex
import CambiumDB.BPlusTree.PoolExhaustion
import CambiumDB.BPlusTree.NodeWriters
import CambiumDB.BPlusTree.FailedAnswers
import CambiumDB.BPlusTree.InsertLeaks
import CambiumDB.BPlusTree.EntrySize
import CambiumDB.BufferPool.Replacer
import CambiumDB.PageCodec.MetaDataRoundTrip
import CambiumDB.Server.RequestBody
import CambiumDB.BPlusTree.IteratorGuards
import CambiumDB.PageCodec.SpaceComplete
import CambiumDB.StorageEngine.RedoUpdate
import CambiumDB.StorageEngine.DoubleAllocation
import CambiumDB.Server.Shutdown
import CambiumDB.StorageEngine.Journal
