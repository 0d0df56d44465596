import SnapshotEtl.Lib.Replacing
import SnapshotEtl.Lib.Summary
import SnapshotEtl.Lib.Lts
import SnapshotEtl.Rows
import SnapshotEtl.Decoders
import SnapshotEtl.Tables
import SnapshotEtl.Metadata
import SnapshotEtl.Worker
import SnapshotEtl.FanoutWorker
import SnapshotEtl.Sink
import SnapshotEtl.Stats
import SnapshotEtl.Exec
import SnapshotEtl.StreamImport
import SnapshotEtl.Sequential
import SnapshotEtl.Pool
import SnapshotEtl.LateWrites
import SnapshotEtl.Parallel
import SnapshotEtl.Progress
import SnapshotEtl.Journal
import SnapshotEtl.Watermark
import SnapshotEtl.HotIndexes
import SnapshotEtl.GroupImport
import SnapshotEtl.CrashRetry
import SnapshotEtl.TokenAccounts
import SnapshotEtl.Balances
import SnapshotEtl.Merges
import SnapshotEtl.Chain
import SnapshotEtl.Bridge
import SnapshotEtl.Lib.Prog
import SnapshotEtl.Watcher.World
import SnapshotEtl.Watcher.Loop
import SnapshotEtl.Watcher.Protocol
import SnapshotEtl.Watcher.Verified
import SnapshotEtl.Watcher.Turn
import SnapshotEtl.Watcher.Machine
import SnapshotEtl.Watcher.Consistency
import SnapshotEtl.Watcher.Effects
import SnapshotEtl.Watcher.Retention
import SnapshotEtl.Watcher.Cutover
import SnapshotEtl.Watcher.FrozenSets
import SnapshotEtl.AppendVecs
import SnapshotEtl.Extractors
import SnapshotEtl.InsertAge
import SnapshotEtl.ResumeSlot
import SnapshotEtl.Watcher.Watermarks
import SnapshotEtl.Lib.Codec
import SnapshotEtl.MetadataValue
import SnapshotEtl.MintExtensions
import SnapshotEtl.FullLoader
import SnapshotEtl.RecordChain
import SnapshotEtl.CloseCandidates
import SnapshotEtl.MetadataMerge
import SnapshotEtl.TombstonePass
import SnapshotEtl.TombstoneRepair
import SnapshotEtl.ZeroBalances
import SnapshotEtl.Lib.Lines
import SnapshotEtl.Lib.Jumps
import SnapshotEtl.Lib.Quoting
import SnapshotEtl.Watcher.HotMintFiles
import SnapshotEtl.SqlText
import SnapshotEtl.ArchiveSelection
import SnapshotEtl.OpcodeStats
import SnapshotEtl.TokenInfo
import SnapshotEtl.SinkBooks
import SnapshotEtl.Watcher.Migration
import SnapshotEtl.Lib.AtomicFile
import SnapshotEtl.Watcher.JournalDocument
import SnapshotEtl.Watcher.JournalFile
import SnapshotEtl.PoolProgress
import SnapshotEtl.Lib.Gate
import SnapshotEtl.InsertGate
import SnapshotEtl.MergeBarrier
import SnapshotEtl.Serving
import SnapshotEtl.DerivedRebuild
import SnapshotEtl.SchemaCheck
import SnapshotEtl.StorageLayout
import SnapshotEtl.ArchiveReader
