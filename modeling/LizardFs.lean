import LizardFs.Lib.Machine
import LizardFs.Lib.PartitionPoint
import LizardFs.Common.Status
import LizardFs.IdPool.Block
import LizardFs.IdPool.Pool
import LizardFs.IdPool.Detainer
import LizardFs.Locks.LockRange
import LizardFs.Locks.FileLocks
import LizardFs.Common.SliceType
import LizardFs.Common.SliceTraits
import LizardFs.Lib.Striping
import LizardFs.Common.Stripes
import LizardFs.Lib.XorLinear
import LizardFs.Lib.ReflectedCrc
import LizardFs.Common.Crc
import LizardFs.Common.GaloisField
import LizardFs.Lib.Simd
import LizardFs.Common.EncodeData
import LizardFs.Serialization.Decode
import LizardFs.Serialization.Encode
import LizardFs.Serialization.RoundTrip
import LizardFs.Uraft.Node
import LizardFs.Uraft.Network
import LizardFs.Uraft.Timed
import LizardFs.Lib.XorFold
import LizardFs.Lib.CounterTable
import LizardFs.Lib.ScannedChecksum
import LizardFs.Master.ChunkTable
import LizardFs.Master.ChunkAgree
import LizardFs.Master.ChunkChecksum
import LizardFs.Master.ChunkStats
import LizardFs.Master.BackgroundChecksum
import LizardFs.Master.Nodes
import LizardFs.Master.Filesystem
import LizardFs.Master.Replay
import LizardFs.Master.Confinement
import LizardFs.Master.NodeOps
import LizardFs.Master.Snapshot
import LizardFs.Lib.Decimal
import LizardFs.Master.ParseNet
import LizardFs.Master.Exports
import LizardFs.Lib.Forest
import LizardFs.Master.QuotaDir
import LizardFs.Common.SliceReadPlan
import LizardFs.Common.SliceReadPlanner
import LizardFs.Lib.Placement
import LizardFs.Lib.CountWalk
import LizardFs.Lib.OrderStatistic
import LizardFs.Common.Goal
import LizardFs.Common.FlatSlice
import LizardFs.Lib.WhileLoop
import LizardFs.Lib.Assignment
import LizardFs.Common.LinearAssignmentOptimizer
import LizardFs.Common.ChunkCopiesCalculator
import LizardFs.Common.CalculatorRuns
import LizardFs.Common.Optimize
import LizardFs.Common.RemoveSafety
import LizardFs.Common.RedundancyUpdate
import LizardFs.Lib.Paging
import LizardFs.Locks.Listing
import LizardFs.Locks.WellFormed
import LizardFs.Locks.SessionUnlock
import LizardFs.Locks.Owners
import LizardFs.Locks.Grants
import LizardFs.Locks.ApplyOwners
import LizardFs.Locks.InsertLoop
import LizardFs.Locks.Collision
import LizardFs.Locks.Insert
import LizardFs.Lib.CString
import LizardFs.Master.Changelog
import LizardFs.Master.Restore
import LizardFs.Master.ChangelogText
import LizardFs.Lib.ArrayHeap
import LizardFs.Master.RestoreRun
import LizardFs.Metarestore.Merger
import LizardFs.Metarestore.Replay
import LizardFs.Metarestore.Rebuild
import LizardFs.Master.MasterConn
