import ScoreP.Addr2line.LookupSafety
import ScoreP.Addr2line.SourceLookups
import ScoreP.AllocMetric.Ledger
import ScoreP.AllocMetric.LinkedTrees
import ScoreP.Callpath.Handles
import ScoreP.Clustering.Manhattan
import ScoreP.Clustering.Matching
import ScoreP.Config.BitsetLoop
import ScoreP.Config.NumberRange
import ScoreP.Config.Registration
import ScoreP.Config.Rejection
import ScoreP.Cuda.BufferSafety
import ScoreP.Cuda.IdleOrder
import ScoreP.Definitions.RmaWindow
import ScoreP.Definitions.UnifyHierarchical
import ScoreP.FastHashtab.MonotonicSafety
import ScoreP.FastHashtab.RemoveIf
import ScoreP.Filter.Evaluation
import ScoreP.Hashtab.Refinement
import ScoreP.Instrumenter.Selector
import ScoreP.Io.Nesting
import ScoreP.Io.TableSafety
import ScoreP.IoTools.GetLine
import ScoreP.IoTools.PathMeaning
import ScoreP.Ipc.CollectiveDelivery
import ScoreP.Ipc.ReductionMeaning
import ScoreP.Ipc.TransferCompletion
import ScoreP.Memory.BitsetContract
import ScoreP.Mpi.CollVectors
import ScoreP.Mpi.CommRounds
import ScoreP.Mpi.RequestRuns
import ScoreP.Mpi.RequestVisits
import ScoreP.Mpi.RmaVisits
import ScoreP.Mpi.TableRefinement
import ScoreP.Ompt.InMeasurement
import ScoreP.Ompt.MutexSafety
import ScoreP.Ompt.TargetDataSafety
import ScoreP.Ompt.TaskCreationSafety
import ScoreP.Profile.TaskMigration
import ScoreP.Profile.TreeSort
import ScoreP.RWLock.Completion
import ScoreP.Recycling.Safety
import ScoreP.Score.Estimates
import ScoreP.Score.EventSizes
import ScoreP.Score.FilterFileMeaning
import ScoreP.Score.MemoryHint
import ScoreP.Selective.Safety
import ScoreP.Tasks.TaskSafety
import ScoreP.ToolsUtils.Backslashing
import ScoreP.ToolsUtils.WrapLines
import ScoreP.Tracing.RewindSafety
import ScoreP.Unwinding.SampleUndo
import ScoreP.Vector.Bounds
