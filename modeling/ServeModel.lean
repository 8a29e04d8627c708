import ServeModel.Scheduler.Theorems.BatchKey
import ServeModel.Collect.Theorems.Handoff
import ServeModel.Collect.Theorems.Initialization
import ServeModel.Collect.Theorems.Arrival
import ServeModel.Runtime.Theorems.Pass
import ServeModel.Scheduler.Theorems.Starvation
import ServeModel.ZarrIo.Theorems.ChunkSize
import ServeModel.ZarrIo.Theorems.NoOverwrite
import ServeModel.ZarrIo.Theorems.Registration
import ServeModel.ZarrIo.Theorems.BufferPool
import ServeModel.ZarrIo.Theorems.Files
import ServeModel.Inference.Theorems.Members
import ServeModel.Scheduler.Theorems.BatchRequest
import ServeModel.Collect.Theorems.Counters
import ServeModel.Server.Theorems.Declared
import ServeModel.Build.Export
import ServeModel.Bundle.Theorems.Extract
import ServeModel.Prefetch.Theorems.Artifacts
import ServeModel.Scheduler.Theorems.Placement
import ServeModel.Scheduler.Theorems.StageAdvance
import ServeModel.ZarrIo.Theorems.AxisLookup
import ServeModel.ZarrIo.Theorems.PoolBudget
import ServeModel.ZarrIo.Theorems.CopyBarrier
import ServeModel.Runtime.Pending
import ServeModel.Runtime.Theorems.Reclaim
import ServeModel.Lib.LittleEndian
import ServeModel.ZarrIo.CoordArrays
import ServeModel.ZarrIo.Theorems.CoordArrays
import ServeModel.Runtime.RunHash
import ServeModel.Runtime.Theorems.RunHash
import ServeModel.Runtime.Theorems.Launcher
