import FpgaCraft.Library.Signed
import FpgaCraft.Library.Machine
import FpgaCraft.Library.Lines
import FpgaCraft.Library.RoundRobin
import FpgaCraft.Library.GridWalk
import FpgaCraft.Library.Scan
import FpgaCraft.Library.Bits
import FpgaCraft.Library.Delay
import FpgaCraft.Library.Runs
import FpgaCraft.Library.Cells
import FpgaCraft.Library.PostedWrite
import FpgaCraft.Software.Fixed
import FpgaCraft.Software.Vec3
import FpgaCraft.Software.World
import FpgaCraft.Software.L2
import FpgaCraft.Software.Coherence
import FpgaCraft.Software.Service
import FpgaCraft.Software.Vtu
import FpgaCraft.Software.Cluster
import FpgaCraft.Software.Cast
import FpgaCraft.Software.Refinement
import FpgaCraft.Software.Orchestrator
import FpgaCraft.Software.Frame
import FpgaCraft.Software.Normal
import FpgaCraft.Software.Termination
import FpgaCraft.Software.PixelIndex
import FpgaCraft.Software.Exact
import FpgaCraft.Software.Sight
import FpgaCraft.Software.LevelCamera
import FpgaCraft.Software.Setup
import FpgaCraft.Software.March
import FpgaCraft.Software.Overshoot
import FpgaCraft.Software.NoPanic
import FpgaCraft.Software.FrameDone
import FpgaCraft.Software.ManyUnits
import FpgaCraft.Library.Registers
import FpgaCraft.Hardware.Types
import FpgaCraft.Hardware.L2
import FpgaCraft.Hardware.L2Coherence
import FpgaCraft.Hardware.L2Tags
import FpgaCraft.Hardware.Chunk
import FpgaCraft.Server.Snapshot
import FpgaCraft.Server.Blocks
import FpgaCraft.Server.Plugin
import FpgaCraft.Server.Window
import FpgaCraft.Server.BlockNames
import FpgaCraft.Server.StaleCells
import FpgaCraft.Server.Layout
import FpgaCraft.Hardware.ChunkImage
import FpgaCraft.Hardware.Fixed
import FpgaCraft.Hardware.Vec3
import FpgaCraft.Agreement.Newton
import FpgaCraft.Agreement.Normalize
import FpgaCraft.Hardware.Vtu
import FpgaCraft.Hardware.RayInit
import FpgaCraft.Hardware.Walk
import FpgaCraft.Hardware.Traversal
import FpgaCraft.Hardware.WrapAround
import FpgaCraft.Agreement.Reciprocal
import FpgaCraft.Agreement.RayDist
import FpgaCraft.Hardware.Orchestrator
import FpgaCraft.Hardware.FrameStart
import FpgaCraft.Hardware.StaleRay
import FpgaCraft.Hardware.Frame
import FpgaCraft.Hardware.Raster
import FpgaCraft.Hardware.Tmds
import FpgaCraft.Hardware.Uart
import FpgaCraft.Hardware.UartLoopback
import FpgaCraft.Hardware.UartResync
import FpgaCraft.Hardware.L3
import FpgaCraft.Hardware.L3Memory
import FpgaCraft.Software.Drift
import FpgaCraft.Software.FollowsRay
import FpgaCraft.Hardware.CameraBasis
import FpgaCraft.Hardware.Throughput
import FpgaCraft.Hardware.FrameCount
import FpgaCraft.Hardware.SlidingWindow
import FpgaCraft.Hardware.ScaleUp
import FpgaCraft.Library.File
import FpgaCraft.Server.ChunkFile
import FpgaCraft.Hardware.UartStream
import FpgaCraft.Server.PlayerInput
import FpgaCraft.Server.SendBlocks
import FpgaCraft.Library.Packed
import FpgaCraft.Server.BlockStore
import FpgaCraft.Server.Chunk
import FpgaCraft.Server.ChunkEdits
import FpgaCraft.Server.ChunkLoading
import FpgaCraft.Server.ChunkResidency
import FpgaCraft.Server.PluginWorld
import FpgaCraft.Hardware.TmdsLink
import FpgaCraft.Hardware.VideoOut
import FpgaCraft.Hardware.FrameTime
import FpgaCraft.Library.BigEndian
import FpgaCraft.Library.FirstFit
import FpgaCraft.Server.RegionFile
import FpgaCraft.Server.RegionHeader
import FpgaCraft.Server.RegionSaves
import FpgaCraft.Server.RegionRuns
import FpgaCraft.Server.RegionLevel
import FpgaCraft.Server.RegionChunks
import FpgaCraft.Server.RegionWorker
