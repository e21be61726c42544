import MemMux.State
import MemMux.Budget
import MemMux.Admission
import MemMux.Journal
import MemMux.Chain
import MemMux.KeyMap
import MemMux.Search
import MemMux.Pressure
import MemMux.ProcessTree
import MemMux.Run
import MemMux.Format
import MemMux.Checkpoint
import MemMux.CheckpointJson
import MemMux.Frame
import MemMux.Attach
import MemMux.Worktree
import MemMux.Store
import MemMux.Adapter
import MemMux.Proto
import MemMux.World
import MemMux.Launch
import MemMux.Lifecycle
import MemMux.Freeze
import MemMux.Pump
import MemMux.Daemon
import MemMux.Calls
import MemMux.Ledger
import MemMux.LedgerMoves
import MemMux.PumpMoves
import MemMux.Capacity
import MemMux.Rollback
import MemMux.Reclaim
import MemMux.Chores
import MemMux.ChoreMoves
import MemMux.Record
import MemMux.RecordMoves
import MemMux.PumpRecords
import MemMux.Crash
import MemMux.Durability
import MemMux.Retained
import MemMux.TaskIds
import MemMux.Permanence
import MemMux.Stops
import MemMux.Emergency
import MemMux.Isolation
import MemMux.Housing
import MemMux.Utf8
import MemMux.Lines
import MemMux.Ring
import MemMux.Capture
import MemMux.Governance
import MemMux.Fates
import MemMux.History
import MemMux.Walks
import MemMux.Attribution
import MemMux.ChunkStore
import MemMux.Session
import MemMux.Tee
import MemMux.Clients
import MemMux.Chunking
import MemMux.Resident
import MemMux.Scrollback
import MemMux.Seat
import MemMux.SeatMoves
import MemMux.Pass
import MemMux.Residency
import MemMux.Intents
import MemMux.SafePoint
import MemMux.LowHold
import MemMux.Binary64
import MemMux.Managed
import MemMux.Greedy
import MemMux.AdmissionPlan
import MemMux.Exclusive
import MemMux.MutationLock
import MemMux.PaneLayout
import MemMux.Tui
import MemMux.Prompt
import MemMux.PaneGroups
import MemMux.Landing
import MemMux.Startup
import MemMux.PidTable
import MemMux.Reaping
import MemMux.Teardown
import MemMux.Paging
import MemMux.EventLog
import MemMux.FrameStream
import MemMux.Registry
import MemMux.Starting
import MemMux.RepoIds
import MemMux.Porcelain
import MemMux.Completion
import MemMux.Slug
import MemMux.Decimal
import MemMux.Words
import MemMux.LinuxParse
import MemMux.LinuxSampler
import MemMux.SemVer
import MemMux.SelfUpdate
import MemMux.BinarySwap
import MemMux.Pairing
import MemMux.Ratio
import MemMux.Clicks
import MemMux.Sidebar
import MemMux.PaneFocus
import MemMux.Accounting
import MemMux.BenchRecord
import MemMux.Evidence
import MemMux.SortBy
import MemMux.Pairs
import MemMux.Conflict
import MemMux.Splits
import MemMux.Layouts
import MemMux.Stub
import MemMux.Scenarios
import MemMux.Tiling
import MemMux.Tiles
import MemMux.Leader
import MemMux.Frontend
import MemMux.Loop
import MemMux.Drawn
import MemMux.Typing
import MemMux.Cleanup
import MemMux.Retelling
import MemMux.Trail
import MemMux.TrailKeeps
import MemMux.TrailMoves
import MemMux.Audit
import MemMux.Calendar
import MemMux.Stamp
