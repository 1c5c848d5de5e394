import Ebb.Server.ClientAgreement
import Ebb.Server.AtMostOnce
import Ebb.Server.Positions
import Ebb.Server.CleanReads
import Ebb.Storage.ReplicaRuns
import Ebb.Sync.OutboxAgreement
import Ebb.Server.ReadSchedule
import Ebb.Access.Confinement
import Ebb.Access.ScopeExactness
import Ebb.Access.BootAgreement
import Ebb.Sync.FanOutRouter
import Ebb.Core.FieldSemilattice
import Ebb.Server.WireMerge
import Ebb.Sync.LiveDelivery
import Ebb.Storage.Adjacency
import Ebb.Text.PositionIndex
import Ebb.Access.LiveRows
import Ebb.Access.PermissionHelper
import Ebb.Core.HybridClock
import Ebb.Core.WireCodec
import Ebb.Server.WatermarkRaces
import Ebb.Server.ClaimOrder
import Ebb.Storage.OverlayAlgebra
import Ebb.Storage.AdapterAgreement
import Ebb.Storage.DatabaseRuns
import Ebb.Server.CallQueue
import Ebb.Server.CallRuns
import Ebb.Sync.ListedPages
import Ebb.Text.LocalEdits
import Ebb.Sync.QueryAgreement
import Ebb.Server.WorkerCheckouts
import Ebb.Functions.OwnWrites
import Ebb.Functions.PreflightAgreement
import Ebb.Sync.RelationshipSets
import Ebb.Text.InvisibleSplits
import Ebb.Text.InsertPositions
import Ebb.Text.InsertOrders
import Ebb.Text.Rehydration
import Ebb.Sync.LiveMembership
import Ebb.Sync.LiveSubscriptions
import Ebb.Server.CallerRanges
import Ebb.Text.DerivedIds
import Ebb.Sync.ConflictGroups
import Ebb.Sync.FlushRuns
import Ebb.Server.EntityGsnIndex
import Ebb.Storage.ShardedMerges
import Ebb.Sync.RemoteVerdicts
import Ebb.Server.PatchedRows
import Ebb.Text.RunIds
import Ebb.Sync.QueryOrder
import Ebb.Sync.Frames
import Ebb.Sync.PresenceRateLimit
import Ebb.Functions.FrameCodec
import Ebb.Core.ClockNetwork
import Ebb.Sync.IndexedQuery
import Ebb.Text.BridgeSessions
