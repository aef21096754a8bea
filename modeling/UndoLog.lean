import UndoLog.Properties.Commits
import UndoLog.Properties.Lifecycle
import UndoLog.Properties.HumanGate
import UndoLog.Properties.Resolution
import UndoLog.Properties.Waiting
import UndoLog.Properties.Granting
import UndoLog.Properties.AllOrNothing
import UndoLog.Properties.WriteAhead
import UndoLog.Properties.Recovery
import UndoLog.Properties.FullyUndone
import UndoLog.Properties.DeadLetters
import UndoLog.Properties.CompensationArgs
import UndoLog.Properties.StoredDescriptors
import UndoLog.Properties.FailedCalls
import UndoLog.Properties.LostReplies
import UndoLog.Properties.ApprovedOnce
import UndoLog.Properties.Faithful
import UndoLog.Properties.SignedBytes
import UndoLog.Properties.CodePoints
import UndoLog.Properties.ConsistentDecisions
import UndoLog.Properties.WakeUps
import UndoLog.Properties.SingleProbe
import UndoLog.Properties.SingleTest
import UndoLog.Properties.KeepAlive
import UndoLog.Properties.ReplayTransparency
import UndoLog.Properties.Tenants
import UndoLog.Properties.RequestRate
import UndoLog.Properties.FanOut
import UndoLog.Properties.TransparentChain
import UndoLog.Properties.ReplayCounter
import UndoLog.Properties.HarnessBudget
import UndoLog.Properties.TierLookup
import UndoLog.Store.Timestamps
import UndoLog.Properties.ChunkedBodies
import UndoLog.Properties.RequestIds
import UndoLog.Properties.StepIndices
import UndoLog.Proxy.MetricRoutes
import UndoLog.Properties.ConnectionLosses
import UndoLog.Sdk.ClientSteps
import UndoLog.Proxy.ConfigWatch
import UndoLog.Store.Migrations
import UndoLog.Engine.SessionCache
import UndoLog.Properties.PendingCounter
