import Mathlib.Data.Int.Notation
import UndoLog.Types.Json

/-!
# Domain types

Identifiers, tiers, tool calls, the rows of the five tables and the errors of the
runtime. Columns and fields that no modelled function reads or writes are left
out. Timestamps are whole seconds since 1970-01-01 UTC.
-/

namespace UndoLog

/-! ## Identifiers and time -/

/-- A 128-bit identifier. -/
abbrev Uuid : Type := BitVec 128

/-- A tenant. -/
structure OrgId where
  uuid : Uuid
deriving DecidableEq

/-- One agent execution session. -/
structure SessionId where
  uuid : Uuid
deriving DecidableEq

/-- One logged tool call. -/
structure EffectId where
  uuid : Uuid
deriving DecidableEq

/-- A registered tool. -/
structure ToolId where
  uuid : Uuid
deriving DecidableEq

/-- One entry of the undo stack. -/
structure UndoId where
  uuid : Uuid
deriving DecidableEq

/-- One request for a human decision. -/
structure ApprovalRequestId where
  uuid : Uuid
deriving DecidableEq

/-- The BLAKE3 digest of a call, written as 64 hexadecimal characters in the source. -/
structure CallSignature where
  digest : BitVec 256
deriving DecidableEq

/-- Seconds since the Unix epoch. -/
abbrev Time : Type := ℤ

/-- A calendar month, the range of one partition of the effect log. -/
structure Month where
  year : ℤ
  month : ℤ
deriving DecidableEq

/-- The calendar month of a point in time. The year is counted from March, so
that the leap day comes last. -/
def monthOf (t : Time) : Month :=
  let z := t / 86400 + 719468
  let era := z / 146097
  let dayOfEra := z % 146097
  let yearOfEra := (dayOfEra - dayOfEra / 1460 + dayOfEra / 36524 - dayOfEra / 146096) / 365
  let dayOfYear := dayOfEra - (365 * yearOfEra + yearOfEra / 4 - yearOfEra / 100)
  let fromMarch := (5 * dayOfYear + 2) / 153
  let month := if fromMarch < 10 then fromMarch + 3 else fromMarch - 9
  let year := yearOfEra + era * 400
  { year := if month ≤ 2 then year + 1 else year, month }

/-- The last second of May 2026 and the first of June lie in different months. -/
example : monthOf 1780271999 = ⟨2026, 5⟩ ∧ monthOf 1780272000 = ⟨2026, 6⟩ := by decide

/-! ## Tiers and calls -/

/-- How to undo a compensable call. -/
structure CompensationDescriptor where
  fnName : String
  fnVersion : String
  args : Json
  maxRetries : UInt8
  retryBackoffMs : UInt32

/-- A descriptor with the defaults for version, retries and backoff. -/
def CompensationDescriptor.new (fnName : String) (args : Json) : CompensationDescriptor where
  fnName := fnName
  fnVersion := "1.0.0"
  args := args
  maxRetries := 3
  retryBackoffMs := 1000

/-- How the engine treats a tool call. -/
inductive ToolTier where
  | safe
  | compensable (compensation : CompensationDescriptor)
  | irreversible (reason : String)

/-- The tier column of the effect log. -/
inductive TierLabel where
  | safe
  | compensable
  | irreversible
deriving DecidableEq

/-- An intercepted tool call. -/
structure ToolCall where
  orgId : OrgId
  sessionId : SessionId
  toolId : Option ToolId
  toolName : String
  toolVersion : String
  stepIndex : UInt32
  args : Json

/-- The hash behind call signatures: BLAKE3 over an encoding of the session, the
step, the tool name and the canonical arguments. -/
abbrev SignatureHash : Type := SessionId → UInt32 → String → Json → CallSignature

/-- The signature of a call. Neither the organisation nor the tool version is
part of it. -/
def ToolCall.signature (hash : SignatureHash) (call : ToolCall) : CallSignature :=
  hash call.sessionId call.stepIndex call.toolName call.args

/-! ## Lifecycle states -/

/-- State of a logged tool call. -/
inductive EffectState where
  | pending
  | executing
  | committed
  | compensating
  | compensated
  | compensationFailed
  | approved
  | rejected
  | replayed
deriving DecidableEq

/-- The states documented as final. -/
def EffectState.isTerminal : EffectState → Bool
  | .committed | .compensated | .compensationFailed | .rejected | .replayed => true
  | _ => false

/-- State of a session. -/
inductive SessionState where
  | active
  | completed
  | failed
  | compensating
  | compensated
  | awaitingApproval
  | halted
deriving DecidableEq

/-- The final states of a session. -/
def SessionState.isTerminal : SessionState → Bool
  | .completed | .compensated | .halted => true
  | _ => false

/-- State of an approval request. -/
inductive ApprovalState where
  | pending
  | approved
  | rejected
  | timedOut
  | autoApproved
deriving DecidableEq

/-- An action recorded in the audit trail. -/
inductive ApprovalAction where
  | approve
  | reject
  | modify
  | timeout
deriving DecidableEq

/-- State of an undo stack entry. -/
inductive SagaStepState where
  | pending
  | running
  | compensated
  | failed
  | skipped
deriving DecidableEq

/-- The final states of an undo stack entry. -/
def SagaStepState.isTerminal : SagaStepState → Bool
  | .compensated | .failed | .skipped => true
  | _ => false

/-! ## Rows -/

/-- A row of `undolog_effect_log`. -/
structure EffectRow where
  effectId : EffectId
  orgId : OrgId
  sessionId : SessionId
  toolId : Option ToolId
  callSignature : CallSignature
  toolName : String
  toolVersion : String
  tier : TierLabel
  stepIndex : ℤ
  argsSnapshot : Json
  resultSnapshot : Option Json
  state : EffectState
  compensationArgs : Option Json
  executedAt : Time
  committedAt : Option Time
  replayCount : ℕ
  lastReplayedAt : Option Time
  approvalRequestId : Option ApprovalRequestId

/-- An effect row as the engine sees it, with the result decoded. -/
structure EffectRecord where
  effectId : EffectId
  orgId : OrgId
  sessionId : SessionId
  toolId : Option ToolId
  callSignature : CallSignature
  toolName : String
  toolVersion : String
  tier : ToolTier
  stepIndex : UInt32
  argsSnapshot : Json
  resultSnapshot : Option ToolResult
  state : EffectState
  compensationArgs : Option Json
  executedAt : Time
  committedAt : Option Time
  replayCount : UInt16
  lastReplayedAt : Option Time
  approvalRequestId : Option ApprovalRequestId

/-- A row of `undolog_undo_stack`. -/
structure UndoRow where
  undoId : UndoId
  orgId : OrgId
  sessionId : SessionId
  effectId : EffectId
  stackPosition : ℤ
  compensationFn : String
  compensationVersion : String
  compensationArgs : Json
  state : SagaStepState
  retryCount : ℕ
  lastError : Option String
  registeredAt : Time
  compensatedAt : Option Time
  maxRetries : ℕ
  retryBackoffMs : ℕ

/-- An undo stack entry as the orchestrator sees it. -/
structure UndoEntry where
  undoId : UndoId
  orgId : OrgId
  sessionId : SessionId
  effectId : EffectId
  stackPosition : UInt32
  compensation : CompensationDescriptor
  state : SagaStepState
  retryCount : UInt8
  lastError : Option String
  registeredAt : Time
  compensatedAt : Option Time

/-- A row of `undolog_sessions`. -/
structure SessionRecord where
  sessionId : SessionId
  orgId : OrgId
  state : SessionState
  toolCallsTotal : ℕ
  compensationsTotal : ℕ
  approvalsPending : ℕ
  startedAt : Time
  failureReason : Option String

/-- A row of `undolog_approval_requests`. -/
structure ApprovalRequest where
  approvalRequestId : ApprovalRequestId
  orgId : OrgId
  sessionId : SessionId
  effectId : EffectId
  toolName : String
  irreversibilityReason : String
  riskTags : List String
  estimatedImpact : Option String
  proposedArgs : Json
  agentContext : Json
  state : ApprovalState
  timeoutAt : Time
  autoApproveOnTimeout : Bool
  resolvedAt : Option Time
  resolvedBy : Option String
  approvedArgs : Option Json
  createdAt : Time

/-- A row of `undolog_approval_events`. -/
structure ApprovalEvent where
  approvalRequestId : ApprovalRequestId
  orgId : OrgId
  action : ApprovalAction
  actor : String
  note : Option String
  occurredAt : Time

/-! ## Results and errors -/

/-- What the engine tells the proxy to do with a call. -/
inductive InterceptOutcome where
  | execute (effectId : EffectId)
  | replay (effectId : EffectId) (result : Option ToolResult)
  | awaitingApproval (effectId : EffectId) (approvalRequestId : ApprovalRequestId)

/-- What the proxy needs to run an approved call. -/
structure ApprovalResult where
  effectId : EffectId
  sessionId : SessionId
  toolName : String
  toolVersion : String
  args : Json

/-- Errors of the runtime. Identifiers stand for their textual form. -/
inductive UndoLogError where
  | invalidStateTransition (id : Uuid) (currentState targetState : String)
  | notExecuting (effectId : EffectId)
  | approvalAlreadyResolved (approvalId : ApprovalRequestId)
  | approvalNotFound (approvalId : ApprovalRequestId)
  | advisoryLockTimeout (signature : CallSignature) (attempts : ℕ)
  | database
  | serialization
  | circuitBreakerOpen
  | concurrencyLimitReached (inFlight : ℕ)

/-- Errors of the saga orchestrator that are not store errors. -/
inductive SagaError where
  | missingCompensationEndpoint (key : String)
  | sessionNotFound (sessionId : SessionId)
  | compensationFailed (undoId : UndoId) (reason : String)

end UndoLog
