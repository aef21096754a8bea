import UndoLog.Engine.Statement

/-!
# Intercepting a tool call

`EffectEngine::intercept`, statement by statement. The lookup, the insert and the
statements after them are separate transactions, so other calls may run between
any two of them.
-/

namespace UndoLog

open Concurrent

/-- A program of the engine. -/
abbrev Proc (α : Type) : Type := Program Stmt Stmt.Ret UndoLogError α

/-- A step inside the process. -/
def app (step : AppStep) : Proc step.Ret := Program.stmt (Stmt.app step)

/-- A database statement. -/
def query (q : Query) : Proc q.Ret := Program.stmt (Stmt.db q)

/-- A step inside the process that has no result and cannot fail. -/
def perform (step : AppStep) : Proc Unit := Program.call (Stmt.app step) fun _ => .done (.ok ())

/-- The settings of the engine that `intercept` reads. -/
structure EngineConfig where
  lockMaxAttempts : ℕ := 3
  approvalTimeoutSecs : ℤ := 86400
  autoApproveOnTimeout : Bool := false

/-! ## The advisory lock -/

/-- The hexadecimal digits of a signature, as bytes of its text. -/
def CallSignature.bytes (signature : CallSignature) : List UInt64 :=
  (List.range 64).map fun i =>
    let digit := (signature.digest >>> (252 - 4 * i)).toNat % 16
    if digit < 10 then UInt64.ofNat (48 + digit) else UInt64.ofNat (87 + digit)

/-- `advisory_lock_key`: FNV-1a over the text of the signature. -/
def advisoryLockKey (signature : CallSignature) : Int64 :=
  (signature.bytes.foldl (fun h byte => (h ^^^ byte) * 1099511628211)
    14695981039346656037).toInt64

/-- The attempts of `acquire_advisory_lock`. -/
def lockLoop (signature : CallSignature) (maxAttempts : ℕ) : ℕ → Proc Unit
  | 0 => Program.fail (.advisoryLockTimeout signature maxAttempts)
  | attempts + 1 => do
    let acquired ← query (.tryAdvisoryLock (advisoryLockKey signature))
    if acquired then pure () else lockLoop signature maxAttempts attempts

variable (b : Backend)

/-- `acquire_advisory_lock`. SQLite has no such lock. -/
def acquireAdvisoryLock (signature : CallSignature) (maxAttempts : ℕ) : Proc Unit :=
  match b with
  | .postgres => lockLoop signature maxAttempts maxAttempts
  | .sqlite => pure ()

/-! ## The session of the call -/

/-- Remember a session that was found. -/
def cacheFound : Option SessionRecord → Proc Unit
  | some record => perform (.cacheInsert record)
  | none => pure ()

/-- Create the session of a call that neither the cache nor the store knows. -/
def createMissingSession (call : ToolCall) : Proc Unit := do
  query (.createSession call.orgId call.sessionId)
  let record ← query (.getSession call.orgId call.sessionId)
  cacheFound record

/-- Look up the session of a call and create it on first use. -/
def ensureSession (call : ToolCall) : Proc Unit := do
  let cached ← app (.cacheGet call.orgId call.sessionId)
  match cached with
  | some _ => pure ()
  | none => do
    let found ← query (.getSession call.orgId call.sessionId)
    match found with
    | some record => perform (.cacheInsert record)
    | none => createMissingSession call

/-! ## The three tiers -/

/-- After an insert that reported no row, look for the row that was in its way. -/
def findDuplicate (call : ToolCall) (signature : CallSignature) (inserted : Bool) :
    Proc (Option EffectRecord) :=
  if inserted then pure none else query (.findBySignature call.orgId signature)

/-- `push_undo_entry`. -/
def pushUndoEntry (call : ToolCall) (effectId : EffectId)
    (compensation : CompensationDescriptor) : Proc Unit := do
  let undoId ← app .newUuid
  query (.insertUndo call effectId compensation ⟨undoId⟩)

/-- The compensable branch. -/
def interceptCompensable (call : ToolCall) (signature : CallSignature) (effectId : EffectId)
    (compensation : CompensationDescriptor) : Proc InterceptOutcome := do
  let inserted ← query (.insertCompensable call signature effectId compensation)
  let duplicate ← findDuplicate call signature inserted
  match duplicate with
  | some existing => pure (.replay existing.effectId existing.resultSnapshot)
  | none => do
    pushUndoEntry call effectId compensation
    query (.setExecuting call.orgId effectId)
    pure (.execute effectId)

variable (config : EngineConfig)

/-- The approval request of an irreversible call. -/
def approvalRequestFor (call : ToolCall) (effectId : EffectId)
    (reason : String) (id : ApprovalRequestId) (now : Time) : ApprovalRequest where
  approvalRequestId := id
  orgId := call.orgId
  sessionId := call.sessionId
  effectId := effectId
  toolName := call.toolName
  irreversibilityReason := reason
  riskTags := []
  estimatedImpact := none
  proposedArgs := call.args
  agentContext := .object []
  state := .pending
  timeoutAt := now + config.approvalTimeoutSecs
  autoApproveOnTimeout := config.autoApproveOnTimeout
  resolvedAt := none
  resolvedBy := none
  approvedArgs := none
  createdAt := now

/-- Ask for a decision and suspend the session. -/
def requestApproval (call : ToolCall) (effectId : EffectId)
    (reason : String) : Proc InterceptOutcome := do
  let id ← app .newUuid
  let now ← app .clock
  query (.createApproval (approvalRequestFor config call effectId reason ⟨id⟩ now))
  query (.setApprovalRequestId call.orgId effectId ⟨id⟩)
  query (.setAwaitingApproval call.orgId call.sessionId)
  perform (.cacheInvalidate call.orgId call.sessionId)
  pure (.awaitingApproval effectId ⟨id⟩)

/-- The irreversible branch. -/
def interceptIrreversible (call : ToolCall) (signature : CallSignature)
    (effectId : EffectId) (reason : String) : Proc InterceptOutcome := do
  let inserted ← query (.insertIrreversible call signature effectId)
  let duplicate ← findDuplicate call signature inserted
  match duplicate with
  | some existing => pure (.replay existing.effectId existing.resultSnapshot)
  | none => requestApproval config call effectId reason

/-- Route a new call to its tier. -/
def routeTier (call : ToolCall) (signature : CallSignature) : Proc InterceptOutcome := do
  let tier ← app (.resolveTier call.orgId call.toolName call.toolVersion)
  let effectId ← app .newUuid
  match tier with
  | .safe => pure (.execute ⟨effectId⟩)
  | .compensable compensation => interceptCompensable call signature ⟨effectId⟩ compensation
  | .irreversible reason => interceptIrreversible config call signature ⟨effectId⟩ reason

/-- Answer a call from the effect log, or route it. -/
def lookupOrRoute (call : ToolCall) (signature : CallSignature) : Proc InterceptOutcome := do
  let found ← query (.findBySignature call.orgId signature)
  match found with
  | some existing => do
    query (.markReplayed call.orgId existing.effectId)
    pure (.replay existing.effectId existing.resultSnapshot)
  | none => routeTier config call signature

/-- `intercept_inner`. -/
def interceptInner (hash : SignatureHash) (config : EngineConfig)
    (call : ToolCall) : Proc InterceptOutcome := do
  ensureSession call
  acquireAdvisoryLock b (call.signature hash) config.lockMaxAttempts
  lookupOrRoute config call (call.signature hash)

/-- `intercept`. The circuit breaker and the limiter may turn the call away. -/
def intercept (hash : SignatureHash) (config : EngineConfig) (call : ToolCall) :
    Proc InterceptOutcome := do
  app .rateLimit
  interceptInner b hash config call

/-! ## Commit, fail, decisions and timeouts -/

variable (orgId : OrgId)

/-- How `commit_effect` and `fail_effect` end: no row means a safe call, a row in
another state is an error. SQLite asks for the row in a second statement. -/
def settle (effectId : EffectId) (rows : ℕ × Bool) : Proc Unit :=
  if rows.1 > 0 then pure ()
  else do
    let known ← match b with
      | .postgres => pure rows.2
      | .sqlite => query (.effectExists orgId effectId)
    if known then Program.fail (.notExecuting effectId) else pure ()

/-- `commit`. -/
def commit (effectId : EffectId) (result : ToolResult) : Proc Unit := do
  let rows ← query (.commitRows orgId effectId result)
  settle b orgId effectId rows

/-- `fail`. -/
def failEffect (effectId : EffectId) (reason : String) : Proc Unit := do
  let rows ← query (.failRows orgId effectId reason)
  settle b orgId effectId rows

/-- `approve`. -/
def approve (id : ApprovalRequestId) (actor : String)
    (approvedArgs : Option Json) : Proc ApprovalResult := do
  let found ← query (.getApproval orgId id)
  match found with
  | none => Program.fail (.approvalNotFound id)
  | some approval => do
    let toolVersion ← query (.approve orgId id actor approvedArgs approval)
    perform (.cacheInvalidate orgId approval.sessionId)
    pure {
      effectId := approval.effectId
      sessionId := approval.sessionId
      toolName := approval.toolName
      toolVersion := toolVersion
      args := resolvedArgs approvedArgs approval }

/-- `reject`. -/
def reject (id : ApprovalRequestId) (actor : String) : Proc Unit := do
  let found ← query (.getApproval orgId id)
  match found with
  | none => Program.fail (.approvalNotFound id)
  | some approval => do
    query (.reject orgId id actor approval)
    perform (.cacheInvalidate orgId approval.sessionId)

/-- The updates of one timeout transaction. -/
def timeoutRows : List (ApprovalRequestId × Bool) → Proc Unit
  | [] => pure ()
  | row :: rest => do
    query (.timeoutUpdate orgId row.1 row.2)
    timeoutRows rest

/-- `process_timeouts`. -/
def processTimeouts : Proc ℕ :=
  match b with
  | .postgres => do
    let rows ← query (.timeoutSelect orgId)
    timeoutRows orgId rows
    query (.timeoutCommit orgId)
    pure rows.length
  | .sqlite => query (.processTimeouts orgId)

/-- The loop of `process_pending_timeouts` over organisations. Errors are logged only. -/
def timeoutOrgs : List OrgId → Proc Unit
  | [] => pure ()
  | orgId :: rest => do
    let _ ← (processTimeouts b orgId).attempt
    timeoutOrgs rest

/-- `process_pending_timeouts`. -/
def processPendingTimeouts : Proc Unit := do
  let orgs ← (query .listOrgsWithPendingApprovals).attempt
  match orgs with
  | .ok orgs => timeoutOrgs b orgs
  | .error _ => pure ()

end UndoLog
