import UndoLog.Concurrent.Machine
import UndoLog.Store.Approvals

/-!
# Statements of the engine

Everything a call of the engine or of the saga orchestrator does is a sequence of atomic
statements: steps inside the process, and statements and transactions sent to the database.
What such a statement reads from outside the model is supplied by an oracle.
-/

namespace UndoLog

open Concurrent Relational

/-- An entry of the tier registry. -/
structure ToolRegistration where
  toolName : String
  toolVersion : String
  tier : ToolTier

/-- The answer of a compensation endpoint. -/
inductive HttpResponse where
  | status (code : ℕ)
  | failure (message : String)

/-- How the rate limiter turns a call away. -/
inductive Refusal where
  | circuitBreakerOpen
  | concurrencyLimitReached (inFlight : ℕ)

/-- The error of a refused call. -/
def Refusal.error : Refusal → UndoLogError
  | .circuitBreakerOpen => .circuitBreakerOpen
  | .concurrencyLimitReached n => .concurrencyLimitReached n

/-- What a statement reads from outside the store. -/
structure Oracle where
  /-- The identifier a generator would return. -/
  uuid : Uuid := 0
  /-- Which row an unordered query returns. -/
  pick : ℕ := 0
  /-- The cache entry asked for has expired or was evicted. -/
  cacheMiss : Bool := false
  /-- The clock of the application. -/
  clock : Time := 0
  /-- The answer of an HTTP request. -/
  response : HttpResponse := .status 200
  /-- The statement fails before it takes effect. -/
  fault : Bool := false
  /-- Another session's statement holds the advisory lock at this moment. -/
  lockBusy : Bool := false
  /-- The rate limiter turns the call away. -/
  refusal : Option Refusal := none

/-- The shared state of a running system. -/
structure World where
  db : Db
  /-- Every identifier generated so far. -/
  issued : List Uuid
  /-- The session cache. -/
  cache : List SessionRecord
  /-- The tier registry. -/
  registry : List (OrgId × ToolRegistration)

/-- Steps inside the process. -/
inductive AppStep where
  /-- The circuit breaker and the concurrency limiter. -/
  | rateLimit
  | cacheGet (orgId : OrgId) (sessionId : SessionId)
  | cacheInsert (record : SessionRecord)
  | cacheInvalidate (orgId : OrgId) (sessionId : SessionId)
  | resolveTier (orgId : OrgId) (toolName toolVersion : String)
  /-- `EffectId::new`, `UndoId::new` and `ApprovalRequestId::new`. -/
  | newUuid
  /-- `Utc::now`. -/
  | clock
  | post (endpoint : String) (undoId : UndoId) (args : Json)

/-- Result types of the steps inside the process. -/
@[reducible] def AppStep.Ret : AppStep → Type
  | .rateLimit => Unit
  | .cacheGet _ _ => Option SessionRecord
  | .cacheInsert _ | .cacheInvalidate _ _ => Unit
  | .resolveTier _ _ _ => ToolTier
  | .newUuid => Uuid
  | .clock => Time
  | .post _ _ _ => HttpResponse

/-- Statements and transactions of the database. -/
inductive Query where
  | getSession (orgId : OrgId) (sessionId : SessionId)
  | createSession (orgId : OrgId) (sessionId : SessionId)
  | tryAdvisoryLock (key : Int64)
  | findBySignature (orgId : OrgId) (signature : CallSignature)
  | markReplayed (orgId : OrgId) (effectId : EffectId)
  | insertCompensable (call : ToolCall) (signature : CallSignature) (effectId : EffectId)
      (compensation : CompensationDescriptor)
  | insertIrreversible (call : ToolCall) (signature : CallSignature) (effectId : EffectId)
  | insertUndo (call : ToolCall) (effectId : EffectId) (compensation : CompensationDescriptor)
      (undoId : UndoId)
  | setExecuting (orgId : OrgId) (effectId : EffectId)
  | createApproval (req : ApprovalRequest)
  | setApprovalRequestId (orgId : OrgId) (effectId : EffectId) (id : ApprovalRequestId)
  | setAwaitingApproval (orgId : OrgId) (sessionId : SessionId)
  | commitRows (orgId : OrgId) (effectId : EffectId) (result : ToolResult)
  | failRows (orgId : OrgId) (effectId : EffectId) (reason : String)
  | effectExists (orgId : OrgId) (effectId : EffectId)
  | getApproval (orgId : OrgId) (id : ApprovalRequestId)
  | approve (orgId : OrgId) (id : ApprovalRequestId) (actor : String)
      (approvedArgs : Option Json) (approval : ApprovalRequest)
  | reject (orgId : OrgId) (id : ApprovalRequestId) (actor : String)
      (approval : ApprovalRequest)
  | listPending (orgId : OrgId)
  | listOrgsWithPendingApprovals
  | timeoutSelect (orgId : OrgId)
  | timeoutUpdate (orgId : OrgId) (id : ApprovalRequestId) (autoApprove : Bool)
  | timeoutCommit (orgId : OrgId)
  | processTimeouts (orgId : OrgId)
  | loadUndoStack (orgId : OrgId) (sessionId : SessionId)
  | markCompensated (orgId : OrgId) (undoId : UndoId)
  | markCompensationFailed (orgId : OrgId) (undoId : UndoId) (reason : String)
  | markEffectCompensationFailed (orgId : OrgId) (effectId : EffectId)
  | setCompensated (orgId : OrgId) (sessionId : SessionId)
  | setHalted (orgId : OrgId) (sessionId : SessionId) (reason : String)

/-- Result types of the database statements. -/
@[reducible] def Query.Ret : Query → Type
  | .getSession _ _ => Option SessionRecord
  | .tryAdvisoryLock _ => Bool
  | .findBySignature _ _ => Option EffectRecord
  | .insertCompensable _ _ _ _ | .insertIrreversible _ _ _ => Bool
  | .commitRows _ _ _ | .failRows _ _ _ => ℕ × Bool
  | .effectExists _ _ => Bool
  | .getApproval _ _ => Option ApprovalRequest
  | .approve _ _ _ _ _ => String
  | .listPending _ => List ApprovalRequest
  | .listOrgsWithPendingApprovals => List OrgId
  | .timeoutSelect _ => List (ApprovalRequestId × Bool)
  | .processTimeouts _ => ℕ
  | .loadUndoStack _ _ => List UndoEntry
  | _ => Unit

/-- The transaction of each database statement. `pg_try_advisory_xact_lock` runs
in a transaction of its own, which ends with the statement and releases the lock:
between statements nobody holds it. -/
def Query.tx (b : Backend) (t : ℕ) (o : Oracle) : (q : Query) → Tx q.Ret
  | .getSession orgId sessionId => UndoLog.getSession orgId sessionId
  | .createSession orgId sessionId => UndoLog.createSession b orgId sessionId
  | .tryAdvisoryLock _ => Tx.query fun _ => .ok !o.lockBusy
  | .findBySignature orgId signature => UndoLog.findBySignature o.pick orgId signature
  | .markReplayed orgId effectId => UndoLog.markReplayed b orgId effectId
  | .insertCompensable call signature effectId compensation =>
      UndoLog.insertCompensable b call signature effectId compensation
  | .insertIrreversible call signature effectId =>
      UndoLog.insertIrreversible b call signature effectId
  | .insertUndo call effectId compensation undoId =>
      UndoLog.insertUndo b call effectId compensation undoId
  | .setExecuting orgId effectId => UndoLog.setExecuting orgId effectId
  | .createApproval req => UndoLog.createApproval b req
  | .setApprovalRequestId orgId effectId id => UndoLog.setApprovalRequestId orgId effectId id
  | .setAwaitingApproval orgId sessionId => UndoLog.setAwaitingApproval orgId sessionId
  | .commitRows orgId effectId result => UndoLog.commitRows orgId effectId result
  | .failRows orgId effectId reason => UndoLog.failRows orgId effectId reason
  | .effectExists orgId effectId => UndoLog.effectExists orgId effectId
  | .getApproval orgId id => UndoLog.getApproval orgId id
  | .approve orgId id actor approvedArgs approval =>
      approveTx b o.pick orgId id actor approvedArgs approval
  | .reject orgId id actor approval => rejectTx b orgId id actor approval
  | .listPending orgId => UndoLog.listPending orgId
  | .listOrgsWithPendingApprovals => UndoLog.listOrgsWithPendingApprovals
  | .timeoutSelect orgId => UndoLog.timeoutSelect b t orgId
  | .timeoutUpdate orgId id autoApprove => UndoLog.timeoutUpdate t ⟨orgId, id, autoApprove⟩
  | .timeoutCommit _ => UndoLog.timeoutCommit b t
  | .processTimeouts orgId => processTimeoutsTx b orgId
  | .loadUndoStack orgId sessionId => UndoLog.loadUndoStack orgId sessionId
  | .markCompensated orgId undoId => UndoLog.markCompensated orgId undoId
  | .markCompensationFailed orgId undoId reason =>
      UndoLog.markCompensationFailed orgId undoId reason
  | .markEffectCompensationFailed orgId effectId =>
      UndoLog.markEffectCompensationFailed orgId effectId
  | .setCompensated orgId sessionId => UndoLog.setCompensated orgId sessionId
  | .setHalted orgId sessionId reason => UndoLog.setHalted orgId sessionId reason

/-- A statement that has to wait for a row lock of an open transaction. -/
def Query.blocked (t : ℕ) (db : Db) : Query → Bool
  | .approve _ id _ _ _ | .reject _ id _ _ | .timeoutUpdate _ id _ => lockedFor t id db
  | _ => false

/-- A statement of a call. -/
inductive Stmt where
  | app (step : AppStep)
  | db (query : Query)

/-- Result types of statements. -/
@[reducible] def Stmt.Ret : Stmt → Type
  | .app step => step.Ret
  | .db query => query.Ret

/-- `resolve_tier`: the exact registration, then, for a call without a version,
any registration of the name, then the safe tier. -/
def resolveTier (registry : List (OrgId × ToolRegistration)) (pick : ℕ) (orgId : OrgId)
    (toolName toolVersion : String) : ToolTier :=
  let named := registry.filter fun r => r.1 = orgId ∧ r.2.toolName = toolName
  match named.find? (fun r => r.2.toolVersion = toolVersion) with
  | some r => r.2.tier
  | none =>
    if toolVersion = "" then
      match limitOne pick named with
      | some r => r.2.tier
      | none => .safe
    else .safe

/-- The session cache without the entry of one session. -/
def evict (orgId : OrgId) (sessionId : SessionId) (cache : List SessionRecord) :
    List SessionRecord :=
  cache.filter fun s => !ofSession orgId sessionId s

/-- A step inside the process. A generated identifier is one that was never
generated before. -/
def AppStep.run (o : Oracle) (w : World) :
    (step : AppStep) → Option (Except UndoLogError step.Ret × World)
  | .rateLimit =>
    match o.refusal with
    | some refusal => some (.error refusal.error, w)
    | none => some (.ok (), w)
  | .cacheGet orgId sessionId =>
    if o.cacheMiss then some (.ok none, { w with cache := evict orgId sessionId w.cache })
    else some (.ok (w.cache.find? (ofSession orgId sessionId)), w)
  | .cacheInsert record =>
    some (.ok (), { w with cache := record :: evict record.orgId record.sessionId w.cache })
  | .cacheInvalidate orgId sessionId =>
    some (.ok (), { w with cache := evict orgId sessionId w.cache })
  | .resolveTier orgId toolName toolVersion =>
    some (.ok (UndoLog.resolveTier w.registry o.pick orgId toolName toolVersion), w)
  | .newUuid =>
    if o.uuid ∈ w.issued then none
    else some (.ok o.uuid, { w with issued := o.uuid :: w.issued })
  | .clock => some (.ok o.clock, w)
  | .post _ _ _ => some (.ok o.response, w)

/-- Drop what an interrupted call has not committed. -/
def World.rollback (t : ℕ) (w : World) : World := { w with db := rollbackTimeouts t w.db }

/-- A statement of the database: it waits, fails, or runs as one transaction. A
failed statement also ends the transaction its call has open. -/
def Query.run (b : Backend) (t : ℕ) (o : Oracle) (w : World) (q : Query) :
    Option (Except UndoLogError q.Ret × World) :=
  if o.fault then some (.error .database, w.rollback t)
  else if q.blocked t w.db then none
  else
    match q.tx b t o w.db with
    | .ok (a, db) => some (.ok a, { w with db := db })
    | .error e => some (.error e, w.rollback t)

/-- Execute one statement. -/
def execStmt (b : Backend) (t : ℕ) (o : Oracle) (st : Stmt) (w : World) :
    Option (Except UndoLogError st.Ret × World) :=
  match st with
  | .app step => step.run o w
  | .db query => query.run b t o w

end UndoLog
