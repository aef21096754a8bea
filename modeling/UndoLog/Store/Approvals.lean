import Mathlib.Data.List.Dedup
import UndoLog.Store.Effects

/-!
# Sessions, approval requests and their audit trail

The repositories `SessionStore` and `ApprovalStore`, the transactions of `approve` and
`reject`, and the timeout job. On SQLite the timeout transaction runs as a whole. On PostgreSQL
its statements interleave with other calls: the rows it has updated stay locked and unchanged
for everyone else until it commits.
-/

namespace UndoLog

open Relational

/-! ## Sessions -/

/-- The row of a session of an organisation. -/
def ofSession (orgId : OrgId) (sessionId : SessionId) (s : SessionRecord) : Bool :=
  s.sessionId = sessionId ∧ s.orgId = orgId

/-- The row of a session in one of the given states. -/
def ofSessionIn (orgId : OrgId) (sessionId : SessionId) (states : List SessionState)
    (s : SessionRecord) : Bool :=
  ofSession orgId sessionId s ∧ s.state ∈ states

/-- A session as `create_session` inserts it. -/
def newSession (orgId : OrgId) (sessionId : SessionId) (now : Time) : SessionRecord where
  sessionId := sessionId
  orgId := orgId
  state := .active
  toolCallsTotal := 0
  compensationsTotal := 0
  approvalsPending := 0
  startedAt := now
  failureReason := none

variable (b : Backend)

/-- `create_session`. A session with the identifier, of whatever organisation,
makes the insert do nothing. -/
def createSession (orgId : OrgId) (sessionId : SessionId) : Tx Unit := fun db =>
  if db.sessions.any (fun s => s.sessionId = sessionId) then .ok ((), db)
  else if b = .postgres ∧ orgId ∉ db.orgs then .error .database
  else .ok ((), { db with sessions := db.sessions ++ [newSession orgId sessionId db.now] })

/-- `get_session`. -/
def getSession (orgId : OrgId) (sessionId : SessionId) : Tx (Option SessionRecord) :=
  Tx.query fun db => .ok (db.sessions.find? (ofSession orgId sessionId))

/-- `set_awaiting_approval`. It does not report whether a row was met. -/
def setAwaitingApproval (orgId : OrgId) (sessionId : SessionId) : Tx Unit := do
  let _ ← updateSessions (ofSessionIn orgId sessionId [.active])
    (fun s => { s with state := .awaitingApproval })

/-- `set_active`. -/
def setActive (orgId : OrgId) (sessionId : SessionId) : Tx Unit := do
  let rows ← updateSessions (ofSessionIn orgId sessionId [.awaitingApproval])
    (fun s => { s with state := .active })
  Tx.require (rows != 0)
    (.invalidStateTransition sessionId.uuid "not awaiting_approval" "active")

/-- `set_compensated`. -/
def setCompensated (orgId : OrgId) (sessionId : SessionId) : Tx Unit := do
  let _ ← updateSessions (ofSessionIn orgId sessionId [.active, .failed, .compensating])
    (fun s => { s with state := .compensated })

/-- `set_halted` and `set_halted_with_conn`. -/
def setHalted (orgId : OrgId) (sessionId : SessionId) (reason : String) : Tx Unit := do
  let _ ← updateSessions (ofSession orgId sessionId)
    (fun s => { s with state := .halted, failureReason := some reason })

/-! ## Approval requests -/

/-- `approval_action_to_state`. -/
def approvalActionToState : ApprovalAction → ApprovalState
  | .approve | .modify => .approved
  | .reject => .rejected
  | .timeout => .timedOut

/-- The row of an approval request of an organisation. -/
def ofApproval (orgId : OrgId) (id : ApprovalRequestId) (a : ApprovalRequest) : Bool :=
  a.approvalRequestId = id ∧ a.orgId = orgId

/-- The row of an approval request that is still pending. -/
def ofPendingApproval (orgId : OrgId) (id : ApprovalRequestId) (a : ApprovalRequest) : Bool :=
  ofApproval orgId id a ∧ a.state = .pending

/-- The row that `create` inserts: pending, created now, unresolved. -/
def newApprovalRow (req : ApprovalRequest) (now : Time) : ApprovalRequest :=
  { req with
    state := .pending
    resolvedAt := none
    resolvedBy := none
    approvedArgs := none
    createdAt := now }

/-- `create`. -/
def createApproval (req : ApprovalRequest) : Tx Unit := fun db =>
  if db.approvals.any (fun a => a.approvalRequestId = req.approvalRequestId) then
    .error .database
  else if foreignKeys b req.orgId req.sessionId db then
    .ok ((), { db with
      approvals := db.approvals ++ [newApprovalRow req db.now]
      sessions := onPostgres b (countPendingApproval req.sessionId) db.sessions })
  else .error .database

/-- `append_audit_event`. -/
def appendAuditEvent (orgId : OrgId) (id : ApprovalRequestId) (action : ApprovalAction)
    (actor : String) (note : Option String) : Tx Unit := fun db =>
  .ok ((), { db with events := db.events ++
    [{ approvalRequestId := id, orgId, action, actor, note, occurredAt := db.now }] })

/-- The update of `resolve`, with the trigger on the rows that leave `pending`. -/
def resolvePending (orgId : OrgId) (id : ApprovalRequestId) (state : ApprovalState)
    (actor : String) (approvedArgs : Option Json) : Tx ℕ := fun db =>
  let p := ofPendingApproval orgId id
  .ok (db.approvals.countP p, { db with
    approvals := updateWhere p (fun a => { a with
      state := state
      resolvedAt := some db.now
      resolvedBy := some actor
      approvedArgs := approvedArgs }) db.approvals
    sessions := onPostgres b (discountPendingApprovals (db.approvals.filter p)) db.sessions })

/-- `resolve`. -/
def resolve (orgId : OrgId) (id : ApprovalRequestId) (action : ApprovalAction)
    (actor : String) (approvedArgs : Option Json) (note : Option String) : Tx Unit := do
  let rows ← resolvePending b orgId id (approvalActionToState action) actor approvedArgs
  Tx.require (rows != 0) (.approvalAlreadyResolved id)
  appendAuditEvent orgId id action actor note

/-- `get`. -/
def getApproval (orgId : OrgId) (id : ApprovalRequestId) : Tx (Option ApprovalRequest) :=
  Tx.query fun db => .ok (db.approvals.find? (ofApproval orgId id))

/-- `list_pending`. -/
def listPending (orgId : OrgId) : Tx (List ApprovalRequest) :=
  Tx.query fun db =>
    let pending := db.approvals.filter fun a => a.orgId = orgId ∧ a.state = .pending
    .ok (pending.insertionSort fun a c => a.createdAt ≤ c.createdAt)

/-- `list_orgs_with_pending_approvals`. -/
def listOrgsWithPendingApprovals : Tx (List OrgId) :=
  Tx.query fun db =>
    .ok ((db.approvals.filter fun a => a.state = .pending).map (·.orgId)).dedup

/-! ## Decisions -/

/-- The arguments a decision settles on. -/
def resolvedArgs (approvedArgs : Option Json) (approval : ApprovalRequest) : Json :=
  approvedArgs.getD approval.proposedArgs

/-- The transaction of `approve`. The approval was read before it began. It
returns the tool version of the effect. -/
def approveTx (pick : ℕ) (orgId : OrgId) (id : ApprovalRequestId) (actor : String)
    (approvedArgs : Option Json) (approval : ApprovalRequest) : Tx String := do
  resolve b orgId id .approve actor approvedArgs none
  approveEffect orgId approval.effectId
  let effect ← findByEffectId pick orgId approval.effectId
  let toolVersion := (effect.map (·.toolVersion)).getD ""
  if !(resolvedArgs approvedArgs approval).eq approval.proposedArgs then
    updateArgsSnapshot orgId approval.effectId (resolvedArgs approvedArgs approval)
  setActive orgId approval.sessionId
  pure toolVersion

/-- The transaction of `reject`. -/
def rejectTx (orgId : OrgId) (id : ApprovalRequestId) (actor : String)
    (approval : ApprovalRequest) : Tx Unit := do
  resolve b orgId id .reject actor none none
  rejectEffect orgId approval.effectId
  setHalted orgId approval.sessionId "approval rejected"

/-! ## Timeouts -/

/-- `timeout_at < now()`. SQLite compares an RFC 3339 text with a text of `datetime('now')`: the
date decides, and on one day the `T` of the former sorts after the blank of the latter. -/
def expired (timeoutAt now : Time) : Bool :=
  match b with
  | .postgres => timeoutAt < now
  | .sqlite => timeoutAt / 86400 < now / 86400

/-- The state of a timed-out approval. -/
def timeoutState (autoApprove : Bool) : ApprovalState :=
  if autoApprove then .autoApproved else .timedOut

/-- The pending approvals of an organisation whose time is up. -/
def expiredApprovals (orgId : OrgId) (db : Db) : List (ApprovalRequestId × Bool) :=
  (db.approvals.filter fun a =>
    a.orgId = orgId ∧ a.state = .pending ∧ expired b a.timeoutAt db.now).map
    fun a => (a.approvalRequestId, a.autoApproveOnTimeout)

/-- What a timeout writes to an approval. -/
def timedOut (at_ : Time) (write : TimeoutWrite) (a : ApprovalRequest) : ApprovalRequest :=
  { a with
    state := timeoutState write.autoApprove
    resolvedAt := some at_
    resolvedBy := some "system:timeout" }

/-- The update of one timed-out approval and its audit event. The update names
the row only, whatever state it is in. -/
def resolveTimeout (at_ : Time) (db : Db) (write : TimeoutWrite) : Db :=
  { db with
    approvals := updateWhere (ofApproval write.orgId write.approvalRequestId) (timedOut at_ write)
      db.approvals
    sessions := onPostgres b (discountPendingApprovals
      (db.approvals.filter (ofPendingApproval write.orgId write.approvalRequestId))) db.sessions
    events := db.events ++
      [{ approvalRequestId := write.approvalRequestId, orgId := write.orgId, action := .timeout
         actor := "system:timeout", note := none, occurredAt := at_ }] }

/-- The updates of a timeout transaction, in order. -/
def resolveTimeouts (at_ : Time) (writes : List TimeoutWrite) (db : Db) : Db :=
  writes.foldl (resolveTimeout b at_) db

/-- The update of a row that the `SELECT` returned. -/
def timeoutWrite (orgId : OrgId) (row : ApprovalRequestId × Bool) : TimeoutWrite where
  orgId := orgId
  approvalRequestId := row.1
  autoApprove := row.2

/-- `process_timeouts` as one transaction, as SQLite runs it. -/
def processTimeoutsTx (orgId : OrgId) : Tx ℕ := fun db =>
  let rows := expiredApprovals b orgId db
  .ok (rows.length, resolveTimeouts b db.now (rows.map (timeoutWrite orgId)) db)

/-- The transaction's `SELECT`, which also opens it. -/
def timeoutSelect (owner : ℕ) (orgId : OrgId) : Tx (List (ApprovalRequestId × Bool)) := fun db =>
  .ok (expiredApprovals b orgId db,
    { db with timeouts := db.timeouts ++ [{ owner, startedAt := db.now, writes := [] }] })

/-- One `UPDATE` of the transaction with its audit event, not yet committed. -/
def timeoutUpdate (owner : ℕ) (write : TimeoutWrite) : Tx Unit :=
  fun db => .ok ((), { db with
    timeouts := updateWhere (fun tx => tx.owner = owner)
      (fun tx => { tx with writes := tx.writes ++ [write] }) db.timeouts })

/-- Forget the open transaction of a call. -/
def rollbackTimeouts (owner : ℕ) (db : Db) : Db :=
  { db with timeouts := db.timeouts.filter fun tx => tx.owner ≠ owner }

/-- The writes of one open transaction take effect. -/
def applyTimeoutTx (db : Db) (tx : TimeoutTx) : Db :=
  resolveTimeouts b tx.startedAt tx.writes db

/-- The commit of the transaction. -/
def timeoutCommit (owner : ℕ) : Tx Unit := fun db =>
  .ok ((), rollbackTimeouts owner
    ((db.timeouts.filter fun tx => tx.owner = owner).foldl (applyTimeoutTx b) db))

/-- An approval row is locked for a call while another call's open transaction
has updated it. -/
def lockedFor (t : ℕ) (id : ApprovalRequestId) (db : Db) : Bool :=
  db.timeouts.any fun tx => tx.owner ≠ t ∧ tx.writes.any (fun write => write.approvalRequestId = id)

end UndoLog
