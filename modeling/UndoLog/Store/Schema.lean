import UndoLog.Relational.Table
import UndoLog.Types.Domain

/-!
# The database

The tables of the store, the two backends, and transactions. A transaction is a function on
the database that may end with an error; then nothing of it remains. The approval timeout job
of the PostgreSQL backend is modelled statement by statement: its uncommitted writes are kept
beside the tables, with the row locks they imply.
-/

namespace UndoLog

open Relational

/-- The two storage adapters. -/
inductive Backend where
  | postgres
  | sqlite
deriving DecidableEq

/-- The update of one timed-out approval. -/
structure TimeoutWrite where
  orgId : OrgId
  approvalRequestId : ApprovalRequestId
  /-- Its `auto_approve_on_timeout`. -/
  autoApprove : Bool

/-- An open transaction of `process_timeouts`. -/
structure TimeoutTx where
  /-- The call that runs it. -/
  owner : ℕ
  /-- `now()` is the start time of the transaction. -/
  startedAt : Time
  /-- Updates made so far, not yet visible to others. -/
  writes : List TimeoutWrite

/-- The database. -/
structure Db where
  /-- The database clock. -/
  now : Time
  /-- Monthly partitions of the effect log that exist. -/
  partitions : List Month
  orgs : List OrgId
  sessions : List SessionRecord
  effects : List EffectRow
  undo : List UndoRow
  approvals : List ApprovalRequest
  events : List ApprovalEvent
  timeouts : List TimeoutTx

/-- The database before any call, with the given clock, partitions and tenants. -/
def Db.empty (now : Time) (partitions : List Month) (orgs : List OrgId) : Db where
  now := now
  partitions := partitions
  orgs := orgs
  sessions := []
  effects := []
  undo := []
  approvals := []
  events := []
  timeouts := []

/-- A transaction that commits with a result or is rolled back with an error. -/
abbrev Tx (α : Type) : Type := StateT Db (Except UndoLogError) α

/-- A read-only statement. -/
def Tx.query {α : Type} (read : Db → Except UndoLogError α) : Tx α := fun db => do
  let a ← read db
  pure (a, db)

/-- End a transaction with an error when a condition fails. -/
def Tx.require (condition : Bool) (e : UndoLogError) : Tx Unit := fun db =>
  if condition then .ok ((), db) else .error e

/-! ## Statements on one table -/

/-- `UPDATE undolog_effect_log`, returning the number of rows. The trigger counts effects that
become compensated, and no statement makes one so. -/
def updateEffects (p : EffectRow → Bool) (f : EffectRow → EffectRow) : Tx ℕ := fun db =>
  .ok (db.effects.countP p, { db with effects := updateWhere p f db.effects })

/-- `UPDATE undolog_sessions`, returning the number of rows. -/
def updateSessions (p : SessionRecord → Bool) (f : SessionRecord → SessionRecord) : Tx ℕ :=
  fun db => .ok (db.sessions.countP p, { db with sessions := updateWhere p f db.sessions })

/-- `UPDATE undolog_undo_stack`. -/
def updateUndo (p : UndoRow → Bool) (f : UndoRow → UndoRow) : Tx Unit := fun db =>
  .ok ((), { db with undo := updateWhere p f db.undo })

/-! ## Triggers of the PostgreSQL schema -/

/-- `undolog_update_session_counters` after an insert into the effect log. -/
def countToolCall (sessionId : SessionId) (sessions : List SessionRecord) : List SessionRecord :=
  updateWhere (fun s => s.sessionId = sessionId)
    (fun s => { s with toolCallsTotal := s.toolCallsTotal + 1 }) sessions

/-- `undolog_update_approval_counter` after an insert of a pending approval. -/
def countPendingApproval (sessionId : SessionId) (sessions : List SessionRecord) :
    List SessionRecord :=
  updateWhere (fun s => s.sessionId = sessionId)
    (fun s => { s with approvalsPending := s.approvalsPending + 1 }) sessions

/-- `undolog_update_approval_counter` after updates of the given approvals that
take them out of `pending`. The counter does not go below zero. -/
def discountPendingApprovals (resolved : List ApprovalRequest) (sessions : List SessionRecord) :
    List SessionRecord :=
  resolved.foldl (fun ss a => updateWhere (fun s => s.sessionId = a.sessionId)
    (fun s => { s with approvalsPending := s.approvalsPending - 1 }) ss) sessions

/-- Only the PostgreSQL schema has triggers. -/
def onPostgres (b : Backend) (trigger : List SessionRecord → List SessionRecord) :
    List SessionRecord → List SessionRecord :=
  match b with
  | .postgres => trigger
  | .sqlite => id

end UndoLog
