import UndoLog.Concurrent.History
import UndoLog.Saga.Orchestrator

/-!
# The running system

All calls of the engine, the timeout job and the orchestrator over one shared
state, as a machine whose statements interleave. Time passes, the registry is
refreshed and the process may restart by themselves.
-/

namespace UndoLog

open Concurrent

/-- What a deployment fixes. -/
structure Setup where
  backend : Backend
  hash : SignatureHash
  config : EngineConfig
  compensations : CompensationRegistry

/-- Calls of the system. -/
inductive Op where
  | intercept (call : ToolCall)
  | commit (orgId : OrgId) (effectId : EffectId) (result : ToolResult)
  | fail (orgId : OrgId) (effectId : EffectId) (reason : String)
  | approve (orgId : OrgId) (id : ApprovalRequestId) (actor : String)
      (approvedArgs : Option Json)
  | reject (orgId : OrgId) (id : ApprovalRequestId) (actor : String)
  | listPendingApprovals (orgId : OrgId)
  | processTimeouts (orgId : OrgId)
  | processPendingTimeouts
  | compensateSession (orgId : OrgId) (sessionId : SessionId)

/-- Results of calls. -/
inductive OpResult where
  | intercepted (outcome : InterceptOutcome)
  | done
  | approved (result : ApprovalResult)
  | pending (approvals : List ApprovalRequest)
  | processed (count : ℕ)
  | compensated (outcome : Except SagaError SessionState)

/-- Steps of the surroundings. -/
inductive Env where
  /-- The database clock advances. -/
  | clock (now : Time)
  /-- The tier registry is reloaded. -/
  | refresh (registry : List (OrgId × ToolRegistration))
  /-- The process restarts with an empty cache. -/
  | restart

/-- Rename the result of a program. -/
def Proc.as {α β : Type} (p : Proc α) (f : α → β) : Proc β := do
  let a ← p
  pure (f a)

/-- The program of each call. -/
def programOf (S : Setup) : Op → Proc OpResult
  | .intercept call => (intercept S.backend S.hash S.config call).as .intercepted
  | .commit orgId effectId result => (commit S.backend orgId effectId result).as fun _ => .done
  | .fail orgId effectId reason => (failEffect S.backend orgId effectId reason).as fun _ => .done
  | .approve orgId id actor approvedArgs => (approve orgId id actor approvedArgs).as .approved
  | .reject orgId id actor => (reject orgId id actor).as fun _ => .done
  | .listPendingApprovals orgId => (query (.listPending orgId)).as .pending
  | .processTimeouts orgId => (processTimeouts S.backend orgId).as .processed
  | .processPendingTimeouts => (processPendingTimeouts S.backend).as fun _ => .done
  | .compensateSession orgId sessionId =>
      (compensateSession S.compensations orgId sessionId).as .compensated

/-- A step of the surroundings. The clock does not run backwards, and the tool
registry table of PostgreSQL references organisations. -/
def Env.run (b : Backend) (w : World) : Env → Option World
  | .clock now => if w.db.now ≤ now then some { w with db := { w.db with now } } else none
  | .refresh registry =>
    if b = .postgres ∧ ∃ r ∈ registry, r.1 ∉ w.db.orgs then none else some { w with registry }
  | .restart => some { w with cache := [] }

/-- The system as a machine. -/
def system (S : Setup) : Machine where
  Stmt := Stmt
  Ret := Stmt.Ret
  Err := UndoLogError
  Op := Op
  Result := OpResult
  Env := Env
  Oracle := Oracle
  Store := World
  exec := execStmt S.backend
  program := programOf S
  abort := World.rollback
  environment := fun e w => e.run S.backend w

/-- A state before any call: empty tables and cache, and a registry that respects
the organisations. -/
def Initial (S : Setup) (w : World) : Prop :=
  ∃ now partitions orgs, w.db = Db.empty now partitions orgs ∧ w.issued = [] ∧ w.cache = [] ∧
    (S.backend = .postgres → ∀ r ∈ w.registry, r.1 ∈ orgs)

/-- A configuration of the running system. -/
abbrev State (S : Setup) : Type := Machine.Config (system S)

/-- Reachable by any interleaving whose steps meet the guard. -/
abbrev Reaches (S : Setup) (guard : Machine.Guard (system S)) (c : State S) : Prop :=
  Machine.Reachable (Initial S) guard c

end UndoLog
