import UndoLog.Engine.Intercept

/-!
# Compensating a session

`compensate_session` walks the pending undo entries of a session, calls the
compensation endpoint of each, and stops at the first entry that fails for good.
-/

namespace UndoLog

open Concurrent

/-- The policy for calls of compensation endpoints, with times in milliseconds. -/
structure RetryConfig where
  maxRetries : UInt32
  initialInterval : ℕ
  multiplier : Float
  maxInterval : ℕ

/-- `RetryConfig::default`. -/
def RetryConfig.default : RetryConfig where
  maxRetries := 3
  initialInterval := 100
  multiplier := 2.0
  maxInterval := 5000

/-- `retry_policy`, from the compensation of an entry and the default policy. -/
def retryPolicy (default : RetryConfig) (compensation : CompensationDescriptor) : RetryConfig where
  maxRetries :=
    if compensation.maxRetries = 0 then default.maxRetries else compensation.maxRetries.toUInt32
  initialInterval :=
    if compensation.retryBackoffMs = 0 then default.initialInterval
    else compensation.retryBackoffMs.toNat
  multiplier := default.multiplier
  maxInterval := default.maxInterval

/-- What the orchestrator gets from its compensation registry and HTTP library. -/
structure CompensationRegistry where
  /-- `endpoint_for`. -/
  endpointFor : String → Option String
  /-- `default_retry_config`. -/
  defaultRetryConfig : RetryConfig
  /-- The text of a status code. -/
  statusText : ℕ → String

variable (registry : CompensationRegistry)

/-- The retries of an entry. -/
def maxRetries (entry : UndoEntry) : UInt32 :=
  (retryPolicy registry.defaultRetryConfig entry.compensation).maxRetries

/-- `idempotency_key_for`. The text of an identifier comes from the UUID library. -/
def idempotencyKeyFor (display : Uuid → String) (undoId : UndoId) : String :=
  "undo-" ++ display undoId.uuid

theorem idempotencyKeyFor_inj {display : Uuid → String} (h : Function.Injective display)
    {undoId undoId' : UndoId} :
    idempotencyKeyFor display undoId = idempotencyKeyFor display undoId' ↔ undoId = undoId' := by
  constructor
  · intro heq
    have huuid : undoId.uuid = undoId'.uuid := h (String.append_right_inj _ |>.mp heq)
    cases undoId
    cases undoId'
    exact congrArg UndoId.mk huuid
  · rintro rfl
    rfl

/-- How one request ended. -/
inductive Attempt where
  | succeeded
  | permanent (reason : String)
  | retryable (reason : String)

/-- `is_permanent_client_error`. -/
def isPermanentClientError (code : ℕ) : Bool := 400 ≤ code ∧ code < 500 ∧ code ≠ 429

/-- The arms of the request loop. -/
def classify : HttpResponse → Attempt
  | .status code =>
    if 200 ≤ code ∧ code < 300 then .succeeded
    else if isPermanentClientError code then
      .permanent ("endpoint returned " ++ registry.statusText code)
    else .retryable ("endpoint returned " ++ registry.statusText code)
  | .failure message => .retryable message

/-- The request loop with a number of retries left: `none` on success, else the last reason. A
program is finite, so `requestLoop` has the counter of the source, a `u32` that wraps around. -/
def postLoop (endpoint : String) (entry : UndoEntry) (retries : ℕ) : Proc (Option String) := do
  let response ← app (.post endpoint entry.undoId entry.compensation.args)
  match classify registry response with
  | .succeeded => pure none
  | .permanent reason => pure (some reason)
  | .retryable reason =>
    match retries with
    | 0 => pure (some reason)
    | retries + 1 => postLoop endpoint entry retries

/-- Record a permanent failure on the undo entry and on its effect. -/
def failEntry (orgId : OrgId) (entry : UndoEntry) (reason : String) : Proc Unit := do
  query (.markCompensationFailed orgId entry.undoId reason)
  query (.markEffectCompensationFailed orgId entry.effectId)

/-- `execute_entry`. -/
def executeEntry (orgId : OrgId) (entry : UndoEntry) : Proc (Except SagaError Unit) :=
  match registry.endpointFor entry.compensation.fnName with
  | none => do
    failEntry orgId entry
      ("missing compensation endpoint for key " ++ entry.compensation.fnName)
    pure (.error (.missingCompensationEndpoint entry.compensation.fnName))
  | some endpoint => do
    let failure ← postLoop registry endpoint entry (maxRetries registry entry).toNat
    match failure with
    | none => pure (.ok ())
    | some last => do
      let reason := if last = "" then "compensation retries exhausted" else last
      failEntry orgId entry reason
      pure (.error (.compensationFailed entry.undoId reason))

/-- The reason a failed entry halts its session with. -/
def SagaError.haltReason : SagaError → Option String
  | .compensationFailed _ reason => some reason
  | .missingCompensationEndpoint key => some ("missing compensation endpoint for key " ++ key)
  | .sessionNotFound _ => none

/-- The walk over the undo stack. -/
def compensateEntries (orgId : OrgId) (sessionId : SessionId) :
    List UndoEntry → Proc (Except SagaError SessionState)
  | [] => do
    query (.setCompensated orgId sessionId)
    pure (.ok .compensated)
  | entry :: rest =>
    if entry.state.isTerminal then compensateEntries orgId sessionId rest
    else do
      let outcome ← executeEntry registry orgId entry
      match outcome with
      | .ok () => do
        query (.markCompensated orgId entry.undoId)
        compensateEntries orgId sessionId rest
      | .error e =>
        match e.haltReason with
        | some reason => do
          query (.setHalted orgId sessionId reason)
          pure (.ok .halted)
        | none => pure (.error e)

/-- `compensate_session`. -/
def compensateSession (orgId : OrgId) (sessionId : SessionId) :
    Proc (Except SagaError SessionState) := do
  let found ← query (.getSession orgId sessionId)
  match found with
  | none => pure (.error (.sessionNotFound sessionId))
  | some session =>
    if session.state.isTerminal then pure (.ok session.state)
    else do
      let entries ← query (.loadUndoStack orgId sessionId)
      compensateEntries registry orgId sessionId entries

end UndoLog
