import Mathlib.Data.List.Sort
import UndoLog.Store.Schema

/-!
# The effect log and the undo stack

The repository `EffectStore` of both backends. The backends differ in how an
insert meets an existing signature, in the width of the step and replay columns
and in foreign keys; everything else is common.
-/

namespace UndoLog

open Relational

variable (b : Backend)

/-- A `u32` bound to a column: a 32-bit signed integer on PostgreSQL, a 64-bit
one on SQLite. -/
def stepColumn (n : UInt32) : ℤ :=
  match b with
  | .postgres => n.toBitVec.toInt
  | .sqlite => n.toNat

/-! ## Row mapping -/

/-- `parse_tool_tier`: the label without its payload. -/
def parseToolTier : TierLabel → ToolTier
  | .safe => .safe
  | .compensable => .compensable
      { fnName := "", fnVersion := "", args := .null, maxRetries := 0, retryBackoffMs := 0 }
  | .irreversible => .irreversible ""

/-- `map_effect_row`. Decoding fails on a stored value that is not a tool result. -/
def mapEffectRow (row : EffectRow) : Except UndoLogError EffectRecord :=
  let record (result : Option ToolResult) : EffectRecord :=
    { effectId := row.effectId, orgId := row.orgId, sessionId := row.sessionId
      toolId := row.toolId, callSignature := row.callSignature, toolName := row.toolName
      toolVersion := row.toolVersion, tier := parseToolTier row.tier
      stepIndex := UInt32.ofInt row.stepIndex, argsSnapshot := row.argsSnapshot
      resultSnapshot := result, state := row.state, compensationArgs := row.compensationArgs
      executedAt := row.executedAt, committedAt := row.committedAt
      replayCount := UInt16.ofNat row.replayCount, lastReplayedAt := row.lastReplayedAt
      approvalRequestId := row.approvalRequestId }
  match row.resultSnapshot with
  | none => .ok (record none)
  | some value =>
    match ToolResult.fromValue value with
    | some result => .ok (record (some result))
    | none => .error .serialization

/-- `map_undo_row`. -/
def mapUndoRow (row : UndoRow) : UndoEntry where
  undoId := row.undoId
  orgId := row.orgId
  sessionId := row.sessionId
  effectId := row.effectId
  stackPosition := UInt32.ofInt row.stackPosition
  compensation :=
    { fnName := row.compensationFn, fnVersion := row.compensationVersion
      args := row.compensationArgs, maxRetries := UInt8.ofNat row.maxRetries
      retryBackoffMs := UInt32.ofNat row.retryBackoffMs }
  state := row.state
  retryCount := UInt8.ofNat row.retryCount
  lastError := row.lastError
  registeredAt := row.registeredAt
  compensatedAt := row.compensatedAt

/-! ## Inserts -/

/-- The row of a new call, in state `pending`. -/
def newEffectRow (call : ToolCall) (signature : CallSignature)
    (effectId : EffectId) (tier : TierLabel) (compensationArgs : Option Json) (now : Time) :
    EffectRow where
  effectId := effectId
  orgId := call.orgId
  sessionId := call.sessionId
  toolId := call.toolId
  callSignature := signature
  toolName := call.toolName
  toolVersion := call.toolVersion
  tier := tier
  stepIndex := stepColumn b call.stepIndex
  argsSnapshot := call.args
  resultSnapshot := none
  state := .pending
  compensationArgs := compensationArgs
  executedAt := now
  committedAt := none
  replayCount := 0
  lastReplayedAt := none
  approvalRequestId := none

/-- Two rows that one unique constraint of the effect log forbids. PostgreSQL has the key
`(effect_id, executed_at)` and an index on `call_signature` in every partition, SQLite has both
columns unique over the whole table. -/
def clash (row new : EffectRow) : Bool :=
  match b with
  | .postgres =>
    (row.effectId = new.effectId ∧ row.executedAt = new.executedAt) ∨
      (row.callSignature = new.callSignature ∧ monthOf row.executedAt = monthOf new.executedAt)
  | .sqlite => row.effectId = new.effectId ∨ row.callSignature = new.callSignature

theorem clash_sqlite {row new : EffectRow} : clash .sqlite row new = true ↔
      row.effectId = new.effectId ∨ row.callSignature = new.callSignature := by
  simp [clash]

theorem clash_postgres {row new : EffectRow} : clash .postgres row new = true ↔
      (row.effectId = new.effectId ∧ row.executedAt = new.executedAt) ∨
      (row.callSignature = new.callSignature ∧
        monthOf row.executedAt = monthOf new.executedAt) := by
  simp [clash]

/-- Insert into the effect log. PostgreSQL reports a missing partition and a
duplicate as errors; SQLite ignores a duplicate and reports no row. -/
def insertEffect (new : EffectRow) : Tx Bool := fun db =>
  match b with
  | .postgres =>
    if monthOf new.executedAt ∉ db.partitions ∨ db.effects.any (clash b · new) then
      .error .database
    else
      .ok (true, { db with
        effects := db.effects ++ [new]
        sessions := countToolCall new.sessionId db.sessions })
  | .sqlite =>
    if db.effects.any (clash b · new) then .ok (false, db)
    else .ok (true, { db with effects := db.effects ++ [new] })

/-- `insert_compensable`. -/
def insertCompensable (call : ToolCall) (signature : CallSignature)
    (effectId : EffectId) (compensation : CompensationDescriptor) : Tx Bool := fun db =>
  insertEffect b
    (newEffectRow b call signature effectId .compensable (some compensation.args) db.now) db

/-- `insert_irreversible`. -/
def insertIrreversible (call : ToolCall) (signature : CallSignature)
    (effectId : EffectId) : Tx Bool := fun db =>
  insertEffect b (newEffectRow b call signature effectId .irreversible none db.now) db

/-- The undo entry of a call. Retry columns take their defaults. -/
def newUndoRow (call : ToolCall) (effectId : EffectId)
    (compensation : CompensationDescriptor) (undoId : UndoId) (now : Time) : UndoRow where
  undoId := undoId
  orgId := call.orgId
  sessionId := call.sessionId
  effectId := effectId
  stackPosition := stepColumn b call.stepIndex
  compensationFn := compensation.fnName
  compensationVersion := compensation.fnVersion
  compensationArgs := compensation.args
  state := .pending
  retryCount := 0
  lastError := none
  registeredAt := now
  compensatedAt := none
  maxRetries := 3
  retryBackoffMs := 1000

/-- Foreign keys to organisations and sessions, declared by PostgreSQL only. -/
def foreignKeys (orgId : OrgId) (sessionId : SessionId) (db : Db) : Bool :=
  match b with
  | .postgres => orgId ∈ db.orgs ∧ db.sessions.any (fun s => s.sessionId = sessionId)
  | .sqlite => true

/-- The insert of `push_undo_entry`, under `UNIQUE (session_id, stack_position)`. -/
def insertUndo (call : ToolCall) (effectId : EffectId)
    (compensation : CompensationDescriptor) (undoId : UndoId) : Tx Unit := fun db =>
  let new := newUndoRow b call effectId compensation undoId db.now
  if db.undo.any (fun u => u.undoId = undoId ∨
      (u.sessionId = new.sessionId ∧ u.stackPosition = new.stackPosition)) then
    .error .database
  else if foreignKeys b call.orgId call.sessionId db then
    .ok ((), { db with undo := db.undo ++ [new] })
  else .error .database

/-! ## Transitions -/

/-- The row of an effect of an organisation. -/
def ofEffect (orgId : OrgId) (effectId : EffectId) (row : EffectRow) : Bool :=
  row.effectId = effectId ∧ row.orgId = orgId

/-- The row of an effect in one of the given states. -/
def ofEffectIn (orgId : OrgId) (effectId : EffectId) (states : List EffectState)
    (row : EffectRow) : Bool :=
  ofEffect orgId effectId row ∧ row.state ∈ states

/-- A guarded transition of one effect that must find its row. -/
def transitionEffect (orgId : OrgId) (effectId : EffectId) (source : EffectState)
    (update : EffectRow → EffectRow) (current target : String) : Tx Unit := do
  let rows ← updateEffects (ofEffectIn orgId effectId [source]) update
  Tx.require (rows != 0) (.invalidStateTransition effectId.uuid current target)

/-- `set_executing`. -/
def setExecuting (orgId : OrgId) (effectId : EffectId) : Tx Unit :=
  transitionEffect orgId effectId .pending (fun row => { row with state := .executing })
    "not pending" "executing"

/-- `approve_effect`. -/
def approveEffect (orgId : OrgId) (effectId : EffectId) : Tx Unit :=
  transitionEffect orgId effectId .pending (fun row => { row with state := .approved })
    "not pending" "approved"

/-- `reject_effect`. -/
def rejectEffect (orgId : OrgId) (effectId : EffectId) : Tx Unit :=
  transitionEffect orgId effectId .pending (fun row => { row with state := .rejected })
    "not pending" "rejected"

/-- `update_args_snapshot`. -/
def updateArgsSnapshot (orgId : OrgId) (effectId : EffectId) (args : Json) : Tx Unit :=
  transitionEffect orgId effectId .approved (fun row => { row with argsSnapshot := args })
    "not approved" "approved"

/-- Whether an effect of an organisation has a row. -/
def effectExists (orgId : OrgId) (effectId : EffectId) : Tx Bool :=
  Tx.query fun db => .ok (db.effects.any (ofEffect orgId effectId))

/-- The update of `commit_effect`: how many rows it met, and whether the effect
has a row at all. -/
def commitRows (orgId : OrgId) (effectId : EffectId) (result : ToolResult) : Tx (ℕ × Bool) :=
  fun db =>
    let p := ofEffectIn orgId effectId [.executing, .approved]
    .ok ((db.effects.countP p, db.effects.any (ofEffect orgId effectId)),
      { db with effects := updateWhere p (fun row => { row with
          state := .committed
          resultSnapshot := some result.toValue
          committedAt := some db.now }) db.effects })

/-- The update of `fail_effect`. -/
def failRows (orgId : OrgId) (effectId : EffectId) (reason : String) : Tx (ℕ × Bool) :=
  fun db =>
    let p := ofEffectIn orgId effectId [.executing, .approved]
    .ok ((db.effects.countP p, db.effects.any (ofEffect orgId effectId)),
      { db with effects := updateWhere p (fun row => { row with
          state := .pending
          resultSnapshot := some (failureValue reason) }) db.effects })

/-- The largest value of PostgreSQL's `smallint`. -/
def smallintMax : ℕ := 32767

/-- `mark_replayed`. On PostgreSQL the counter is a `smallint`, and incrementing
it past its largest value is an error. -/
def markReplayed (orgId : OrgId) (effectId : EffectId) : Tx Unit := fun db =>
  if b = .postgres ∧
      db.effects.any (fun row => ofEffect orgId effectId row ∧ smallintMax ≤ row.replayCount) then
    .error .database
  else
    .ok ((), { db with effects := updateWhere (ofEffect orgId effectId) (fun row => { row with
      replayCount := row.replayCount + 1
      lastReplayedAt := some db.now
      state := .replayed }) db.effects })

/-- `set_approval_request_id`. -/
def setApprovalRequestId (orgId : OrgId) (effectId : EffectId)
    (approvalRequestId : ApprovalRequestId) : Tx Unit := do
  let _ ← updateEffects (ofEffect orgId effectId)
    (fun row => { row with approvalRequestId := some approvalRequestId })

/-- `mark_effect_compensation_failed`. -/
def markEffectCompensationFailed (orgId : OrgId) (effectId : EffectId) : Tx Unit := do
  let _ ← updateEffects (ofEffect orgId effectId)
    (fun row => { row with state := .compensationFailed })

/-! ## Lookups -/

/-- `LIMIT 1` without an order: any one of the candidates, if there is one. -/
def limitOne {α : Type} (pick : ℕ) (candidates : List α) : Option α :=
  candidates[pick % candidates.length]?

section LimitOne

variable {α : Type} {pick : ℕ} {candidates : List α} {x : α}

/-- `LIMIT 1` returns no row only when there is none. -/
theorem limitOne_eq_none : limitOne pick candidates = none ↔ candidates = [] := by
  rw [limitOne, List.getElem?_eq_none_iff]
  constructor
  · intro hle
    by_contra hne
    have hpos : 0 < candidates.length := List.length_pos_iff.mpr hne
    have hlt : pick % candidates.length < candidates.length := Nat.mod_lt _ hpos
    omega
  · rintro rfl
    simp

theorem limitOne_of_ne_nil (h : candidates ≠ []) (pick : ℕ) :
    ∃ x, limitOne pick candidates = some x :=
  Option.ne_none_iff_exists'.mp fun hnone => h (limitOne_eq_none.mp hnone)

theorem limitOne_mem (h : limitOne pick candidates = some x) : x ∈ candidates :=
  List.mem_of_getElem? h

theorem exists_limitOne (h : x ∈ candidates) : ∃ pick, limitOne pick candidates = some x := by
  obtain ⟨i, hi, hx⟩ := List.getElem_of_mem h
  refine ⟨i, ?_⟩
  rw [limitOne, Nat.mod_eq_of_lt hi, List.getElem?_eq_getElem hi, hx]

theorem limitOne_of_unique (h : x ∈ candidates)
    (honly : ∀ y ∈ candidates, y = x) (pick : ℕ) : limitOne pick candidates = some x := by
  cases hlimit : limitOne pick candidates with
  | none =>
    rw [limitOne_eq_none.mp hlimit] at h
    cases h
  | some y => rw [honly y (limitOne_mem hlimit)]

end LimitOne

/-- `find_by_signature`. -/
def findBySignature (pick : ℕ) (orgId : OrgId) (signature : CallSignature) :
    Tx (Option EffectRecord) :=
  Tx.query fun db =>
    match limitOne pick
        (db.effects.filter fun row => row.callSignature = signature ∧ row.orgId = orgId) with
    | some row => (mapEffectRow row).map some
    | none => .ok none

/-- `find_by_effect_id`. -/
def findByEffectId (pick : ℕ) (orgId : OrgId) (effectId : EffectId) : Tx (Option EffectRecord) :=
  Tx.query fun db =>
    match limitOne pick (db.effects.filter (ofEffect orgId effectId)) with
    | some row => (mapEffectRow row).map some
    | none => .ok none

/-! ## The undo stack -/

/-- `load_undo_stack`: pending entries, highest position first. -/
def loadUndoStack (orgId : OrgId) (sessionId : SessionId) : Tx (List UndoEntry) :=
  Tx.query fun db =>
    let entries := db.undo.filter fun u =>
      u.sessionId = sessionId ∧ u.orgId = orgId ∧ u.state = .pending
    .ok ((entries.insertionSort fun u v => v.stackPosition ≤ u.stackPosition).map mapUndoRow)

/-- The row of an undo entry of an organisation. -/
def ofUndo (orgId : OrgId) (undoId : UndoId) (u : UndoRow) : Bool :=
  u.undoId = undoId ∧ u.orgId = orgId

/-- `mark_compensated`. -/
def markCompensated (orgId : OrgId) (undoId : UndoId) : Tx Unit := fun db =>
  updateUndo (ofUndo orgId undoId)
    (fun u => { u with state := .compensated, compensatedAt := some db.now }) db

/-- `mark_compensation_failed`. -/
def markCompensationFailed (orgId : OrgId) (undoId : UndoId) (reason : String) : Tx Unit :=
  updateUndo (ofUndo orgId undoId) (fun u => { u with state := .failed, lastError := some reason })

end UndoLog
