import Mathlib.Data.List.Sort
import UndoLog.Store.Schema

/-!
# Dead letters

The listing of the repository `DeadLetterStore`, over a table of its own. Nothing calls its
`create`.
-/

namespace UndoLog

/-- State of a dead-letter record. -/
inductive DeadLetterState where
  | failed
  | retrying
  | skipped
deriving DecidableEq

/-- A row of `undolog_dead_letters`. -/
structure DeadLetterRecord where
  deadLetterId : Uuid
  orgId : OrgId
  sessionId : SessionId
  effectId : EffectId
  undoId : UndoId
  compensationFn : String
  compensationVersion : String
  compensationArgs : Json
  errorMessage : String
  retryCount : ℤ
  state : DeadLetterState
  createdAt : Time
  updatedAt : Time

namespace DeadLetterStore

/-- `list_by_state`, newest first. -/
def listByState (orgId : OrgId) (state : DeadLetterState) (letters : List DeadLetterRecord) :
    List DeadLetterRecord :=
  (letters.filter fun d => d.orgId = orgId ∧ d.state = state).insertionSort fun d e =>
    e.createdAt ≤ d.createdAt

theorem mem_listByState {orgId : OrgId} {state : DeadLetterState}
    {letters : List DeadLetterRecord} {d : DeadLetterRecord} :
    d ∈ listByState orgId state letters ↔ d ∈ letters ∧ d.orgId = orgId ∧ d.state = state := by
  rw [listByState, List.mem_insertionSort, List.mem_filter, decide_eq_true_iff]

end DeadLetterStore

end UndoLog
