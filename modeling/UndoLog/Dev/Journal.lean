import UndoLog.Canonical.Signature
import UndoLog.Relational.Table

/-!
# The journal of the local development server

`DevJournal` keeps its effects and approvals in two SQLite tables. Every method opens a
connection of its own and runs one transaction, so a method is one atomic change of the
journal. Identifiers and times come from outside.
-/

namespace UndoLog.Dev

open Relational Text Canonical

/-! ## Rows -/

/-- A decoded JSON value. -/
abbrev PyValue : Type := Value (List Char) Python.Number

/-- A decoded JSON object. -/
abbrev Dict : Type := List (List Char × PyValue)

/-- The statuses of an effect. -/
inductive EffectStatus where
  | executing
  | awaitingApproval
  | committed
  | failed
  | rejected
deriving DecidableEq

/-- `_LIVE_EFFECT_STATUSES`: the statuses that occupy a signature. -/
def EffectStatus.live : EffectStatus → Bool
  | .executing | .awaitingApproval | .committed => true
  | .failed | .rejected => false

/-- The statuses of an approval. -/
inductive ApprovalStatus where
  | pending
  | approved
  | rejected
deriving DecidableEq

/-- A row of `effects`. -/
structure EffectRow where
  id : String
  orgId : String
  sessionId : String
  toolName : String
  stepIndex : ℕ
  signature : CallSignature
  status : EffectStatus
  args : Dict
  result : Option Dict
  error : Option String
  replayCount : ℕ
  approvalId : Option String

/-- A row of `approvals`. -/
structure ApprovalRow where
  id : String
  orgId : String
  sessionId : String
  effectId : String
  toolName : String
  args : Dict
  status : ApprovalStatus
  createdAt : ℕ
  resolvedAt : Option ℕ

/-- The two tables. -/
structure Journal where
  effects : List EffectRow
  approvals : List ApprovalRow

/-- The exceptions that end a request without a response. -/
inductive Exception where
  /-- `sqlite3.IntegrityError` -/
  | integrity
  /-- `sqlite3.OperationalError`, after waiting for another writer. -/
  | operational
  /-- `struct.error` -/
  | structError
deriving DecidableEq

/-! ## Transactions -/

/-- The arguments of `create_effect`. -/
structure NewEffect where
  orgId : String
  sessionId : String
  toolName : String
  stepIndex : ℕ
  args : Dict
  signature : CallSignature
  status : EffectStatus
  approvalId : Option String

/-- The row that `create_effect` inserts. -/
def NewEffect.row (new : NewEffect) (id : String) : EffectRow where
  id
  orgId := new.orgId
  sessionId := new.sessionId
  toolName := new.toolName
  stepIndex := new.stepIndex
  signature := new.signature
  status := new.status
  args := new.args
  result := none
  error := none
  replayCount := 0
  approvalId := new.approvalId

/-- The approval that `create_effect` inserts beside an effect. -/
def NewEffect.approval (new : NewEffect) (approvalId effectId : String) (now : ℕ) :
    ApprovalRow where
  id := approvalId
  orgId := new.orgId
  sessionId := new.sessionId
  effectId
  toolName := new.toolName
  args := new.args
  status := .pending
  createdAt := now
  resolvedAt := none

/-- `effects_live_signature_idx` does not allow both rows. -/
def EffectRow.clashes (e row : EffectRow) : Bool :=
  e.status.live && row.status.live && e.signature = row.signature

namespace Journal

/-- The journal with a new effect and, if it has one, its approval. -/
def insert (new : NewEffect) (id : String) (now : ℕ) (j : Journal) : Journal where
  effects := j.effects ++ [new.row id]
  approvals := j.approvals ++
    (new.approvalId.map fun approvalId => new.approval approvalId id now).toList

/-- `create_effect`. A conflict of the effect is ignored, one of the approval is an error. -/
def createEffect (new : NewEffect) (id : String) (now : ℕ) (j : Journal) :
    Except Exception (Option String) × Journal :=
  if j.effects.any fun e => e.id = id || e.clashes (new.row id) then (.ok none, j)
  else if j.approvals.any fun a => some a.id = new.approvalId then (.error .integrity, j)
  else (.ok (some id), j.insert new id now)

/-- `find_live_effect` -/
def findLiveEffect (signature : CallSignature) (j : Journal) : Option EffectRow :=
  j.effects.find? fun e => e.signature = signature && e.status.live

variable (id : String)

/-- One effect with another status and outcome. -/
def setEffect (status : EffectStatus) (result : Option Dict)
    (error : Option String) (j : Journal) : Journal where
  effects := updateWhere (·.id = id) (fun e => { e with status, result, error }) j.effects
  approvals := j.approvals

/-- `_update_effect`. The index refuses a second live row for a signature. -/
def updateEffect (status : EffectStatus) (result : Option Dict)
    (error : Option String) (j : Journal) : Except Exception Bool × Journal :=
  match j.effects.find? (·.id = id) with
  | none => (.ok false, j)
  | some row =>
    if j.effects.any fun e => e.id ≠ id && e.clashes { row with status } then
      (.error .integrity, j)
    else (.ok true, j.setEffect id status result error)

/-- `record_commit` -/
def recordCommit (result : Dict) : Journal → Except Exception Bool × Journal :=
  updateEffect id .committed (some result) none

/-- `record_fail` -/
def recordFail (id error : String) : Journal → Except Exception Bool × Journal :=
  updateEffect id .failed none (some error)

/-- `mark_rejected` -/
def markRejected : Journal → Except Exception Bool × Journal :=
  updateEffect id .rejected none none

/-- `record_replay` -/
def recordReplay (j : Journal) : Bool × Journal :=
  (j.effects.any (·.id = id),
    { j with effects :=
        updateWhere (·.id = id) (fun e => { e with replayCount := e.replayCount + 1 }) j.effects })

/-- The newer of an approval and those before it. -/
def newest : List ApprovalRow → Option ApprovalRow
  | [] => none
  | a :: rest =>
    match newest rest with
    | none => some a
    | some b => if a.createdAt ≤ b.createdAt then some b else some a

/-- `find_pending_approval` -/
def findPendingApproval (effectId : String) (j : Journal) : Option ApprovalRow :=
  newest (j.approvals.filter fun a => a.effectId = effectId && a.status = .pending)

/-- `get_approval` -/
def getApproval (j : Journal) : Option ApprovalRow := j.approvals.find? (·.id = id)

/-- The approvals with one of them resolved. -/
def resolve (status : ApprovalStatus) (now : ℕ) (j : Journal) : Journal where
  effects := j.effects
  approvals := updateWhere (fun a => a.id = id && a.status = .pending)
    (fun a => { a with status, resolvedAt := some now }) j.approvals

/-- `resolve_approval` -/
def resolveApproval (status : ApprovalStatus) (now : ℕ) (j : Journal) : Bool × Journal :=
  (j.approvals.any fun a => a.id = id && a.status = .pending, j.resolve id status now)

variable {rows : List ApprovalRow} {a : ApprovalRow} {effectId : String} {j : Journal}

theorem newest_eq_none_iff : newest rows = none ↔ rows = [] := by
  cases rows with
  | nil => simp [newest]
  | cons a rest =>
    simp only [newest, reduceCtorEq, iff_false]
    split
    · simp
    · split <;> simp

theorem newest_mem (h : newest rows = some a) : a ∈ rows := by
  induction rows with
  | nil => cases h
  | cons b rest ih =>
    simp only [newest] at h
    split at h
    · cases h
      exact List.mem_cons_self
    · next b' hrest =>
      split at h
      · exact List.mem_cons_of_mem _ (ih (hrest.trans h))
      · cases h
        exact List.mem_cons_self

theorem findPendingApproval_some (h : j.findPendingApproval effectId = some a) :
    a ∈ j.approvals ∧ a.effectId = effectId ∧ a.status = .pending := by
  obtain ⟨hmem, hprop⟩ := List.mem_filter.mp (newest_mem h)
  exact ⟨hmem, by simpa using hprop⟩

theorem findPendingApproval_eq_none_iff :
    j.findPendingApproval effectId = none ↔
      ∀ a ∈ j.approvals, a.effectId = effectId → a.status ≠ .pending := by
  rw [findPendingApproval, newest_eq_none_iff, List.filter_eq_nil_iff]
  simp

end Journal

/-! ## Steps of a request -/

/-- What a request does between its computations: it draws an identifier, or it runs a
transaction. -/
inductive Step where
  | uuid4
  | createEffect (new : NewEffect)
  | findLiveEffect (signature : CallSignature)
  | recordCommit (id : String) (result : Dict)
  | recordReplay (id : String)
  | recordFail (id error : String)
  | markRejected (id : String)
  | findPendingApproval (effectId : String)
  | getApproval (id : String)
  | resolveApproval (id : String) (status : ApprovalStatus)

/-- What each step returns. -/
abbrev Step.Ret : Step → Type
  | .uuid4 => String
  | .createEffect _ => Option String
  | .findLiveEffect _ => Option EffectRow
  | .recordCommit _ _ | .recordReplay _ | .recordFail _ _ | .markRejected _ => Bool
  | .findPendingApproval _ | .getApproval _ => Option ApprovalRow
  | .resolveApproval _ _ => Bool

/-- What a step reads from outside. -/
structure Circumstance where
  /-- The identifier that is drawn. -/
  uuid : String := ""
  /-- The clock. -/
  now : ℕ := 0
  /-- Another connection holds the database for longer than the timeout. -/
  locked : Bool := false

/-- The transaction of a step on a database that is free. -/
def Step.perform (o : Circumstance) (j : Journal) : (st : Step) → Except Exception st.Ret × Journal
  | .uuid4 => (.ok o.uuid, j)
  | .createEffect new => j.createEffect new o.uuid o.now
  | .findLiveEffect signature => (.ok (j.findLiveEffect signature), j)
  | .recordCommit id result => j.recordCommit id result
  | .recordReplay id => ((.ok (j.recordReplay id).1), (j.recordReplay id).2)
  | .recordFail id error => j.recordFail id error
  | .markRejected id => j.markRejected id
  | .findPendingApproval effectId => (.ok (j.findPendingApproval effectId), j)
  | .getApproval id => (.ok (j.getApproval id), j)
  | .resolveApproval id status =>
    (.ok (j.resolveApproval id status o.now).1, (j.resolveApproval id status o.now).2)

/-- Whether a step opens the database. -/
def Step.connects : Step → Bool
  | .uuid4 => false
  | _ => true

/-- One step. On a locked database a transaction has no effect. -/
def Step.run (o : Circumstance) (st : Step) (j : Journal) : Except Exception st.Ret × Journal :=
  if o.locked && st.connects then (.error .operational, j) else st.perform o j

end UndoLog.Dev
