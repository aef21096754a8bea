import UndoLog.Engine.Statement
import UndoLog.Store.Transactions

/-!
# Every way a database statement can succeed

One case for each kind of write, with the rows its guards met and the database it
leaves. All invariants of the store are derived from these cases.
-/

namespace UndoLog

open Concurrent Relational

/-- Statements that only read. -/
def Query.isRead : Query → Bool
  | .getSession _ _ | .tryAdvisoryLock _ | .findBySignature _ _ | .effectExists _ _
  | .getApproval _ _ | .listPending _ | .listOrgsWithPendingApprovals | .loadUndoStack _ _ => true
  | _ => false

/-- What an insert into the effect log was asked to insert. -/
structure Insertion where
  call : ToolCall
  signature : CallSignature
  effectId : EffectId
  tier : TierLabel
  compensationArgs : Option Json

/-- The row of an insertion. -/
def Insertion.row (b : Backend) (now : Time) (ins : Insertion) : EffectRow :=
  newEffectRow b ins.call ins.signature ins.effectId ins.tier ins.compensationArgs now

/-- The insertion a statement has made. -/
def insertionOf : Ran Stmt Stmt.Ret UndoLogError → Option Insertion
  | ⟨.db (.insertCompensable call signature effectId compensation), .ok true⟩ =>
      some ⟨call, signature, effectId, .compensable, some compensation.args⟩
  | ⟨.db (.insertIrreversible call signature effectId), .ok true⟩ =>
      some ⟨call, signature, effectId, .irreversible, none⟩
  | _ => none

/-- The insertion of a statement that was ignored as a duplicate. -/
def ignoredOf : Ran Stmt Stmt.Ret UndoLogError → Option Insertion
  | ⟨.db (.insertCompensable call signature effectId compensation), .ok false⟩ =>
      some ⟨call, signature, effectId, .compensable, some compensation.args⟩
  | ⟨.db (.insertIrreversible call signature effectId), .ok false⟩ =>
      some ⟨call, signature, effectId, .irreversible, none⟩
  | _ => none

/-- What a successful database statement of call `t` does. -/
inductive Outcome (b : Backend) (t : ℕ) (db : Db) : (q : Query) → q.Ret → Db → Prop
  | read {q : Query} {a : q.Ret} (hread : q.isRead = true) : Outcome b t db q a db
  | sessionKept (orgId : OrgId) (sessionId : SessionId)
      (hold : ∃ s ∈ db.sessions, s.sessionId = sessionId) :
      Outcome b t db (.createSession orgId sessionId) () db
  | sessionCreated (orgId : OrgId) (sessionId : SessionId)
      (hnew : ∀ s ∈ db.sessions, s.sessionId ≠ sessionId)
      (horg : b = .postgres → orgId ∈ db.orgs) :
      Outcome b t db (.createSession orgId sessionId) ()
        { db with sessions := db.sessions ++ [newSession orgId sessionId db.now] }
  | inserted {q : Query} {a : q.Ret} {ins : Insertion}
      (hins : insertionOf ⟨.db q, .ok a⟩ = some ins)
      (hclash : ∀ row ∈ db.effects, clash b row (ins.row b db.now) = false) :
      Outcome b t db q a { db with
        effects := db.effects ++ [ins.row b db.now]
        sessions := onPostgres b (countToolCall ins.call.sessionId) db.sessions }
  | ignored {q : Query} {a : q.Ret} {ins : Insertion}
      (hins : ignoredOf ⟨.db q, .ok a⟩ = some ins) (hb : b = .sqlite)
      (hclash : ∃ row ∈ db.effects,
        row.effectId = ins.effectId ∨ row.callSignature = ins.signature) :
      Outcome b t db q a db
  | undoInserted (call : ToolCall) (effectId : EffectId) (compensation : CompensationDescriptor)
      (undoId : UndoId)
      (hnew : ∀ u ∈ db.undo, u.undoId ≠ undoId ∧
        ¬(u.sessionId = call.sessionId ∧ u.stackPosition = stepColumn b call.stepIndex))
      (hkeys : foreignKeys b call.orgId call.sessionId db = true) :
      Outcome b t db (.insertUndo call effectId compensation undoId) () { db with
        undo := db.undo ++ [newUndoRow b call effectId compensation undoId db.now] }
  | replayed (orgId : OrgId) (effectId : EffectId) :
      Outcome b t db (.markReplayed orgId effectId) () { db with
        effects := updateWhere (ofEffect orgId effectId) (fun row => { row with
          replayCount := row.replayCount + 1
          lastReplayedAt := some db.now
          state := .replayed }) db.effects }
  | executing (orgId : OrgId) (effectId : EffectId)
      (hrow : db.effects.countP (ofEffectIn orgId effectId [.pending]) ≠ 0) :
      Outcome b t db (.setExecuting orgId effectId) () { db with
        effects := updateWhere (ofEffectIn orgId effectId [.pending])
          (fun row => { row with state := .executing }) db.effects }
  | approvalCreated (req : ApprovalRequest)
      (hnew : ∀ a ∈ db.approvals, a.approvalRequestId ≠ req.approvalRequestId)
      (hkeys : foreignKeys b req.orgId req.sessionId db = true) :
      Outcome b t db (.createApproval req) () { db with
        approvals := db.approvals ++ [newApprovalRow req db.now]
        sessions := onPostgres b (countPendingApproval req.sessionId) db.sessions }
  | linked (orgId : OrgId) (effectId : EffectId) (id : ApprovalRequestId) :
      Outcome b t db (.setApprovalRequestId orgId effectId id) () { db with
        effects := updateWhere (ofEffect orgId effectId)
          (fun row => { row with approvalRequestId := some id }) db.effects }
  | awaiting (orgId : OrgId) (sessionId : SessionId) :
      Outcome b t db (.setAwaitingApproval orgId sessionId) () { db with
        sessions := updateWhere (ofSessionIn orgId sessionId [.active])
          (fun s => { s with state := .awaitingApproval }) db.sessions }
  | committed (orgId : OrgId) (effectId : EffectId) (result : ToolResult) :
      Outcome b t db (.commitRows orgId effectId result)
        (db.effects.countP (ofEffectIn orgId effectId [.executing, .approved]),
          db.effects.any (ofEffect orgId effectId)) { db with
        effects := updateWhere (ofEffectIn orgId effectId [.executing, .approved])
          (fun row => { row with
            state := .committed
            resultSnapshot := some result.toValue
            committedAt := some db.now }) db.effects }
  | failed (orgId : OrgId) (effectId : EffectId) (reason : String) :
      Outcome b t db (.failRows orgId effectId reason)
        (db.effects.countP (ofEffectIn orgId effectId [.executing, .approved]),
          db.effects.any (ofEffect orgId effectId)) { db with
        effects := updateWhere (ofEffectIn orgId effectId [.executing, .approved])
          (fun row => { row with
            state := .pending
            resultSnapshot := some (failureValue reason) }) db.effects }
  | approved (orgId : OrgId) (id : ApprovalRequestId) (actor : String)
      (approvedArgs : Option Json) (approval : ApprovalRequest) (version : String)
      (happroval : db.approvals.countP (ofPendingApproval orgId id) ≠ 0)
      (heffect : db.effects.countP (ofEffectIn orgId approval.effectId [.pending]) ≠ 0)
      (hsession : (discountedSessions b orgId id db).countP
        (ofSessionIn orgId approval.sessionId [.awaitingApproval]) ≠ 0) :
      Outcome b t db (.approve orgId id actor approvedArgs approval) version
        (approvedDb b orgId id actor approvedArgs approval db)
  | rejected (orgId : OrgId) (id : ApprovalRequestId) (actor : String)
      (approval : ApprovalRequest)
      (happroval : db.approvals.countP (ofPendingApproval orgId id) ≠ 0)
      (heffect : db.effects.countP (ofEffectIn orgId approval.effectId [.pending]) ≠ 0) :
      Outcome b t db (.reject orgId id actor approval) ()
        (rejectedDb b orgId id actor approval db)
  | timeoutsSelected (orgId : OrgId) :
      Outcome b t db (.timeoutSelect orgId) (expiredApprovals b orgId db) { db with
        timeouts := db.timeouts ++ [{ owner := t, startedAt := db.now, writes := [] }] }
  | timeoutsUpdated (orgId : OrgId) (id : ApprovalRequestId) (autoApprove : Bool) :
      Outcome b t db (.timeoutUpdate orgId id autoApprove) () { db with
        timeouts := updateWhere (fun tx => tx.owner = t)
          (fun tx => { tx with writes := tx.writes ++ [⟨orgId, id, autoApprove⟩] }) db.timeouts }
  | timeoutsCommitted (orgId : OrgId) :
      Outcome b t db (.timeoutCommit orgId) () (rollbackTimeouts t
        ((db.timeouts.filter fun tx => tx.owner = t).foldl (applyTimeoutTx b) db))
  | timeoutsProcessed (orgId : OrgId) :
      Outcome b t db (.processTimeouts orgId) (expiredApprovals b orgId db).length
        (resolveTimeouts b db.now ((expiredApprovals b orgId db).map (timeoutWrite orgId)) db)
  | undoCompensated (orgId : OrgId) (undoId : UndoId) :
      Outcome b t db (.markCompensated orgId undoId) () { db with
        undo := updateWhere (ofUndo orgId undoId)
          (fun u => { u with state := .compensated, compensatedAt := some db.now }) db.undo }
  | undoFailed (orgId : OrgId) (undoId : UndoId) (reason : String) :
      Outcome b t db (.markCompensationFailed orgId undoId reason) () { db with
        undo := updateWhere (ofUndo orgId undoId)
          (fun u => { u with state := .failed, lastError := some reason }) db.undo }
  | compensationFailed (orgId : OrgId) (effectId : EffectId) :
      Outcome b t db (.markEffectCompensationFailed orgId effectId) () { db with
        effects := updateWhere (ofEffect orgId effectId)
          (fun row => { row with state := .compensationFailed }) db.effects }
  | sessionCompensated (orgId : OrgId) (sessionId : SessionId) :
      Outcome b t db (.setCompensated orgId sessionId) () { db with
        sessions := updateWhere (ofSessionIn orgId sessionId [.active, .failed, .compensating])
          (fun s => { s with state := .compensated }) db.sessions }
  | sessionHalted (orgId : OrgId) (sessionId : SessionId) (reason : String) :
      Outcome b t db (.setHalted orgId sessionId reason) () { db with
        sessions := updateWhere (ofSession orgId sessionId)
          (fun s => { s with state := .halted, failureReason := some reason }) db.sessions }

variable {b : Backend} {db db' : Db} {t : ℕ}

theorem insertEffect_ok {new : EffectRow} {inserted : Bool}
    (h : insertEffect b new db = .ok (inserted, db')) :
    (inserted = true ∧ (∀ row ∈ db.effects, clash b row new = false) ∧ db' = { db with
        effects := db.effects ++ [new]
        sessions := onPostgres b (countToolCall new.sessionId) db.sessions }) ∨
    (inserted = false ∧ b = .sqlite ∧ (∃ row ∈ db.effects, clash b row new = true) ∧ db' = db) := by
  cases b with
  | postgres =>
    simp only [insertEffect] at h
    split at h
    · cases h
    · next hfree =>
      cases h
      push Not at hfree
      exact .inl ⟨rfl, by simpa using hfree.2, rfl⟩
  | sqlite =>
    simp only [insertEffect] at h
    split at h
    · next hclash =>
      cases h
      exact .inr ⟨rfl, rfl, by simpa using hclash, rfl⟩
    · next hfree =>
      cases h
      exact .inl ⟨rfl, by simpa using hfree, rfl⟩

theorem Outcome.of_insertEffect {q : Query} {a : q.Ret} {inserted : Bool} (ins : Insertion)
    (htrue : inserted = true → insertionOf ⟨.db q, .ok a⟩ = some ins)
    (hfalse : inserted = false → ignoredOf ⟨.db q, .ok a⟩ = some ins)
    (h : insertEffect b (ins.row b db.now) db = .ok (inserted, db')) : Outcome b t db q a db' := by
  obtain ⟨hinserted, hclash, rfl⟩ | ⟨hinserted, rfl, ⟨row, hrow, hclash⟩, rfl⟩ := insertEffect_ok h
  · exact .inserted (htrue hinserted) hclash
  · exact .ignored (hfalse hinserted) rfl ⟨row, hrow, clash_sqlite.mp hclash⟩

/-- The case of a successful statement. -/
theorem Outcome.of_tx {o : Oracle} {q : Query} {a : q.Ret}
    (h : q.tx b t o db = .ok (a, db')) : Outcome b t db q a db' := by
  cases q with
  | getSession | findBySignature | effectExists | getApproval | listPending
  | listOrgsWithPendingApprovals | loadUndoStack | tryAdvisoryLock =>
    simp only [Query.tx, getSession, findBySignature, effectExists, getApproval, listPending,
      listOrgsWithPendingApprovals, loadUndoStack, Tx.query_ok] at h
    rw [h.2]
    exact .read rfl
  | createSession orgId sessionId =>
    simp only [Query.tx, createSession] at h
    split at h
    · next hold =>
      cases h
      exact .sessionKept _ _ (by simpa using hold)
    · next hnew =>
      split at h
      · cases h
      · next horg =>
        cases h
        refine .sessionCreated _ _ (by simpa using hnew) ?_
        intro hb
        by_contra hmem
        exact horg ⟨hb, hmem⟩
  | markReplayed orgId effectId =>
    simp only [Query.tx, markReplayed] at h
    split at h
    · cases h
    · cases h
      exact .replayed _ _
  | insertCompensable call signature effectId compensation =>
    exact .of_insertEffect ⟨call, signature, effectId, .compensable, some compensation.args⟩
      (by rintro rfl; rfl) (by rintro rfl; rfl) h
  | insertIrreversible call signature effectId =>
    exact .of_insertEffect ⟨call, signature, effectId, .irreversible, none⟩ (by rintro rfl; rfl)
      (by rintro rfl; rfl) h
  | insertUndo call effectId compensation undoId =>
    obtain ⟨hnew, hkeys, rfl⟩ := insertUndo_ok h
    exact .undoInserted _ _ _ _ hnew hkeys
  | setExecuting orgId effectId =>
    obtain ⟨hrow, rfl⟩ := transitionEffect_ok.mp h
    exact .executing _ _ hrow
  | createApproval req =>
    simp only [Query.tx, createApproval] at h
    split at h
    · cases h
    · next hnew =>
      split at h
      · next hkeys =>
        cases h
        exact .approvalCreated _ (by simpa using hnew) hkeys
      · cases h
  | setApprovalRequestId => cases h; exact .linked ..
  | setAwaitingApproval => cases h; exact .awaiting ..
  | commitRows => cases h; exact .committed ..
  | failRows => cases h; exact .failed ..
  | approve orgId id actor approvedArgs approval =>
    obtain ⟨happroval, heffect, hsession, rfl⟩ := approveTx_ok h
    exact .approved _ _ _ _ _ _ happroval heffect hsession
  | reject orgId id actor approval =>
    obtain ⟨happroval, heffect, rfl⟩ := rejectTx_ok.mp h
    exact .rejected _ _ _ _ happroval heffect
  | timeoutSelect => cases h; exact .timeoutsSelected ..
  | timeoutUpdate => cases h; exact .timeoutsUpdated ..
  | timeoutCommit => cases h; exact .timeoutsCommitted ..
  | processTimeouts => cases h; exact .timeoutsProcessed ..
  | markCompensated => cases h; exact .undoCompensated ..
  | markCompensationFailed => cases h; exact .undoFailed ..
  | markEffectCompensationFailed => cases h; exact .compensationFailed ..
  | setCompensated => cases h; exact .sessionCompensated ..
  | setHalted => cases h; exact .sessionHalted ..

theorem Outcome.undo_keys {call : ToolCall}
    {effectId : EffectId} {compensation : CompensationDescriptor} {undoId : UndoId} {u : Unit}
    (h : Outcome b t db (.insertUndo call effectId compensation undoId) u db') :
    foreignKeys b call.orgId call.sessionId db = true := by
  cases h with
  | undoInserted _ _ _ _ _ hkeys => exact hkeys
  | read hread => cases hread
  | inserted hins | ignored hins => cases hins

end UndoLog
