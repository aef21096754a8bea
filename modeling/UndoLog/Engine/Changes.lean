import UndoLog.Engine.Outcome

/-!
# What a statement does to each row

A successful statement adds at most one row to a table and otherwise rewrites
the table row by row. The functions here give the new row for every old one; the
columns they never touch are the core of a row.
-/

namespace UndoLog

open Concurrent Relational

/-! ## Effects -/

/-- The columns of an effect that its insertion fixes for good, the time of the
insertion apart. -/
def EffectRow.core (row : EffectRow) : EffectRow :=
  { row with
    argsSnapshot := .null
    resultSnapshot := none
    state := .pending
    executedAt := 0
    committedAt := none
    replayCount := 0
    lastReplayedAt := none
    approvalRequestId := none }

/-- The row of an effect after a statement. -/
def Query.effectAfter (now : Time) : Query → EffectRow → EffectRow
  | .markReplayed orgId effectId => updateRow (ofEffect orgId effectId) fun row => { row with
      replayCount := row.replayCount + 1
      lastReplayedAt := some now
      state := .replayed }
  | .setExecuting orgId effectId => updateRow (ofEffectIn orgId effectId [.pending]) fun row =>
      { row with state := .executing }
  | .setApprovalRequestId orgId effectId id => updateRow (ofEffect orgId effectId) fun row =>
      { row with approvalRequestId := some id }
  | .commitRows orgId effectId result =>
      updateRow (ofEffectIn orgId effectId [.executing, .approved]) fun row => { row with
        state := .committed
        resultSnapshot := some result.toValue
        committedAt := some now }
  | .failRows orgId effectId reason =>
      updateRow (ofEffectIn orgId effectId [.executing, .approved]) fun row => { row with
        state := .pending
        resultSnapshot := some (failureValue reason) }
  | .approve orgId _ _ approvedArgs approval => fun row =>
      let moved := updateRow (ofEffectIn orgId approval.effectId [.pending])
        (fun row => { row with state := .approved }) row
      if argsChanged approvedArgs approval then
        updateRow (ofEffectIn orgId approval.effectId [.approved])
          (fun row => { row with argsSnapshot := resolvedArgs approvedArgs approval }) moved
      else moved
  | .reject orgId _ _ approval => updateRow (ofEffectIn orgId approval.effectId [.pending])
      fun row => { row with state := .rejected }
  | .markEffectCompensationFailed orgId effectId => updateRow (ofEffect orgId effectId)
      fun row => { row with state := .compensationFailed }
  | _ => id

/-- The ways a statement may change an effect. -/
inductive EffectChange : Query → EffectRow → EffectRow → Prop
  | same {q : Query} {row : EffectRow} : EffectChange q row row
  | replayed {orgId : OrgId} {effectId : EffectId} {row : EffectRow} {now : Time}
      (hrow : ofEffect orgId effectId row = true) :
      EffectChange (.markReplayed orgId effectId) row { row with
        replayCount := row.replayCount + 1
        lastReplayedAt := some now
        state := .replayed }
  | executing {orgId : OrgId} {effectId : EffectId} {row : EffectRow}
      (hrow : ofEffectIn orgId effectId [.pending] row = true) :
      EffectChange (.setExecuting orgId effectId) row { row with state := .executing }
  | linked {orgId : OrgId} {effectId : EffectId} {id : ApprovalRequestId} {row : EffectRow}
      (hrow : ofEffect orgId effectId row = true) :
      EffectChange (.setApprovalRequestId orgId effectId id) row
        { row with approvalRequestId := some id }
  | committed {orgId : OrgId} {effectId : EffectId} {result : ToolResult} {row : EffectRow}
      {now : Time} (hrow : ofEffectIn orgId effectId [.executing, .approved] row = true) :
      EffectChange (.commitRows orgId effectId result) row { row with
        state := .committed
        resultSnapshot := some result.toValue
        committedAt := some now }
  | failed {orgId : OrgId} {effectId : EffectId} {reason : String} {row : EffectRow}
      (hrow : ofEffectIn orgId effectId [.executing, .approved] row = true) :
      EffectChange (.failRows orgId effectId reason) row { row with
        state := .pending
        resultSnapshot := some (failureValue reason) }
  | approved {orgId : OrgId} {id : ApprovalRequestId} {actor : String}
      {approvedArgs : Option Json} {approval : ApprovalRequest} {row : EffectRow} (args : Json)
      (hrow : ofEffectIn orgId approval.effectId [.pending, .approved] row = true) :
      EffectChange (.approve orgId id actor approvedArgs approval) row { row with
        state := .approved
        argsSnapshot := args }
  | rejected {orgId : OrgId} {id : ApprovalRequestId} {actor : String}
      {approval : ApprovalRequest} {row : EffectRow}
      (hrow : ofEffectIn orgId approval.effectId [.pending] row = true) :
      EffectChange (.reject orgId id actor approval) row { row with state := .rejected }
  | compensationFailed {orgId : OrgId} {effectId : EffectId} {row : EffectRow}
      (hrow : ofEffect orgId effectId row = true) :
      EffectChange (.markEffectCompensationFailed orgId effectId) row
        { row with state := .compensationFailed }

variable {row row' : EffectRow} {orgId : OrgId} {writes : List TimeoutWrite} {a' : ApprovalRequest}
  {q : Query}

/-- No change touches the core of a row. -/
theorem EffectChange.core (h : EffectChange q row row') : row'.core = row.core := by
  cases h <;> rfl

@[simp] theorem ofEffect_iff {effectId : EffectId} :
    ofEffect orgId effectId row = true ↔ row.effectId = effectId ∧ row.orgId = orgId := by
  simp [ofEffect]

@[simp] theorem ofEffectIn_iff {effectId : EffectId} {states : List EffectState} :
    ofEffectIn orgId effectId states row = true ↔
      (row.effectId = effectId ∧ row.orgId = orgId) ∧ row.state ∈ states := by
  simp [ofEffectIn]

/-- An effect in a final state keeps its result and stays in a final state, though
maybe in another one. -/
theorem EffectChange.terminal (h : EffectChange q row row') (hrow : row.state.isTerminal = true) :
    row'.state.isTerminal = true ∧ row'.resultSnapshot = row.resultSnapshot := by
  cases h with
  | same | linked => exact ⟨hrow, rfl⟩
  | replayed | compensationFailed => exact ⟨rfl, rfl⟩
  | executing hin | committed hin | failed hin | approved args hin | rejected hin =>
    -- the other changes start from states that are not final
    obtain ⟨-, hstate⟩ := ofEffectIn_iff.mp hin
    cases hcase : row.state <;> simp_all [EffectState.isTerminal]

/-- An update of single rows is one of the changes when it is one on the rows that
meet its condition. -/
theorem EffectChange.of_updateRow {p : EffectRow → Bool}
    {f : EffectRow → EffectRow} (row : EffectRow)
    (h : p row = true → EffectChange q row (f row)) : EffectChange q row (updateRow p f row) :=
  updateRow_cases row h fun _ => .same

/-- The row after a statement is one of the changes. -/
theorem Query.effectChange (q : Query) (now : Time) (row : EffectRow) :
    EffectChange q row (q.effectAfter now row) := by
  cases q with
  | markReplayed =>
    apply EffectChange.of_updateRow
    exact .replayed
  | setExecuting =>
    apply EffectChange.of_updateRow
    exact .executing
  | setApprovalRequestId =>
    apply EffectChange.of_updateRow
    exact .linked
  | commitRows =>
    apply EffectChange.of_updateRow
    exact .committed
  | failRows =>
    apply EffectChange.of_updateRow
    exact .failed
  | reject =>
    apply EffectChange.of_updateRow
    exact .rejected
  | markEffectCompensationFailed =>
    apply EffectChange.of_updateRow
    exact .compensationFailed
  | approve orgId id actor approvedArgs approval =>
    simp only [Query.effectAfter]
    -- the second update meets the rows that the first one has moved
    by_cases hpending : ofEffectIn orgId approval.effectId [.pending] row = true
    · have hrow : ofEffectIn orgId approval.effectId [.pending, .approved] row = true := by
        simp_all
      have hmoved : ofEffectIn orgId approval.effectId [.approved]
          { row with state := .approved } = true := by
        simp_all
      rw [updateRow_of_pos hpending]
      split
      · rw [updateRow_of_pos hmoved]
        exact .approved _ hrow
      · exact .approved row.argsSnapshot hrow
    · have hnot : ofEffectIn orgId approval.effectId [.pending] row = false :=
        Bool.eq_false_iff.mpr hpending
      rw [updateRow_of_neg hnot]
      split
      · refine .of_updateRow row fun happroved => ?_
        have hstate : row.state = .approved := by simp_all
        have hrow : ofEffectIn orgId approval.effectId [.pending, .approved] row = true := by
          simp_all
        have heq : { row with argsSnapshot := resolvedArgs approvedArgs approval } =
            { row with
              state := .approved
              argsSnapshot := resolvedArgs approvedArgs approval } := by
          rw [← hstate]
        rw [heq]
        exact .approved _ hrow
      · exact .same
  | _ => exact .same

/-- What timeouts leave alone. -/
structure KeptByTimeouts (db db' : Db) : Prop where
  effects : db'.effects = db.effects
  undo : db'.undo = db.undo
  orgs : db'.orgs = db.orgs
  timeouts : db'.timeouts = db.timeouts

/-- The updates of timeout transactions in the order they take effect, each with the
time of its transaction. -/
def stamped (txs : List TimeoutTx) : List (Time × TimeoutWrite) :=
  txs.flatMap fun tx => tx.writes.map (tx.startedAt, ·)

theorem stamped_writes (txs : List TimeoutTx) :
    (stamped txs).map Prod.snd = txs.flatMap (·.writes) := by
  simp [stamped, List.map_flatMap, Function.comp_def]

/-- Timeout transactions take effect one update after another. -/
theorem applyTimeoutTxs_eq (b : Backend) (txs : List TimeoutTx) (db : Db) :
    txs.foldl (applyTimeoutTx b) db =
      (stamped txs).foldl (fun db w => resolveTimeout b w.1 db w.2) db := by
  simp only [stamped, List.foldl_flatMap, List.foldl_map]
  rfl

theorem applyTimeoutTxs_kept (b : Backend) (txs : List TimeoutTx) (db : Db) :
    KeptByTimeouts db (txs.foldl (applyTimeoutTx b) db) := by
  rw [applyTimeoutTxs_eq]
  induction stamped txs generalizing db with
  | nil => exact ⟨rfl, rfl, rfl, rfl⟩
  | cons w rest ih =>
    obtain ⟨heffects, hundo, horgs, htimeouts⟩ := ih (resolveTimeout b w.1 db w.2)
    exact ⟨heffects, hundo, horgs, htimeouts⟩

variable {b : Backend} {t : ℕ} {db db' : Db} {q : Query} {a : q.Ret}

/-- The effect log after a statement: one inserted row, or the old rows after the
statement. -/
theorem Outcome.effects (h : Outcome b t db q a db') :
    (∃ ins, insertionOf ⟨.db q, .ok a⟩ = some ins ∧
      (∀ row ∈ db.effects, clash b row (ins.row b db.now) = false) ∧
      db'.effects = db.effects ++ [ins.row b db.now]) ∨
    (insertionOf ⟨.db q, .ok a⟩ = none ∧ db'.effects = db.effects.map (q.effectAfter db.now)) := by
  have hid : ∀ rows : List EffectRow, rows = rows.map id := by simp
  cases h with
  | inserted hins hclash => exact .inl ⟨_, hins, hclash, rfl⟩
  | ignored hins =>
    right
    cases q with
    | insertCompensable | insertIrreversible =>
      cases a with
      | false => exact ⟨rfl, hid _⟩
      | true => cases hins
    | _ => cases hins
  | read hread =>
    right
    cases q <;> first | exact ⟨rfl, hid _⟩ | cases hread
  | approved orgId id actor approvedArgs approval =>
    refine .inr ⟨rfl, ?_⟩
    simp only [approvedDb, approvedEffects, Query.effectAfter, updateWhere]
    split <;> simp
  | timeoutsCommitted =>
    refine .inr ⟨rfl, ?_⟩
    exact (applyTimeoutTxs_kept b _ db).effects.trans (hid _)
  | timeoutsProcessed =>
    refine .inr ⟨rfl, ?_⟩
    exact (applyTimeoutTxs_kept b [⟨t, _, _⟩] db).effects.trans (hid _)
  | _ => exact .inr ⟨rfl, by first | rfl | exact hid _⟩

/-! ## Approvals -/

/-- The columns of an approval that its creation fixes for good, the time of the
creation apart. -/
def ApprovalRequest.core (a : ApprovalRequest) : ApprovalRequest :=
  { a with
    state := .pending
    createdAt := 0
    resolvedAt := none
    resolvedBy := none
    approvedArgs := none }

/-- An approval after a decision. -/
def decided (action : ApprovalAction) (actor : String) (approvedArgs : Option Json) (now : Time)
    (a : ApprovalRequest) : ApprovalRequest :=
  { a with
    state := approvalActionToState action
    resolvedAt := some now
    resolvedBy := some actor
    approvedArgs := approvedArgs }

/-- An approval after the updates of a timeout transaction. -/
def timedOutBy (at_ : Time) (writes : List TimeoutWrite) (a : ApprovalRequest) : ApprovalRequest :=
  writes.foldl (fun a write =>
    updateRow (ofApproval write.orgId write.approvalRequestId) (timedOut at_ write) a) a

/-- The open timeout transactions of a call. -/
def openedBy (t : ℕ) (db : Db) : List TimeoutTx := db.timeouts.filter fun tx => tx.owner = t

/-- The approval after a statement of call `t`. -/
def Query.approvalAfter (b : Backend) (t : ℕ) (db : Db) : Query → ApprovalRequest → ApprovalRequest
  | .approve orgId id actor approvedArgs _ =>
      updateRow (ofPendingApproval orgId id) (decided .approve actor approvedArgs db.now)
  | .reject orgId id actor _ =>
      updateRow (ofPendingApproval orgId id) (decided .reject actor none db.now)
  | .timeoutCommit _ => fun a =>
      (openedBy t db).foldl (fun a tx => timedOutBy tx.startedAt tx.writes a) a
  | .processTimeouts orgId =>
      timedOutBy db.now ((expiredApprovals b orgId db).map (timeoutWrite orgId))
  | _ => id

/-- The timeouts that a statement of call `t` makes final. -/
def Query.timeoutWrites (b : Backend) (t : ℕ) (db : Db) : Query → List TimeoutWrite
  | .timeoutCommit _ => (openedBy t db).flatMap (·.writes)
  | .processTimeouts orgId => (expiredApprovals b orgId db).map (timeoutWrite orgId)
  | _ => []

/-- The ways a statement that makes the given timeouts final may change an
approval. -/
inductive ApprovalChange (writes : List TimeoutWrite) :
    Query → ApprovalRequest → ApprovalRequest → Prop
  | same {q : Query} {a : ApprovalRequest} : ApprovalChange writes q a a
  | approved {orgId : OrgId} {id : ApprovalRequestId} {actor : String}
      {approvedArgs : Option Json} {approval a : ApprovalRequest} {now : Time}
      (hrow : ofPendingApproval orgId id a = true) :
      ApprovalChange writes (.approve orgId id actor approvedArgs approval) a
        (decided .approve actor approvedArgs now a)
  | rejected {orgId : OrgId} {id : ApprovalRequestId} {actor : String}
      {approval a : ApprovalRequest} {now : Time}
      (hrow : ofPendingApproval orgId id a = true) :
      ApprovalChange writes (.reject orgId id actor approval) a (decided .reject actor none now a)
  | timedOut {q : Query} {a a' : ApprovalRequest} {write : TimeoutWrite}
      (hwrite : write ∈ writes)
      (hrow : ofApproval write.orgId write.approvalRequestId a = true)
      (hcore : a'.core = a.core) (hstate : a'.state = timeoutState write.autoApprove) :
      ApprovalChange writes q a a'

@[simp] theorem ofApproval_iff {id : ApprovalRequestId} {a : ApprovalRequest} :
    ofApproval orgId id a = true ↔ a.approvalRequestId = id ∧ a.orgId = orgId := by
  simp [ofApproval]

@[simp] theorem ofPendingApproval_iff {id : ApprovalRequestId} {a : ApprovalRequest} :
    ofPendingApproval orgId id a = true ↔
      (a.approvalRequestId = id ∧ a.orgId = orgId) ∧ a.state = .pending := by
  simp [ofPendingApproval]

/-- No change touches the core of an approval. -/
theorem ApprovalChange.core {a : ApprovalRequest}
    (h : ApprovalChange writes q a a') : a'.core = a.core := by
  cases h with
  | timedOut _ _ hcore _ => exact hcore
  | _ => rfl

theorem timeoutState_ne_pending (autoApprove : Bool) : timeoutState autoApprove ≠ .pending := by
  cases autoApprove <;> rintro ⟨⟩

/-- No change makes an approval pending. -/
theorem ApprovalChange.pending {a : ApprovalRequest}
    (h : ApprovalChange writes q a a') (hpending : a'.state = .pending) : a' = a := by
  cases h with
  | same => rfl
  | approved | rejected => cases hpending
  | timedOut _ _ _ hstate => exact absurd (hstate.symm.trans hpending) (timeoutState_ne_pending _)

/-- An approval after timeout transactions. -/
def timedOutByTxs (txs : List TimeoutTx) (a : ApprovalRequest) : ApprovalRequest :=
  txs.foldl (fun a tx => timedOutBy tx.startedAt tx.writes a) a

theorem timedOutByTxs_eq (txs : List TimeoutTx) (a : ApprovalRequest) :
    timedOutByTxs txs a = (stamped txs).foldl (fun a w =>
      updateRow (ofApproval w.2.orgId w.2.approvalRequestId) (timedOut w.1 w.2) a) a := by
  simp only [timedOutByTxs, timedOutBy, stamped, List.foldl_flatMap, List.foldl_map]

/-- Timeouts leave an approval alone when none of them names it; otherwise one of those
that name it gives its state. -/
theorem timedOutByTxs_cases (txs : List TimeoutTx) (a : ApprovalRequest) :
    ((∀ w ∈ stamped txs, ofApproval w.2.orgId w.2.approvalRequestId a = false) ∧
      timedOutByTxs txs a = a) ∨
    ∃ w ∈ stamped txs, ofApproval w.2.orgId w.2.approvalRequestId a = true ∧
      (timedOutByTxs txs a).core = a.core ∧
      (timedOutByTxs txs a).state = timeoutState w.2.autoApprove := by
  rw [timedOutByTxs_eq]
  induction stamped txs generalizing a with
  | nil => exact .inl ⟨by rintro _ ⟨⟩, rfl⟩
  | cons w rest ih =>
    rw [List.foldl_cons]
    cases hrow : ofApproval w.2.orgId w.2.approvalRequestId a with
    | false =>
      rw [updateRow_of_neg hrow]
      rcases ih a with ⟨hnone, hsame⟩ | ⟨v, hv, hrest⟩
      · exact .inl ⟨List.forall_mem_cons.mpr ⟨hrow, hnone⟩, hsame⟩
      · exact .inr ⟨v, List.mem_cons_of_mem _ hv, hrest⟩
    | true =>
      rw [updateRow_of_pos hrow]
      rcases ih (timedOut w.1 w.2 a) with ⟨-, hsame⟩ | ⟨v, hv, hrow', hcore, hstate⟩
      · refine .inr ⟨w, List.mem_cons_self, hrow, ?_, ?_⟩
        · rw [hsame]
          rfl
        · rw [hsame]
          rfl
      · exact .inr ⟨v, List.mem_cons_of_mem _ hv, hrow', hcore, hstate⟩

theorem timedOutByTxs_ne_pending {txs : List TimeoutTx} {write : TimeoutWrite}
    {a : ApprovalRequest} (hwrite : write ∈ txs.flatMap (·.writes))
    (hrow : ofApproval write.orgId write.approvalRequestId a = true) :
    (timedOutByTxs txs a).state ≠ .pending := by
  rcases timedOutByTxs_cases txs a with ⟨hnone, -⟩ | ⟨w, -, -, -, hstate⟩
  · rw [← stamped_writes] at hwrite
    obtain ⟨w, hw, rfl⟩ := List.mem_map.mp hwrite
    rw [hnone w hw] at hrow
    cases hrow
  · rw [hstate]
    exact timeoutState_ne_pending _

theorem ApprovalChange.of_timeouts (txs : List TimeoutTx) (a : ApprovalRequest) :
    ApprovalChange (txs.flatMap (·.writes)) q a (timedOutByTxs txs a) := by
  rcases timedOutByTxs_cases txs a with ⟨-, hsame⟩ | ⟨w, hw, hrow, hcore, hstate⟩
  · rw [hsame]
    exact .same
  · rw [← stamped_writes]
    exact .timedOut (List.mem_map_of_mem hw) hrow hcore hstate

/-- The approval after a statement is one of the changes. -/
theorem Query.approvalChange (b : Backend) (t : ℕ) (db : Db) (q : Query) (a : ApprovalRequest) :
    ApprovalChange (q.timeoutWrites b t db) q a (q.approvalAfter b t db a) := by
  cases q with
  | approve => exact updateRow_cases a .approved fun _ => .same
  | reject => exact updateRow_cases a .rejected fun _ => .same
  | timeoutCommit => exact .of_timeouts (openedBy t db) a
  | processTimeouts orgId =>
    have hchange : ApprovalChange _ (.processTimeouts orgId) a _ := .of_timeouts
      [⟨t, db.now, (expiredApprovals b orgId db).map (timeoutWrite orgId)⟩] a
    rwa [List.flatMap_singleton] at hchange
  | _ => exact .same

theorem applyTimeoutTxs_approvals (b : Backend) (txs : List TimeoutTx) (db : Db) :
    (txs.foldl (applyTimeoutTx b) db).approvals = db.approvals.map (timedOutByTxs txs) := by
  rw [applyTimeoutTxs_eq, funext (timedOutByTxs_eq txs)]
  induction stamped txs generalizing db with
  | nil => exact (List.map_id' db.approvals).symm
  | cons w rest ih =>
    rw [List.foldl_cons, ih, resolveTimeout, updateWhere, List.map_map]
    rfl

/-- The approval request a statement has created. -/
def creationOf : Ran Stmt Stmt.Ret UndoLogError → Option ApprovalRequest
  | ⟨.db (.createApproval req), .ok _⟩ => some req
  | _ => none

/-- The approvals after a statement: one created row, or the old rows after the
statement. -/
theorem Outcome.approvals (h : Outcome b t db q a db') :
    (∃ req, creationOf ⟨.db q, .ok a⟩ = some req ∧
      (∀ old ∈ db.approvals, old.approvalRequestId ≠ req.approvalRequestId) ∧
      db'.approvals = db.approvals ++ [newApprovalRow req db.now]) ∨
    (creationOf ⟨.db q, .ok a⟩ = none ∧
      db'.approvals = db.approvals.map (q.approvalAfter b t db)) := by
  have hid : ∀ rows : List ApprovalRequest, rows = rows.map id := by simp
  cases h with
  | approvalCreated req hnew hkeys => exact .inl ⟨req, rfl, hnew, rfl⟩
  | inserted hins | ignored hins =>
    right
    cases q <;> first | exact ⟨rfl, hid _⟩ | cases hins
  | read hread =>
    right
    cases q <;> first | exact ⟨rfl, hid _⟩ | cases hread
  | timeoutsCommitted =>
    refine .inr ⟨rfl, ?_⟩
    exact applyTimeoutTxs_approvals b _ db
  | timeoutsProcessed =>
    refine .inr ⟨rfl, ?_⟩
    exact applyTimeoutTxs_approvals b [⟨t, _, _⟩] db
  | _ => exact .inr ⟨rfl, by first | rfl | exact hid _⟩

end UndoLog
