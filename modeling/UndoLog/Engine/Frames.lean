import UndoLog.Engine.Changes

/-!
# Sessions, undo entries and audit events after a statement

The triggers of the schema only count; what a statement does to the state of a
session is given by one function. Undo entries keep their position, and the audit
trail only grows.
-/

namespace UndoLog

open Concurrent Relational

/-! ## Sessions -/

/-- The state of a session after a statement. -/
def Query.sessionAfter : Query → SessionRecord → SessionState
  | .setAwaitingApproval orgId sessionId, s =>
      if ofSessionIn orgId sessionId [.active] s then .awaitingApproval else s.state
  | .approve orgId _ _ _ approval, s =>
      if ofSessionIn orgId approval.sessionId [.awaitingApproval] s then .active else s.state
  | .reject orgId _ _ approval, s =>
      if ofSession orgId approval.sessionId s then .halted else s.state
  | .setCompensated orgId sessionId, s =>
      if ofSessionIn orgId sessionId [.active, .failed, .compensating] s then .compensated
      else s.state
  | .setHalted orgId sessionId _, s => if ofSession orgId sessionId s then .halted else s.state
  | _, s => s.state

variable {orgId : OrgId} {sessionId : SessionId} {s : SessionRecord} {states : List SessionState}
  {σ : SessionRecord → SessionState} {f : SessionRecord → SessionRecord} {p : SessionRecord → Bool}
  {approval : ApprovalRequest}

@[simp] theorem ofSession_iff :
    ofSession orgId sessionId s = true ↔ s.sessionId = sessionId ∧ s.orgId = orgId := by
  simp [ofSession]

@[simp] theorem ofSessionIn_iff :
    ofSessionIn orgId sessionId states s = true ↔
      (s.sessionId = sessionId ∧ s.orgId = orgId) ∧ s.state ∈ states := by
  simp [ofSessionIn]

theorem ofSession_congr (s s' : SessionRecord) (hid : s'.sessionId = s.sessionId)
    (horg : s'.orgId = s.orgId) (_ : s'.state = s.state) :
    ofSession orgId sessionId s' = ofSession orgId sessionId s := by
  simp [ofSession, hid, horg]

theorem ofSessionIn_congr (s s' : SessionRecord) (hid : s'.sessionId = s.sessionId)
    (horg : s'.orgId = s.orgId) (hstate : s'.state = s.state) :
    ofSessionIn orgId sessionId states s' = ofSessionIn orgId sessionId states s := by
  simp [ofSessionIn, ofSession, hid, horg, hstate]

/-- An update of sessions that keeps who they are and gives them the state `σ`. -/
def MovesSessions (σ : SessionRecord → SessionState) (f : SessionRecord → SessionRecord) : Prop :=
  ∀ s, (f s).sessionId = s.sessionId ∧ (f s).orgId = s.orgId ∧ (f s).state = σ s

/-- A trigger that only changes counters. -/
def OnlyCounts (trigger : List SessionRecord → List SessionRecord) : Prop :=
  ∀ rows, ∃ f, trigger rows = rows.map f ∧ MovesSessions (·.state) f

theorem MovesSessions.comp {g : SessionRecord → SessionRecord} (hg : MovesSessions σ g)
    (hf : MovesSessions (·.state) f)
    (hσ : ∀ s s' : SessionRecord, s'.sessionId = s.sessionId → s'.orgId = s.orgId →
      s'.state = s.state → σ s' = σ s) : MovesSessions σ (g ∘ f) := by
  intro s
  obtain ⟨hid, horg, hstate⟩ := hf s
  obtain ⟨hid', horg', hstate'⟩ := hg (f s)
  exact ⟨hid'.trans hid, horg'.trans horg, hstate'.trans (hσ s (f s) hid horg hstate)⟩

theorem movesSessions_updateRow (hpos : ∀ s, p s = true →
      (f s).sessionId = s.sessionId ∧ (f s).orgId = s.orgId ∧ (f s).state = σ s)
    (hneg : ∀ s, p s = false → s.state = σ s) : MovesSessions σ (updateRow p f) := by
  intro s
  refine updateRow_cases (motive := fun s' => s'.sessionId = s.sessionId ∧ s'.orgId = s.orgId ∧
    s'.state = σ s) s (hpos s) fun hp => ?_
  exact ⟨rfl, rfl, hneg s hp⟩

theorem onlyCounts_updateWhere (h : MovesSessions (·.state) f) : OnlyCounts (updateWhere p f) :=
  fun _ => ⟨_, rfl, movesSessions_updateRow (fun s _ => h s) fun _ _ => rfl⟩

theorem countToolCall_onlyCounts (sessionId : SessionId) : OnlyCounts (countToolCall sessionId) :=
  onlyCounts_updateWhere fun _ => ⟨rfl, rfl, rfl⟩

theorem countPendingApproval_onlyCounts (sessionId : SessionId) :
    OnlyCounts (countPendingApproval sessionId) :=
  onlyCounts_updateWhere fun _ => ⟨rfl, rfl, rfl⟩

theorem OnlyCounts.comp {g h : List SessionRecord → List SessionRecord} (hg : OnlyCounts g)
    (hh : OnlyCounts h) : OnlyCounts (g ∘ h) := by
  intro rows
  obtain ⟨f, hf, hmoves⟩ := hh rows
  obtain ⟨f', hf', hmoves'⟩ := hg (h rows)
  refine ⟨f' ∘ f, ?_, hmoves'.comp hmoves fun _ _ _ _ hstate => hstate⟩
  rw [Function.comp_apply, hf', hf, List.map_map]

theorem onlyCounts_id : OnlyCounts id :=
  fun _ => ⟨id, by simp, fun _ => ⟨rfl, rfl, rfl⟩⟩

theorem discountPendingApprovals_onlyCounts (resolved : List ApprovalRequest) :
    OnlyCounts (discountPendingApprovals resolved) := by
  induction resolved with
  | nil => exact onlyCounts_id
  | cons a rest ih =>
    exact ih.comp (onlyCounts_updateWhere (p := fun s => s.sessionId = a.sessionId)
      (f := fun s => { s with approvalsPending := s.approvalsPending - 1 })
      fun _ => ⟨rfl, rfl, rfl⟩)

theorem onPostgres_onlyCounts (b : Backend) {trigger : List SessionRecord → List SessionRecord}
    (h : OnlyCounts trigger) : OnlyCounts (onPostgres b trigger) := by
  cases b with
  | postgres => exact h
  | sqlite => exact onlyCounts_id

theorem discountedSessions_onlyCounts (b : Backend) (orgId : OrgId) (id : ApprovalRequestId)
    (db : Db) : ∃ f, discountedSessions b orgId id db = db.sessions.map f ∧
      MovesSessions (·.state) f :=
  onPostgres_onlyCounts b (discountPendingApprovals_onlyCounts _) db.sessions

/-- The triggers of a decision keep who the sessions are and their states. -/
theorem discountedSessions_iff {b : Backend} {orgId' : OrgId} {id : ApprovalRequestId} {db : Db} :
    (discountedSessions b orgId id db).countP (ofSessionIn orgId' sessionId states) ≠ 0 ↔
      ∃ s ∈ db.sessions, ofSessionIn orgId' sessionId states s = true := by
  obtain ⟨f, hf, hmoves⟩ := discountedSessions_onlyCounts b orgId id db
  have hsame : ∀ s, ofSessionIn orgId' sessionId states (f s) =
      ofSessionIn orgId' sessionId states s := by
    intro s
    obtain ⟨hid, horg, hstate⟩ := hmoves s
    exact ofSessionIn_congr s (f s) hid horg hstate
  rw [hf, ← Nat.pos_iff_ne_zero, List.countP_pos_iff]
  simp only [List.mem_map, exists_exists_and_eq_and, hsame]

theorem applyTimeoutTxs_sessions (b : Backend) (txs : List TimeoutTx) (db : Db) :
    ∃ f, (txs.foldl (applyTimeoutTx b) db).sessions = db.sessions.map f ∧
      MovesSessions (·.state) f := by
  rw [applyTimeoutTxs_eq]
  induction stamped txs generalizing db with
  | nil => exact ⟨id, by simp, fun _ => ⟨rfl, rfl, rfl⟩⟩
  | cons w rest ih =>
    obtain ⟨f', hf', hmoves'⟩ := ih (resolveTimeout b w.1 db w.2)
    obtain ⟨f, hf, hmoves⟩ := onPostgres_onlyCounts b (discountPendingApprovals_onlyCounts
      (db.approvals.filter (ofPendingApproval w.2.orgId w.2.approvalRequestId))) db.sessions
    refine ⟨f' ∘ f, ?_, hmoves'.comp hmoves fun _ _ _ _ hstate => hstate⟩
    rw [List.foldl_cons, hf', ← List.map_map, ← hf]
    rfl

variable {b : Backend} {t : ℕ} {db db' : Db} {q : Query} {a : q.Ret}

/-- The sessions after a statement: one created row, or the old rows with their
new states. -/
theorem Outcome.sessions (h : Outcome b t db q a db') :
    (∃ orgId sessionId, q = .createSession orgId sessionId ∧
      (∀ s ∈ db.sessions, s.sessionId ≠ sessionId) ∧
      db'.sessions = db.sessions ++ [newSession orgId sessionId db.now]) ∨
    ∃ f, db'.sessions = db.sessions.map f ∧ MovesSessions q.sessionAfter f := by
  have hcounts : ∀ {trigger : List SessionRecord → List SessionRecord}, OnlyCounts trigger →
      q.sessionAfter = (·.state) →
      ∃ f, trigger db.sessions = db.sessions.map f ∧ MovesSessions q.sessionAfter f := by
    intro trigger htrigger hq
    rw [hq]
    exact htrigger db.sessions
  have hupdate : ∀ {rows : List SessionRecord} {p : SessionRecord → Bool}
      {g : SessionRecord → SessionRecord} (state : SessionState),
      (∃ f, rows = db.sessions.map f ∧ MovesSessions (·.state) f) →
      (∀ s, (g s).sessionId = s.sessionId ∧ (g s).orgId = s.orgId ∧ (g s).state = state) →
      (∀ s s' : SessionRecord, s'.sessionId = s.sessionId → s'.orgId = s.orgId →
        s'.state = s.state → p s' = p s) → ∃ f, updateWhere p g rows = db.sessions.map f ∧
        MovesSessions (fun s => if p s then state else s.state) f := by
    rintro _ p g state ⟨f, rfl, hmoves⟩ hg hp
    refine ⟨updateRow p g ∘ f, List.map_map, MovesSessions.comp ?_ hmoves ?_⟩
    · refine movesSessions_updateRow (fun s hs => ?_) fun s hs => ?_
      · simpa only [hs, if_true] using hg s
      · simp [hs]
    · intro s s' hid horg hstate
      simp only [hp s s' hid horg hstate, hstate]
  have hkept : ∃ f, db.sessions = db.sessions.map f ∧ MovesSessions (·.state) f :=
    onlyCounts_id db.sessions
  cases h with
  | sessionCreated orgId sessionId hnew => exact .inl ⟨orgId, sessionId, rfl, hnew, rfl⟩
  | read hread =>
    right
    refine hcounts onlyCounts_id ?_
    cases q <;> first | rfl | cases hread
  | inserted hins =>
    right
    refine hcounts (onPostgres_onlyCounts b (countToolCall_onlyCounts _)) ?_
    cases q <;> first | rfl | cases hins
  | ignored hins =>
    right
    refine hcounts onlyCounts_id ?_
    cases q <;> first | rfl | cases hins
  | approvalCreated req =>
    exact .inr (hcounts (onPostgres_onlyCounts b (countPendingApproval_onlyCounts _)) rfl)
  | awaiting =>
    exact .inr (hupdate .awaitingApproval hkept (fun _ => ⟨rfl, rfl, rfl⟩) ofSessionIn_congr)
  | sessionCompensated =>
    exact .inr (hupdate .compensated hkept (fun _ => ⟨rfl, rfl, rfl⟩) ofSessionIn_congr)
  | sessionHalted =>
    exact .inr (hupdate .halted hkept (fun _ => ⟨rfl, rfl, rfl⟩) ofSession_congr)
  | approved orgId id =>
    exact .inr (hupdate .active (discountedSessions_onlyCounts b orgId id db)
      (fun _ => ⟨rfl, rfl, rfl⟩) ofSessionIn_congr)
  | rejected orgId id =>
    exact .inr (hupdate .halted (discountedSessions_onlyCounts b orgId id db)
      (fun _ => ⟨rfl, rfl, rfl⟩) ofSession_congr)
  | timeoutsCommitted => exact .inr (applyTimeoutTxs_sessions b _ db)
  | timeoutsProcessed => exact .inr (applyTimeoutTxs_sessions b [⟨t, _, _⟩] db)
  | _ => exact .inr (hcounts onlyCounts_id rfl)

/-! ## The undo stack -/

/-- The undo entry a statement has pushed. -/
structure Push where
  call : ToolCall
  effectId : EffectId
  compensation : CompensationDescriptor
  undoId : UndoId

/-- The row of an undo entry. -/
def Push.row (b : Backend) (now : Time) (push : Push) : UndoRow :=
  newUndoRow b push.call push.effectId push.compensation push.undoId now

/-- The undo entry a statement has pushed. -/
def pushOf : Ran Stmt Stmt.Ret UndoLogError → Option Push
  | ⟨.db (.insertUndo call effectId compensation undoId), .ok _⟩ =>
      some ⟨call, effectId, compensation, undoId⟩
  | _ => none

/-- The columns of an undo entry that no statement changes, the time of its
registration apart. -/
def UndoRow.core (u : UndoRow) : UndoRow :=
  { u with
    state := .pending
    registeredAt := 0
    lastError := none
    compensatedAt := none }

/-- The undo entry after a statement. -/
def Query.undoAfter (now : Time) : Query → UndoRow → UndoRow
  | .markCompensated orgId undoId => updateRow (ofUndo orgId undoId) fun u =>
      { u with state := .compensated, compensatedAt := some now }
  | .markCompensationFailed orgId undoId reason => updateRow (ofUndo orgId undoId) fun u =>
      { u with state := .failed, lastError := some reason }
  | _ => id

/-- The ways a statement may change an undo entry. -/
inductive UndoChange : Query → UndoRow → UndoRow → Prop
  | same {q : Query} {u : UndoRow} : UndoChange q u u
  | compensated {orgId : OrgId} {undoId : UndoId} {now : Time} {u : UndoRow}
      (hrow : ofUndo orgId undoId u = true) :
      UndoChange (.markCompensated orgId undoId) u
        { u with state := .compensated, compensatedAt := some now }
  | failed {orgId : OrgId} {undoId : UndoId} {reason : String} {u : UndoRow}
      (hrow : ofUndo orgId undoId u = true) :
      UndoChange (.markCompensationFailed orgId undoId reason) u
        { u with state := .failed, lastError := some reason }

@[simp] theorem ofUndo_iff {undoId : UndoId} {u : UndoRow} :
    ofUndo orgId undoId u = true ↔ u.undoId = undoId ∧ u.orgId = orgId := by
  simp [ofUndo]

/-- No change touches the core of an undo entry. -/
theorem UndoChange.core {q : Query} {u u' : UndoRow} (h : UndoChange q u u') :
    u'.core = u.core := by
  cases h <;> rfl

/-- The undo entry after a statement is one of the changes. -/
theorem Query.undoChange (q : Query) (now : Time) (u : UndoRow) :
    UndoChange q u (q.undoAfter now u) := by
  cases q with
  | markCompensated =>
    simp only [Query.undoAfter]
    exact updateRow_cases u .compensated fun _ => .same
  | markCompensationFailed =>
    simp only [Query.undoAfter]
    exact updateRow_cases u .failed fun _ => .same
  | _ => exact .same

/-- The undo stack after a statement: one pushed entry, or the old entries after the
statement. -/
theorem Outcome.undo (h : Outcome b t db q a db') : (∃ push, pushOf ⟨.db q, .ok a⟩ = some push ∧
      (∀ u ∈ db.undo, u.undoId ≠ push.undoId ∧ ¬(u.sessionId = push.call.sessionId ∧
        u.stackPosition = stepColumn b push.call.stepIndex)) ∧
      db'.undo = db.undo ++ [push.row b db.now]) ∨
    (pushOf ⟨.db q, .ok a⟩ = none ∧ db'.undo = db.undo.map (q.undoAfter db.now)) := by
  have hid : ∀ rows : List UndoRow, rows = rows.map id := by simp
  cases h with
  | undoInserted call effectId compensation undoId hnew =>
    exact .inl ⟨⟨call, effectId, compensation, undoId⟩, rfl, hnew, rfl⟩
  | inserted hins | ignored hins =>
    right
    cases q <;> first | exact ⟨rfl, hid _⟩ | cases hins
  | read hread =>
    right
    cases q <;> first | exact ⟨rfl, hid _⟩ | cases hread
  | timeoutsCommitted =>
    refine .inr ⟨rfl, ?_⟩
    exact (applyTimeoutTxs_kept b _ db).undo.trans (hid _)
  | timeoutsProcessed =>
    exact .inr ⟨rfl, (applyTimeoutTxs_kept b [⟨t, _, _⟩] db).undo.trans (hid _)⟩
  | _ => exact .inr ⟨rfl, by first | rfl | exact hid _⟩

/-! ## Open timeout transactions -/

/-- The open timeout transactions after a statement of call `t`. -/
def Query.timeoutsAfter (t : ℕ) (now : Time) : Query → List TimeoutTx → List TimeoutTx
  | .timeoutSelect _ => (· ++ [{ owner := t, startedAt := now, writes := [] }])
  | .timeoutUpdate orgId id autoApprove => updateWhere (fun tx => tx.owner = t)
      fun tx => { tx with writes := tx.writes ++ [⟨orgId, id, autoApprove⟩] }
  | .timeoutCommit _ => List.filter fun tx => tx.owner ≠ t
  | _ => id

theorem Outcome.timeouts (h : Outcome b t db q a db') :
    db'.timeouts = q.timeoutsAfter t db.now db.timeouts := by
  cases h with
  | read hread => cases q <;> first | rfl | cases hread
  | inserted hins | ignored hins => cases q <;> first | rfl | cases hins
  | timeoutsCommitted =>
    have hkept := (applyTimeoutTxs_kept b (db.timeouts.filter fun tx => tx.owner = t) db).timeouts
    exact congrArg (List.filter fun tx => tx.owner ≠ t) hkept
  | timeoutsProcessed => exact (applyTimeoutTxs_kept b [⟨t, _, _⟩] db).timeouts
  | _ => rfl

/-! ## The audit trail -/

/-- The approvals that a statement of call `t` resolves. -/
def Query.resolves (b : Backend) (t : ℕ) (db : Db) : Query → List (OrgId × ApprovalRequestId)
  | .approve orgId id _ _ _ | .reject orgId id _ _ => [(orgId, id)]
  | q => (q.timeoutWrites b t db).map fun write => (write.orgId, write.approvalRequestId)

/-- The audit event of a timeout. -/
def timeoutEvent (at_ : Time) (write : TimeoutWrite) : ApprovalEvent where
  approvalRequestId := write.approvalRequestId
  orgId := write.orgId
  action := .timeout
  actor := "system:timeout"
  note := none
  occurredAt := at_

theorem applyTimeoutTxs_events (b : Backend) (txs : List TimeoutTx) (db : Db) :
    (txs.foldl (applyTimeoutTx b) db).events =
      db.events ++ (stamped txs).map fun w => timeoutEvent w.1 w.2 := by
  rw [applyTimeoutTxs_eq]
  induction stamped txs generalizing db with
  | nil => simp
  | cons w rest ih =>
    rw [List.foldl_cons, ih, resolveTimeout, List.append_assoc]
    rfl

theorem Outcome.events (h : Outcome b t db q a db') : ∃ new, db'.events = db.events ++ new ∧
      new.map (fun e => (e.orgId, e.approvalRequestId)) = q.resolves b t db := by
  have hnone : ∃ new, db.events = db.events ++ new ∧
      new.map (fun e : ApprovalEvent => (e.orgId, e.approvalRequestId)) = [] := ⟨[], by simp, rfl⟩
  cases h with
  | read hread => cases q <;> first | exact hnone | cases hread
  | inserted hins | ignored hins => cases q <;> first | exact hnone | cases hins
  | approved | rejected => exact ⟨[_], rfl, rfl⟩
  | timeoutsCommitted =>
    refine ⟨_, applyTimeoutTxs_events b _ db, ?_⟩
    simp [Query.resolves, Query.timeoutWrites, openedBy, stamped, List.map_flatMap, timeoutEvent,
      Function.comp_def]
  | timeoutsProcessed =>
    refine ⟨_, applyTimeoutTxs_events b [⟨t, _, _⟩] db, ?_⟩
    simp [Query.resolves, Query.timeoutWrites, stamped, timeoutEvent]
  | _ => exact hnone

/-- A statement leaves the approvals alone that it does not resolve. -/
theorem Query.approvalAfter_of_not_mem
    (h : (approval.orgId, approval.approvalRequestId) ∉ q.resolves b t db) :
    q.approvalAfter b t db approval = approval := by
  have hchange := q.approvalChange b t db approval
  generalize q.approvalAfter b t db approval = after at hchange
  cases hchange with
  | same => rfl
  | approved hrow | rejected hrow =>
    obtain ⟨⟨rfl, rfl⟩, -⟩ := ofPendingApproval_iff.mp hrow
    exact absurd (List.mem_singleton_self _) h
  | timedOut hwrite hrow =>
    obtain ⟨hid, horg⟩ := ofApproval_iff.mp hrow
    refine absurd ?_ h
    rw [hid, horg]
    cases q with
    | approve | reject => cases hwrite
    | _ => exact List.mem_map_of_mem hwrite

/-- A resolved approval is not pending any more. -/
theorem Query.approvalAfter_of_mem
    (h : (approval.orgId, approval.approvalRequestId) ∈ q.resolves b t db) :
    (q.approvalAfter b t db approval).state ≠ .pending := by
  have hdecided : ∀ {orgId : OrgId} {id : ApprovalRequestId} (action : ApprovalAction)
      (actor : String) (approvedArgs : Option Json),
      (approval.orgId, approval.approvalRequestId) ∈ [(orgId, id)] →
      (updateRow (ofPendingApproval orgId id) (decided action actor approvedArgs db.now)
        approval).state ≠ .pending := by
    intro orgId id action actor approvedArgs hmem
    obtain ⟨rfl, rfl⟩ := Prod.mk.inj (List.mem_singleton.mp hmem)
    cases hrow : ofPendingApproval approval.orgId approval.approvalRequestId approval with
    | true =>
      rw [updateRow_of_pos hrow]
      cases action <;> rintro ⟨⟩
    | false =>
      rw [updateRow_of_neg hrow]
      simpa [ofPendingApproval] using hrow
  cases q with
  | approve | reject => exact hdecided _ _ _ h
  | timeoutCommit =>
    obtain ⟨write, hwrite, heq⟩ := List.mem_map.mp h
    obtain ⟨horg, hid⟩ := Prod.mk.inj heq
    exact timedOutByTxs_ne_pending hwrite (by simp [horg, hid])
  | processTimeouts orgId =>
    obtain ⟨write, hwrite, heq⟩ := List.mem_map.mp h
    obtain ⟨horg, hid⟩ := Prod.mk.inj heq
    have htx : write ∈ [TimeoutTx.mk t db.now ((expiredApprovals b orgId db).map
        (timeoutWrite orgId))].flatMap (·.writes) := List.mem_append_left _ hwrite
    exact timedOutByTxs_ne_pending htx (by simp [horg, hid])
  | _ => cases h

/-! ## Organisations, partitions and the clock -/

/-- No statement changes the organisations. -/
theorem Outcome.orgs (h : Outcome b t db q a db') : db'.orgs = db.orgs := by
  cases h with
  | timeoutsCommitted => exact (applyTimeoutTxs_kept b _ db).orgs
  | timeoutsProcessed => exact (applyTimeoutTxs_kept b [⟨t, _, _⟩] db).orgs
  | _ => rfl

theorem applyTimeoutTxs_clock (b : Backend) (txs : List TimeoutTx) (db : Db) :
    (txs.foldl (applyTimeoutTx b) db).now = db.now ∧
      (txs.foldl (applyTimeoutTx b) db).partitions = db.partitions := by
  rw [applyTimeoutTxs_eq]
  induction stamped txs generalizing db with
  | nil => exact ⟨rfl, rfl⟩
  | cons w rest ih => exact ih (resolveTimeout b w.1 db w.2)

theorem Outcome.clock (h : Outcome b t db q a db') :
    db'.now = db.now ∧ db'.partitions = db.partitions := by
  cases h with
  | timeoutsCommitted => exact applyTimeoutTxs_clock b _ db
  | timeoutsProcessed => exact applyTimeoutTxs_clock b [⟨t, _, _⟩] db
  | _ => exact ⟨rfl, rfl⟩

end UndoLog
