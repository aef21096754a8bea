import UndoLog.Store.Approvals

/-!
# What committed transactions have done

Inversion lemmas: from the success of a transaction, the rows its guards met and
the database it leaves.
-/

namespace UndoLog

open Relational

section Tx

variable {α β : Type} {db db' : Db}

/-- A sequence of statements commits when both parts succeed. -/
theorem Tx.bind_ok {x : Tx α} {f : α → Tx β} {r : β × Db} :
    (x >>= f) db = .ok r ↔ ∃ a db₁, x db = .ok (a, db₁) ∧ f a db₁ = .ok r := by
  change (x db >>= fun p => f p.1 p.2) = .ok r ↔ _
  cases x db with
  | error e => simp [bind, Except.bind]
  | ok p =>
    constructor
    · intro h
      exact ⟨p.1, p.2, rfl, h⟩
    · rintro ⟨a, db₁, heq, h⟩
      cases heq
      exact h

variable {e : UndoLogError} {read : Db → Except UndoLogError α} {r : ℕ × Db}

/-- A condition inside a transaction was met. -/
theorem Tx.require_ok {condition : Bool} {r : Unit × Db} :
    Tx.require condition e db = .ok r ↔ condition = true ∧ r = ((), db) := by
  unfold Tx.require
  cases condition <;> simp [eq_comm]

/-- A read leaves the database alone. -/
theorem Tx.query_ok {a : α} : Tx.query read db = .ok (a, db') ↔ read db = .ok a ∧ db' = db := by
  unfold Tx.query
  cases read db with
  | error e => simp [bind, Except.bind]
  | ok x => simp [bind, Except.bind, pure, Except.pure, eq_comm]

/-- A read fails where its function does. -/
theorem Tx.query_error : Tx.query read db = .error e ↔ read db = .error e := by
  unfold Tx.query
  cases read db with
  | error e' => simp [bind, Except.bind]
  | ok x => simp [bind, Except.bind, pure, Except.pure]

theorem Tx.pure_ok {a : α} {r : α × Db} : (pure a : Tx α) db = .ok r ↔ r = (a, db) := by
  change Except.ok (a, db) = .ok r ↔ _
  simp [eq_comm]

theorem updateSessions_ok {p : SessionRecord → Bool} {f : SessionRecord → SessionRecord} :
    updateSessions p f db = .ok r ↔
      r = (db.sessions.countP p, { db with sessions := updateWhere p f db.sessions }) := by
  simp [updateSessions, eq_comm]

end Tx

variable {b : Backend} {db db' : Db} {u : Unit} {orgId : OrgId} {sessionId : SessionId}
  {effectId : EffectId} {actor : String} {approval : ApprovalRequest}

/-- A guarded transition met a row in its source state. -/
theorem transitionEffect_ok {source : EffectState}
    {update : EffectRow → EffectRow} {current target : String} :
    transitionEffect orgId effectId source update current target db = .ok (u, db') ↔
      db.effects.countP (ofEffectIn orgId effectId [source]) ≠ 0 ∧ db' = { db with
        effects := updateWhere (ofEffectIn orgId effectId [source]) update db.effects } := by
  simp only [transitionEffect, Tx.bind_ok, updateEffects, Tx.require_ok, Except.ok.injEq,
    Prod.mk.injEq]
  constructor
  · rintro ⟨rows, db₁, ⟨rfl, rfl⟩, hrows, -, rfl⟩
    exact ⟨by simpa using hrows, rfl⟩
  · rintro ⟨hrows, rfl⟩
    exact ⟨_, _, ⟨rfl, rfl⟩, by simpa using hrows, trivial, rfl⟩

variable {id : ApprovalRequestId} {approvedArgs : Option Json} {pick : ℕ} {db db' : Db}

/-- `resolve` met a pending approval. -/
theorem resolve_ok {action : ApprovalAction} {note : Option String} :
    resolve b orgId id action actor approvedArgs note db = .ok (u, db') ↔
      db.approvals.countP (ofPendingApproval orgId id) ≠ 0 ∧ db' = { db with
        approvals := updateWhere (ofPendingApproval orgId id) (fun a => { a with
          state := approvalActionToState action
          resolvedAt := some db.now
          resolvedBy := some actor
          approvedArgs := approvedArgs }) db.approvals
        sessions := onPostgres b
          (discountPendingApprovals (db.approvals.filter (ofPendingApproval orgId id))) db.sessions
        events := db.events ++ [{ approvalRequestId := id, orgId := orgId, action := action
                                  actor := actor, note := note, occurredAt := db.now }] } := by
  simp only [resolve, Tx.bind_ok, Tx.require_ok, resolvePending, appendAuditEvent,
    Except.ok.injEq, Prod.mk.injEq]
  constructor
  · rintro ⟨rows, db₁, ⟨rfl, rfl⟩, _, _, ⟨hrows, -, rfl⟩, -, rfl⟩
    exact ⟨by simpa using hrows, rfl⟩
  · rintro ⟨hrows, rfl⟩
    exact ⟨_, _, ⟨rfl, rfl⟩, (), _, ⟨by simpa using hrows, trivial, rfl⟩, trivial, rfl⟩

theorem setActive_ok : setActive orgId sessionId db = .ok (u, db') ↔
      db.sessions.countP (ofSessionIn orgId sessionId [.awaitingApproval]) ≠ 0 ∧ db' = { db with
        sessions := updateWhere (ofSessionIn orgId sessionId [.awaitingApproval])
          (fun s => { s with state := .active }) db.sessions } := by
  simp only [setActive, Tx.bind_ok, updateSessions_ok, Tx.require_ok, Prod.mk.injEq]
  constructor
  · rintro ⟨rows, db₁, ⟨rfl, rfl⟩, hrows, -, rfl⟩
    exact ⟨by simpa using hrows, rfl⟩
  · rintro ⟨hrows, rfl⟩
    exact ⟨_, _, ⟨rfl, rfl⟩, by simpa using hrows, trivial, rfl⟩

theorem setHalted_ok {reason : String} : setHalted orgId sessionId reason db = .ok (u, db') ↔
      db' = { db with
        sessions := updateWhere (ofSession orgId sessionId)
          (fun s => { s with state := .halted, failureReason := some reason }) db.sessions } := by
  simp only [setHalted, Tx.bind_ok, updateSessions_ok, Tx.pure_ok, Prod.mk.injEq]
  constructor
  · rintro ⟨rows, db₁, ⟨rfl, rfl⟩, -, rfl⟩
    rfl
  · rintro rfl
    exact ⟨_, _, ⟨rfl, rfl⟩, trivial, rfl⟩

/-! ## Decisions -/

/-- Whether the approver changed the arguments. -/
def argsChanged (approvedArgs : Option Json) (approval : ApprovalRequest) : Bool :=
  !(resolvedArgs approvedArgs approval).eq approval.proposedArgs

/-- The effect log after an approval. -/
def approvedEffects (orgId : OrgId) (approvedArgs : Option Json) (approval : ApprovalRequest)
    (effects : List EffectRow) : List EffectRow :=
  let moved := updateWhere (ofEffectIn orgId approval.effectId [.pending])
    (fun row => { row with state := .approved }) effects
  if argsChanged approvedArgs approval then
    updateWhere (ofEffectIn orgId approval.effectId [.approved])
      (fun row => { row with argsSnapshot := resolvedArgs approvedArgs approval }) moved
  else moved

/-- The approvals after a decision. -/
def decidedApprovals (orgId : OrgId) (id : ApprovalRequestId) (action : ApprovalAction)
    (actor : String) (approvedArgs : Option Json) (db : Db) : List ApprovalRequest :=
  updateWhere (ofPendingApproval orgId id) (fun a => { a with
    state := approvalActionToState action
    resolvedAt := some db.now
    resolvedBy := some actor
    approvedArgs := approvedArgs }) db.approvals

/-- The sessions after a decision, before its own update of the session. -/
def discountedSessions (b : Backend) (orgId : OrgId) (id : ApprovalRequestId) (db : Db) :
    List SessionRecord :=
  onPostgres b (discountPendingApprovals (db.approvals.filter (ofPendingApproval orgId id)))
    db.sessions

/-- The database after an approval. -/
def approvedDb (b : Backend) (orgId : OrgId) (id : ApprovalRequestId) (actor : String)
    (approvedArgs : Option Json) (approval : ApprovalRequest) (db : Db) : Db :=
  { db with
    approvals := decidedApprovals orgId id .approve actor approvedArgs db
    effects := approvedEffects orgId approvedArgs approval db.effects
    sessions := updateWhere (ofSessionIn orgId approval.sessionId [.awaitingApproval])
      (fun s => { s with state := .active }) (discountedSessions b orgId id db)
    events := db.events ++ [{ approvalRequestId := id, orgId := orgId, action := .approve
                              actor := actor, note := none, occurredAt := db.now }] }

/-- The database after a rejection. -/
def rejectedDb (b : Backend) (orgId : OrgId) (id : ApprovalRequestId) (actor : String)
    (approval : ApprovalRequest) (db : Db) : Db :=
  { db with
    approvals := decidedApprovals orgId id .reject actor none db
    effects := updateWhere (ofEffectIn orgId approval.effectId [.pending])
      (fun row => { row with state := .rejected }) db.effects
    sessions := updateWhere (ofSession orgId approval.sessionId)
      (fun s => { s with state := .halted, failureReason := some "approval rejected" })
      (discountedSessions b orgId id db)
    events := db.events ++ [{ approvalRequestId := id, orgId := orgId, action := .reject
                              actor := actor, note := none, occurredAt := db.now }] }

/-- A committed approval met a pending approval, a pending effect and a waiting
session, and leaves `approvedDb`. -/
theorem approveTx_ok {version : String}
    (h : approveTx b pick orgId id actor approvedArgs approval db = .ok (version, db')) :
    db.approvals.countP (ofPendingApproval orgId id) ≠ 0 ∧
      db.effects.countP (ofEffectIn orgId approval.effectId [.pending]) ≠ 0 ∧
      (discountedSessions b orgId id db).countP
        (ofSessionIn orgId approval.sessionId [.awaitingApproval]) ≠ 0 ∧
      db' = approvedDb b orgId id actor approvedArgs approval db := by
  simp only [approveTx, Tx.bind_ok] at h
  obtain ⟨_, db₁, hresolve, _, db₂, heffect, found, db₃, hfind, rest⟩ := h
  obtain ⟨hpending, rfl⟩ := resolve_ok.mp hresolve
  obtain ⟨heffects, rfl⟩ := transitionEffect_ok.mp heffect
  obtain ⟨-, rfl⟩ := Tx.query_ok.mp hfind
  split at rest
  · next hchanged =>
    simp only [Tx.bind_ok] at rest
    obtain ⟨_, db₄, hargs, _, db₅, hactive, hpure⟩ := rest
    obtain ⟨-, rfl⟩ := transitionEffect_ok.mp hargs
    obtain ⟨hsession, rfl⟩ := setActive_ok.mp hactive
    obtain ⟨-, rfl⟩ := Prod.mk.inj (Tx.pure_ok.mp hpure)
    refine ⟨hpending, heffects, hsession, ?_⟩
    simp only [approvedDb, approvedEffects, argsChanged, hchanged, if_true]
    rfl
  · next hsame =>
    simp only [Tx.bind_ok] at rest
    obtain ⟨_, db₅, hactive, hpure⟩ := rest
    obtain ⟨hsession, rfl⟩ := setActive_ok.mp hactive
    obtain ⟨-, rfl⟩ := Prod.mk.inj (Tx.pure_ok.mp hpure)
    refine ⟨hpending, heffects, hsession, ?_⟩
    simp only [approvedDb, approvedEffects, argsChanged, hsame]
    rfl

theorem mapEffectRow_of_none {row : EffectRow} (h : row.resultSnapshot = none) :
    ∃ record, mapEffectRow row = .ok record := by
  unfold mapEffectRow
  simp only [h]
  exact ⟨_, rfl⟩

theorem findByEffectId_ok
    (h : ∀ row ∈ db.effects, ofEffect orgId effectId row = true → row.resultSnapshot = none) :
    ∃ found, findByEffectId pick orgId effectId db = .ok (found, db) := by
  simp only [findByEffectId, Tx.query_ok]
  cases hlimit : limitOne pick (db.effects.filter (ofEffect orgId effectId)) with
  | none => exact ⟨none, rfl, trivial⟩
  | some row =>
    obtain ⟨hmem, hof⟩ := List.mem_filter.mp (List.mem_of_getElem? hlimit)
    obtain ⟨record, hrecord⟩ := mapEffectRow_of_none (h row hmem hof)
    exact ⟨some record, by simp [hrecord, Except.map], trivial⟩

/-- An approval commits when it meets a pending approval, a pending effect without a
result and a waiting session. -/
theorem approveTx_of_rows (happroval : db.approvals.countP (ofPendingApproval orgId id) ≠ 0)
    (heffect : db.effects.countP (ofEffectIn orgId approval.effectId [.pending]) ≠ 0)
    (hsession : (discountedSessions b orgId id db).countP
      (ofSessionIn orgId approval.sessionId [.awaitingApproval]) ≠ 0)
    (hresult : ∀ row ∈ db.effects, ofEffect orgId approval.effectId row = true →
      row.resultSnapshot = none) (pick : ℕ) (actor : String) (approvedArgs : Option Json) :
    ∃ version, approveTx b pick orgId id actor approvedArgs approval db =
      .ok (version, approvedDb b orgId id actor approvedArgs approval db) := by
  let moved := updateWhere (ofEffectIn orgId approval.effectId [.pending])
    (fun row => { row with state := .approved }) db.effects
  have hmoved : moved.countP (ofEffectIn orgId approval.effectId [.approved]) ≠ 0 := by
    obtain ⟨row, hrow, hin⟩ := exists_of_countP_ne_zero heffect
    have hmem : { row with state := .approved } ∈ moved :=
      mem_updateWhere.mpr ⟨row, hrow, updateRow_of_pos hin⟩
    refine (List.countP_pos_iff.mpr ⟨_, hmem, ?_⟩).ne'
    have hof : ofEffect orgId approval.effectId row = true := by
      simp only [ofEffectIn, decide_eq_true_eq] at hin
      exact hin.1
    simpa [ofEffectIn, ofEffect] using hof
  have hread : ∀ row ∈ moved, ofEffect orgId approval.effectId row = true →
      row.resultSnapshot = none := by
    intro row hrow hof
    obtain ⟨old, hold, rfl⟩ := mem_updateWhere.mp hrow
    cases hin : ofEffectIn orgId approval.effectId [.pending] old with
    | true =>
      rw [updateRow_of_pos hin] at hof ⊢
      exact hresult old hold hof
    | false =>
      rw [updateRow_of_neg hin] at hof ⊢
      exact hresult old hold hof
  let decidedDb : Db := { db with
    approvals := decidedApprovals orgId id .approve actor approvedArgs db
    effects := moved
    sessions := discountedSessions b orgId id db
    events := db.events ++ [{ approvalRequestId := id, orgId := orgId, action := .approve
                              actor := actor, note := none, occurredAt := db.now }] }
  obtain ⟨found, hfound⟩ : ∃ found, findByEffectId pick orgId approval.effectId decidedDb =
      .ok (found, decidedDb) := findByEffectId_ok hread
  refine ⟨(found.map (·.toolVersion)).getD "", ?_⟩
  simp only [approveTx, Tx.bind_ok]
  refine ⟨(), _, resolve_ok.mpr ⟨happroval, rfl⟩, (), _, transitionEffect_ok.mpr ⟨heffect, rfl⟩,
    found, _, hfound, ?_⟩
  split
  · next hchanged =>
    refine Tx.bind_ok.mpr ⟨(), _, transitionEffect_ok.mpr ⟨hmoved, rfl⟩, ?_⟩
    refine Tx.bind_ok.mpr ⟨(), _, setActive_ok.mpr ⟨hsession, rfl⟩, ?_⟩
    refine Tx.pure_ok.mpr ?_
    simp only [approvedDb, approvedEffects, argsChanged, hchanged, if_true]
    rfl
  · next hsame =>
    refine Tx.bind_ok.mpr ⟨(), _, setActive_ok.mpr ⟨hsession, rfl⟩, ?_⟩
    refine Tx.pure_ok.mpr ?_
    simp only [approvedDb, approvedEffects, argsChanged, hsame]
    rfl

/-- A committed rejection met a pending approval and a pending effect, and leaves
`rejectedDb`. -/
theorem rejectTx_ok :
    rejectTx b orgId id actor approval db = .ok (u, db') ↔
      db.approvals.countP (ofPendingApproval orgId id) ≠ 0 ∧
      db.effects.countP (ofEffectIn orgId approval.effectId [.pending]) ≠ 0 ∧
      db' = rejectedDb b orgId id actor approval db := by
  simp only [rejectTx, Tx.bind_ok, resolve_ok, rejectEffect, transitionEffect_ok, setHalted_ok]
  constructor
  · rintro ⟨_, db₁, ⟨hpending, rfl⟩, _, db₂, ⟨heffect, rfl⟩, rfl⟩
    exact ⟨hpending, heffect, rfl⟩
  · rintro ⟨hpending, heffect, rfl⟩
    exact ⟨(), _, ⟨hpending, rfl⟩, (), _, ⟨heffect, rfl⟩, rfl⟩

theorem getSession_ok {found : Option SessionRecord} :
    getSession orgId sessionId db = .ok (found, db') ↔
      found = db.sessions.find? (ofSession orgId sessionId) ∧ db' = db := by
  rw [getSession, Tx.query_ok, Except.ok.injEq, eq_comm]

/-! ## The undo stack -/

theorem stepColumn_emod (b : Backend) (n : UInt32) : stepColumn b n % 4294967296 = n.toNat := by
  have hlt := n.toNat_lt
  cases b with
  | postgres =>
    change n.toBitVec.toInt % 4294967296 = n.toNat
    rw [BitVec.toInt_eq_toNat_cond, UInt32.toNat_toBitVec]
    split <;> omega
  | sqlite =>
    change (n.toNat : ℤ) % 4294967296 = n.toNat
    omega

theorem ofInt_stepColumn (b : Backend) (n : UInt32) : UInt32.ofInt (stepColumn b n) = n := by
  change UInt32.ofNat (stepColumn b n % 4294967296).toNat = n
  rw [stepColumn_emod, Int.toNat_natCast, UInt32.ofNat_toNat]

/-- A pushed entry has a new identifier and a free position, and is the last row. -/
theorem insertUndo_ok {b : Backend} {call : ToolCall}
    {compensation : CompensationDescriptor} {undoId : UndoId} {r : Unit}
    (h : insertUndo b call effectId compensation undoId db = .ok (r, db')) :
    (∀ u ∈ db.undo, u.undoId ≠ undoId ∧
        ¬(u.sessionId = call.sessionId ∧ u.stackPosition = stepColumn b call.stepIndex)) ∧
      foreignKeys b call.orgId call.sessionId db = true ∧ db' = { db with
        undo := db.undo ++ [newUndoRow b call effectId compensation undoId db.now] } := by
  simp only [insertUndo] at h
  split at h
  · cases h
  · next hnew =>
    split at h
    · next hkeys =>
      cases h
      refine ⟨fun u hu => ?_, hkeys, rfl⟩
      simp only [List.any_eq_true, decide_eq_true_eq, not_exists, not_and, not_or] at hnew
      exact ⟨(hnew u hu).1, fun hsame => (hnew u hu).2 hsame.1 hsame.2⟩
    · cases h

/-- The pending rows of a session, highest position first. -/
def pendingStack (orgId : OrgId) (sessionId : SessionId) (db : Db) : List UndoRow :=
  (db.undo.filter fun u => u.sessionId = sessionId ∧ u.orgId = orgId ∧
    u.state = .pending).insertionSort fun u v => v.stackPosition ≤ u.stackPosition

theorem mem_pendingStack {db : Db} {u : UndoRow} : u ∈ pendingStack orgId sessionId db ↔
      u ∈ db.undo ∧ u.sessionId = sessionId ∧ u.orgId = orgId ∧ u.state = .pending := by
  rw [pendingStack, List.mem_insertionSort, List.mem_filter, decide_eq_true_iff]

/-- The pending entries of a session are open. -/
theorem pendingStack_open {db : Db} {e : UndoEntry}
    (he : e ∈ (pendingStack orgId sessionId db).map mapUndoRow) : e.state.isTerminal = false := by
  obtain ⟨u, hu, rfl⟩ := List.mem_map.mp he
  change u.state.isTerminal = false
  rw [(mem_pendingStack.mp hu).2.2.2]
  rfl

theorem loadUndoStack_ok {entries : List UndoEntry} :
    loadUndoStack orgId sessionId db = .ok (entries, db') ↔
      entries = (pendingStack orgId sessionId db).map mapUndoRow ∧ db' = db := by
  rw [loadUndoStack, Tx.query_ok, Except.ok.injEq, eq_comm]
  rfl

end UndoLog
