import UndoLog.Engine.Frames

/-!
# What one organisation sees of the database

Two databases are the same for an organisation when its own rows are. The statements of an
organisation answer alike over such databases and keep them alike, except where a key is shared
by all organisations. The statements of other organisations do not show.
-/

namespace UndoLog

open Relational

/-- What decides about a session. Nothing depends on its counters. -/
def SessionRecord.standing (s : SessionRecord) : SessionId × OrgId × SessionState :=
  (s.sessionId, s.orgId, s.state)

/-- Two databases that an organisation cannot tell apart by its own rows. -/
structure SameFor (orgId : OrgId) (db db' : Db) : Prop where
  now : db.now = db'.now
  partitions : db.partitions = db'.partitions
  orgs : db.orgs = db'.orgs
  sessions : (db.sessions.filter fun s => s.orgId = orgId).map SessionRecord.standing =
    (db'.sessions.filter fun s => s.orgId = orgId).map SessionRecord.standing
  effects : (db.effects.filter fun row => row.orgId = orgId) =
    db'.effects.filter fun row => row.orgId = orgId
  undo : (db.undo.filter fun u => u.orgId = orgId) = db'.undo.filter fun u => u.orgId = orgId
  approvals : (db.approvals.filter fun a => a.orgId = orgId) =
    db'.approvals.filter fun a => a.orgId = orgId

variable {row : EffectRow} {a : ApprovalRequest} {f : EffectRow → EffectRow}
    {g : List SessionRecord → List SessionRecord} {p : EffectRow → Bool}

section SameFor

variable {orgId : OrgId} {db db' db'' : Db}

theorem SameFor.refl (orgId : OrgId) (db : Db) : SameFor orgId db db :=
  ⟨rfl, rfl, rfl, rfl, rfl, rfl, rfl⟩

theorem SameFor.symm (h : SameFor orgId db db') : SameFor orgId db' db :=
  ⟨h.now.symm, h.partitions.symm, h.orgs.symm, h.sessions.symm, h.effects.symm, h.undo.symm,
    h.approvals.symm⟩

theorem SameFor.trans (h : SameFor orgId db db') (h' : SameFor orgId db' db'') :
    SameFor orgId db db'' :=
  ⟨h.now.trans h'.now, h.partitions.trans h'.partitions, h.orgs.trans h'.orgs,
    h.sessions.trans h'.sessions, h.effects.trans h'.effects, h.undo.trans h'.undo,
    h.approvals.trans h'.approvals⟩

theorem SameFor.rollback (t : ℕ) (h : SameFor orgId db db') :
    SameFor orgId (rollbackTimeouts t db) db' :=
  ⟨h.now, h.partitions, h.orgs, h.sessions, h.effects, h.undo, h.approvals⟩

/-! ## Lookups -/

section

variable (h : SameFor orgId db db')
include h

theorem SameFor.countP_effects (hp : ∀ row, p row = true → row.orgId = orgId) :
    db.effects.countP p = db'.effects.countP p := by
  rw [← countP_view (v := fun row => row.orgId = orgId) (by simpa using fun row _ => hp row),
    h.effects, countP_view (by simpa using fun row _ => hp row)]

theorem SameFor.any_effects (hp : ∀ row ∈ db.effects, p row = true → row.orgId = orgId)
    (hp' : ∀ row ∈ db'.effects, p row = true → row.orgId = orgId) :
    db.effects.any p = db'.effects.any p := by
  rw [← any_view (v := fun row => row.orgId = orgId) (by simpa using hp), h.effects,
    any_view (by simpa using hp')]

theorem SameFor.filter_effects (hp : ∀ row, p row = true → row.orgId = orgId) :
    db.effects.filter p = db'.effects.filter p := by
  rw [← filter_view (v := fun row => row.orgId = orgId) (by simpa using hp), h.effects,
    filter_view (by simpa using hp)]

theorem SameFor.filter_approvals {p : ApprovalRequest → Bool}
    (hp : ∀ a, p a = true → a.orgId = orgId) : db.approvals.filter p = db'.approvals.filter p := by
  rw [← filter_view (v := fun a => a.orgId = orgId) (by simpa using hp), h.approvals,
    filter_view (by simpa using hp)]

end

section Sessions

variable {p : SessionRecord → Bool}
  (hstanding : ∀ s s' : SessionRecord, s.standing = s'.standing → p s = p s')
include hstanding

theorem SameFor.countP_sessions (h : SameFor orgId db db')
    (hp : ∀ s, p s = true → s.orgId = orgId) : db.sessions.countP p = db'.sessions.countP p := by
  have hview := countP_columns hstanding h.sessions
  rwa [countP_view (by simpa using fun s _ => hp s),
    countP_view (by simpa using fun s _ => hp s)] at hview

theorem SameFor.find?_sessions (h : SameFor orgId db db') (hp : ∀ s, p s = true → s.orgId = orgId) :
    (db.sessions.find? p).map SessionRecord.standing =
      (db'.sessions.find? p).map SessionRecord.standing := by
  have hview := find?_columns hstanding h.sessions
  rwa [find?_view (by simpa using hp), find?_view (by simpa using hp)] at hview

end Sessions

/-! ## Updates -/

section

variable (h : SameFor orgId db db')
include h

theorem SameFor.add_effect {row' : EffectRow} (heq : row = row') :
    SameFor orgId { db with effects := db.effects ++ [row] }
      { db' with effects := db'.effects ++ [row'] } :=
  { h with effects := by rw [List.filter_append, List.filter_append, h.effects, heq] }

theorem SameFor.update_effects {f' : EffectRow → EffectRow} (heq : f = f')
    (hf : ∀ row, (f row).orgId = row.orgId) :
    SameFor orgId { db with effects := updateWhere p f db.effects }
      { db' with effects := updateWhere p f' db'.effects } := by
  subst heq
  refine { h with effects := ?_ }
  rw [view_updateWhere (by simp [hf]), view_updateWhere (by simp [hf]), h.effects]

end

/-- Changes of sessions show by the states they give to those of the organisation. -/
theorem MovesSessions.standing {σ : SessionRecord → SessionState}
    {f : SessionRecord → SessionRecord} (hmoves : MovesSessions σ f)
    (hstate : ∀ s, s.orgId = orgId → σ s = s.state) (sessions : List SessionRecord) :
    ((sessions.map f).filter fun s => s.orgId = orgId).map SessionRecord.standing =
      (sessions.filter fun s => s.orgId = orgId).map SessionRecord.standing := by
  have horg : ((fun s => decide (s.orgId = orgId)) ∘ f) = fun s => decide (s.orgId = orgId) := by
    funext s
    simp only [Function.comp_apply, (hmoves s).2.1]
  rw [List.filter_map, horg, List.map_map]
  refine List.map_congr_left fun s hs => ?_
  have hown := hstate s (of_decide_eq_true (List.mem_filter.mp hs).2)
  obtain ⟨hid, horg, hmoved⟩ := hmoves s
  simp only [Function.comp_apply, SessionRecord.standing, hid, horg, hmoved, hown]

theorem OnlyCounts.standing (hg : OnlyCounts g) (orgId : OrgId) (sessions : List SessionRecord) :
    ((g sessions).filter fun s => s.orgId = orgId).map SessionRecord.standing =
      (sessions.filter fun s => s.orgId = orgId).map SessionRecord.standing := by
  obtain ⟨f, hf, hmoves⟩ := hg sessions
  rw [hf]
  exact hmoves.standing (fun _ _ => rfl) sessions

theorem SameFor.count {g' : List SessionRecord → List SessionRecord}
    (h : SameFor orgId db db') (hg : OnlyCounts g) (hg' : OnlyCounts g') :
    SameFor orgId { db with sessions := g db.sessions } { db' with sessions := g' db'.sessions } :=
  { h with sessions := by rw [hg.standing, hg'.standing, h.sessions] }

end SameFor

/-! ## Transactions of the organisation -/

/-- Two transactions end alike: with related answers over databases that are the same for the
organisation, or with the same error. -/
inductive Agree (orgId : OrgId) {α : Type} (R : α → α → Prop) :
    Except UndoLogError (α × Db) → Except UndoLogError (α × Db) → Prop
  | ok {a a' : α} {db db' : Db} (ha : R a a') (hdb : SameFor orgId db db') :
      Agree orgId R (.ok (a, db)) (.ok (a', db'))
  | error (e : UndoLogError) : Agree orgId R (.error e) (.error e)

/-- A transaction that answers from the rows of one organisation, and changes only these as
far as the organisation can see. -/
def Tx.Local {α : Type} (orgId : OrgId) (x : Tx α) : Prop :=
  ∀ db db', SameFor orgId db db' → Agree orgId Eq (x db) (x db')

section Local

variable {orgId : OrgId} {α β : Type}

theorem Tx.Local.pure (a : α) : Tx.Local orgId (pure a : Tx α) :=
  fun _ _ h => .ok rfl h

theorem Tx.Local.bind {x : Tx α} {f : α → Tx β} (hx : Tx.Local orgId x)
    (hf : ∀ a, Tx.Local orgId (f a)) : Tx.Local orgId (x >>= f) := by
  intro db db' h
  change Agree orgId Eq (x db >>= fun p => f p.1 p.2) (x db' >>= fun p => f p.1 p.2)
  have hfirst := hx db db' h
  generalize x db = r at hfirst
  generalize x db' = r' at hfirst
  cases hfirst with
  | error e => exact .error e
  | @ok a a' db db' ha hdb =>
    subst ha
    exact hf a db db' hdb

theorem Tx.Local.require (condition : Bool) (e : UndoLogError) :
    Tx.Local orgId (Tx.require condition e) := by
  intro db db' h
  cases condition with
  | true => exact .ok rfl h
  | false => exact .error e

theorem Tx.Local.query {read : Db → Except UndoLogError α}
    (hread : ∀ db db', SameFor orgId db db' → read db = read db') :
    Tx.Local orgId (Tx.query read) := by
  intro db db' h
  simp only [Tx.query]
  rw [hread db db' h]
  cases read db' with
  | error e => exact .error e
  | ok a => exact .ok rfl h

theorem Tx.Local.updateEffects (hp : ∀ row, p row = true → row.orgId = orgId)
    (hf : ∀ row, (f row).orgId = row.orgId) : Tx.Local orgId (updateEffects p f) := by
  intro db db' h
  exact .ok (h.countP_effects hp) (h.update_effects rfl hf)

theorem Tx.Local.updateSessions {p : SessionRecord → Bool} {f : SessionRecord → SessionRecord}
    (hp : ∀ s, p s = true → s.orgId = orgId)
    (hstanding : ∀ s s' : SessionRecord, s.standing = s'.standing → p s = p s')
    (hf : ∀ s s' : SessionRecord, s.standing = s'.standing → (f s).standing = (f s').standing)
    (horg : ∀ s, (f s).orgId = s.orgId) : Tx.Local orgId (updateSessions p f) := by
  intro db db' h
  refine .ok (h.countP_sessions hstanding hp) { h with sessions := ?_ }
  rw [view_updateWhere (by simp [horg]), view_updateWhere (by simp [horg])]
  exact updateWhere_columns hstanding h.sessions hf

variable {sessionId : SessionId} {states : List SessionState} {s s' : SessionRecord}

theorem ofSession_standing (h : s.standing = s'.standing) :
    ofSession orgId sessionId s = ofSession orgId sessionId s' := by
  simp only [SessionRecord.standing, Prod.mk.injEq] at h
  simp only [ofSession, h.1, h.2.1]

theorem ofSessionIn_standing (h : s.standing = s'.standing) :
    ofSessionIn orgId sessionId states s = ofSessionIn orgId sessionId states s' := by
  have hstate : s.state = s'.state := congrArg (fun x => x.2.2) h
  simp only [ofSessionIn, ofSession_standing h, hstate]

theorem org_of_ofSession (h : ofSession orgId sessionId s = true) : s.orgId = orgId :=
  (ofSession_iff.mp h).2

theorem org_of_ofSessionIn (h : ofSessionIn orgId sessionId states s = true) : s.orgId = orgId := by
  simp only [ofSessionIn, decide_eq_true_eq] at h
  exact org_of_ofSession h.1

/-- A change of state, by the state alone. -/
theorem standing_setState {state : SessionState} (h : s.standing = s'.standing) :
    ({ s with state := state } : SessionRecord).standing =
      ({ s' with state := state } : SessionRecord).standing := by
  simp only [SessionRecord.standing, Prod.mk.injEq] at h ⊢
  exact ⟨h.1, h.2.1, trivial⟩

theorem setAwaitingApproval_local : Tx.Local orgId (setAwaitingApproval orgId sessionId) :=
  .bind (.updateSessions (fun _ => org_of_ofSessionIn) (fun _ _ => ofSessionIn_standing)
    (fun _ _ => standing_setState) fun _ => rfl) fun _ => .pure _

theorem setActive_local : Tx.Local orgId (setActive orgId sessionId) :=
  .bind (.updateSessions (fun _ => org_of_ofSessionIn) (fun _ _ => ofSessionIn_standing)
    (fun _ _ => standing_setState) fun _ => rfl) fun _ => .require _ _

theorem setHalted_local (reason : String) : Tx.Local orgId (setHalted orgId sessionId reason) :=
  .bind (.updateSessions (fun _ => org_of_ofSession) (fun _ _ => ofSession_standing)
    (fun _ _ => standing_setState) fun _ => rfl) fun _ => .pure _

variable {effectId : EffectId}

theorem org_of_ofEffect (h : ofEffect orgId effectId row = true) : row.orgId = orgId := by
  simp only [ofEffect, decide_eq_true_eq] at h
  exact h.2

theorem org_of_ofEffectIn {states : List EffectState}
    (h : ofEffectIn orgId effectId states row = true) : row.orgId = orgId := by
  simp only [ofEffectIn, decide_eq_true_eq] at h
  exact org_of_ofEffect h.1

theorem transitionEffect_local {source : EffectState} {update : EffectRow → EffectRow}
    (current target : String) (hupdate : ∀ row, (update row).orgId = row.orgId) :
    Tx.Local orgId (transitionEffect orgId effectId source update current target) :=
  .bind (.updateEffects (fun _ => org_of_ofEffectIn) hupdate) fun _ => .require _ _

theorem setExecuting_local : Tx.Local orgId (setExecuting orgId effectId) :=
  transitionEffect_local _ _ fun _ => rfl

theorem setApprovalRequestId_local (id : ApprovalRequestId) :
    Tx.Local orgId (setApprovalRequestId orgId effectId id) :=
  .bind (.updateEffects (fun _ => org_of_ofEffect) fun _ => rfl) fun _ => .pure _

theorem settleRows_local {f : Db → EffectRow → EffectRow}
    (hnow : ∀ db db', SameFor orgId db db' → f db = f db')
    (hf : ∀ db row, (f db row).orgId = row.orgId) (states : List EffectState) :
    Tx.Local orgId fun db => .ok ((db.effects.countP (ofEffectIn orgId effectId states),
        db.effects.any (ofEffect orgId effectId)),
        { db with effects :=
          updateWhere (ofEffectIn orgId effectId states) (f db) db.effects }) := by
  intro db db' h
  refine .ok ?_ (h.update_effects (hnow db db' h) (hf db))
  rw [h.countP_effects fun _ => org_of_ofEffectIn, h.any_effects (fun _ _ => org_of_ofEffect)
    fun _ _ => org_of_ofEffect]

theorem commitRows_local (result : ToolResult) :
    Tx.Local orgId (commitRows orgId effectId result) :=
  settleRows_local (f := fun db row => { row with
      state := .committed
      resultSnapshot := some result.toValue
      committedAt := some db.now })
    (fun db db' h => by rw [h.now]) (fun _ _ => rfl) _

theorem failRows_local (reason : String) : Tx.Local orgId (failRows orgId effectId reason) :=
  settleRows_local (f := fun _ row => { row with
      state := .pending
      resultSnapshot := some (failureValue reason) })
    (fun _ _ _ => rfl) (fun _ _ => rfl) _

theorem effectExists_local : Tx.Local orgId (effectExists orgId effectId) :=
  .query fun db db' h => by
    rw [h.any_effects (fun _ _ => org_of_ofEffect) fun _ _ => org_of_ofEffect]

theorem findBySignature_local (pick : ℕ) (signature : CallSignature) :
    Tx.Local orgId (findBySignature pick orgId signature) :=
  .query fun db db' h => by
    rw [h.filter_effects fun row hrow => (of_decide_eq_true hrow).2]

theorem findByEffectId_local (pick : ℕ) : Tx.Local orgId (findByEffectId pick orgId effectId) :=
  .query fun db db' h => by
    rw [h.filter_effects fun _ => org_of_ofEffect]

theorem markReplayed_local (b : Backend) : Tx.Local orgId (markReplayed b orgId effectId) := by
  intro db db' h
  have hany := h.any_effects
    (p := fun row => ofEffect orgId effectId row ∧ smallintMax ≤ row.replayCount)
    (fun row _ hrow => org_of_ofEffect (of_decide_eq_true hrow).1)
    (fun row _ hrow => org_of_ofEffect (of_decide_eq_true hrow).1)
  simp only [markReplayed]
  rw [hany]
  split
  · exact .error _
  · exact .ok rfl (h.update_effects (by rw [h.now]) fun _ => rfl)

variable {id : ApprovalRequestId}

theorem org_of_ofApproval (h : ofApproval orgId id a = true) : a.orgId = orgId := by
  simp only [ofApproval, decide_eq_true_eq] at h
  exact h.2

theorem getApproval_local : Tx.Local orgId (getApproval orgId id) :=
  .query fun db db' h => by
    have hown : ∀ a, ofApproval orgId id a = true → decide (a.orgId = orgId) = true :=
      fun _ ha => decide_eq_true (org_of_ofApproval ha)
    rw [← find?_view hown, h.approvals, find?_view hown]

theorem resolve_local (b : Backend) (action : ApprovalAction) (actor : String)
    (approvedArgs : Option Json) (note : Option String) :
    Tx.Local orgId (resolve b orgId id action actor approvedArgs note) := by
  refine .bind ?_ fun rows => .bind (.require _ _) fun _ => ?_
  · intro db db' h
    have hdiscount : ∀ db : Db, OnlyCounts (onPostgres b
        (discountPendingApprovals (db.approvals.filter (ofPendingApproval orgId id)))) :=
      fun db => onPostgres_onlyCounts b (discountPendingApprovals_onlyCounts _)
    have hcounted := h.count (hdiscount db) (hdiscount db')
    refine .ok ?_ { hcounted with approvals := ?_ }
    · rw [List.countP_eq_length_filter, List.countP_eq_length_filter,
        h.filter_approvals fun _ hpending => (ofPendingApproval_iff.mp hpending).1.2]
    · rw [view_updateWhere (by simp), view_updateWhere (by simp), h.approvals, h.now]
  · intro db db' h
    exact .ok rfl ⟨h.now, h.partitions, h.orgs, h.sessions, h.effects, h.undo, h.approvals⟩

theorem approveTx_local (b : Backend) (pick : ℕ) (actor : String) (approvedArgs : Option Json)
    (approval : ApprovalRequest) :
    Tx.Local orgId (approveTx b pick orgId id actor approvedArgs approval) := by
  refine .bind (resolve_local b _ _ _ _) fun _ =>
    .bind (transitionEffect_local _ _ fun _ => rfl) fun _ =>
    .bind (findByEffectId_local pick) fun effect => ?_
  split
  · exact .bind (transitionEffect_local _ _ fun _ => rfl) fun _ =>
      .bind setActive_local fun _ => .pure _
  · exact .bind setActive_local fun _ => .pure _

theorem rejectTx_local (b : Backend) (actor : String) (approval : ApprovalRequest) :
    Tx.Local orgId (rejectTx b orgId id actor approval) :=
  .bind (resolve_local b _ _ _ _) fun _ => .bind (transitionEffect_local _ _ fun _ => rfl)
    fun _ => setHalted_local _

end Local

/-! ## Keys that all organisations share -/

section Keys

variable {orgId : OrgId} {b : Backend} {db db' : Db}

/-- No other organisation has a session with the identifier. -/
def OwnSession (orgId : OrgId) (sessionId : SessionId) (db : Db) : Prop :=
  ∀ s ∈ db.sessions, s.sessionId = sessionId → s.orgId = orgId

section

variable (h : SameFor orgId db db') {sessionId : SessionId}
include h

/-- Sessions that are the organisation's own are there on both sides or on none. -/
theorem SameFor.any_session (hown : OwnSession orgId sessionId db)
    (hown' : OwnSession orgId sessionId db') :
    (db.sessions.any fun s => s.sessionId = sessionId) =
      db'.sessions.any fun s => s.sessionId = sessionId := by
  have hview := any_columns (p := fun s => s.sessionId = sessionId)
    (fun s s' hs => by rw [show s.sessionId = s'.sessionId from congrArg Prod.fst hs]) h.sessions
  rwa [any_view (by simpa [OwnSession] using hown),
    any_view (by simpa [OwnSession] using hown')] at hview

/-- `create_session` does the same for an organisation when a session that is in its way is
one of its own. -/
theorem createSession_agree (hown : OwnSession orgId sessionId db)
    (hown' : OwnSession orgId sessionId db') :
    Agree orgId Eq (createSession b orgId sessionId db) (createSession b orgId sessionId db') := by
  have horgs : (b = .postgres ∧ orgId ∉ db.orgs) ↔ (b = .postgres ∧ orgId ∉ db'.orgs) := by
    rw [h.orgs]
  simp only [createSession, h.any_session hown hown', horgs]
  split
  · exact .ok rfl h
  · split
    · exact .error _
    · refine .ok rfl { h with sessions := ?_ }
      rw [List.filter_append, List.filter_append, List.map_append, List.map_append, h.sessions,
        h.now]

/-- An insert into the effect log does the same for an organisation when the rows in its way
are its own. -/
theorem insertEffect_agree {row' : EffectRow} (heq : row = row')
    (hown : ∀ old ∈ db.effects, clash b old row = true → old.orgId = orgId)
    (hown' : ∀ old ∈ db'.effects, clash b old row = true → old.orgId = orgId) :
    Agree orgId Eq (insertEffect b row db) (insertEffect b row' db') := by
  subst heq
  have hany := h.any_effects hown hown'
  cases b with
  | postgres =>
    have hpartitions : monthOf row.executedAt ∉ db.partitions ↔
        monthOf row.executedAt ∉ db'.partitions := by rw [h.partitions]
    simp only [insertEffect, hany, hpartitions]
    split
    · exact .error _
    · have hcounted := h.count (countToolCall_onlyCounts row.sessionId)
        (countToolCall_onlyCounts row.sessionId)
      exact .ok rfl (hcounted.add_effect (rfl : row = row))
  | sqlite =>
    simp only [insertEffect]
    rw [hany]
    split
    · exact .ok rfl h
    · exact .ok rfl (h.add_effect rfl)

/-- The foreign keys are met alike when the session is the organisation's own. -/
theorem SameFor.foreignKeys (hown : OwnSession orgId sessionId db)
    (hown' : OwnSession orgId sessionId db') :
    foreignKeys b orgId sessionId db = UndoLog.foreignKeys b orgId sessionId db' := by
  cases b with
  | postgres => simp only [UndoLog.foreignKeys, h.any_session hown hown', h.orgs]
  | sqlite => rfl

end

theorem insertUndo_agree {call : ToolCall} {effectId : EffectId}
    {compensation : CompensationDescriptor} {undoId : UndoId} (h : SameFor call.orgId db db')
    (hkeys : OwnSession call.orgId call.sessionId db)
    (hkeys' : OwnSession call.orgId call.sessionId db')
    (hown : ∀ u ∈ db.undo, (u.undoId = undoId ∨ (u.sessionId = call.sessionId ∧
      u.stackPosition = stepColumn b call.stepIndex)) → u.orgId = call.orgId)
    (hown' : ∀ u ∈ db'.undo, (u.undoId = undoId ∨ (u.sessionId = call.sessionId ∧
      u.stackPosition = stepColumn b call.stepIndex)) → u.orgId = call.orgId) :
    Agree call.orgId Eq (insertUndo b call effectId compensation undoId db)
      (insertUndo b call effectId compensation undoId db') := by
  let taken : UndoRow → Bool := fun u => u.undoId = undoId ∨ (u.sessionId = call.sessionId ∧
    u.stackPosition = stepColumn b call.stepIndex)
  have hinsert : ∀ db, insertUndo b call effectId compensation undoId db =
      if db.undo.any taken then .error .database
      else if foreignKeys b call.orgId call.sessionId db then
        .ok ((), { db with undo := db.undo ++
          [newUndoRow b call effectId compensation undoId db.now] })
      else .error .database := fun _ => rfl
  have hany : db.undo.any taken = db'.undo.any taken := by
    rw [← any_view (v := fun u => u.orgId = call.orgId) (by simpa [taken] using hown), h.undo,
      any_view (by simpa [taken] using hown')]
  rw [hinsert, hinsert, hany, h.foreignKeys hkeys hkeys']
  split
  · exact .error _
  · split
    · refine .ok rfl { h with undo := ?_ }
      rw [List.filter_append, List.filter_append, h.undo, h.now]
    · exact .error _

theorem createApproval_agree {req : ApprovalRequest} (h : SameFor req.orgId db db')
    (hkeys : OwnSession req.orgId req.sessionId db)
    (hkeys' : OwnSession req.orgId req.sessionId db')
    (hown : ∀ a ∈ db.approvals, a.approvalRequestId = req.approvalRequestId → a.orgId = req.orgId)
    (hown' : ∀ a ∈ db'.approvals, a.approvalRequestId = req.approvalRequestId →
      a.orgId = req.orgId) :
    Agree req.orgId Eq (createApproval b req db) (createApproval b req db') := by
  have hany : (db.approvals.any fun a => a.approvalRequestId = req.approvalRequestId) =
      db'.approvals.any fun a => a.approvalRequestId = req.approvalRequestId := by
    rw [← any_view (v := fun a => a.orgId = req.orgId) (by simpa using hown), h.approvals,
      any_view (by simpa using hown')]
  simp only [createApproval, hany, h.foreignKeys hkeys hkeys']
  split
  · exact .error _
  · split
    · have hcount := onPostgres_onlyCounts b (countPendingApproval_onlyCounts req.sessionId)
      refine .ok rfl { h.count hcount hcount with approvals := ?_ }
      rw [List.filter_append, List.filter_append, h.approvals, h.now]
    · exact .error _

end Keys

end UndoLog
