import UndoLog.Engine.Schedule
import UndoLog.Saga.Walk

/-!
# The result of a compensation

`compensate_session` returns its own verdict, and the store keeps what its statements have
made of the rows. The two differ for a session that waits for an approval; and the effect log
hears nothing of an entry that was undone.
-/

namespace UndoLog

open Concurrent Machine Relational

variable {S : Setup} {orgId : OrgId} {sessionId : SessionId} {w w' : World}
  {state : SessionState}

/-- Run alone, `compensate_session` can return `Ok(state)` and leave the world `w'`. -/
def Reports (S : Setup) (orgId : OrgId) (sessionId : SessionId) (w : World)
    (state : SessionState) (w' : World) : Prop :=
  ∃ t oracles, solo (M := system S) t oracles
    ((system S).program (.compensateSession orgId sessionId)) w =
      some (.ok (.compensated (.ok state)), w')

/-- What `compensate_session` returns and leaves behind. -/
theorem reports_iff : Reports S orgId sessionId w state w' ↔
      ∃ session, w.db.sessions.find? (ofSession orgId sessionId) = some session ∧
        ((session.state.isTerminal = true ∧ state = session.state ∧ w' = w) ∨
          session.state.isTerminal = false ∧ ∃ db', Walks S.compensations orgId sessionId
            ((pendingStack orgId sessionId w.db).map mapUndoRow) w.db state db' ∧
            w' = { w with db := db' }) := by
  constructor
  · rintro ⟨t, hsolo⟩
    obtain ⟨out, w₁, hends, hdone⟩ := ends_bind_ok.mp (ends_iff_solo.mpr hsolo)
    obtain ⟨hout, rfl⟩ := ends_done.mp hdone
    cases hout
    exact ends_compensateSession.mp hends
  · intro h
    have hends := ends_compensateSession (S := S) (t := 0).mpr h
    exact ⟨0, ends_iff_solo.mp (ends_bind_ok.mpr ⟨_, w', hends, .done _ _⟩)⟩

/-- Whether a compensation with given values from outside reports a state and leaves a
world that passes a test. -/
def reportsTest (S : Setup) (oracles : List Oracle) (orgId : OrgId) (sessionId : SessionId)
    (state : SessionState) (test : World → Bool) (w : World) : Bool :=
  match solo (M := system S) 0 oracles
      ((system S).program (.compensateSession orgId sessionId)) w with
  | some (.ok (.compensated (.ok reported)), w') => reported = state ∧ test w'
  | _ => false

theorem exists_reports_of_test {oracles : List Oracle} {test : World → Bool}
    (h : reportsTest S oracles orgId sessionId state test w = true) :
    ∃ w', Reports S orgId sessionId w state w' ∧ test w' = true := by
  unfold reportsTest at h
  split at h
  · next reported w' hsolo =>
    obtain ⟨rfl, htest⟩ := of_decide_eq_true h
    exact ⟨w', ⟨0, oracles, hsolo⟩, htest⟩
  · cases h

/-! ## The stored state -/

/-- The stored state of a session. -/
def storedState (orgId : OrgId) (sessionId : SessionId) (db : Db) : Option SessionState :=
  (db.sessions.find? (ofSession orgId sessionId)).map SessionRecord.state

/-- Whatever `compensate_session` returns is then the stored state. -/
def ReportsStored (S : Setup) (orgId : OrgId) (sessionId : SessionId) (w : World) : Prop :=
  ∀ state w', Reports S orgId sessionId w state w' →
    storedState orgId sessionId w'.db = some state

variable {db db' : Db} {session : SessionRecord}

theorem storedState_setHalted {reason : String}
    (h : setHalted orgId sessionId reason db = .ok ((), db'))
    (hfind : db.sessions.find? (ofSession orgId sessionId) = some session) :
    storedState orgId sessionId db' = some .halted := by
  obtain rfl := setHalted_ok.mp h
  rw [storedState, find?_updateWhere, hfind, Option.map_some, Option.map_some,
    updateRow_of_pos (List.find?_some hfind)]
  exact fun _ => rfl

theorem storedState_setCompensated (h : setCompensated orgId sessionId db = .ok ((), db'))
    (hfind : db.sessions.find? (ofSession orgId sessionId) = some session)
    (hopen : session.state.isTerminal = false) : storedState orgId sessionId db' =
      some (if session.state = .awaitingApproval then .awaitingApproval else .compensated) := by
  cases h
  rw [storedState, find?_updateWhere, hfind, Option.map_some, Option.map_some]
  · have hsession := List.find?_some hfind
    cases hstate : session.state with
    | active | failed | compensating =>
      rw [updateRow_of_pos (ofSessionIn_iff.mpr ⟨ofSession_iff.mp hsession, by simp [hstate]⟩)]
      rfl
    | awaitingApproval =>
      rw [updateRow_of_neg (Bool.eq_false_iff.mpr fun hin => ?_), hstate]
      · rfl
      · simpa [hstate] using (ofSessionIn_iff.mp hin).2
    | completed | compensated | halted =>
      rw [hstate] at hopen
      cases hopen
  · exact fun _ => rfl

section

variable (hfind : w.db.sessions.find? (ofSession orgId sessionId) = some session)
  (hopen : session.state.isTerminal = false)
include hfind hopen

theorem storedState_of_reports (h : Reports S orgId sessionId w state w') :
    (state = .compensated ∧ storedState orgId sessionId w'.db =
        some (if session.state = .awaitingApproval then .awaitingApproval else .compensated)) ∨
      state = .halted ∧ storedState orgId sessionId w'.db = some .halted := by
  obtain ⟨session', hfind', hrest⟩ := reports_iff.mp h
  obtain rfl : session = session' := Option.some.inj (hfind.symm.trans hfind')
  rcases hrest with ⟨hterminal, -⟩ | ⟨-, db', hwalks, rfl⟩
  · rw [hopen] at hterminal
    cases hterminal
  · rcases hwalks.state_cases with rfl | rfl
    · obtain ⟨-, hsession⟩ := walks_compensated_iff.mp hwalks
      exact .inl ⟨rfl, storedState_setCompensated hsession hfind hopen⟩
    · obtain ⟨higher, entry, lower, reason, db₁, db₂, -, -, -, -, hentry, heffect, hsession⟩ :=
        walks_halted_iff.mp hwalks
      cases hentry
      cases heffect
      exact .inr ⟨rfl, storedState_setHalted hsession hfind⟩

end

/-- Every answer of `compensate_session` is the stored state afterwards, if and only if the
session does not wait for an approval or some pending entry has no endpoint. -/
theorem reportsStored_iff : ReportsStored S orgId sessionId w ↔
      storedState orgId sessionId w.db ≠ some .awaitingApproval ∨
        ∃ u ∈ pendingStack orgId sessionId w.db,
          S.compensations.endpointFor u.compensationFn = none := by
  constructor
  · intro hstored
    by_contra hnot
    push Not at hnot
    obtain ⟨hawaiting, hknown⟩ := hnot
    obtain ⟨session, hfind, hstate⟩ := Option.map_eq_some_iff.mp hawaiting
    have hopen : session.state.isTerminal = false := by rw [hstate]; rfl
    have hall : EndpointsKnown S.compensations
        ((pendingStack orgId sessionId w.db).map mapUndoRow) := by
      intro e he _
      obtain ⟨u, hu, rfl⟩ := List.mem_map.mp he
      exact Option.isSome_iff_ne_none.mpr (hknown u hu)
    have hreports := reports_iff.mpr
      ⟨session, hfind, .inr ⟨hopen, _, walks_compensated_iff.mpr ⟨hall, rfl⟩, rfl⟩⟩
    rcases storedState_of_reports hfind hopen hreports with ⟨-, hafter⟩ | ⟨hhalted, -⟩
    · rw [hstored _ _ hreports, if_pos hstate] at hafter
      cases hafter
    · cases hhalted
  · intro hcond state w' hreports
    obtain ⟨session, hfind, hrest⟩ := reports_iff.mp hreports
    rcases hrest with ⟨-, rfl, rfl⟩ | ⟨hopen, db', hwalks, hw⟩
    · rw [storedState, hfind]
      rfl
    · rcases storedState_of_reports hfind hopen hreports with ⟨rfl, hafter⟩ | ⟨rfl, hafter⟩
      · rw [hafter]
        rcases hcond with hstate | ⟨u, hu, hnone⟩
        · rw [if_neg fun hawaiting => hstate ?_]
          rw [storedState, hfind, Option.map_some, hawaiting]
        · -- a walk to the bottom has met the entry without an endpoint
          obtain ⟨hknown, -⟩ := walks_compensated_iff.mp hwalks
          have he := List.mem_map_of_mem (f := mapUndoRow) hu
          have hsome := hknown _ he (pendingStack_open he)
          change (S.compensations.endpointFor u.compensationFn).isSome = true at hsome
          rw [hnone] at hsome
          cases hsome
      · exact hafter

/-- A session that waits for an approval is reported as compensated and left waiting. -/
theorem reportsStored_fails_awaiting : ∃ c, Reaches (sample .postgres) unguarded c ∧
      ¬ ReportsStored (sample .postgres) sampleOrg ⟨2⟩ c.store := by
  obtain ⟨c, hc, htest⟩ := exists_sample unguarded 1780271999 (.irreversible "") awaitingCall
    (fun c =>
        reportsTest (sample .postgres) [{}, {}, {}] sampleOrg ⟨2⟩ .compensated
          (fun w' => storedState sampleOrg ⟨2⟩ w'.db = some .awaitingApproval) c.store)
    (by decide +kernel)
  obtain ⟨w', hreports, hstored⟩ := exists_reports_of_test htest
  refine ⟨c, hc, fun hall => ?_⟩
  have hsame := (of_decide_eq_true hstored).symm.trans (hall _ _ hreports)
  cases hsame

/-! ## The effect log -/

/-- The undo entries that have got a state between two states of the database. -/
def becameDuring (state : SagaStepState) (db db' : Db) : List UndoRow :=
  db'.undo.filter fun u' => u'.state = state ∧
    ∃ u ∈ db.undo, u.undoId = u'.undoId ∧ u.state ≠ state

theorem mem_becameDuring {state : SagaStepState} {u' : UndoRow} :
    u' ∈ becameDuring state db db' ↔ u' ∈ db'.undo ∧ u'.state = state ∧
      ∃ u ∈ db.undo, u.undoId = u'.undoId ∧ u.state ≠ state := by
  rw [becameDuring, List.mem_filter, decide_eq_true_iff]

theorem becameDuring_of_eq (hkeyed : Keyed UndoRow.undoId db.undo)
    (h : db'.undo = db.undo) (state : SagaStepState) : becameDuring state db db' = [] := by
  refine List.eq_nil_iff_forall_not_mem.mpr fun u' hu' => ?_
  obtain ⟨hmem, hafter, u, hu, hid, hbefore⟩ := mem_becameDuring.mp hu'
  rw [h] at hmem
  obtain rfl := hkeyed.eq hu hmem hid
  exact hbefore hafter

/-- The effect log records the rollback: the effects of the entries that became compensated
are compensated, and the session counts these entries. -/
structure LogsRollback (orgId : OrgId) (sessionId : SessionId) (db db' : Db) : Prop where
  effects : ∀ u ∈ becameDuring .compensated db db', ∀ row ∈ db'.effects, row.effectId = u.effectId →
    row.orgId = u.orgId → row.state = .compensated
  total : ∀ before after, db.sessions.find? (ofSession orgId sessionId) = some before →
    db'.sessions.find? (ofSession orgId sessionId) = some after →
    after.compensationsTotal = before.compensationsTotal + (becameDuring .compensated db db').length

theorem compensated_tables {entries : List UndoEntry}
    (h : Walks S.compensations orgId sessionId entries db .compensated db') :
    db'.undo = (db.markEntries orgId entries).undo ∧ db'.effects = db.effects ∧
      ∀ before after, db.sessions.find? (ofSession orgId sessionId) = some before →
        db'.sessions.find? (ofSession orgId sessionId) = some after →
        after.compensationsTotal = before.compensationsTotal := by
  obtain ⟨-, hsession⟩ := walks_compensated_iff.mp h
  cases hsession
  refine ⟨rfl, rfl, fun before after hbefore hafter => ?_⟩
  change (updateWhere _ _ db.sessions).find? _ = some after at hafter
  rw [find?_updateWhere, hbefore] at hafter
  · obtain rfl := Option.some.inj hafter
    rw [updateRow]
    split <;> rfl
  · exact fun _ => rfl

theorem marked_mem_becameDuring (h : db'.undo = (db.markEntries orgId
      ((pendingStack orgId sessionId db).map mapUndoRow)).undo)
    {u : UndoRow} (hu : u ∈ pendingStack orgId sessionId db) :
    u.marked db.now ∈ becameDuring .compensated db db' := by
  obtain ⟨hmem, -, horg, hpending⟩ := mem_pendingStack.mp hu
  have hentry : ofEntries orgId ((pendingStack orgId sessionId db).map mapUndoRow) u = true := by
    rw [ofEntries, List.any_eq_true]
    refine ⟨mapUndoRow u, List.mem_map_of_mem hu, ?_⟩
    rw [pendingStack_open (List.mem_map_of_mem hu)]
    exact decide_eq_true ⟨rfl, horg⟩
  rw [mem_becameDuring, h]
  refine ⟨mem_updateWhere.mpr ⟨u, hmem, updateRow_of_pos hentry⟩, rfl, u, hmem, rfl, ?_⟩
  rw [hpending]
  rintro ⟨⟩

/-- A compensation that ends well on an open session is recorded in the effect log if and
only if there was nothing to undo. -/
theorem logsRollback_iff (hkeyed : Keyed UndoRow.undoId w.db.undo)
    (hstate : storedState orgId sessionId w.db ∈ [some .active, some .failed, some .compensating])
    (h : Reports S orgId sessionId w .compensated w') :
    LogsRollback orgId sessionId w.db w'.db ↔ pendingStack orgId sessionId w.db = [] := by
  obtain ⟨session, hfind, ⟨hterminal, hreported, -⟩ | ⟨hopen, db', hwalks, rfl⟩⟩ := reports_iff.mp h
  · rw [storedState, hfind, Option.map_some, ← hreported] at hstate
    simp at hstate
  · obtain ⟨hundo, heffects, htotal⟩ := compensated_tables hwalks
    constructor
    · intro hlogs
      by_contra hne
      obtain ⟨u, hu⟩ := List.exists_mem_of_ne_nil _ hne
      obtain ⟨after, hafter⟩ : ∃ after,
          db'.sessions.find? (ofSession orgId sessionId) = some after := by
        have hstored := storedState_of_reports hfind hopen h
        rcases hstored with ⟨-, hstored⟩ | ⟨hhalted, -⟩
        · obtain ⟨after, hafter, -⟩ := Option.map_eq_some_iff.mp hstored
          exact ⟨after, hafter⟩
        · cases hhalted
      have hgrown := hlogs.total session after hfind hafter
      rw [htotal session after hfind hafter] at hgrown
      have hnone : becameDuring .compensated w.db db' = [] :=
        List.eq_nil_of_length_eq_zero (Nat.add_eq_left.mp hgrown.symm)
      have hmem := marked_mem_becameDuring hundo hu
      rw [hnone] at hmem
      cases hmem
    · intro hempty
      rw [hempty, List.map_nil, markEntries_nil] at hundo
      have hnone := becameDuring_of_eq hkeyed hundo .compensated
      refine ⟨fun u hu => ?_, fun before after hbefore hafter => ?_⟩
      · change u ∈ becameDuring .compensated w.db db' at hu
        rw [hnone] at hu
        cases hu
      · change _ = _ + (becameDuring .compensated w.db db').length
        rw [hnone, htotal before after hbefore hafter]
        rfl

/-- A session with two undo entries, on which a compensation ends well. -/
theorem logsRollback_iff_executedCall : ∃ (c : State (reachableSample .postgres)) (w' : World),
      Reaches (reachableSample .postgres) unguarded c ∧
      storedState sampleOrg ⟨2⟩ (dbOf c) ∈ [some .active, some .failed, some .compensating] ∧
      Reports (reachableSample .postgres) sampleOrg ⟨2⟩ c.store .compensated w' ∧
      (LogsRollback sampleOrg ⟨2⟩ (dbOf c) w'.db ↔ pendingStack sampleOrg ⟨2⟩ (dbOf c) = []) := by
  obtain ⟨c, hc, hstate, hreported⟩ := exists_sample (S := reachableSample .postgres) unguarded
    1780271999 (.compensable sampleCompensation) twoExecutedCalls (fun c =>
      storedState sampleOrg ⟨2⟩ (dbOf c) ∈ [some .active, some .failed, some .compensating] ∧
      reportsTest (reachableSample .postgres) (List.replicate 7 {}) sampleOrg ⟨2⟩ .compensated
        (fun _ => true) c.store) (by decide +kernel)
  obtain ⟨w', hreports, -⟩ := exists_reports_of_test hreported
  exact ⟨c, w', hc, hstate, hreports, logsRollback_iff (undoIds_keyed hc) hstate hreports⟩

/-- Two entries are undone, and neither their effects nor the counter of the session
change. -/
theorem logsRollback_fails_executedCalls : ∃ (c : State (reachableSample .postgres)) (w' : World),
      Reaches (reachableSample .postgres) unguarded c ∧
      storedState sampleOrg ⟨2⟩ (dbOf c) = some .active ∧
      Reports (reachableSample .postgres) sampleOrg ⟨2⟩ c.store .compensated w' ∧
      ¬ LogsRollback sampleOrg ⟨2⟩ (dbOf c) w'.db := by
  obtain ⟨c, hc, hstate, hreported⟩ := exists_sample (S := reachableSample .postgres) unguarded
    1780271999 (.compensable sampleCompensation) twoExecutedCalls (fun c =>
      storedState sampleOrg ⟨2⟩ (dbOf c) = some .active ∧
      reportsTest (reachableSample .postgres) (List.replicate 7 {}) sampleOrg ⟨2⟩ .compensated
        (fun w' => ∃ u ∈ becameDuring .compensated (dbOf c) w'.db, ∃ row ∈ w'.db.effects,
          row.effectId = u.effectId ∧ row.orgId = u.orgId ∧ row.state = .executing) c.store)
    (by decide +kernel)
  obtain ⟨w', hreports, htest'⟩ := exists_reports_of_test hreported
  obtain ⟨u, hu, row, hrow, hid, horg, hexecuting⟩ := of_decide_eq_true htest'
  refine ⟨c, w', hc, hstate, hreports, fun hlogs => ?_⟩
  rw [hlogs.effects u hu row hrow hid horg] at hexecuting
  cases hexecuting

end UndoLog
