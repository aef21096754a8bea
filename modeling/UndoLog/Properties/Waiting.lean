import UndoLog.Engine.Schedule
import UndoLog.Engine.Sequential

/-!
# Who a session waits for

A session that waits for approval and a pending irreversible effect should have a pending
approval request that somebody can still decide. A timeout resolves the approval alone, so it
leaves session and effect waiting for nobody.
-/

namespace UndoLog

open Concurrent Machine Relational

variable {S : Setup} {guard : Guard (system S)} {c c' : State S}

/-- No execution of the effect was reported as failed. -/
def NeverFailed (c : State S) (row : EffectRow) : Prop :=
  ∀ t reason rows, Succeeded c t (.failRows row.orgId row.effectId reason) rows → rows.1 = 0

/-- Every waiting session has a pending approval request, and every pending irreversible
effect that never failed is linked to one. -/
structure AwaitsSomeone (c : State S) : Prop where
  sessions : ∀ s ∈ (dbOf c).sessions, s.state = .awaitingApproval →
    ∃ a ∈ (dbOf c).approvals, a.sessionId = s.sessionId ∧ a.orgId = s.orgId ∧ a.state = .pending
  effects : ∀ row ∈ (dbOf c).effects, row.tier = .irreversible → row.state = .pending →
    NeverFailed c row →
    ∃ a ∈ (dbOf c).approvals, row.approvalRequestId = some a.approvalRequestId ∧
      a.state = .pending

/-- The timeouts that a statement makes final. -/
def Stmt.timeoutWrites (b : Backend) (t : ℕ) (db : Db) : Stmt → List TimeoutWrite
  | .db q => q.timeoutWrites b t db
  | .app _ => []

/-- A timeout becomes final only for an approval that nothing waits for: its effect is
not pending and its session is not waiting. -/
def TimesOutIdle (c : State S) (t : ℕ) (st : (system S).Stmt) : Prop :=
  ∀ write ∈ Stmt.timeoutWrites S.backend t (dbOf c) st, ∀ a ∈ (dbOf c).approvals,
    a.approvalRequestId = write.approvalRequestId →
    (∀ row ∈ (dbOf c).effects, row.effectId = a.effectId → row.state ≠ .pending) ∧
    ∀ s ∈ (dbOf c).sessions, s.sessionId = a.sessionId → s.state ≠ .awaitingApproval

instance (c : State S) (t : ℕ) (st : (system S).Stmt) : Decidable (TimesOutIdle c t st) := by
  unfold TimesOutIdle
  infer_instance

/-! ## Sessions -/

variable {orgId : OrgId} {s : SessionRecord} {a : ApprovalRequest} {row : EffectRow} {t : ℕ}
  {o : Oracle} {q : Query}

theorem pending_of_setAwaiting (hseq : ∀ (c : State S) choice, guard c choice → Sequential c choice)
    (hc : Reaches S guard c) {sessionId : SessionId}
    (hquery : QueryStep c c' t o (.setAwaitingApproval orgId sessionId) ()) :
    ∃ a ∈ (dbOf c).approvals, a.sessionId = sessionId ∧ a.orgId = orgId ∧ a.state = .pending := by
  obtain ⟨op, -, hpre⟩ := hquery.pre hc
  obtain ⟨call, rfl, rfl, rfl, effectId, reason, id, now, hdone, -⟩ := intercept_of_pre hpre rfl
  have hreq := creation_of_succeeded (succeeded_iff_done.mpr hdone)
  obtain ⟨a, ha, hof⟩ := approval_of_creation hc hreq
  have hpending := pending_while_running hseq hc hreq hquery.running a ha hof.approvalRequestId
  exact ⟨a, ha, hof.sessionId, hof.orgId, hpending⟩

theorem Query.sessionAfter_awaiting (h : q.sessionAfter s = .awaitingApproval) :
    s.state = .awaitingApproval ∨ q = .setAwaitingApproval s.orgId s.sessionId := by
  cases q with
  | setAwaitingApproval orgId sessionId =>
    simp only [Query.sessionAfter] at h
    split at h
    · next hrow =>
      obtain ⟨⟨rfl, rfl⟩, -⟩ := ofSessionIn_iff.mp hrow
      exact .inr rfl
    · exact .inl h
  | approve | reject | setCompensated | setHalted =>
    simp only [Query.sessionAfter] at h
    split at h
    · cases h
    · exact .inl h
  | _ => exact .inl h

section TimesOutIdle

variable {t : ℕ} {o : Oracle} {q : Query} {r : q.Ret}

/-- A statement that resolves the approval of a waiting session makes the session move
on, unless it is a timeout. -/
theorem session_moves_on (hc : Reaches S guard c) (hquery : QueryStep c c' t o q r)
    (ha : a ∈ (dbOf c).approvals) (hpending : a.state = .pending)
    (hresolved : (q.approvalAfter S.backend t (dbOf c) a).state ≠ .pending)
    (hid : a.sessionId = s.sessionId) (horg : a.orgId = s.orgId)
    (hwaiting : s.state = .awaitingApproval) : q.sessionAfter s ≠ .awaitingApproval ∨
      ∃ write ∈ q.timeoutWrites S.backend t (dbOf c),
        a.approvalRequestId = write.approvalRequestId := by
  have hchange := q.approvalChange S.backend t (dbOf c) a
  generalize q.approvalAfter S.backend t (dbOf c) a = a' at hchange hresolved
  cases hchange with
  | same => exact absurd hpending hresolved
  | approved hrow | rejected hrow =>
    obtain ⟨⟨hrowId, -⟩, -⟩ := ofPendingApproval_iff.mp hrow
    obtain ⟨hcore, rfl⟩ := hquery.decides_core hc rfl ha hrowId
    obtain ⟨-, -, hsession, -⟩ := core_approval hcore
    left
    simp [Query.sessionAfter, ofSessionIn, ofSession, ← hsession, hid, horg, hwaiting]
  | timedOut hwrite hrow =>
    exact .inr ⟨_, hwrite, (ofApproval_iff.mp hrow).1⟩

end TimesOutIdle

theorem waiting_sessions (hc : Reaches S (SequentialWith TimesOutIdle) c) :
    ∀ s ∈ (dbOf c).sessions, s.state = .awaitingApproval →
      ∃ a ∈ (dbOf c).approvals, a.sessionId = s.sessionId ∧ a.orgId = s.orgId ∧
        a.state = .pending := by
  refine rows_invariant hc (fun c h s hs => absurd hs (h.sessions s)) ?_
  intro c choice c' hc ih hguard htrans s' hs' hstate
  rcases step_cases htrans with ⟨event, hquiet⟩ | ⟨t, o, q, r, rfl, hquery⟩
  · rw [hquiet.tables.approvals]
    rw [hquiet.tables.sessions] at hs'
    exact ih s' hs' hstate
  · rcases hquery.session_origin hs' with ⟨s, hs, hid, horg, hafter⟩ | ⟨orgId, sessionId, -, rfl, -⟩
    · rw [hid, horg]
      rw [hstate] at hafter
      rcases Query.sessionAfter_awaiting hafter.symm with hwaiting | rfl
      · obtain ⟨a, ha, haid, haorg, hpending⟩ := ih s hs hwaiting
        obtain ⟨-, horg', hsession', -⟩ :=
          core_approval (q.approvalChange S.backend t (dbOf c) a).core
        refine ⟨_, hquery.approval_after ha, hsession'.trans haid, horg'.trans haorg, ?_⟩
        by_contra hresolved
        rcases session_moves_on hc hquery ha hpending hresolved haid haorg hwaiting with
          hmoves | ⟨write, hwrite, hwriteId⟩
        · exact hmoves hafter.symm
        · exact (hquery.guarded hguard.2 write hwrite a ha hwriteId).2 s hs
            haid.symm hwaiting
      · obtain ⟨a, ha, haid, haorg, hpending⟩ :=
          pending_of_setAwaiting (fun _ _ hguard => hguard.1) hc hquery
        exact ⟨a, hquery.approval_after ha, haid, haorg, hpending⟩
    · cases hstate

/-! ## Effects -/

/-- A statement that resolves the approval of a pending effect makes the effect move on,
unless it is a timeout. -/
theorem effect_moves_on (hc : Reaches S guard c) {r : q.Ret}
    (hquery : QueryStep c c' t o q r) (ha : a ∈ (dbOf c).approvals) (hpending : a.state = .pending)
    (hresolved : (q.approvalAfter S.backend t (dbOf c) a).state ≠ .pending)
    (hrow : row ∈ (dbOf c).effects) (heffect : a.effectId = row.effectId)
    (hstate : row.state = .pending) : (q.effectAfter (dbOf c).now row).state ≠ .pending ∨
      ∃ write ∈ q.timeoutWrites S.backend t (dbOf c),
        a.approvalRequestId = write.approvalRequestId := by
  have hconcerns := approval_row hc ha hrow heffect
  have hchange := q.approvalChange S.backend t (dbOf c) a
  generalize q.approvalAfter S.backend t (dbOf c) a = a' at hchange hresolved
  cases hchange with
  | same => exact absurd hpending hresolved
  | @approved _ _ _ _ approval _ _ hof | @rejected _ _ _ approval _ _ hof =>
    obtain ⟨⟨hrowId, -⟩, -⟩ := ofPendingApproval_iff.mp hof
    obtain ⟨hcore, rfl⟩ := hquery.decides_core hc rfl ha hrowId
    obtain ⟨-, -, -, happroval, -⟩ := core_approval hcore
    have hin : ofEffectIn a.orgId approval.effectId [.pending] row = true :=
      ofEffectIn_iff.mpr ⟨⟨heffect.symm.trans happroval, hconcerns.orgId⟩, by simp [hstate]⟩
    left
    first | rw [effectAfter_approve hin] | simp only [Query.effectAfter, updateRow_of_pos hin]
    rintro ⟨⟩
  | timedOut hwrite hof =>
    exact .inr ⟨_, hwrite, (ofApproval_iff.mp hof).1⟩

theorem pending_of_effectAfter {r : q.Ret} (hquery : QueryStep c c' t o q r)
    (hrow : row ∈ (dbOf c).effects) (hstate : (q.effectAfter (dbOf c).now row).state = .pending)
    (hnever : NeverFailed c' (q.effectAfter (dbOf c).now row)) : row.state = .pending := by
  have hchange := q.effectChange (dbOf c).now row
  generalize q.effectAfter (dbOf c).now row = row' at hchange hstate hnever
  cases hchange with
  | same | linked => exact hstate
  | @failed orgId effectId reason _ hof =>
    obtain ⟨⟨rfl, rfl⟩, -⟩ := ofEffectIn_iff.mp hof
    -- the update reports the rows it has met
    have htx : failRows row.orgId row.effectId reason (dbOf c) = .ok (r, dbOf c') := hquery.tx
    have hrows : r.1 = (dbOf c).effects.countP
        (ofEffectIn row.orgId row.effectId [.executing, .approved]) :=
      congrArg (fun x => x.1.1) (Except.ok.inj htx).symm
    have hzero : r.1 = 0 := by
      exact hnever t reason r hquery.ran
    exact absurd hof (List.countP_eq_zero.mp (hrows.symm.trans hzero) row hrow)
  | replayed | executing | committed | approved | rejected | compensationFailed => cases hstate

theorem NeverFailed.before {choice : Choice (system S)} {row' : EffectRow} (h : NeverFailed c' row')
    (htrans : Transition c choice c') (hcore : row'.core = row.core) : NeverFailed c row := by
  intro t reason rows hfailed
  refine h t reason rows ?_
  rw [core_orgId hcore, core_effectId hcore]
  exact htrans.subset hfailed

theorem pending_effects (hc : Reaches S (SequentialWith TimesOutIdle) c) :
    ∀ row ∈ (dbOf c).effects, ∀ a ∈ (dbOf c).approvals, a.effectId = row.effectId →
      row.state = .pending → NeverFailed c row → a.state = .pending := by
  refine rows_invariant hc (fun c h row hrow => absurd hrow (h.effects row)) ?_
  intro c choice c' hc ih hguard htrans row' hrow' a' ha' heffect hstate hnever
  rcases step_cases htrans with ⟨event, hquiet⟩ | ⟨t, o, q, r, rfl, hquery⟩
  · rw [hquiet.tables.approvals] at ha'
    rw [hquiet.tables.effects] at hrow'
    exact ih row' hrow' a' ha' heffect hstate (hnever.before htrans rfl)
  · rcases hquery.approval_origin ha' with ⟨a, ha, rfl⟩ | ⟨req, -, rfl⟩
    · obtain ⟨-, -, -, haeffect, -⟩ :=
        core_approval (q.approvalChange S.backend t (dbOf c) a).core
      rcases hquery.effect_origin hrow' with ⟨row, hrow, rfl⟩ | ⟨ins, hins, rfl⟩
      · have hcore := (q.effectChange (dbOf c).now row).core
        have hbefore := pending_of_effectAfter hquery hrow hstate hnever
        have hsame : a.effectId = row.effectId :=
          haeffect.symm.trans (heffect.trans (core_effectId hcore))
        have hpending := ih row hrow a ha hsame hbefore (hnever.before htrans hcore)
        by_contra hresolved
        rcases effect_moves_on hc hquery ha hpending hresolved hrow hsame hbefore with
          hmoves | ⟨write, hwrite, hwriteId⟩
        · exact hmoves hstate
        · exact (hquery.guarded hguard.2 write hwrite a ha hwriteId).1 row hrow
            hsame.symm hbefore
      · exact absurd (haeffect.symm.trans heffect)
          (no_approval_before_insertion hc hquery hins ha)
    · rfl

theorem linked_effects (hc : Reaches S guard c) {effectId : EffectId}
    {id : ApprovalRequestId}
    (hlinked : Succeeded c t (.setApprovalRequestId orgId effectId id) ()) :
    ∀ row ∈ (dbOf c).effects, row.effectId = effectId → row.approvalRequestId = some id := by
  have hboth : (∃ a ∈ (dbOf c).approvals, a.effectId = effectId ∧ a.approvalRequestId = id) ∧
      ∀ row ∈ (dbOf c).effects, row.effectId = effectId → row.approvalRequestId = some id := by
    refine hlinked.since hc ?_ ?_
    · intro c c' o hc _ htrans hquery
      obtain ⟨a, ha, haeffect, haid, haorg⟩ := approval_of_link hc hquery
      refine ⟨⟨a, hquery.approval_after ha, haeffect, haid⟩, fun row' hrow' heffect => ?_⟩
      rcases hquery.effect_origin hrow' with ⟨row, hrow, rfl⟩ | ⟨ins, hins, -⟩
      · have hid := (core_effectId (Query.effectChange _ (dbOf c).now row).core).symm.trans heffect
        have hof : ofEffect orgId effectId row = true :=
          ofEffect_iff.mpr ⟨hid, (approval_row hc ha hrow (haeffect.trans hid.symm)).orgId.trans
            haorg⟩
        simp only [Query.effectAfter, updateRow_of_pos hof]
      · cases hins
    · rintro c choice c' hc _ htrans ⟨⟨a, ha, haeffect, haid⟩, ih⟩
      obtain ⟨a', ha', hcore⟩ := approval_stays htrans ha
      obtain ⟨haid', -, -, haeffect', -⟩ := core_approval hcore
      refine ⟨⟨a', ha', haeffect'.trans haeffect, haid'.trans haid⟩, fun row' hrow' heffect => ?_⟩
      rcases effect_origin htrans hrow' with ⟨row, hrow, hstep⟩ |
        ⟨t, o, q, r, ins, -, hquery, hins, rfl⟩
      · have hlink := ih row hrow ((core_effectId hstep.core).symm.trans heffect)
        rcases hstep with rfl | ⟨t, o, q, r, -, hquery, hchange⟩
        · exact hlink
        · cases hchange with
          | linked hof =>
            obtain ⟨b, hb, hbeffect, hbid, -⟩ := approval_of_link hc hquery
            obtain rfl := approval_eq_of_effectId hc ha hb
              (haeffect.trans (heffect.symm.trans ((ofEffect_iff.mp hof).1.trans hbeffect.symm)))
            exact congrArg some (hbid.symm.trans haid)
          | _ => exact hlink
      · exact absurd (haeffect.trans heffect.symm) (no_approval_before_insertion hc hquery hins ha)
  exact hboth.2

/-- Between calls, in every run of one call after another in which only timeouts that
nothing waits for become final, every waiting session and every pending irreversible
effect that never failed has an approval request that is still pending. -/
theorem awaitsSomeone_of_timesOutIdle (hc : Reaches S (SequentialWith TimesOutIdle) c)
    (hidle : Idle c) : AwaitsSomeone c := by
  have hseq : ∀ (c : State S) choice, SequentialWith TimesOutIdle c choice → Sequential c choice :=
    fun _ _ hguard => hguard.1
  refine ⟨waiting_sessions hc, ?_⟩
  intro row hrow htier hstate hnever
  obtain ⟨t, ins, hins, hof⟩ := insertion_of_row hc hrow
  obtain ⟨hstart, -⟩ := insertion_call hc hins
  obtain ⟨r, hreturned⟩ := returned_of_idle hseq hc hidle hstart
  obtain ⟨reason, id, now, hcreated, hlinked, -⟩ :=
    asked_of_returned hseq hc hins (hof.tier.symm.trans htier) hreturned
  obtain ⟨a, ha, haof⟩ := approval_of_creation hc (creation_of_succeeded hcreated)
  have hid : a.approvalRequestId = id := haof.approvalRequestId
  refine ⟨a, ha, ?_, ?_⟩
  · rw [hid]
    exact linked_effects hc hlinked row hrow hof.effectId
  · exact pending_effects hc row hrow a ha (haof.effectId.trans hof.effectId.symm) hstate hnever

/-- A session of the sample deployment waits for an approval that is pending. -/
theorem awaitsSomeone_after_intercept :
    ∃ c, Reaches (sample .postgres) (SequentialWith TimesOutIdle) c ∧ Idle c ∧
      (∃ s ∈ (dbOf c).sessions, s.state = .awaitingApproval) ∧ AwaitsSomeone c := by
  obtain ⟨c, hc, hidle, hwaiting⟩ := exists_sample (SequentialWith TimesOutIdle) 1780271999
    (.irreversible "") awaitingCall
    (fun c => Idle c ∧ ∃ s ∈ (dbOf c).sessions, s.state = .awaitingApproval) (by decide +kernel)
  exact ⟨c, hc, hidle, hwaiting, awaitsSomeone_of_timesOutIdle hc hidle⟩

/-- After a timeout a session waits and has no pending approval. -/
theorem awaitsSomeone_fails_after_timeout :
    ∃ c, Reaches (sample .postgres) Sequential c ∧ Idle c ∧ ¬ AwaitsSomeone c := by
  obtain ⟨c, hc, hidle, s, hs, hwaiting, hnone⟩ := exists_sample Sequential 1780271999
    (.irreversible "") timedOutCall (fun c =>
      Idle c ∧ ∃ s ∈ (dbOf c).sessions, s.state = .awaitingApproval ∧
        ∀ a ∈ (dbOf c).approvals, a.state ≠ .pending) (by decide +kernel)
  refine ⟨c, hc, hidle, fun hsomeone => ?_⟩
  obtain ⟨a, ha, -, -, hpending⟩ := hsomeone.sessions s hs hwaiting
  exact hnone a ha hpending

end UndoLog
