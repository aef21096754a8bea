import UndoLog.Engine.Schedule
import UndoLog.Engine.Sequential

/-!
# Pending approvals can be granted

`approve` succeeds when it finds its approval pending, the effect pending and the session
waiting. A replay, the approval of another request of the session, an ignored insert or a
session of another organisation can take that away. In runs without these, every pending
approval of a session that has not ended can be granted.
-/

namespace UndoLog

open Concurrent Machine Relational

variable {S : Setup} {guard : Guard (system S)} {c c' : State S}

/-- The call `t` was told that an approval is granted: the approval and its effect are
approved and its session is active. -/
structure Granted (c : State S) (t : ℕ) (a : ApprovalRequest) : Prop where
  returned : ∃ result, Returned c t (.ok (.approved result))
  approval : ∃ a' ∈ (dbOf c).approvals, a'.approvalRequestId = a.approvalRequestId ∧
    a'.state = .approved
  effect : ∃ row ∈ (dbOf c).effects, row.effectId = a.effectId ∧ row.orgId = a.orgId ∧
    row.state = .approved
  session : ∃ s ∈ (dbOf c).sessions, s.sessionId = a.sessionId ∧ s.orgId = a.orgId ∧
    s.state = .active

/-- Whoever calls `approve` on the approval next, with whatever arguments, is granted it while the
connection holds. -/
def Grantable (c : State S) (a : ApprovalRequest) : Prop :=
  ∀ actor approvedArgs (o₁ o₂ o₃ : Oracle), o₁.fault = false → o₂.fault = false →
    ∃ c', runGuarded unguarded c (alone c
        (.approve a.orgId a.approvalRequestId actor approvedArgs) [o₁, o₂, o₃]) = some c' ∧
      Granted c' c.next a

/-- The session of an approval has not ended. -/
def SessionOpen (db : Db) (a : ApprovalRequest) : Prop :=
  ∀ s ∈ db.sessions, s.sessionId = a.sessionId →
    s.state ≠ .halted ∧ s.state ≠ .completed ∧ s.state ≠ .compensated

instance (db : Db) (a : ApprovalRequest) : Decidable (SessionOpen db a) :=
  inferInstanceAs (Decidable (∀ s ∈ db.sessions, _))

/-- The organisation, the approval and the session of an approving transaction. -/
def Stmt.approves : Stmt → Option (OrgId × ApprovalRequestId × SessionId)
  | .db (.approve orgId id _ _ approval) => some (orgId, id, approval.sessionId)
  | _ => none

/-- The approval request that a statement creates. -/
def Stmt.creates : Stmt → Option ApprovalRequest
  | .db (.createApproval req) => some req
  | _ => none

/-- A statement takes nothing away from pending approvals: it replays no effect that has
one, approves only when no other one of the session is pending, and creates one only for
an effect and a session that the organisation has. -/
def KeepsGrantable (c : State S) (_ : ℕ) (st : (system S).Stmt) : Prop :=
  (∀ key ∈ Stmt.replays st, ∀ a ∈ (dbOf c).approvals, a.state = .pending →
    a.effectId ≠ key.2) ∧
  (∀ key ∈ Stmt.approves st, ∀ a ∈ (dbOf c).approvals, a.state = .pending →
    a.orgId = key.1 → a.sessionId = key.2.2 → a.approvalRequestId = key.2.1) ∧
  ∀ req ∈ Stmt.creates st, (∃ row ∈ (dbOf c).effects, row.effectId = req.effectId) ∧
    ∃ s ∈ (dbOf c).sessions, s.sessionId = req.sessionId ∧ s.orgId = req.orgId

instance (c : State S) (t : ℕ) (st : (system S).Stmt) : Decidable (KeepsGrantable c t st) := by
  unfold KeepsGrantable
  infer_instance

/-! ## The effect of a running call -/

theorem fresh_while_running (hseq : ∀ (c : State S) choice, guard c choice → Sequential c choice)
    (hc : Reaches S guard c) {t : ℕ} {call : ToolCall} {signature : CallSignature}
    {effectId : EffectId}
    (hinsert : Succeeded c t (.insertIrreversible call signature effectId) true)
    (hrunning : (c.calls t).isSome = true) : ∀ row ∈ (dbOf c).effects, row.effectId = effectId →
      row.state = .pending ∧ row.resultSnapshot = none := by
  refine hinsert.while_running hc hrunning ?_ ?_
  · intro c c' o hc hquery row' hrow' heffect
    rcases hquery.effect_origin hrow' with ⟨row, hrow, rfl⟩ | ⟨ins, hins, rfl⟩
    · obtain ⟨t', ins, hins, hof⟩ := insertion_of_row hc hrow
      exact absurd (hof.effectId.symm.trans heffect) (hquery.insertion_fresh hc rfl (t', ins) hins)
    · exact ⟨rfl, rfl⟩
  · intro c choice c' hc _ htrans hinserted hrunning hfresh row' hrow' heffect
    rcases step_cases htrans with ⟨event, hquiet⟩ | ⟨t', o, q, r, -, hquery⟩
    · rw [hquiet.tables.effects] at hrow'
      exact hfresh row' hrow' heffect
    · -- the statement is one of the call itself, which does not insert again
      obtain ⟨call', before, hstart, -⟩ := hinserted.intercept_pre hc rfl
      obtain ⟨p, hp⟩ := Option.isSome_iff_exists.mp hrunning
      obtain ⟨next, hcall⟩ := hquery.call
      obtain rfl := one_running hseq hc hp hcall
      obtain ⟨op, hstart', hpre⟩ := hquery.pre hc
      obtain rfl := hstart.unique hc hstart'
      have hfree : ¬ Free Stmt.isInsert (pastOf t c) := fun hfree => by
        cases hfree _ (succeeded_iff_done.mp hinserted)
      rcases hquery.effect_origin hrow' with ⟨row, hrow, rfl⟩ | ⟨ins, hins, rfl⟩
      · have hchange := q.effectChange (dbOf c).now row
        have hrowFresh := hfresh row hrow ((core_effectId hchange.core).symm.trans heffect)
        generalize q.effectAfter (dbOf c).now row = row' at hchange heffect
        cases hchange with
        | same | linked => exact hrowFresh
        | replayed => exact absurd hpre.2.1 hfree
        | executing =>
          obtain ⟨-, compensation, undoId, -, inserted, hdone, -⟩ := hpre
          cases insert_once hc (succeeded_iff_done.mp hinserted) hdone rfl rfl
        | committed | failed | approved | rejected | compensationFailed => cases hpre
      · exact absurd (hquery.insertion_pre hc hins).2 hfree

/-! ## The effect of a pending approval -/

section KeepsGrantable

variable {t : ℕ} {o : Oracle} {q : Query} {r : q.Ret}

theorem sequential_of_keepsGrantable (c : State S) (choice : Choice (system S))
    (hguard : SequentialWith KeepsGrantable c choice) : Sequential c choice :=
  hguard.1

variable {orgId : OrgId} {a : ApprovalRequest} {row : EffectRow} {s : SessionRecord}

/-- The row of the effect of a pending approval is pending and has no result. -/
theorem effect_of_pending (hc : Reaches S (SequentialWith KeepsGrantable) c) :
    ∀ a ∈ (dbOf c).approvals, a.state = .pending → ∃ row ∈ (dbOf c).effects,
      row.effectId = a.effectId ∧ row.state = .pending ∧ row.resultSnapshot = none := by
  refine rows_invariant hc (fun c h a ha => absurd ha (h.approvals a)) ?_
  intro c choice c' hc ih hguard htrans a' ha' hpending
  rcases step_cases htrans with ⟨event, hquiet⟩ | ⟨t, o, q, r, rfl, hquery⟩
  · rw [hquiet.tables.effects]
    rw [hquiet.tables.approvals] at ha'
    exact ih a' ha' hpending
  · rcases hquery.approval_origin ha' with ⟨a, ha, rfl⟩ | ⟨req, rfl, rfl⟩
    · have hkept : (a.orgId, a.approvalRequestId) ∉ q.resolves S.backend t (dbOf c) :=
        fun hmem => Query.approvalAfter_of_mem hmem hpending
      have hsame := (q.approvalChange S.backend t (dbOf c) a).pending hpending
      rw [hsame] at hpending ⊢
      obtain ⟨row, hrow, heffect, hstate, hresult⟩ := ih a ha hpending
      have hchange := q.effectChange (dbOf c).now row
      refine ⟨_, hquery.effect_after hrow, (core_effectId hchange.core).trans heffect, ?_⟩
      generalize q.effectAfter (dbOf c).now row = row' at hchange
      cases hchange with
      | same | linked => exact ⟨hstate, hresult⟩
      | replayed hof =>
        have hno := (hquery.guarded hguard.2).1 _ rfl a ha hpending
        exact absurd (heffect.symm.trans (ofEffect_iff.mp hof).1) hno
      | executing hof =>
        have htier := executing_compensable hc hquery hrow (ofEffectIn_iff.mp hof).1.1
        rw [(approval_row hc ha hrow heffect.symm).tier] at htier
        cases htier
      | committed hof | failed hof =>
        obtain ⟨-, hmem⟩ := ofEffectIn_iff.mp hof
        rw [hstate] at hmem
        simp at hmem
      | approved args hof | rejected hof =>
        obtain ⟨b, hb, hcore, -, hmem⟩ := hquery.decides_met hc rfl
        obtain ⟨-, -, -, hbeffect, -⟩ := core_approval hcore
        obtain rfl := approval_eq_of_effectId hc ha hb
          (heffect.symm.trans ((ofEffectIn_iff.mp hof).1.1.trans hbeffect.symm))
        exact absurd hmem hkept
      | compensationFailed hof =>
        rcases not_compensation sequential_of_keepsGrantable hc hquery with hno |
          ⟨orgId, sessionId, hno⟩
        · cases hno
        · cases hno
    · -- the call that asks for the approval has inserted the effect
      obtain ⟨⟨row, hrow, heffect⟩, -⟩ := (hquery.guarded hguard.2).2.2 req rfl
      obtain ⟨op, hstart, hpre⟩ := hquery.pre hc
      obtain ⟨call, rfl, hpre⟩ := intercept_of_pre hpre rfl
      obtain ⟨inserted, hcreated⟩ := createdBy_of_pre hc hstart List.prefix_rfl hpre
      obtain ⟨t', ins, hins, hof⟩ := insertion_of_row hc hrow
      obtain ⟨rfl, rfl, rfl, -⟩ := hcreated.insertion hc hins (hof.effectId.symm.trans heffect)
      have hfresh := fresh_while_running sequential_of_keepsGrantable hc hcreated.insert
        hquery.running row hrow heffect
      exact ⟨row, hquery.effect_after hrow, heffect, hfresh⟩

/-! ## The session of a pending approval -/

theorem session_of_creation (hc : Reaches S (SequentialWith KeepsGrantable) c)
    {req : ApprovalRequest} (hreq : (t, req) ∈ creations c) :
    HasSession (dbOf c) req.orgId req.sessionId := by
  refine (creation_event hreq).since hc ?_ ?_
  · intro c c' o _ hguard htrans hquery
    obtain ⟨-, s, hs, hid, horg⟩ := (hquery.guarded hguard.2).2.2 req rfl
    exact HasSession.step ⟨s, hs, hid, horg⟩ htrans
  · intro c choice c' _ _ htrans hhas
    exact hhas.step htrans

theorem Query.sessionAfter_active (h : q.sessionAfter s = .active) :
    (s.state = .active ∧ q ≠ .setAwaitingApproval s.orgId s.sessionId) ∨
    ∃ id actor approvedArgs approval, q = .approve s.orgId id actor approvedArgs approval ∧
      approval.sessionId = s.sessionId := by
  cases q with
  | setAwaitingApproval orgId sessionId =>
    simp only [Query.sessionAfter] at h
    split at h
    · cases h
    · next hrow =>
      refine .inl ⟨h, fun heq => hrow ?_⟩
      cases heq
      exact ofSessionIn_iff.mpr ⟨⟨rfl, rfl⟩, by simp [h]⟩
  | approve orgId id actor approvedArgs approval =>
    simp only [Query.sessionAfter] at h
    split at h
    · next hrow =>
      obtain ⟨⟨hid, rfl⟩, -⟩ := ofSessionIn_iff.mp hrow
      exact .inr ⟨id, actor, approvedArgs, approval, rfl, hid.symm⟩
    · exact .inl ⟨h, by rintro ⟨⟩⟩
  | reject | setCompensated | setHalted =>
    simp only [Query.sessionAfter] at h
    split at h
    · cases h
    · exact .inl ⟨h, by rintro ⟨⟩⟩
  | _ => exact .inl ⟨h, by rintro ⟨⟩⟩

theorem not_active_of_pending (hc : Reaches S (SequentialWith KeepsGrantable) c)
    {sessionId : SessionId} (hawait : Succeeded c t (.setAwaitingApproval orgId sessionId) ()) :
    ∃ req, (t, req) ∈ creations c ∧ req.orgId = orgId ∧ req.sessionId = sessionId ∧
      ∀ a ∈ (dbOf c).approvals, a.approvalRequestId = req.approvalRequestId →
        a.state = .pending → ∀ s ∈ (dbOf c).sessions, s.sessionId = sessionId →
        s.orgId = orgId → s.state ≠ .active := by
  refine hawait.since hc ?_ ?_
  · intro c c' o hc _ htrans hquery
    obtain ⟨op, hstart, hpre⟩ := hquery.pre hc
    obtain ⟨call, rfl, rfl, rfl, effectId, reason, id, now, hdone, -⟩ := intercept_of_pre hpre rfl
    have hcreated : Succeeded c t (.createApproval
        (approvalRequestFor S.config call effectId reason id now)) () :=
      succeeded_iff_done.mpr hdone
    refine ⟨_, creation_of_succeeded (htrans.subset hcreated), rfl, rfl, ?_⟩
    intro a' _ _ _ s' hs' hid horg hactive
    rcases hquery.session_origin hs' with ⟨s, hs, hsid, hsorg, hafter⟩ |
      ⟨orgId, sessionId, hno, -, -⟩
    · rcases Query.sessionAfter_active (hafter.symm.trans hactive) with ⟨-, hno⟩ |
        ⟨id, actor, approvedArgs, approval, hno, -⟩
      · rw [hsid] at hid
        rw [hsorg] at horg
        rw [hid, horg] at hno
        exact hno rfl
      · cases hno
    · cases hno
  · rintro c choice c' hc hguard htrans ⟨req, hreq, rfl, rfl, ih⟩
    refine ⟨req, collect_subset htrans.subset hreq, rfl, rfl, ?_⟩
    intro a' ha' haid hpending s' hs' hid horg hactive
    rcases step_cases htrans with ⟨event, hquiet⟩ | ⟨t', o, q, r, rfl, hquery⟩
    · rw [hquiet.tables.approvals] at ha'
      rw [hquiet.tables.sessions] at hs'
      exact ih a' ha' haid hpending s' hs' hid horg hactive
    · obtain ⟨a₀, ha₀, hof⟩ := approval_of_creation hc hreq
      -- the approval was there and pending before the statement
      obtain ⟨a, ha, rfl⟩ : ∃ a ∈ (dbOf c).approvals,
          a' = q.approvalAfter S.backend t' (dbOf c) a := by
        rcases hquery.approval_origin ha' with hold | ⟨req', rfl, rfl⟩
        · exact hold
        · exact absurd (hof.approvalRequestId.trans haid.symm) (hquery.creation_fresh a₀ ha₀)
      have hkept : (a.orgId, a.approvalRequestId) ∉ q.resolves S.backend t' (dbOf c) :=
        fun hmem => Query.approvalAfter_of_mem hmem hpending
      have hsame := (q.approvalChange S.backend t' (dbOf c) a).pending hpending
      rw [hsame] at hpending haid
      obtain rfl := (approvals_keyed hc).eq ha ha₀ (haid.trans hof.approvalRequestId.symm)
      rcases hquery.session_origin hs' with ⟨s, hs, hsid, hsorg, hafter⟩ |
        ⟨orgId, sessionId, rfl, rfl, hfresh⟩
      · have hnot := ih a ha haid hpending s hs (hsid.symm.trans hid) (hsorg.symm.trans horg)
        rcases Query.sessionAfter_active (hafter.symm.trans hactive) with ⟨hactive, -⟩ |
          ⟨id, actor, approvedArgs, approval, rfl, hsession⟩
        · exact hnot hactive
        · -- the approval of another request would be the only pending one of the session
          have horg' : a.orgId = s.orgId := hof.orgId.trans (horg.symm.trans hsorg)
          have hid' := (hquery.guarded hguard.2).2.1 _ rfl a ha hpending horg'
            (hof.sessionId.trans (hid.symm.trans (hsid.trans hsession.symm)))
          exact hkept (by rw [horg', hid']; exact List.mem_singleton_self _)
      · -- the session exists already
        obtain ⟨s, hs, hsid, -⟩ := session_of_creation hc hreq
        exact absurd (hsid.trans hid.symm) (hfresh s hs)

theorem awaiting_of_pending (hc : Reaches S (SequentialWith KeepsGrantable) c) (hidle : Idle c)
    (ha : a ∈ (dbOf c).approvals) (hpending : a.state = .pending) (hopen : SessionOpen (dbOf c) a) :
    ∃ s ∈ (dbOf c).sessions,
      s.sessionId = a.sessionId ∧ s.orgId = a.orgId ∧ s.state = .awaitingApproval := by
  have hseq := sequential_of_keepsGrantable (S := S)
  obtain ⟨t, req, hreq, hof⟩ := creation_of_approval hc ha
  obtain ⟨s, hs, hid, horg⟩ := session_of_creation hc hreq
  have hsid : s.sessionId = a.sessionId := hid.trans hof.sessionId.symm
  refine ⟨s, hs, hsid, horg.trans hof.orgId.symm, ?_⟩
  obtain ⟨hhalted, -, -⟩ := hopen s hs hsid
  -- the call that asked for the approval has returned, after making the session wait
  obtain ⟨call, inserted, hcreated⟩ := creation_createdBy hc hreq
  obtain ⟨r, hreturned⟩ := returned_of_idle hseq hc hidle hcreated.started
  obtain ⟨row, hrow, heffect, -⟩ := effect_of_pending hc a ha hpending
  obtain ⟨t', ins, hins, hofRow⟩ := insertion_of_row hc hrow
  obtain ⟨rfl, -, rfl, htier⟩ := hcreated.insertion hc hins
    (hofRow.effectId.symm.trans (heffect.trans hof.effectId))
  obtain ⟨reason, id, now, hasked, -, hawait⟩ := asked_of_returned hseq hc hins htier hreturned
  obtain rfl := creation_unique hc hreq (creation_of_succeeded hasked)
  obtain ⟨req', hreq', -, -, hnot⟩ := not_active_of_pending hc hawait
  obtain rfl := creation_unique hc hreq hreq'
  have hactive := hnot a ha hof.approvalRequestId hpending s hs hid horg
  have hstates := session_states hseq hc s hs
  simp only [List.mem_cons, List.not_mem_nil, or_false] at hstates
  rcases hstates with hstate | hstate | hstate
  · exact absurd hstate hactive
  · exact hstate
  · exact absurd hstate hhalted

/-! ## The call -/

theorem no_timeouts_of_idle (hc : Reaches S guard c) (hidle : Idle c) : (dbOf c).timeouts = [] := by
  refine List.eq_nil_iff_forall_not_mem.mpr fun tx htx => ?_
  obtain ⟨-, p, hp⟩ := opened hc tx htx
  exact not_running_of_idle hidle hc tx.owner (by rw [hp]; rfl)

theorem approveTx_of_pending (hc : Reaches S (SequentialWith KeepsGrantable) c) (hidle : Idle c)
    (ha : a ∈ (dbOf c).approvals) (hpending : a.state = .pending) (hopen : SessionOpen (dbOf c) a)
    (pick : ℕ) (actor : String) (approvedArgs : Option Json) :
    ∃ version, approveTx S.backend pick a.orgId a.approvalRequestId actor approvedArgs a (dbOf c) =
      .ok (version,
        approvedDb S.backend a.orgId a.approvalRequestId actor approvedArgs a (dbOf c)) := by
  obtain ⟨row, hrow, heffect, hstate, hresult⟩ := effect_of_pending hc a ha hpending
  have hconcerns := approval_row hc ha hrow heffect.symm
  refine approveTx_of_rows ?_ ?_ ?_ ?_ pick actor approvedArgs
  · exact (List.countP_pos_iff.mpr ⟨a, ha, ofPendingApproval_iff.mpr ⟨⟨rfl, rfl⟩, hpending⟩⟩).ne'
  · exact (List.countP_pos_iff.mpr ⟨row, hrow,
      ofEffectIn_iff.mpr ⟨⟨heffect, hconcerns.orgId⟩, by simp [hstate]⟩⟩).ne'
  · obtain ⟨s, hs, hid, horg, hwaiting⟩ := awaiting_of_pending hc hidle ha hpending hopen
    exact discountedSessions_iff.mpr ⟨s, hs, ofSessionIn_iff.mpr ⟨⟨hid, horg⟩, by simp [hwaiting]⟩⟩
  · intro row' hrow' hof
    obtain rfl := (effects_keyed hc).eq hrow' hrow ((ofEffect_iff.mp hof).1.trans heffect.symm)
    exact hresult

theorem granted_of_outcome {db : Db} {actor version : String} {approvedArgs : Option Json}
    (h : Outcome S.backend t db (.approve a.orgId a.approvalRequestId actor approvedArgs a)
      version (dbOf c')) (ha : a ∈ db.approvals) (hpending : a.state = .pending)
    (hrow : row ∈ db.effects) (hin : ofEffectIn a.orgId a.effectId [.pending] row = true)
    (hs : s ∈ db.sessions) (hwaits : ofSessionIn a.orgId a.sessionId [.awaitingApproval] s = true)
    (hreturned : ∃ result, Returned c' t (.ok (.approved result))) : Granted c' t a := by
  refine ⟨hreturned, ?_, ?_, ?_⟩
  · rcases h.approvals with ⟨req, hno, -⟩ | ⟨-, happrovals⟩
    · cases hno
    · rw [happrovals]
      refine ⟨_, List.mem_map_of_mem ha, ?_⟩
      rw [Query.approvalAfter, updateRow_of_pos (ofPendingApproval_iff.mpr ⟨⟨rfl, rfl⟩, hpending⟩)]
      exact ⟨rfl, rfl⟩
  · rcases h.effects with ⟨ins, hno, -⟩ | ⟨-, heffects⟩
    · cases hno
    · rw [heffects]
      obtain ⟨⟨hid, horg⟩, -⟩ := ofEffectIn_iff.mp hin
      have hcore := (Query.effectChange (.approve a.orgId a.approvalRequestId actor approvedArgs a)
        db.now row).core
      exact ⟨_, List.mem_map_of_mem hrow, (core_effectId hcore).trans hid,
        (core_orgId hcore).trans horg, effectAfter_approve hin⟩
  · rcases h.sessions with ⟨orgId, sessionId, hno, -⟩ | ⟨f, hsessions, hmoves⟩
    · cases hno
    · rw [hsessions]
      obtain ⟨⟨hid, horg⟩, -⟩ := ofSessionIn_iff.mp hwaits
      obtain ⟨hid', horg', hstate⟩ := hmoves s
      refine ⟨f s, List.mem_map_of_mem hs, hid'.trans hid, horg'.trans horg, ?_⟩
      rw [hstate, Query.sessionAfter, if_pos hwaits]

/-- In every run of one call after another whose statements take nothing away from
pending approvals, between calls, every pending approval of a session that has not ended
can be granted. -/
theorem grantable_of_keepsGrantable (hc : Reaches S (SequentialWith KeepsGrantable) c)
    (hidle : Idle c) {a : ApprovalRequest} (ha : a ∈ (dbOf c).approvals)
    (hpending : a.state = .pending) (hopen : SessionOpen (dbOf c) a) : Grantable c a := by
  intro actor approvedArgs o₁ o₂ o₃ hfault₁ hfault₂
  obtain ⟨row, hrow, heffect, hstate, -⟩ := effect_of_pending hc a ha hpending
  obtain ⟨s, hs, hsid, hsorg, hwaiting⟩ := awaiting_of_pending hc hidle ha hpending hopen
  have hconcerns := approval_row hc ha hrow heffect.symm
  have hfind : (dbOf c).approvals.find? (ofApproval a.orgId a.approvalRequestId) = some a :=
    (approvals_keyed hc).find?_eq ha (by simp) fun b hb => (ofApproval_iff.mp hb).1
  have hread : (Query.getApproval a.orgId a.approvalRequestId).tx S.backend c.next o₁ (dbOf c) =
      .ok (some a, dbOf c) := by
    simp only [Query.tx, getApproval, Tx.query_ok, hfind]
    exact ⟨trivial, trivial⟩
  have hfree : (Query.approve a.orgId a.approvalRequestId actor approvedArgs a).blocked c.next
      (dbOf c) = false := by
    rw [Query.blocked, lockedFor, no_timeouts_of_idle hc hidle]
    rfl
  obtain ⟨version, htx⟩ :=
    approveTx_of_pending hc hidle ha hpending hopen o₂.pick actor approvedArgs
  have happrove : (Query.approve a.orgId a.approvalRequestId actor approvedArgs a).tx S.backend
      c.next o₂ (dbOf c) = .ok (version, _) := htx
  -- the call reads the approval, runs its transaction and returns
  have hsolo : ∃ result w', solo (M := system S) c.next [o₁, o₂, o₃]
      ((system S).program (.approve a.orgId a.approvalRequestId actor approvedArgs)) c.store =
        some (.ok (.approved result), w') ∧ World.db w' =
          approvedDb S.backend a.orgId a.approvalRequestId actor approvedArgs a (dbOf c) := by
    have h₁ := Query.run_ok (w := c.store) hfault₁ rfl hread
    have h₂ := Query.run_ok (w := c.store) hfault₂ hfree happrove
    refine ⟨⟨a.effectId, a.sessionId, a.toolName, version, resolvedArgs approvedArgs a⟩,
      ⟨_, World.issued c.store, evict a.orgId a.sessionId (World.cache c.store),
        World.registry c.store⟩, ?_, rfl⟩
    refine Option.bind_eq_some_iff.mpr ⟨_, h₁, ?_⟩
    refine Option.bind_eq_some_iff.mpr ⟨_, h₂, ?_⟩
    rfl
  obtain ⟨result, w', hsolo, hdb⟩ := hsolo
  obtain ⟨c', hrun, rfl, hreturned⟩ := exists_run_of_solo (M := system S) hsolo
  have houtcome := Outcome.of_tx happrove
  rw [← hdb] at houtcome
  exact ⟨c', hrun, granted_of_outcome houtcome ha hpending hrow (ofEffectIn_iff.mpr
    ⟨⟨heffect, hconcerns.orgId⟩, by simp [hstate]⟩) hs (ofSessionIn_iff.mpr
    ⟨⟨hsid, hsorg⟩, by simp [hwaiting]⟩) ⟨result, hreturned⟩⟩

end KeepsGrantable

/-- An approval of the sample deployment can be granted after its call. -/
theorem grantable_after_intercept :
    ∃ c, ∃ a ∈ (dbOf c).approvals, Reaches (sample .postgres) (SequentialWith KeepsGrantable) c ∧
      Idle c ∧ a.state = .pending ∧ SessionOpen (dbOf c) a ∧ Grantable c a := by
  obtain ⟨c, hc, hidle, a, ha, hpending, hopen⟩ := exists_sample (SequentialWith KeepsGrantable)
    1780271999 (.irreversible "") awaitingCall
    (fun c => Idle c ∧ ∃ a ∈ (dbOf c).approvals, a.state = .pending ∧ SessionOpen (dbOf c) a)
    (by decide +kernel)
  exact ⟨c, a, ha, hc, hidle, hpending, hopen,
    grantable_of_keepsGrantable hc hidle ha hpending hopen⟩

/-- The call is sent again while its approval is pending, and finds its effect. -/
def repeatedCall : Schedule :=
  awaitingCall ++ [.start (.intercept (sampleCall 0))] ++ runs 1 7 ++ [.finish 1]

/-- Once its call was sent again, a pending approval cannot be granted. -/
theorem grantable_fails_after_replay :
    ∃ c, ∃ a ∈ (dbOf c).approvals, Reaches (sample .postgres) Sequential c ∧ Idle c ∧
      a.state = .pending ∧ SessionOpen (dbOf c) a ∧ ¬ Grantable c a := by
  obtain ⟨c, hc, hidle, a, ha, hpending, hopen, hnone⟩ := exists_sample Sequential 1780271999
    (.irreversible "") repeatedCall (fun c =>
      Idle c ∧ ∃ a ∈ (dbOf c).approvals, a.state = .pending ∧ SessionOpen (dbOf c) a ∧
        ∀ c' ∈ runGuarded unguarded c (alone c
          (.approve a.orgId a.approvalRequestId "human" none) [{}, {}, {}]),
          ¬ ∃ r, Returned c' c.next (.ok r)) (by decide +kernel)
  refine ⟨c, a, ha, hc, hidle, hpending, hopen, fun hgrantable => ?_⟩
  obtain ⟨c', hrun, hgranted⟩ := hgrantable "human" none {} {} {} rfl rfl
  obtain ⟨result, hreturned⟩ := hgranted.returned
  exact hnone c' hrun ⟨_, hreturned⟩

end UndoLog
