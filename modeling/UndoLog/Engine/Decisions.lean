import UndoLog.Engine.Answers

/-!
# Decisions and their effects

A decision works on the approval that its call has read before. An approval request
belongs to the call that inserted the effect it is about, so approval and effect agree
on the organisation and the session.
-/

namespace UndoLog

open Concurrent Machine Relational

variable {S : Setup} {guard : Guard (system S)} {c c' : State S}

/-! ## What a decision has read -/

variable {t : ℕ} {orgId : OrgId} {o : Oracle} {approval : ApprovalRequest} {actor : String}
  {row : EffectRow} {q : Query} {r : q.Ret} {approvedArgs : Option Json} {effectId : EffectId}
  {id : ApprovalRequestId} {a : ApprovalRequest} {op : Op} {past : History} {t' : ℕ}
  {ins : Insertion} {now : Time}

/-- Only `approve` approves, on the approval it has read. -/
theorem approve_of_pre (h : opPre S op past (.db (.approve orgId id actor approvedArgs approval))) :
    op = .approve orgId id actor approvedArgs ∧
      past = [⟨.db (.getApproval orgId id), .ok (some approval)⟩] := by
  cases op with
  | approve =>
    obtain ⟨rfl, rfl, rfl, rfl, hpast⟩ := h
    exact ⟨rfl, hpast⟩
  | processTimeouts | processPendingTimeouts => cases h.1
  | _ => cases h

theorem reject_of_pre (h : opPre S op past (.db (.reject orgId id actor approval))) :
    op = .reject orgId id actor ∧
      past = [⟨.db (.getApproval orgId id), .ok (some approval)⟩] := by
  cases op with
  | reject =>
    obtain ⟨rfl, rfl, rfl, hpast⟩ := h
    exact ⟨rfl, hpast⟩
  | processTimeouts | processPendingTimeouts => cases h.1
  | _ => cases h

/-- What an approving or rejecting statement decides: for whom, on which approval request,
and what its call has read of it. -/
def Query.decides : Query → Option (OrgId × ApprovalRequestId × ApprovalRequest)
  | .approve orgId id _ _ approval | .reject orgId id _ approval => some (orgId, id, approval)
  | _ => none

theorem past_of_decides (hpre : opPre S op past (.db q))
    (hq : q.decides = some (orgId, id, approval)) :
    past = [⟨.db (.getApproval orgId id), .ok (some approval)⟩] := by
  cases q with
  | approve =>
    cases hq
    exact (approve_of_pre hpre).2
  | reject =>
    cases hq
    exact (reject_of_pre hpre).2
  | _ => cases hq

/-- A decision works on the approval of the table. -/
theorem QueryStep.decides_core (hc : Reaches S guard c) (hquery : QueryStep c c' t o q r)
    (hq : q.decides = some (orgId, id, approval)) (ha : a ∈ (dbOf c).approvals)
    (hid : a.approvalRequestId = id) : a.core = approval.core ∧ a.orgId = orgId := by
  obtain ⟨op, -, hpre⟩ := hquery.pre hc
  have hread : Succeeded c t (.getApproval orgId id) (some approval) := by
    rw [succeeded_iff_done, Done, past_of_decides hpre hq]
    exact List.mem_singleton_self _
  obtain ⟨a', ha', hcore, hid', horg⟩ := approval_read hc hread
  obtain rfl := (approvals_keyed hc).eq ha' ha (hid'.trans hid.symm)
  exact ⟨hcore, horg⟩

/-- A decision resolves its approval and no other one. -/
theorem Query.resolves_of_decides (hq : q.decides = some (orgId, id, approval)) (b : Backend)
    (t : ℕ) (db : Db) : q.resolves b t db = [(orgId, id)] := by
  cases q with
  | approve | reject =>
    cases hq
    rfl
  | _ => cases hq

/-- A decision meets a pending approval and a pending effect. -/
theorem QueryStep.decides_rows (hquery : QueryStep c c' t o q r)
    (hq : q.decides = some (orgId, id, approval)) :
    (∃ a ∈ (dbOf c).approvals, ofPendingApproval orgId id a = true) ∧
      ∃ row ∈ (dbOf c).effects, ofEffectIn orgId approval.effectId [.pending] row = true := by
  cases q with
  | approve =>
    cases hq
    obtain ⟨happroval, heffect, -⟩ := approveTx_ok hquery.tx
    exact ⟨exists_of_countP_ne_zero happroval, exists_of_countP_ne_zero heffect⟩
  | reject =>
    cases hq
    obtain ⟨happroval, heffect, -⟩ := rejectTx_ok.mp hquery.tx
    exact ⟨exists_of_countP_ne_zero happroval, exists_of_countP_ne_zero heffect⟩
  | _ => cases hq

/-- The approval that a decision meets is the one its call has read. -/
theorem QueryStep.decides_met (hc : Reaches S guard c) (hquery : QueryStep c c' t o q r)
    (hq : q.decides = some (orgId, id, approval)) : ∃ a ∈ (dbOf c).approvals,
      a.core = approval.core ∧ ofPendingApproval orgId id a = true ∧
      (a.orgId, a.approvalRequestId) ∈ q.resolves S.backend t (dbOf c) := by
  obtain ⟨⟨a, ha, hpending⟩, -⟩ := hquery.decides_rows hq
  obtain ⟨⟨hid, horg⟩, -⟩ := ofPendingApproval_iff.mp hpending
  refine ⟨a, ha, (hquery.decides_core hc hq ha hid).1, hpending, ?_⟩
  rw [Query.resolves_of_decides hq, hid, horg]
  exact List.mem_singleton_self _

/-! ## Approvals and their effects -/

/-- The row of the effect that a created approval is about was inserted by the same
call. -/
theorem CreatedBy.insertion (hc : Reaches S guard c) {req : ApprovalRequest} {call : ToolCall}
    {inserted : Bool} (hcreated : CreatedBy c t req call inserted) (hins : (t', ins) ∈ insertions c)
    (heffect : ins.effectId = req.effectId) :
    t' = t ∧ inserted = true ∧ ins.call = call ∧ ins.tier = .irreversible := by
  obtain ⟨-, -, hdraw⟩ := insertion_call hc hins
  rw [heffect] at hdraw
  obtain rfl := draw_unique hc hdraw hcreated.drawnEffect
  obtain ⟨x, hx, hkind, hxins⟩ := insertion_mem_past hins
  obtain rfl := insert_once hc hx (succeeded_iff_done.mp hcreated.insert) hkind rfl
  cases inserted with
  | false => cases hxins
  | true =>
    obtain rfl := Option.some.inj hxins
    exact ⟨rfl, rfl, rfl, rfl⟩

/-- An approval and the row of its effect belong together. -/
structure Concerns (a : ApprovalRequest) (row : EffectRow) : Prop where
  orgId : row.orgId = a.orgId
  sessionId : row.sessionId = a.sessionId
  tier : row.tier = .irreversible

theorem approval_row (hc : Reaches S guard c) (ha : a ∈ (dbOf c).approvals)
    (hrow : row ∈ (dbOf c).effects) (heffect : a.effectId = row.effectId) : Concerns a row := by
  obtain ⟨t, req, hreq, hof⟩ := creation_of_approval hc ha
  obtain ⟨t', ins, hins, hofRow⟩ := insertion_of_row hc hrow
  have hsame : ins.effectId = req.effectId :=
    hofRow.effectId.symm.trans (heffect.symm.trans hof.effectId)
  obtain ⟨call, inserted, hcreated⟩ := creation_createdBy hc hreq
  obtain ⟨-, -, rfl, htier⟩ := hcreated.insertion hc hins hsame
  obtain ⟨reason, now, -, hreq'⟩ := hcreated.request
  have horg : req.orgId = ins.call.orgId := by rw [hreq']; rfl
  have hsession : req.sessionId = ins.call.sessionId := by rw [hreq']; rfl
  exact ⟨hofRow.orgId.trans (horg.symm.trans hof.orgId.symm),
    hofRow.sessionId.trans (hsession.symm.trans hof.sessionId.symm), hofRow.tier.trans htier⟩

/-- A call links an effect to the approval request that it has created for it. -/
theorem approval_of_link (hc : Reaches S guard c)
    (hquery : QueryStep c c' t o (.setApprovalRequestId orgId effectId id) ()) :
    ∃ a ∈ (dbOf c).approvals, a.effectId = effectId ∧ a.approvalRequestId = id ∧
      a.orgId = orgId := by
  obtain ⟨op, -, hpre⟩ := hquery.pre hc
  obtain ⟨call, rfl, rfl, reason, now, hdone⟩ := intercept_of_pre hpre rfl
  obtain ⟨a, ha, hof⟩ :=
    approval_of_creation hc (creation_of_succeeded (succeeded_iff_done.mpr hdone))
  exact ⟨a, ha, hof.effectId, hof.approvalRequestId, hof.orgId⟩

/-- An effect and the call that has registered an undo entry for it belong together. -/
structure UndoneBy (b : Backend) (row : EffectRow) (call : ToolCall) : Prop where
  orgId : row.orgId = call.orgId
  sessionId : row.sessionId = call.sessionId
  stepIndex : row.stepIndex = stepColumn b call.stepIndex
  tier : row.tier = .compensable

section

variable (hc : Reaches S guard c)
include hc

/-- An effect is marked as executing by the call that inserted it as a compensable one,
after that call has pushed its undo entry. -/
theorem QueryStep.executing_row (hquery : QueryStep c c' t o (.setExecuting orgId effectId) ())
    (hrow : row ∈ (dbOf c).effects) (heffect : row.effectId = effectId) :
    ∃ call compensation undoId, (t, ⟨call, effectId, compensation, undoId⟩) ∈ pushes c ∧
      UndoneBy S.backend row call := by
  obtain ⟨op, hstart, hpre⟩ := hquery.pre hc
  obtain ⟨call, rfl, -, compensation, undoId, hpush, inserted, hdone, -⟩ :=
    intercept_of_pre hpre rfl
  obtain ⟨call', before, -, hbefore, -, -, hdrew, -⟩ :=
    (succeeded_iff_done.mpr hdone).intercept_pre hc rfl
  obtain ⟨t', ins, hins, hof⟩ := insertion_of_row hc hrow
  obtain ⟨-, -, hdraw⟩ := insertion_call hc hins
  rw [← hof.effectId, heffect] at hdraw
  obtain rfl := draw_unique hc hdraw (draw_of_drew (hbefore.subset hdrew))
  -- the insert of the row is the insert of the call
  obtain ⟨x, hx, hkind, hxins⟩ := insertion_mem_past hins
  obtain rfl := insert_once hc hx hdone hkind rfl
  cases inserted with
  | false => cases hxins
  | true =>
    obtain rfl := Option.some.inj hxins
    have hpushed : Succeeded c t' (.insertUndo call effectId compensation undoId) () :=
      succeeded_iff_done.mpr hpush
    exact ⟨call, compensation, undoId, (mem_collect (M := system S)).mpr ⟨_, _, hpushed, rfl⟩,
      hof.orgId, hof.sessionId, hof.stepIndex, hof.tier⟩

/-- An irreversible effect is not marked as executing. -/
theorem executing_compensable (hquery : QueryStep c c' t o (.setExecuting orgId effectId) ())
    (hrow : row ∈ (dbOf c).effects) (heffect : row.effectId = effectId) :
    row.tier = .compensable := by
  obtain ⟨call, compensation, undoId, -, hundone⟩ := hquery.executing_row hc hrow heffect
  exact hundone.tier

theorem not_approved_of_compensable {version : String}
    (hquery : QueryStep c c' t o (.approve orgId id actor approvedArgs approval) version)
    (hrow : row ∈ (dbOf c).effects) (htier : row.tier = .compensable) :
    row.effectId ≠ approval.effectId := by
  intro heffect
  obtain ⟨a, ha, hcore, -⟩ := hquery.decides_met hc rfl
  obtain ⟨-, -, -, haeffect, -⟩ := core_approval hcore
  have hconcerns := approval_row hc ha hrow (haeffect.trans heffect.symm)
  rw [hconcerns.tier] at htier
  cases htier

theorem no_approval_before_insertion (hquery : QueryStep c c' t o q r)
    (hins : insertionOf ⟨.db q, .ok r⟩ = some ins) (ha : a ∈ (dbOf c).approvals) :
    a.effectId ≠ ins.effectId := by
  intro heffect
  obtain ⟨t', req, hreq, hof⟩ := creation_of_approval hc ha
  obtain ⟨call, inserted, hcreated⟩ := creation_createdBy hc hreq
  obtain ⟨hdrawn, hfree⟩ := hquery.insertion_pre hc hins
  have hdrawn' := hcreated.drawnEffect
  rw [← hof.effectId, heffect] at hdrawn'
  obtain rfl := draw_unique hc hdrawn' hdrawn
  cases hfree _ (succeeded_iff_done.mp hcreated.insert)

end

theorem effectAfter_approve (h : ofEffectIn orgId approval.effectId [.pending] row = true) :
    ((Query.approve orgId id actor approvedArgs approval).effectAfter now row).state =
      .approved := by
  obtain ⟨hid, horg⟩ := (ofEffectIn_iff.mp h).1
  simp only [Query.effectAfter, updateRow_of_pos h]
  split
  · simp [updateRow, ofEffectIn, ofEffect, hid, horg]
  · rfl

/-! ## Decisions are final -/

/-- The approval that a statement approves or rejects. -/
def Query.decision : Query → Option ApprovalRequestId
  | .approve _ id _ _ _ | .reject _ id _ _ => some id
  | _ => none

/-- The approval is not pending any more. -/
def ApprovalResolved (c : State S) (id : ApprovalRequestId) : Prop :=
  ∃ a ∈ (dbOf c).approvals, a.approvalRequestId = id ∧ a.state ≠ .pending

theorem ApprovalResolved.step {choice : Choice (system S)}
    (h : ApprovalResolved c id) (htrans : Transition c choice c') : ApprovalResolved c' id := by
  obtain ⟨a, ha, hid, hstate⟩ := h
  obtain ⟨a', ha', hstep⟩ := approval_step htrans ha
  obtain ⟨hid', -⟩ := core_approval hstep.core
  exact ⟨a', ha', hid'.trans hid, hstep.not_pending hstate⟩

theorem QueryStep.decision_pending (hquery : QueryStep c c' t o q r)
    (hdecides : q.decision = some id) :
    ∃ a ∈ (dbOf c).approvals, a.approvalRequestId = id ∧ a.state = .pending ∧
      (a.orgId, a.approvalRequestId) ∈ q.resolves S.backend t (dbOf c) := by
  cases q with
  | approve | reject =>
    obtain rfl := Option.some.inj hdecides
    obtain ⟨⟨a, ha, hpending⟩, -⟩ := hquery.decides_rows rfl
    obtain ⟨⟨hid, rfl⟩, hstate⟩ := ofPendingApproval_iff.mp hpending
    exact ⟨a, ha, hid, hstate, by simp [Query.resolves, hid]⟩
  | _ => cases hdecides

theorem QueryStep.decision_resolves (hquery : QueryStep c c' t o q r)
    (hdecides : q.decision = some id) : ApprovalResolved c' id := by
  obtain ⟨a, ha, hid, -, hmem⟩ := hquery.decision_pending hdecides
  obtain ⟨a', ha', hcore, hstate⟩ := hquery.approval_resolved ha hmem
  obtain ⟨hid', -⟩ := core_approval hcore
  exact ⟨a', ha', hid'.trans hid, hstate⟩

theorem QueryStep.not_resolved (hc : Reaches S guard c) (hquery : QueryStep c c' t o q r)
    (hdecides : q.decision = some id) : ¬ ApprovalResolved c id := by
  rintro ⟨a, ha, hid, hstate⟩
  obtain ⟨b, hb, hbid, hpending, -⟩ := hquery.decision_pending hdecides
  rw [(approvals_keyed hc).eq hb ha (hbid.trans hid.symm)] at hpending
  exact hstate hpending

theorem resolved_of_decided (hc : Reaches S guard c) (h : Succeeded c t q r)
    (hdecides : q.decision = some id) : ApprovalResolved c id := by
  refine h.since hc ?_ ?_
  · intro c c' o _ _ _ hquery
    exact hquery.decision_resolves hdecides
  · intro c choice c' _ _ htrans hresolved
    exact hresolved.step htrans

theorem decided_once (hc : Reaches S guard c) {q' : Query} {r' : q'.Ret} (h : Succeeded c t q r)
    (h' : Succeeded c t' q' r') (hq : q.decision = some id) (hq' : q'.decision = some id) :
    t = t' ∧ q = q' := by
  refine hc.invariant (P := fun c => Succeeded c t q r → Succeeded c t' q' r' → t = t' ∧ q = q')
    ?_ ?_ h h'
  · intro w _ hran
    cases hran
  · intro c choice c' hc ih _ htrans hran hran'
    -- the later of two decisions would have met a resolved approval
    rcases hran.step_cases htrans with hold | ⟨o, hquery⟩ <;>
      rcases hran'.step_cases htrans with hold' | ⟨o', hquery'⟩
    · exact ih hold hold'
    · exact absurd (resolved_of_decided hc hold hq) (hquery'.not_resolved hc hq')
    · exact absurd (resolved_of_decided hc hold' hq') (hquery.not_resolved hc hq)
    · cases List.append_inj_right (hquery.trace.symm.trans hquery'.trace) rfl
      exact ⟨rfl, rfl⟩

end UndoLog
