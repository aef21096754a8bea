import UndoLog.Engine.Decisions
import UndoLog.Engine.Schedule

/-!
# The human gate

An irreversible call is committed only after a human has approved it. Its effect
never becomes executing: the only way to a commit leads through the transaction
of `approve`, on the approval request that was created for the effect.
-/

namespace UndoLog

open Concurrent Machine Relational

variable {S : Setup} {guard : Guard (system S)} {c c' : State S}

/-- An `approve` call has committed its transaction on an approval request. -/
def ApprovedByHuman (c : State S) (a : ApprovalRequest) : Prop :=
  ∃ t actor approvedArgs approval version,
    Started c t (.approve a.orgId a.approvalRequestId actor approvedArgs) ∧
    Succeeded c t (.approve a.orgId a.approvalRequestId actor approvedArgs approval) version

/-- The approval request of an effect, the one the effect is linked to once it is
linked, was approved. -/
def Gated (c : State S) (row : EffectRow) : Prop :=
  ∃ a ∈ (dbOf c).approvals, a.effectId = row.effectId ∧ a.orgId = row.orgId ∧
    (∀ id, row.approvalRequestId = some id → id = a.approvalRequestId) ∧ ApprovedByHuman c a

/-! ## Links -/

theorem linked_approval (hc : Reaches S guard c) :
    ∀ row ∈ (dbOf c).effects, ∀ id, row.approvalRequestId = some id →
      ∃ a ∈ (dbOf c).approvals, a.approvalRequestId = id ∧ a.effectId = row.effectId := by
  refine rows_invariant hc (fun c h row hrow => absurd hrow (h.effects row)) ?_
  intro c choice c' hc ih _ htrans row' hrow' id hid
  have hstay : ∀ effectId, (∃ a ∈ (dbOf c).approvals, a.approvalRequestId = id ∧
      a.effectId = effectId) → ∃ a ∈ (dbOf c').approvals, a.approvalRequestId = id ∧
      a.effectId = effectId := by
    rintro effectId ⟨a, ha, rfl, rfl⟩
    obtain ⟨a', ha', hcore⟩ := approval_stays htrans ha
    obtain ⟨hid', -, -, heffect', -⟩ := core_approval hcore
    exact ⟨a', ha', hid', heffect'⟩
  rcases effect_origin htrans hrow' with ⟨row, hrow, hstep⟩ | ⟨t, o, q, r, ins, -, -, -, rfl⟩
  · rw [core_effectId hstep.core]
    refine hstay _ ?_
    rcases hstep with rfl | ⟨t, o, q, r, -, hquery, hchange⟩
    · exact ih row' hrow id hid
    · cases hchange with
      | linked hof =>
        cases hid
        obtain ⟨a, ha, heffect, haid, -⟩ := approval_of_link hc hquery
        exact ⟨a, ha, haid, heffect.trans (ofEffect_iff.mp hof).1.symm⟩
      | _ => exact ih _ hrow id hid
  · cases hid

/-! ## The gate -/

theorem approvedByHuman_of_step (hc : Reaches S guard c) {choice : Choice (system S)} {t : ℕ}
    {o : Oracle} {orgId : OrgId} {id : ApprovalRequestId} {actor : String}
    {approvedArgs : Option Json} {approval : ApprovalRequest} {version : String}
    (htrans : Transition c choice c')
    (hquery : QueryStep c c' t o (.approve orgId id actor approvedArgs approval) version) :
    ∃ a ∈ (dbOf c').approvals, a.effectId = approval.effectId ∧ a.orgId = orgId ∧
      ApprovedByHuman c' a := by
  obtain ⟨op, hstart, hpre⟩ := hquery.pre hc
  obtain ⟨rfl, hpast⟩ := approve_of_pre hpre
  have hread : Succeeded c t (.getApproval orgId id) (some approval) := by
    rw [succeeded_iff_done, Done, hpast]
    exact List.mem_singleton_self _
  obtain ⟨a, ha, hcore, rfl, rfl⟩ := approval_read hc hread
  obtain ⟨a', ha', hcore'⟩ := approval_stays htrans ha
  obtain ⟨-, -, -, heffect, -⟩ := core_approval (hcore'.trans hcore)
  obtain ⟨hid, horg, -⟩ := core_approval hcore'
  refine ⟨a', ha', heffect, horg, t, actor, approvedArgs, approval, version, ?_, ?_⟩
  · rw [hid, horg]
    exact htrans.subset hstart
  · rw [hid, horg, Succeeded, hquery.trace]
    simp

theorem ApprovedByHuman.step {choice : Choice (system S)} {a a' : ApprovalRequest}
    (h : ApprovedByHuman c a) (htrans : Transition c choice c') (hcore : a'.core = a.core) :
    ApprovedByHuman c' a' := by
  obtain ⟨t, actor, approvedArgs, approval, version, hstart, hran⟩ := h
  obtain ⟨hid, horg, -⟩ := core_approval hcore
  refine ⟨t, actor, approvedArgs, approval, version, ?_, ?_⟩
  · rw [hid, horg]
    exact htrans.subset hstart
  · rw [hid, horg]
    exact htrans.subset hran

/-- An irreversible effect that is executing, approved or committed has an approval
request that was approved. -/
theorem approved_of_past_gate (hc : Reaches S guard c) :
    ∀ row ∈ (dbOf c).effects, row.state ∈ [.executing, .approved, .committed] →
      row.tier = .irreversible →
      ∃ a ∈ (dbOf c).approvals, a.effectId = row.effectId ∧ a.orgId = row.orgId ∧
        ApprovedByHuman c a := by
  intro row hrow hstate
  refine underway_invariant hc ?_ ?_ ?_ row hrow hstate
  · -- nothing is lost once the gate is passed
    intro c choice c' row row' h htrans hcore htier
    obtain ⟨a, ha, heffect, horg, hhuman⟩ := h ((core_tier hcore).symm.trans htier)
    obtain ⟨a', ha', hcore'⟩ := approval_stays htrans ha
    obtain ⟨-, horg', -, heffect', -⟩ := core_approval hcore'
    rw [core_effectId hcore, core_orgId hcore]
    exact ⟨a', ha', heffect'.trans heffect, horg'.trans horg, hhuman.step htrans hcore'⟩
  · intro c c' t o row row' hc hrow hquery hcore htier
    rw [core_tier hcore, executing_compensable hc hquery hrow rfl] at htier
    cases htier
  · intro c choice c' t o row row' id actor args approval version hc hrow heffect htrans hquery
      hcore _
    rw [core_effectId hcore, core_orgId hcore, heffect]
    exact approvedByHuman_of_step hc htrans hquery

/-- In every run, an irreversible effect is committed only after its approval request
was approved. -/
theorem committed_gated (hc : Reaches S unguarded c) {row : EffectRow}
    (hrow : row ∈ (dbOf c).effects) (htier : row.tier = .irreversible)
    (hstate : row.state = .committed) : Gated c row := by
  obtain ⟨a, ha, heffect, horg, hhuman⟩ :=
    approved_of_past_gate hc row hrow (by simp [hstate]) htier
  refine ⟨a, ha, heffect, horg, fun id hid => ?_, hhuman⟩
  obtain ⟨a', ha', rfl, heffect'⟩ := linked_approval hc row hrow id hid
  rw [approval_eq_of_effectId hc ha' ha (heffect'.trans heffect.symm)]

/-- An irreversible call is approved and committed. -/
def approvedThenCommitted : Schedule :=
  awaitingCall ++ [.start (.approve sampleOrg ⟨11⟩ "human" none)] ++ runs 1 3 ++
    [.finish 1, .start sampleCommit] ++ runs 2 1 ++ [.finish 2]

/-- The committed effect of the call has passed the gate. -/
theorem approvedThenCommitted_gated :
    ∃ c row, Reaches (sample .postgres) unguarded c ∧ row ∈ (dbOf c).effects ∧
      row.tier = .irreversible ∧ row.state = .committed ∧ Gated c row := by
  obtain ⟨c, hc, row, hrow, htier, hstate⟩ := exists_sample unguarded 1780271999 (.irreversible "")
    approvedThenCommitted
    (fun c => ∃ row ∈ (dbOf c).effects, row.tier = .irreversible ∧ row.state = .committed)
    (by decide +kernel)
  exact ⟨c, row, hc, hrow, htier, hstate, committed_gated hc hrow htier hstate⟩

end UndoLog
