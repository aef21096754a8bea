import UndoLog.Engine.Decisions

/-!
# Settling an effect

An effect is released for execution once: a compensable one when it is marked as executing,
an irreversible one when its approval request is resolved. `commit` and `fail` settle an
effect that was released, so every effect is settled at most once.
-/

namespace UndoLog

open Concurrent Machine Relational

variable {S : Setup} {guard : Guard (system S)} {c c' : State S}

/-! ## Release -/

/-- The effect was released for execution: it was marked as executing, or its approval
request was resolved. -/
def Released (c : State S) (row : EffectRow) : Prop :=
  (row.tier = .compensable ∧ ∃ t orgId, Succeeded c t (.setExecuting orgId row.effectId) ()) ∨
  ∃ a ∈ (dbOf c).approvals, a.effectId = row.effectId ∧ a.state ≠ .pending

variable {orgId : OrgId} {row : EffectRow} {t : ℕ} {effectId : EffectId} {o : Oracle}
    {choice : Choice (system S)}

/-- A released effect stays released. -/
theorem Released.step {row' : EffectRow} (h : Released c row)
    (htrans : Transition c choice c') (hcore : row'.core = row.core) : Released c' row' := by
  rcases h with ⟨htier, t, orgId, hran⟩ | ⟨a, ha, heffect, hstate⟩
  · left
    rw [core_tier hcore, core_effectId hcore]
    exact ⟨htier, t, orgId, htrans.subset hran⟩
  · right
    obtain ⟨a', ha', hstep⟩ := approval_step htrans ha
    obtain ⟨-, -, -, heffect', -⟩ := core_approval hstep.core
    refine ⟨a', ha', ?_, hstep.not_pending hstate⟩
    rw [heffect', heffect, core_effectId hcore]

section

variable (hc : Reaches S guard c)
include hc

theorem released_of_state (row : EffectRow) (hrow : row ∈ (dbOf c).effects)
    (hstate : row.state ∈ [.executing, .approved]) : Released c row := by
  refine underway_invariant hc Released.step ?_ ?_ row hrow
    (List.mem_append_left [EffectState.committed] hstate)
  · intro c c' t o row row' hc hrow hquery hcore
    rw [Released, core_tier hcore, core_effectId hcore]
    exact .inl ⟨executing_compensable hc hquery hrow rfl, t, row.orgId, hquery.ran⟩
  · intro c choice c' t o row row' id actor args approval version hc _ heffect _ hquery hrow'
    obtain ⟨a, ha, hcore, -, hmem⟩ := hquery.decides_met hc rfl
    obtain ⟨-, -, -, haeffect, -⟩ := core_approval hcore
    obtain ⟨a', ha', hcore', hresolved⟩ := hquery.approval_resolved ha hmem
    obtain ⟨-, -, -, heffect', -⟩ := core_approval hcore'
    rw [Released, core_effectId hrow']
    exact .inr ⟨a', ha', heffect'.trans (haeffect.trans heffect.symm), hresolved⟩

/-- Only the call that has drawn the identifier of an effect marks it as executing. -/
theorem drawn_of_executing {call : ToolCall} {past : History} (hpast : past <+: pastOf t c)
    (hpre : interceptPre S call past (.db (.setExecuting orgId effectId))) :
    (t, effectId.uuid) ∈ draws c := by
  obtain ⟨-, compensation, undoId, -, inserted, hdone, -⟩ := hpre
  have hran : Succeeded c t (.insertCompensable call (call.signature S.hash) effectId
      compensation) inserted := succeeded_iff_done.mpr (hpast.subset hdone)
  obtain ⟨call', before, -, hbefore, -, -, hdrew, -⟩ := hran.intercept_pre hc rfl
  exact draw_of_drew (hbefore.subset hdrew)

theorem not_released_of_executing
    (hquery : QueryStep c c' t o (.setExecuting orgId row.effectId) ())
    (hrow : row ∈ (dbOf c).effects) : ¬ Released c row := by
  obtain ⟨op, -, hpre⟩ := hquery.pre hc
  obtain ⟨call, -, hpre⟩ := intercept_of_pre hpre rfl
  rintro (⟨-, t', orgId', hran⟩ | ⟨a, ha, heffect, -⟩)
  · obtain ⟨call', before, -, hbefore, hpre'⟩ := hran.intercept_pre hc rfl
    have hdrawn := drawn_of_executing hc List.prefix_rfl hpre
    obtain rfl := draw_unique hc (drawn_of_executing hc hbefore hpre') hdrawn
    obtain ⟨-, compensation, undoId, -, inserted, -, -, hfree⟩ := hpre
    cases hfree _ (succeeded_iff_done.mp hran)
  · have htier := executing_compensable hc hquery hrow rfl
    rw [(approval_row hc ha hrow heffect).tier] at htier
    cases htier

theorem not_released_of_approve {id : ApprovalRequestId} {actor : String}
    {approvedArgs : Option Json} {approval : ApprovalRequest} {version : String}
    (hquery : QueryStep c c' t o (.approve orgId id actor approvedArgs approval) version)
    (hrow : row ∈ (dbOf c).effects) (heffect : row.effectId = approval.effectId) :
    ¬ Released c row := by
  obtain ⟨b, hb, hcore, hpending, -⟩ := hquery.decides_met hc rfl
  obtain ⟨-, -, -, hbeffect, -⟩ := core_approval hcore
  rintro (⟨htier, -⟩ | ⟨a, ha, haeffect, hstate⟩)
  · exact not_approved_of_compensable hc hquery hrow htier heffect
  · have hsame : a.effectId = b.effectId := haeffect.trans (heffect.trans hbeffect.symm)
    rw [approval_eq_of_effectId hc ha hb hsame] at hstate
    exact hstate (ofPendingApproval_iff.mp hpending).2

end

/-! ## Settlement -/

/-- The effect was released, and it neither runs nor may run. -/
structure Settled (c : State S) (row : EffectRow) : Prop where
  released : Released c row
  state : row.state ∉ [.executing, .approved]

/-- A settled effect stays settled and keeps its result. -/
theorem Settled.step (hc : Reaches S guard c)
    (h : Settled c row) (hrow : row ∈ (dbOf c).effects) (htrans : Transition c choice c') :
    ∃ row' ∈ (dbOf c').effects, row'.core = row.core ∧ Settled c' row' ∧
      row'.resultSnapshot = row.resultSnapshot := by
  obtain ⟨row', hrow', hstep⟩ := effect_step htrans hrow
  have hreleased := h.released.step htrans hstep.core
  refine ⟨row', hrow', hstep.core, ?_⟩
  rcases hstep with rfl | ⟨t, o, q, r, -, hquery, hchange⟩
  · exact ⟨⟨hreleased, h.state⟩, rfl⟩
  · cases hchange with
    | same | linked => exact ⟨⟨hreleased, h.state⟩, rfl⟩
    | replayed | rejected | compensationFailed => exact ⟨⟨hreleased, by simp⟩, rfl⟩
    | committed hin | failed hin => exact absurd (ofEffectIn_iff.mp hin).2 h.state
    | executing hin =>
      obtain ⟨⟨rfl, rfl⟩, -⟩ := ofEffectIn_iff.mp hin
      exact absurd h.released (not_released_of_executing hc hquery hrow)
    | approved args hin =>
      obtain ⟨⟨heffect, -⟩, -⟩ := ofEffectIn_iff.mp hin
      exact absurd h.released (not_released_of_approve hc hquery hrow heffect)

/-- A row that a settling update has met is settled once its state has changed. -/
theorem settled_of_met (hc : Reaches S guard c) (htrans : Transition c choice c') {row' : EffectRow}
    (hrow : row ∈ (dbOf c).effects)
    (hin : ofEffectIn orgId effectId [.executing, .approved] row = true)
    (hcore : row'.core = row.core) (hstate : row'.state ∉ [.executing, .approved]) :
    Settled c' row' :=
  ⟨(released_of_state hc row hrow (ofEffectIn_iff.mp hin).2).step htrans hcore, hstate⟩

/-- A settling update that reports a row met one. -/
theorem met_of_rows {p : EffectRow → Bool} {db db₁ db' : Db} {met : Bool} {rows : ℕ × Bool}
    (h : (Except.ok ((db.effects.countP p, met), db₁) : Except UndoLogError _) = .ok (rows, db'))
    (hmet : 0 < rows.1) : ∃ row ∈ db.effects, p row = true := by
  obtain ⟨hrows, -⟩ := Prod.mk.inj (Except.ok.inj h)
  subst hrows
  exact List.countP_pos_iff.mp hmet

/-- The effect that a statement commits or fails. -/
def Query.reports : Query → Option (OrgId × EffectId)
  | .commitRows orgId effectId _ | .failRows orgId effectId _ => some (orgId, effectId)
  | _ => none

/-- Whether an event is a `commit` or a `fail` that has changed the effect. -/
def settlesEffect (effectId : EffectId) : SystemEvent S → Bool
  | .ran _ (.db (.commitRows _ e _)) (.ok rows)
  | .ran _ (.db (.failRows _ e _)) (.ok rows) => e = effectId ∧ 0 < rows.1
  | _ => false

/-- How often an effect was changed by `commit` or `fail`. -/
def settlements (c : State S) (effectId : EffectId) : ℕ := c.trace.countP (settlesEffect effectId)

theorem QueryStep.settles {q : Query} {a : q.Ret} (hquery : QueryStep c c' t o q a)
    (hsettles : settlesEffect (S := S) effectId (.ran t (.db q) (.ok a)) = true) :
    ∃ row ∈ (dbOf c).effects, q.reports = some (row.orgId, effectId) ∧ row.effectId = effectId ∧
      row.state ∈ [.executing, .approved] ∧ ∃ row' ∈ (dbOf c').effects, row'.core = row.core ∧
        row'.state ∉ [.executing, .approved] := by
  have hafter : ∀ row ∈ (dbOf c).effects, (q.effectAfter (dbOf c).now row).state ∉
      [EffectState.executing, .approved] → ∃ row' ∈ (dbOf c').effects, row'.core = row.core ∧
        row'.state ∉ [EffectState.executing, .approved] := fun row hrow hstate =>
    ⟨_, hquery.effect_after hrow, (q.effectChange _ row).core, hstate⟩
  cases q with
  | commitRows orgId | failRows orgId =>
    obtain ⟨rfl, hmet⟩ := of_decide_eq_true hsettles
    obtain ⟨row, hrow, hin⟩ := met_of_rows hquery.tx hmet
    obtain ⟨⟨hid, rfl⟩, hstate⟩ := ofEffectIn_iff.mp hin
    refine ⟨row, hrow, rfl, hid, hstate, hafter row hrow ?_⟩
    rw [Query.effectAfter, updateRow_of_pos hin]
    simp
  | _ => cases hsettles

theorem settled_once (hc : Reaches S guard c) (effectId : EffectId) : settlements c effectId = 0 ∨
      settlements c effectId = 1 ∧ ∃ row ∈
    (dbOf c).effects, row.effectId = effectId ∧ Settled c row := by
  refine hc.invariant (P := fun c => settlements c effectId = 0 ∨ settlements c effectId = 1 ∧
    ∃ row ∈ (dbOf c).effects, row.effectId = effectId ∧ Settled c row) ?_ ?_
  · intro w _
    exact .inl rfl
  · intro c choice c' hc ih _ htrans
    -- unless the step settles the effect, the count and the row stay as they are
    have hkeep : settlements c' effectId = settlements c effectId →
        settlements c' effectId = 0 ∨ settlements c' effectId = 1 ∧
          ∃ row ∈ (dbOf c').effects, row.effectId = effectId ∧ Settled c' row := by
      intro hcount
      rw [hcount]
      refine ih.imp_right fun ⟨hone, row, hrow, hid, hsettled⟩ => ⟨hone, ?_⟩
      obtain ⟨row', hrow', hcore, hsettled', -⟩ := hsettled.step hc hrow htrans
      exact ⟨row', hrow', (core_effectId hcore).trans hid, hsettled'⟩
    rcases step_cases htrans with ⟨event, hquiet⟩ | ⟨t, o, q, a, -, hquery⟩
    · refine hkeep ?_
      have hno : settlesEffect effectId event = false := by
        have hsuccess := hquiet.quiet
        unfold settlesEffect
        split
        · cases hsuccess
        · cases hsuccess
        · rfl
      rw [settlements, hquiet.trace, List.countP_append, List.countP_singleton, hno]
      simp [settlements]
    · cases hsettles : settlesEffect (S := S) effectId (.ran t (.db q) (.ok a)) with
      | false =>
        refine hkeep ?_
        rw [settlements, hquery.trace, List.countP_append, List.countP_singleton, hsettles]
        simp [settlements]
      | true =>
        obtain ⟨row, hrow, -, rfl, hstate, row', hrow', hcore, hstate'⟩ := hquery.settles hsettles
        have hreleased := (released_of_state hc row hrow hstate).step htrans hcore
        rcases ih with hzero | ⟨-, other, hother, hid, hsettled⟩
        · refine .inr ⟨?_, row', hrow', core_effectId hcore, hreleased, hstate'⟩
          rw [settlements, hquery.trace, List.countP_append, List.countP_singleton, hsettles]
          change settlements c row.effectId + 1 = 1
          omega
        · rw [(effects_keyed hc).eq hother hrow hid] at hsettled
          exact absurd hstate hsettled.state

end UndoLog
