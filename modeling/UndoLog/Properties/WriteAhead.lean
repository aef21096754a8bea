import UndoLog.Engine.UndoStack
import UndoLog.Engine.Schedule

/-!
# Undo entries before execution

A compensable call registers its undo entry before its effect is marked as executing.
Whatever else runs at the same time and wherever calls stop, an effect that is executing
or committed has the entry that was there when it started to execute.
-/

namespace UndoLog

open Concurrent Machine Relational

variable {S : Setup} {guard : Guard (system S)} {c c' : State S}

/-- The effect is executing after a step and was not before. -/
def EntersExecuting (effectId : EffectId) (d d' : State S) : Prop :=
  (∃ row ∈ (dbOf d).effects, row.effectId = effectId ∧ row.state ≠ .executing) ∧
    ∃ row ∈ (dbOf d').effects, row.effectId = effectId ∧ row.state = .executing

/-- An undo entry is on the stack, whatever its state. -/
def Registered (db : Db) (u : UndoRow) : Prop := ∃ u₀ ∈ db.undo, u₀.core = u.core

/-- The effect has an undo entry, has entered `executing` in the run, and whenever it did
the entry was already on the stack. -/
def UndoneFirst (guard : Guard (system S)) (c : State S) (row : EffectRow) : Prop :=
  ∃ u ∈ (dbOf c).undo, u.effectId = row.effectId ∧ u.orgId = row.orgId ∧
    u.sessionId = row.sessionId ∧
    (∃ before event d choice d', Recorded (Initial S) guard before event d choice d' c ∧
      EntersExecuting row.effectId d d') ∧
    ∀ before event d choice d', Recorded (Initial S) guard before event d choice d' c →
      EntersExecuting row.effectId d d' → Registered (dbOf d) u

/-! ## The step into `executing` -/

variable {choice : Choice (system S)} {effectId : EffectId} {o : Oracle} {orgId : OrgId}

theorem executing_of_enters (hc : Reaches S guard c) (htrans : Transition c choice c')
    (henters : EntersExecuting effectId c c') :
    ∃ t o orgId, QueryStep c c' t o (.setExecuting orgId effectId) () := by
  obtain ⟨⟨row₀, hrow₀, hid₀, hnot⟩, row', hrow', hid', hexecuting⟩ := henters
  rcases effect_origin htrans hrow' with ⟨row, hrow, hstep⟩ | ⟨t, o, q, r, ins, -, -, -, rfl⟩
  · obtain rfl := (effects_keyed hc).eq hrow hrow₀
      ((core_effectId hstep.core).symm.trans (hid'.trans hid₀.symm))
    rcases hstep with rfl | ⟨t, o, q, r, -, hquery, hchange⟩
    · exact absurd hexecuting hnot
    · cases hchange with
      | executing hin =>
        obtain ⟨⟨rfl, rfl⟩, -⟩ := ofEffectIn_iff.mp hin
        obtain rfl := hid₀
        exact ⟨t, o, _, hquery⟩
      | same | linked => exact absurd hexecuting hnot
      | _ => cases hexecuting
  · cases hexecuting

theorem enters_of_executing {t : ℕ}
    (hquery : QueryStep c c' t o (.setExecuting orgId effectId) ()) :
    EntersExecuting effectId c c' := by
  obtain ⟨hcount, -⟩ := transitionEffect_ok.mp hquery.tx
  obtain ⟨row, hrow, hin⟩ := exists_of_countP_ne_zero hcount
  obtain ⟨⟨hid, -⟩, hpending⟩ := ofEffectIn_iff.mp hin
  rw [List.mem_singleton] at hpending
  refine ⟨⟨row, hrow, hid, by simp [hpending]⟩, _, hquery.effect_after hrow, ?_⟩
  rw [Query.effectAfter, updateRow_of_pos hin]
  exact ⟨hid, rfl⟩

theorem marked_of_executing (hc : Reaches S guard c) :
    ∀ row ∈ (dbOf c).effects, row.state ∈ [.executing, .approved, .committed] →
      row.tier = .compensable → ∃ t orgId, Succeeded c t (.setExecuting orgId row.effectId) () := by
  intro row hrow hstate
  refine underway_invariant hc ?_ ?_ ?_ row hrow hstate
  · intro c choice c' row row' h htrans hcore htier
    obtain ⟨t, orgId, hran⟩ := h ((core_tier hcore).symm.trans htier)
    rw [core_effectId hcore]
    exact ⟨t, orgId, htrans.subset hran⟩
  · intro c c' t o row row' _ _ hquery hcore _
    rw [core_effectId hcore]
    exact ⟨t, row.orgId, hquery.ran⟩
  · intro c choice c' t o row row' id actor args approval _ hc hrow heffect _ hquery hcore htier
    rw [core_tier hcore] at htier
    exact absurd heffect (not_approved_of_compensable hc hquery hrow htier)

/-! ## The undo entry -/

theorem registered_of_executing (hc : Reaches S guard c) {t : ℕ}
    (hquery : QueryStep c c' t o (.setExecuting orgId effectId) ()) :
    ∃ row ∈ (dbOf c).effects, row.effectId = effectId ∧ ∃ u ∈ (dbOf c).undo,
      u.effectId = effectId ∧ u.orgId = row.orgId ∧ u.sessionId = row.sessionId ∧
      u.stackPosition = row.stepIndex := by
  obtain ⟨⟨row, hrow, hid, -⟩, -⟩ := enters_of_executing hquery
  obtain ⟨call, compensation, undoId, hpush, hundone⟩ := hquery.executing_row hc hrow hid
  obtain ⟨u, hu, hcore⟩ := undo_of_push hc hpush
  obtain ⟨-, horg, hsession, heffect, hposition⟩ := core_undo hcore
  exact ⟨row, hrow, hid, u, hu, heffect, horg.trans hundone.orgId.symm,
    hsession.trans hundone.sessionId.symm, hposition.trans hundone.stepIndex.symm⟩

theorem registered_of_recorded {final : State S} {before : List (SystemEvent S)}
    {event : SystemEvent S} {d d' : State S} (hfinal : Reaches S guard final)
    (hrec : Recorded (Initial S) guard before event d choice d' final)
    (henters : EntersExecuting effectId d d') {row : EffectRow} (hrow : row ∈ (dbOf final).effects)
    (hid : row.effectId = effectId) :
    ∃ u ∈ (dbOf final).undo, u.effectId = effectId ∧ u.orgId = row.orgId ∧
      u.sessionId = row.sessionId ∧ u.stackPosition = row.stepIndex ∧ Registered (dbOf d) u := by
  obtain ⟨t, o, orgId, hquery⟩ := executing_of_enters hrec.reachable hrec.step henters
  obtain ⟨row₀, hrow₀, hid₀, u₀, hu₀, heffect, horg, hsession, hposition⟩ :=
    registered_of_executing hrec.reachable hquery
  obtain ⟨u, hu, hcore⟩ := undo_stays hrec.reachable hrec.run hu₀
  obtain ⟨-, horg', hsession', heffect', hposition'⟩ := core_undo hcore
  obtain ⟨row₁, hrow₁, hcore₁⟩ := effect_later hrec.reachable hrec.run hrow₀
  obtain rfl := (effects_keyed hfinal).eq hrow₁ hrow
    ((core_effectId hcore₁).trans (hid₀.trans hid.symm))
  exact ⟨u, hu, heffect'.trans heffect,
    horg'.trans (horg.trans (core_orgId hcore₁).symm),
    hsession'.trans (hsession.trans (core_sessionId hcore₁).symm),
    hposition'.trans (hposition.trans (core_stepIndex hcore₁).symm), u₀, hu₀, hcore.symm⟩

/-- In every run, a compensable effect that is executing or committed has an undo entry
that was registered before it started to execute. -/
theorem executing_undoneFirst (hc : Reaches S unguarded c) {row : EffectRow}
    (hrow : row ∈ (dbOf c).effects) (htier : row.tier = .compensable)
    (hstate : row.state ∈ [.executing, .committed]) : UndoneFirst unguarded c row := by
  obtain ⟨t, orgId, hran⟩ := marked_of_executing hc row hrow (by
    simp only [List.mem_cons, List.not_mem_nil, or_false] at hstate ⊢
    exact hstate.imp_right .inr) htier
  obtain ⟨before, after, htrace⟩ := List.append_of_mem hran
  obtain ⟨d, choice, d', hrec⟩ := hc.recorded htrace
  obtain ⟨o, -, hquery⟩ := QueryStep.of_trace hrec.step hrec.trace'
  have henters := enters_of_executing hquery
  obtain ⟨u, hu, heffect, horg, hsession, hposition, -⟩ :=
    registered_of_recorded hc hrec henters hrow rfl
  refine ⟨u, hu, heffect, horg, hsession, ⟨_, _, d, choice, d', hrec, henters⟩, ?_⟩
  intro before' event' e choice' e' hrec' henters'
  obtain ⟨u', hu', -, -, hsession', hposition', hregistered⟩ :=
    registered_of_recorded hc hrec' henters' hrow rfl
  -- both entries have the place of the call on the stack
  obtain rfl := (undo_keyed hc).eq hu' hu
    (Prod.ext (hsession'.trans hsession.symm) (hposition'.trans hposition.symm))
  exact hregistered

/-- The effect of the sample call executes after its undo entry was registered. -/
theorem executedCall_undoneFirst :
    ∃ c row, Reaches (sample .postgres) unguarded c ∧ row ∈ (dbOf c).effects ∧
      row.tier = .compensable ∧ row.state = .executing ∧ UndoneFirst unguarded c row := by
  obtain ⟨c, hc, row, hrow, htier, hstate⟩ := exists_sample unguarded 1780271999
    (.compensable sampleCompensation) executedCall
    (fun c => ∃ row ∈ (dbOf c).effects, row.tier = .compensable ∧ row.state = .executing)
    (by decide +kernel)
  exact ⟨c, row, hc, hrow, htier, hstate,
    executing_undoneFirst hc hrow htier (by simp [hstate])⟩

/-! ## Tables as logs -/

/-- No row is lost, made twice or changed in its core: the tables log the inserts. An effect has
at most one approval. -/
structure Logged (c : State S) : Prop where
  effects : (dbOf c).effects.map EffectRow.core =
    (insertions c).map fun p => (p.2.row S.backend 0).core
  approvals : (dbOf c).approvals.map ApprovalRequest.core =
    (creations c).map fun p => (newApprovalRow p.2 0).core
  undo : (dbOf c).undo.map UndoRow.core = (pushes c).map fun p => (p.2.row S.backend 0).core
  unique : ∀ a ∈ (dbOf c).approvals, ∀ a' ∈ (dbOf c).approvals, a.effectId = a'.effectId → a = a'

/-- The tables log the inserts whatever runs at the same time and wherever calls stop. -/
theorem tables_logged (hc : Reaches S guard c) : Logged c :=
  ⟨effects_eq hc, approvals_eq hc, undo_eq hc, fun _ ha _ => approval_eq_of_effectId hc ha⟩

/-- A call that waits for its approval. -/
theorem awaitingCall_logged : ∃ c, Reaches (sample .postgres) unguarded c ∧
    (dbOf c).effects ≠ [] ∧ (dbOf c).approvals ≠ [] ∧ Logged c := by
  obtain ⟨c, hc, heffects, happrovals⟩ := exists_sample unguarded 1780271999 (.irreversible "")
    awaitingCall (fun c => (dbOf c).effects ≠ [] ∧ (dbOf c).approvals ≠ []) (by decide +kernel)
  exact ⟨c, hc, heffects, happrovals, tables_logged hc⟩

end UndoLog
