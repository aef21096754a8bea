import UndoLog.Engine.Decisions

/-!
# The undo stack through a run

Undo entries are pushed by `intercept` and marked by `compensate_session`. An entry keeps
everything but its state, and no statement makes an entry pending again.
-/

namespace UndoLog

open Concurrent Machine Relational

variable {S : Setup} {guard : Guard (system S)} {c c' : State S}

/-- The columns of an undo entry that never change. -/
theorem core_undo {u u' : UndoRow} (h : u'.core = u.core) :
    u'.undoId = u.undoId ∧ u'.orgId = u.orgId ∧ u'.sessionId = u.sessionId ∧
      u'.effectId = u.effectId ∧ u'.stackPosition = u.stackPosition :=
  ⟨(congrArg (fun u : UndoRow => u.undoId) h :), (congrArg (fun u : UndoRow => u.orgId) h :),
    (congrArg (fun u : UndoRow => u.sessionId) h :),
    (congrArg (fun u : UndoRow => u.effectId) h :),
    (congrArg (fun u : UndoRow => u.stackPosition) h :)⟩

/-- The statement of a push met its contract. -/
theorem push_pre (hc : Reaches S guard c) {t : ℕ} {push : Push} (h : (t, push) ∈ pushes c) :
    ∃ call before, Started c t (.intercept call) ∧ before <+: pastOf t c ∧
      interceptPre S call before
        (.db (.insertUndo push.call push.effectId push.compensation push.undoId)) := by
  obtain ⟨q, a, hran, hpush⟩ := pushOf_successOnly.mem_collect.mp h
  cases q with
  | insertUndo =>
    cases hpush
    exact hran.intercept_pre hc rfl
  | _ => cases hpush

section QueryStep

variable {t : ℕ} {o : Oracle} {q : Query} {r : q.Ret}

/-- Every undo entry after a statement was there before, or the statement has pushed it. -/
theorem QueryStep.undo_origin (hquery : QueryStep c c' t o q r) {u' : UndoRow}
    (hu' : u' ∈ (dbOf c').undo) : (∃ u ∈ (dbOf c).undo, u' = q.undoAfter (dbOf c).now u) ∨
    ∃ push, pushOf ⟨.db q, .ok r⟩ = some push ∧ u' = push.row S.backend (dbOf c).now := by
  rcases (Outcome.of_tx hquery.tx).undo with ⟨push, hpush, -, hundo⟩ | ⟨-, hundo⟩
  · rw [hundo] at hu'
    rcases List.mem_append.mp hu' with hold | hnew
    · refine .inl ⟨u', hold, ?_⟩
      cases q <;> first | rfl | cases hpush
    · exact .inr ⟨push, hpush, List.mem_singleton.mp hnew⟩
  · rw [hundo] at hu'
    obtain ⟨u, hu, rfl⟩ := List.mem_map.mp hu'
    exact .inl ⟨u, hu, rfl⟩

/-- Every undo entry is still there after a statement, with what the statement makes of
it. -/
theorem QueryStep.undo_after (hquery : QueryStep c c' t o q r) {u : UndoRow}
    (hu : u ∈ (dbOf c).undo) : q.undoAfter (dbOf c).now u ∈ (dbOf c').undo := by
  rcases (Outcome.of_tx hquery.tx).undo with ⟨push, hpush, -, hundo⟩ | ⟨-, hundo⟩
  · rw [hundo]
    refine List.mem_append_left _ ?_
    cases q <;> first | exact hu | cases hpush
  · rw [hundo]
    exact List.mem_map_of_mem hu

end QueryStep

section UndoStep

variable {choice : Choice (system S)} {u u' : UndoRow}

/-- What a step does to an undo entry: nothing, or what its statement does. -/
def UndoStep (c : State S) (choice : Choice (system S)) (c' : State S) (u u' : UndoRow) : Prop :=
  u' = u ∨ ∃ t o q r, choice = .run t o ∧ QueryStep c c' t o q r ∧ UndoChange q u u'

theorem UndoStep.core (h : UndoStep c choice c' u u') : u'.core = u.core := by
  rcases h with rfl | ⟨t, o, q, r, -, -, hchange⟩
  · rfl
  · exact hchange.core

/-- Every undo entry is still there after a step. -/
theorem undo_step (htrans : Transition c choice c') (hu : u ∈ (dbOf c).undo) :
    ∃ u' ∈ (dbOf c').undo, UndoStep c choice c' u u' := by
  rcases step_cases htrans with ⟨event, hquiet⟩ | ⟨t, o, q, r, hchoice, hquery⟩
  · rw [hquiet.tables.undo]
    exact ⟨u, hu, .inl rfl⟩
  · exact ⟨_, hquery.undo_after hu, .inr ⟨t, o, q, r, hchoice, hquery, q.undoChange _ u⟩⟩

/-- Every undo entry was there before the step or has just been pushed. -/
theorem undo_origin (htrans : Transition c choice c') (hu' : u' ∈ (dbOf c').undo) :
    (∃ u ∈ (dbOf c).undo, UndoStep c choice c' u u') ∨
    ∃ t o q r push, choice = .run t o ∧ QueryStep c c' t o q r ∧
      pushOf ⟨.db q, .ok r⟩ = some push ∧ u' = push.row S.backend (dbOf c).now := by
  rcases step_cases htrans with ⟨event, hquiet⟩ | ⟨t, o, q, r, hchoice, hquery⟩
  · rw [hquiet.tables.undo] at hu'
    exact .inl ⟨u', hu', .inl rfl⟩
  · rcases hquery.undo_origin hu' with ⟨u, hu, rfl⟩ | ⟨push, hpush, hnew⟩
    · exact .inl ⟨u, hu, .inr ⟨t, o, q, r, hchoice, hquery, q.undoChange _ u⟩⟩
    · exact .inr ⟨t, o, q, r, push, hchoice, hquery, hpush, hnew⟩

theorem undo_stays (hc : Reaches S guard c) (hrun : Run guard c c') (hu : u ∈ (dbOf c).undo) :
    ∃ u' ∈ (dbOf c').undo, u'.core = u.core := by
  refine hrun.invariant (P := fun d => ∃ u' ∈ (dbOf d).undo, u'.core = u.core) hc ⟨u, hu, rfl⟩ ?_
  rintro d choice d' - ⟨u₁, hu₁, hcore⟩ - htrans
  obtain ⟨u₂, hu₂, hstep⟩ := undo_step htrans hu₁
  exact ⟨u₂, hu₂, hstep.core.trans hcore⟩

end UndoStep

end UndoLog
