import UndoLog.Engine.Schedule

/-!
# Final states of effects

Five states of an effect are documented as final. All transitions ask for a state
that is not final, except the two that mark an effect as replayed and as a failed
compensation: these overwrite whatever state they find.
-/

namespace UndoLog

open Concurrent Machine Relational

variable {S : Setup} {c c' : State S}

/-- Every effect that was in a final state is still in that state. -/
def FinalStatesKept (db db' : Db) : Prop :=
  ∀ row ∈ db.effects, row.state.isTerminal = true →
    ∃ row' ∈ db'.effects, row'.effectId = row.effectId ∧ row'.state = row.state

instance (db db' : Db) : Decidable (FinalStatesKept db db') :=
  inferInstanceAs (Decidable (∀ row ∈ _, _ → ∃ row' ∈ _, _ ∧ _))

/-- The two unguarded transitions meet no effect in another final state. -/
def KeepsFinalStates (c : State S) (_ : ℕ) (st : (system S).Stmt) : Prop :=
  (∀ key ∈ Stmt.replays st, ∀ row ∈ (dbOf c).effects, ofEffect key.1 key.2 row = true →
    row.state.isTerminal = true → row.state = .replayed) ∧
  (∀ key ∈ Stmt.failsCompensation st, ∀ row ∈ (dbOf c).effects,
    ofEffect key.1 key.2 row = true → row.state.isTerminal = true →
      row.state = .compensationFailed)

instance (c : State S) (t : ℕ) (st : (system S).Stmt) : Decidable (KeepsFinalStates c t st) := by
  unfold KeepsFinalStates
  infer_instance

theorem EffectChange.final {q : Query} {row row' : EffectRow} (h : EffectChange q row row')
    {t : ℕ} (hcond : KeepsFinalStates c t (.db q)) (hrow : row ∈ (dbOf c).effects)
    (hterminal : row.state.isTerminal = true) : row'.state = row.state := by
  cases h with
  | same | linked => rfl
  | replayed hof => exact (hcond.1 _ rfl row hrow hof hterminal).symm
  | compensationFailed hof => exact (hcond.2 _ rfl row hrow hof hterminal).symm
  | executing hin | committed hin | failed hin | approved args hin | rejected hin =>
    obtain ⟨-, hstate⟩ := ofEffectIn_iff.mp hin
    cases hcase : row.state <;> simp_all [EffectState.isTerminal]

theorem finalStatesKept_step {choice : Choice (system S)}
    (hguard : onStatements (M := system S) KeepsFinalStates c choice)
    (htrans : Transition c choice c') : FinalStatesKept (dbOf c) (dbOf c') := by
  intro row hrow hterminal
  obtain ⟨row', hrow', hstep⟩ := effect_step htrans hrow
  refine ⟨row', hrow', core_effectId hstep.core, ?_⟩
  rcases hstep with rfl | ⟨t, o, q, a, rfl, hquery, hchange⟩
  · rfl
  · exact hchange.final (hquery.guarded hguard) hrow hterminal

/-- The run: in every run in which the unguarded transitions meet no effect in
another final state, final states are final. -/
theorem finalStatesKept_of_run (hc : Reaches S (onStatements KeepsFinalStates) c)
    (hrun : Run (onStatements KeepsFinalStates) c c') : FinalStatesKept (dbOf c) (dbOf c') := by
  refine hrun.invariant hc
    (fun row hrow _ => ⟨row, hrow, rfl, rfl⟩) ?_
  intro d choice d' _ ih hguard htrans row hrow hterminal
  obtain ⟨row', hrow', heffect', hstate'⟩ := ih row hrow hterminal
  have hterminal' : row'.state.isTerminal = true := by rw [hstate', hterminal]
  obtain ⟨row'', hrow'', heffect'', hstate''⟩ :=
    finalStatesKept_step hguard htrans row' hrow' hterminal'
  exact ⟨row'', hrow'', heffect''.trans heffect', hstate''.trans hstate'⟩

/-- The next step of the session is called. -/
def nextStep : Schedule :=
  [.start (.intercept (sampleCall 1))] ++ runs 2 5 ++ [draw 2 12] ++ runs 2 1 ++ [draw 2 13] ++
    runs 2 2 ++ [.finish 2]

/-- The next step of the session leaves the committed one alone. -/
theorem committed_kept_by_next_step :
    ∃ c c', Reaches (sample .postgres) (onStatements KeepsFinalStates) c ∧
      Run (onStatements KeepsFinalStates) c c' ∧
      (∃ row ∈ (dbOf c).effects, row.state = .committed) ∧ (dbOf c').effects.length = 2 ∧
      FinalStatesKept (dbOf c) (dbOf c') := by
  obtain ⟨c, c', hc, hrest, hcommitted, hlength⟩ := exists_run (onStatements KeepsFinalStates)
    1780271999 (.compensable sampleCompensation) committedCall nextStep (fun c c' =>
      (∃ row ∈ (dbOf c).effects, row.state = .committed) ∧ (dbOf c').effects.length = 2)
    (by decide +kernel)
  exact ⟨c, c', hc, hrest, hcommitted, hlength, finalStatesKept_of_run hc hrest⟩

/-- The committed call is made again. -/
def sameStep : Schedule :=
  [.start (.intercept (sampleCall 0))] ++ runs 2 5

/-- A duplicate of a committed call moves its effect to another state. -/
theorem finalStatesKept_fails_on_replay :
    ∃ c c', Reaches (sample .postgres) unguarded c ∧ Run unguarded c c' ∧
      ¬ FinalStatesKept (dbOf c) (dbOf c') := by
  obtain ⟨c, c', hc, hrest, htest⟩ := exists_run unguarded 1780271999
    (.compensable sampleCompensation) committedCall sameStep
    (fun c c' => ¬ FinalStatesKept (dbOf c) (dbOf c')) (by decide +kernel)
  exact ⟨c, c', hc, hrest, htest⟩

end UndoLog
