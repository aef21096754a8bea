import UndoLog.Engine.Replays
import UndoLog.Engine.Schedule

/-!
# Calls after a reported failure

`fail` stores the reason of a failure in the column of results, in a form that is
not a result. No later statement replaces it, and nothing that reads the row can
decode it.
-/

namespace UndoLog

open Concurrent Machine Relational

variable {S : Setup} {guard : Guard (system S)} {c c' : State S}

/-! ## A recorded failure stays on record -/

/-- A failure is on record for an effect that was settled. -/
def FailureOnRecord (c : State S) (orgId : OrgId) (effectId : EffectId)
    (signature : CallSignature) : Prop :=
  ∃ row ∈ (dbOf c).effects, row.effectId = effectId ∧ row.orgId = orgId ∧
    row.callSignature = signature ∧ Settled c row ∧
    ∃ reason, row.resultSnapshot = some (failureValue reason)

variable {orgId : OrgId} {effectId : EffectId} {signature : CallSignature} {reason : String}

theorem FailureOnRecord.step {choice : Choice (system S)} (hc : Reaches S guard c)
    (h : FailureOnRecord c orgId effectId signature) (htrans : Transition c choice c') :
    FailureOnRecord c' orgId effectId signature := by
  obtain ⟨row, hrow, rfl, rfl, rfl, hsettled, reason, hfailure⟩ := h
  obtain ⟨row', hrow', hcore, hsettled', hresult⟩ := hsettled.step hc hrow htrans
  exact ⟨row', hrow', core_effectId hcore, core_orgId hcore, core_callSignature hcore, hsettled',
    reason, hresult.trans hfailure⟩

theorem failureOnRecord_of_fail (hc : Reaches S guard c) {t : ℕ} {rows : ℕ × Bool}
    (h : Succeeded c t (.failRows orgId effectId reason) rows) (hmet : 0 < rows.1) :
    ∃ signature, FailureOnRecord c orgId effectId signature := by
  refine h.since hc ?_ ?_
  · intro c c' o hc _ htrans hquery
    obtain ⟨row, hrow, hin⟩ := met_of_rows hquery.tx hmet
    obtain ⟨⟨hid, horg⟩, -⟩ := ofEffectIn_iff.mp hin
    have hafter := hquery.effect_after hrow
    have hsettled := settled_of_met hc htrans hrow hin
      ((Query.failRows orgId effectId reason).effectChange (dbOf c).now row).core
      (by rw [Query.effectAfter, updateRow_of_pos hin]; simp)
    rw [Query.effectAfter, updateRow_of_pos hin] at hafter hsettled
    exact ⟨row.callSignature, _, hafter, hid, horg, rfl, hsettled, reason, rfl⟩
  · rintro c choice c' hc _ htrans ⟨signature, hfailure⟩
    exact ⟨signature, hfailure.step hc htrans⟩

/-! ## Lookups -/

/-- A recorded failure cannot be read. -/
theorem mapEffectRow_failure {row : EffectRow}
    (h : row.resultSnapshot = some (failureValue reason)) :
    mapEffectRow row = .error .serialization := by
  simp only [mapEffectRow, h, ToolResult.fromValue_failureValue]

theorem FailureOnRecord.findByEffectId (hc : Reaches S guard c)
    (h : FailureOnRecord c orgId effectId signature) (pick : ℕ) :
    findByEffectId pick orgId effectId (dbOf c) = .error .serialization := by
  obtain ⟨row, hrow, rfl, rfl, -, -, reason, hfailure⟩ := h
  have hmem : row ∈ (dbOf c).effects.filter (ofEffect row.orgId row.effectId) :=
    List.mem_filter.mpr ⟨hrow, by simp⟩
  have hfound := limitOne_of_unique hmem (fun other hother => by
    obtain ⟨hother, hof⟩ := List.mem_filter.mp hother
    exact (effects_keyed hc).eq hother hrow (ofEffect_iff.mp hof).1) pick
  rw [UndoLog.findByEffectId, Tx.query_error, hfound]
  exact congrArg (Except.map some) (mapEffectRow_failure hfailure)

theorem FailureOnRecord.findBySignature (h : FailureOnRecord c orgId effectId signature) :
    ∃ pick, findBySignature pick orgId signature (dbOf c) = .error .serialization := by
  obtain ⟨row, hrow, rfl, rfl, rfl, -, reason, hfailure⟩ := h
  have hmem : row ∈ (dbOf c).effects.filter fun r =>
      r.callSignature = row.callSignature ∧ r.orgId = row.orgId :=
    List.mem_filter.mpr ⟨hrow, by simp⟩
  obtain ⟨pick, hfound⟩ := exists_limitOne hmem
  refine ⟨pick, ?_⟩
  rw [UndoLog.findBySignature, Tx.query_error, hfound]
  exact congrArg (Except.map some) (mapEffectRow_failure hfailure)

theorem FailureOnRecord.findBySignature_of_unique (hc : Reaches S guard c)
    (h : FailureOnRecord c orgId effectId signature)
    (honly : ∀ row ∈ (dbOf c).effects, row.orgId = orgId → row.callSignature = signature →
      row.effectId = effectId) (pick : ℕ) :
    UndoLog.findBySignature pick orgId signature (dbOf c) = .error .serialization := by
  obtain ⟨row, hrow, rfl, rfl, rfl, -, reason, hfailure⟩ := h
  have hmem : row ∈ (dbOf c).effects.filter fun r =>
      r.callSignature = row.callSignature ∧ r.orgId = row.orgId :=
    List.mem_filter.mpr ⟨hrow, by simp⟩
  have hfound := limitOne_of_unique hmem (fun other hother => by
    obtain ⟨hother, hof⟩ := List.mem_filter.mp hother
    obtain ⟨hsig, horg⟩ := of_decide_eq_true hof
    exact (effects_keyed hc).eq hother hrow (honly other hother horg hsig)) pick
  rw [UndoLog.findBySignature, Tx.query_error, hfound]
  exact congrArg (Except.map some) (mapEffectRow_failure hfailure)

/-! ## Retries of the call -/

theorem intercept_unreadable {t pick : ℕ} {w : World} {call : ToolCall} {e : UndoLogError}
    (horg : S.backend = .postgres → call.orgId ∈ w.db.orgs)
    (hlock : S.backend = .postgres → 0 < S.config.lockMaxAttempts)
    (hfind : UndoLog.findBySignature pick call.orgId (call.signature S.hash) w.db = .error e) :
    Ensures (M := system S) (Elsewhere call.orgId (call.signature S.hash)) (· = { pick }) t
      (fun r _ => ∃ r' : Except UndoLogError InterceptOutcome,
        r = r'.map OpResult.intercepted ∧ r' = .error e) (programOf S (.intercept call)) w := by
  have hsome : ∃ o : Oracle, o = { pick } := ⟨_, rfl⟩
  refine intercept_ensures_of_lookup hsome (by rintro _ rfl; rfl) hlock horg (fun w₁ h₁ => ?_)
    fun hr _ => hr
  refine ensures_query_bind hsome (by rintro _ rfl; rfl) (fun _ => rfl) ?_
  rintro w₂ h₂ _ rfl
  refine .inr ⟨e, ?_, fun _ _ => rfl⟩
  have hrows := (h₁.trans h₂).rows
  rw [underSignature, underSignature] at hrows
  rw [UndoLog.findBySignature, Tx.query_error] at hfind
  rw [Query.tx, UndoLog.findBySignature, Tx.query_error, hrows]
  exact hfind

/-! ## What a reported failure leads to -/

/-- The effect cannot be looked up, and a call under its signature can fail because of it
even though nothing else goes wrong. -/
structure Unanswerable (c : State S) (orgId : OrgId) (effectId : EffectId)
    (signature : CallSignature) : Prop where
  byEffectId : ∀ pick, findByEffectId pick orgId effectId (dbOf c) = .error .serialization
  bySignature : ∃ pick, findBySignature pick orgId signature (dbOf c) = .error .serialization
  byOneSignature : (∀ row ∈ (dbOf c).effects, row.orgId = orgId → row.callSignature = signature →
    row.effectId = effectId) → ∀ pick,
    findBySignature pick orgId signature (dbOf c) = .error .serialization
  intercepted : ∀ call, call.orgId = orgId → call.signature S.hash = signature →
    ∃ c', Run unguarded c c' ∧ Started c' c.next (.intercept call) ∧
      Returned c' c.next (.error .serialization)

theorem FailureOnRecord.unanswerable (hc : Reaches S unguarded c)
    (h : FailureOnRecord c orgId effectId signature) : Unanswerable c orgId effectId signature := by
  refine ⟨h.findByEffectId hc, h.findBySignature, h.findBySignature_of_unique hc,
    fun call horg hsig => ?_⟩
  obtain ⟨pick, hfind⟩ := h.findBySignature
  obtain ⟨row, hrow, -, rfl, rfl, hsettled, -⟩ := h
  obtain ⟨t, ins, hins, -⟩ := insertion_of_row hc hrow
  rw [← horg, ← hsig] at hfind
  have hensures := intercept_unreadable (t := c.next) (w := c.store)
    (fun hb => horg ▸ org_of_released hb hc hrow hsettled.released)
    (fun hb => attempts_pos_of_insertion hc hins hb) hfind
  obtain ⟨_, _, _, -, hsolo, _, rfl, rfl⟩ := hensures.exists_solo .refl
  obtain ⟨c', ran, hrun, -, -, -, htrace, -⟩ :=
    exists_call_within (M := system S) hsolo
      (show unguarded c (.start (.intercept call)) from trivial) (fun _ _ _ _ => trivial)
      fun _ => trivial
  refine ⟨c', hrun, ?_, ?_⟩
  · rw [Started, htrace]
    simp
  · rw [Returned, htrace]
    simp [Except.map]

/-- In every run, once a failure was reported for an effect of the log, the effect is
unanswerable ever after under the signature of the call that was logged. -/
theorem unanswerable_of_fail (hc : Reaches S unguarded c) {t : ℕ}
    {rows : ℕ × Bool} (hfail : Succeeded c t (.failRows orgId effectId reason) rows)
    (hmet : 0 < rows.1) : ∃ u call, Started c u (.intercept call) ∧ call.orgId = orgId ∧
      ∀ c', Run unguarded c c' → Unanswerable c' orgId effectId (call.signature S.hash) := by
  obtain ⟨signature, hfailure⟩ := failureOnRecord_of_fail hc hfail hmet
  obtain ⟨row, hrow, heffect, horg, hsig, -⟩ := id hfailure
  obtain ⟨u, ins, hins, hof⟩ := insertion_of_row hc hrow
  obtain ⟨hstart, hsignature, -⟩ := insertion_call hc hins
  refine ⟨u, ins.call, hstart, hof.orgId.symm.trans horg, fun c' hrun => ?_⟩
  have hlater : FailureOnRecord c' orgId effectId signature := by
    refine hrun.invariant (P := fun d => FailureOnRecord d orgId effectId signature) hc
      hfailure ?_
    intro d choice d' hd ih _ htrans
    exact ih.step hd htrans
  have heq : ins.call.signature S.hash = signature := by
    rw [← hsig, hof.callSignature, hsignature]
  rw [heq]
  exact hlater.unanswerable (hc.run hrun)

/-- Whether a failure was reported that met a row and passes a test. -/
def failureTest (p : ℕ → OrgId → EffectId → String → Bool) (c : State S) : Bool :=
  c.trace.any fun
    | .ran t (.db (.failRows orgId effectId reason)) (.ok rows) =>
      0 < rows.1 && p t orgId effectId reason
    | _ => false

theorem exists_of_failureTest {p : ℕ → OrgId → EffectId → String → Bool}
    (h : failureTest p c = true) : ∃ t orgId effectId reason rows,
      Succeeded c t (.failRows orgId effectId reason) rows ∧ 0 < rows.1 ∧
      p t orgId effectId reason = true := by
  obtain ⟨event, hmem, htest⟩ := List.any_eq_true.mp h
  split at htest
  · next t orgId effectId reason rows =>
    obtain ⟨hmet, hp⟩ := Bool.and_eq_true_iff.mp htest
    exact ⟨t, orgId, effectId, reason, rows, hmem, of_decide_eq_true hmet, hp⟩
  · cases htest

/-- A compensable call that is told to execute, and the report of its failure. -/
def failedCall : Schedule :=
  executedCall ++ [.start (.fail sampleOrg ⟨10⟩ "timeout")] ++ runs 1 1 ++ [.finish 1]

/-- The schedule reports a failure that meets the effect, and returns no error. -/
theorem exists_failedCall :
    ∃ c, Reaches (sample .postgres) unguarded c ∧ (∃ r, Returned c 1 (.ok r)) ∧
      ∃ reason rows, Succeeded c 1 (.failRows sampleOrg ⟨10⟩ reason) rows ∧ 0 < rows.1 := by
  obtain ⟨c, hc, hreturned, hfailed⟩ := exists_sample unguarded 1780271999
    (.compensable sampleCompensation) failedCall (fun c =>
      (∃ r, Returned c 1 (.ok r)) ∧
      failureTest (fun t o e _ => t = 1 ∧ o = sampleOrg ∧ e = ⟨10⟩) c = true) (by decide +kernel)
  obtain ⟨t, orgId, effectId, reason, rows, hran, hmet, hp⟩ := exists_of_failureTest hfailed
  obtain ⟨rfl, rfl, rfl⟩ := of_decide_eq_true hp
  exact ⟨c, hc, hreturned, reason, rows, hran, hmet⟩

/-- After a report of a failure that returned no error, a retry of the call returns one,
and the effect cannot be looked up. -/
theorem retry_fails_after_fail : ∃ (c c' : State (sample .postgres)) (t : ℕ) (call : ToolCall),
      Reaches (sample .postgres) unguarded c ∧ (∃ r, Returned c 1 (.ok r)) ∧
      (∃ reason rows, Succeeded c 1 (.failRows sampleOrg ⟨10⟩ reason) rows ∧ 0 < rows.1) ∧
      Run unguarded c c' ∧ Started c' t (.intercept call) ∧ Returned c' t (.error .serialization) ∧
      findByEffectId 0 sampleOrg ⟨10⟩ (dbOf c) = .error .serialization := by
  obtain ⟨c, hc, hreturned, reason, rows, hran, hmet⟩ := exists_failedCall
  obtain ⟨signature, hfailure⟩ := failureOnRecord_of_fail hc hran hmet
  obtain ⟨row, hrow, heffect, horg, hsig, -⟩ := id hfailure
  obtain ⟨u, ins, hins, hof⟩ := insertion_of_row hc hrow
  have hunanswerable := hfailure.unanswerable hc
  have hsignature : ins.call.signature (sample .postgres).hash = signature := by
    rw [← hsig, hof.callSignature, (insertion_call hc hins).2.1]
  obtain ⟨c', hrun, hstart, herror⟩ :=
    hunanswerable.intercepted ins.call (hof.orgId.symm.trans horg) hsignature
  exact ⟨c, c', c.next, ins.call, hc, hreturned, ⟨reason, rows, hran, hmet⟩, hrun, hstart,
    herror, hunanswerable.byEffectId 0⟩

/-- The failed call of the schedule is unanswerable. -/
theorem failedCall_unanswerable : ∃ (c : State (sample .postgres)) (u : ℕ) (call : ToolCall),
      Reaches (sample .postgres) unguarded c ∧ Started c u (.intercept call) ∧
      call.orgId = sampleOrg ∧ ∀ c', Run unguarded c c' →
        Unanswerable c' sampleOrg ⟨10⟩ (call.signature (sample .postgres).hash) := by
  obtain ⟨c, hc, -, reason, rows, hran, hmet⟩ := exists_failedCall
  obtain ⟨u, call, hstart, horg, hall⟩ := unanswerable_of_fail hc hran hmet
  exact ⟨c, u, call, hc, hstart, horg, hall⟩

end UndoLog
