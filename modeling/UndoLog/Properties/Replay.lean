import UndoLog.Properties.Admission

/-!
# Replays

A replay tells the caller that the call has been taken care of. The effect row is
visible from its insert on, so a replay is justified only once the call that
inserted the row has returned.
-/

namespace UndoLog

open Concurrent Machine Relational

variable {S : Setup} {guard : Guard (system S)} {c c' : State S} {t : ℕ}

/-! ## Replays of compensable effects -/

/-- An event that returns an outcome of `intercept`. -/
abbrev outcomeEvent (t : ℕ) (outcome : InterceptOutcome) : SystemEvent S :=
  .returned t (.ok (.intercepted outcome))

/-- Whenever a compensable effect was replayed, an earlier call had been told to
execute it. -/
def ReplaysExecuted (c : State S) : Prop :=
  ∀ before t effectId result after,
    c.trace = before ++ outcomeEvent t (.replay effectId result) :: after →
    (∃ row ∈ (dbOf c).effects, row.effectId = effectId ∧ row.tier = .compensable) →
    ∃ t', outcomeEvent t' (.execute effectId) ∈ before

/-- Whenever a signature is looked up, every call that has inserted a compensable
row of it for the organisation has returned without an error. -/
def InsertersReturned (c : State S) (_ : ℕ) (st : (system S).Stmt) : Prop :=
  ∀ key ∈ Stmt.lookup st, ∀ p ∈ insertions c, p.2.tier = .compensable →
    (p.2.call.orgId, p.2.signature) = key → ∃ r, Returned c p.1 (.ok r)

instance (c : State S) (t : ℕ) (st : (system S).Stmt) : Decidable (InsertersReturned c t st) := by
  unfold InsertersReturned
  infer_instance

/-- A call that has inserted a compensable row can only return by telling its
caller to execute it. -/
theorem outcomes_of_insertion (hc : Reaches S guard c) {ins : Insertion} {r : OpResult}
    (hins : (t, ins) ∈ insertions c) (htier : ins.tier = .compensable)
    (hreturn : Returned c t (.ok r)) : Outcomes c t (.execute ins.effectId) := by
  obtain ⟨hstart, -, -⟩ := insertion_call hc hins
  obtain ⟨x, hx, hkind, hxins⟩ := insertion_mem_past hins
  have hpost : Renamed OpResult.intercepted (interceptPost S ins.call) (pastOf t c) (.ok r) :=
    (contract S).post_of_returned hc.coherent hstart hreturn
  obtain ⟨result, hresult, heq⟩ := hpost
  cases result with
  | error e => cases heq
  | ok outcome =>
    cases heq
    cases outcome with
    | execute effectId =>
      rcases hresult with ⟨hfree, -⟩ | ⟨compensation, undoId, inserted, hdone, -⟩
      · exact absurd hkind (by simp [hfree x hx])
      · obtain rfl := insert_once hc hx hdone hkind rfl
        cases inserted with
        | false => cases hxins
        | true =>
          have hid : effectId = ins.effectId :=
            congrArg Insertion.effectId (Option.some.inj hxins)
          rw [← hid]
          exact hreturn
    | replay effectId result => simp [hresult.1 x hx] at hxins
    | awaitingApproval effectId id =>
      obtain ⟨reason, now, inserted, hdone, -⟩ := hresult
      obtain rfl := insert_once hc hx hdone hkind rfl
      cases inserted with
      | false => cases hxins
      | true =>
        have hother : TierLabel.irreversible = ins.tier :=
          congrArg Insertion.tier (Option.some.inj hxins)
        rw [htier] at hother
        cases hother

/-- What a lookup has found was inserted by a call that had returned if the effect
is compensable. -/
theorem found_returned (hc : Reaches S (onStatements InsertersReturned) c) {orgId : OrgId}
    {signature : CallSignature} {record : EffectRecord}
    (h : Succeeded c t (.findBySignature orgId signature) (some record)) :
    ∃ p ∈ insertions c, p.2.effectId = record.effectId ∧
      (p.2.tier = .compensable → ∃ r, Returned c p.1 (.ok r)) := by
  refine h.since hc ?_ ?_
  · intro c c' o hc hguard htrans hquery
    obtain ⟨row, hrow, hsig, horg, hmap⟩ := findBySignature_some hquery.tx
    obtain ⟨t', ins, hins, hof⟩ := insertion_of_row hc hrow
    have hcond : InsertersReturned c t (.db (.findBySignature orgId signature)) :=
      hquery.guarded hguard
    have hkey : (ins.call.orgId, ins.signature) = (orgId, signature) := by
      rw [← hof.orgId, ← hof.callSignature, horg, hsig]
    refine ⟨(t', ins), collect_subset htrans.subset hins, ?_, fun htier => ?_⟩
    · rw [mapEffectRow_effectId hmap, hof.effectId]
    · obtain ⟨r, hr⟩ := hcond _ rfl (t', ins) hins htier hkey
      exact ⟨r, htrans.subset hr⟩
  · rintro c choice c' _ _ htrans ⟨p, hp, heffect, hreturned⟩
    refine ⟨p, collect_subset htrans.subset hp, heffect, fun htier => ?_⟩
    obtain ⟨r, hr⟩ := hreturned htier
    exact ⟨r, htrans.subset hr⟩

theorem replay_justified (hc : Reaches S (onStatements InsertersReturned) c)
    {effectId : EffectId} {result : Option ToolResult}
    (hcall : c.calls t = some (.done (.ok (.intercepted (.replay effectId result))))) :
    ∃ p ∈ insertions c, p.2.effectId = effectId ∧
      (p.2.tier = .compensable → ∃ t', Outcomes c t' (.execute effectId)) := by
  obtain ⟨op, hstart, hpost⟩ := (contract S).post_of_done hc.coherent hcall
  change opPost S op (pastOf t c) _ at hpost
  obtain ⟨call, rfl, -, existing, hfound, heffect, -⟩ := intercept_of_post hpost
  obtain ⟨p, hp, hid, hreturned⟩ := found_returned hc (succeeded_iff_done.mpr hfound)
  rw [heffect] at hid
  refine ⟨p, hp, hid, fun htier => ?_⟩
  obtain ⟨r, hr⟩ := hreturned htier
  rw [← hid]
  exact ⟨p.1, outcomes_of_insertion hc hp htier hr⟩

/-- In every run in which no signature is looked up between the insert of a
compensable row and the return of its call, a compensable effect is replayed only
after a call was told to execute it. -/
theorem replaysExecuted_of_insertersReturned
    (hc : Reaches S (onStatements InsertersReturned) c) : ReplaysExecuted c := by
  rintro before t effectId result after htrace ⟨row, hrow, heffect, htier⟩
  obtain ⟨d, choice, d', hrec⟩ := hc.recorded htrace
  obtain ⟨p, hp, hid, hexecuted⟩ :=
    replay_justified hrec.reachable (hrec.step.of_returned hrec.trace')
  have hmem : p ∈ insertions c := by
    refine collect_subset ?_ hp
    rw [htrace, hrec.trace]
    exact List.subset_append_left _ _
  obtain ⟨t', ins, hins, hof⟩ := insertion_of_row hc hrow
  have hsame : p.2.effectId = ins.effectId := by rw [hid, ← heffect, hof.effectId]
  obtain ⟨-, heq⟩ := insertion_eq_of_effectId hc hmem hins hsame
  rw [← hrec.trace]
  refine hexecuted ?_
  rw [heq, ← hof.tier, htier]

/-- A compensable call, and after it a second one under the same signature. -/
def oneThenOther : Schedule :=
  executedCall ++ [.start (.intercept (sampleCall 0))] ++ runs 1 5 ++ [.finish 1]

/-- The second call is answered by a replay of what the first one executed. -/
theorem second_replays_executed :
    ∃ c, Reaches (sample .postgres) (onStatements InsertersReturned) c ∧
      (∃ t outcome, Outcomes c t outcome ∧ outcome.admits = none) ∧ ReplaysExecuted c := by
  obtain ⟨c, hc, htest⟩ := exists_sample (onStatements InsertersReturned)
    1780271999 (.compensable sampleCompensation) oneThenOther
    (fun c => outcomeTest (fun _ outcome => outcome.admits = none) c) (by decide +kernel)
  obtain ⟨t, outcome, hout, hnone⟩ := outcomeTest_iff.mp htest
  exact ⟨c, hc, ⟨t, outcome, hout, of_decide_eq_true hnone⟩,
    replaysExecuted_of_insertersReturned hc⟩

/-- A compensable call that disappears right after its insert, and a retry of it. -/
def crashThenRetry : Schedule :=
  [.start (.intercept (sampleCall 0))] ++ runs 0 9 ++ [draw 0 10] ++ runs 0 1 ++
    [.crash 0, .start (.intercept (sampleCall 0))] ++ runs 1 5 ++ [.finish 1]

/-- The retry is told that the call has been taken care of, though nobody was told
to execute it. -/
theorem replaysExecuted_fails_after_crash :
    ∃ c, Reaches (sample .postgres) unguarded c ∧ ¬ ReplaysExecuted c := by
  obtain ⟨c, hc, hrow, hreplay, hexecute⟩ := exists_sample unguarded 1780271999
    (.compensable sampleCompensation) crashThenRetry (fun c =>
      (∃ row ∈ (dbOf c).effects, row.effectId = ⟨10⟩ ∧ row.tier = .compensable) ∧
      outcomeTest (fun _ outcome => outcome.effectId = ⟨10⟩ ∧ outcome.admits = none) c = true ∧
      outcomeTest (fun _ outcome => outcome.admits = some ⟨10⟩) c = false) (by decide +kernel)
  refine ⟨c, hc, fun hall => ?_⟩
  obtain ⟨t, outcome, hout, hp⟩ := outcomeTest_iff.mp hreplay
  obtain ⟨heffect, hnone⟩ := of_decide_eq_true hp
  cases outcome with
  | execute | awaitingApproval => cases hnone
  | replay effectId result =>
    obtain rfl : effectId = ⟨10⟩ := heffect
    obtain ⟨before, after, htrace⟩ := List.append_of_mem hout
    obtain ⟨t', hmem⟩ := hall before t _ result after htrace hrow
    have hexecuted : Outcomes c t' (.execute ⟨10⟩) := by
      rw [Outcomes, Returned, htrace]
      exact List.mem_append_left _ hmem
    rw [outcomeTest_iff.mpr ⟨t', _, hexecuted, decide_eq_true rfl⟩] at hexecute
    cases hexecute

end UndoLog
