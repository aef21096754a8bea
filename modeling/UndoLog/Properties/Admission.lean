import UndoLog.Engine.Schedule

/-!
# Admission of a call

A call is admitted when `intercept` tells its caller to execute it or to wait for a decision.
Of all calls of an organisation under one signature at most one should be. On SQLite the
signature column is unique over all organisations, so this holds as long as no other
organisation calls under the signature. On PostgreSQL every monthly partition has its own
unique index, so it holds as long as no signature is inserted in two months.
-/

namespace UndoLog

open Concurrent Machine Relational

variable {S : Setup} {guard : Guard (system S)} {c c' : State S}

/-- The effect an outcome admits. -/
def InterceptOutcome.admits : InterceptOutcome → Option EffectId
  | .execute effectId => some effectId
  | .replay _ _ => none
  | .awaitingApproval effectId _ => some effectId

/-- The call was admitted with the given effect. -/
def Admitted (c : State S) (t : ℕ) (effectId : EffectId) : Prop :=
  ∃ outcome, Outcomes c t outcome ∧ outcome.admits = some effectId

/-- The registry never told the call that its tool is safe. -/
def NonSafe (c : State S) (t : ℕ) : Prop :=
  ∀ orgId name version,
    Event.ran (M := system S) t (.app (.resolveTier orgId name version)) (.ok .safe) ∉ c.trace

instance (t : ℕ) (effectId : EffectId) : Decidable (Admitted c t effectId) :=
  decidable_of_iff
    (outcomeTest (fun u outcome => u = t ∧ outcome.admits = some effectId) c = true) <| by
    simp [outcomeTest_iff, Admitted]

instance (t : ℕ) : Decidable (NonSafe c t) :=
  decidable_of_iff (c.trace.all (fun
      | .ran u (.app (.resolveTier _ _ _)) (.ok .safe) => u ≠ t
      | _ => true) = true) <| by
    rw [List.all_eq_true]
    constructor
    · intro hall orgId name version hmem
      simpa using hall _ hmem
    · intro hsafe event hmem
      split
      · next u orgId name version =>
        refine decide_eq_true ?_
        rintro rfl
        exact hsafe _ _ _ hmem
      · rfl

/-- At most one of the calls of an organisation under one signature is admitted. -/
def AdmitsOnce (c : State S) : Prop :=
  ∀ orgId signature t t' effectId effectId',
    Intercepts c t orgId signature → Intercepts c t' orgId signature →
    NonSafe c t → NonSafe c t' → Admitted c t effectId → Admitted c t' effectId' → t = t'

/-! ## Admitted calls have inserted their effect -/

/-- An admitted call inserted the effect, and pushed its undo entry if it is
compensable. -/
structure InsertedBy (c : State S) (t : ℕ) (call : ToolCall) (effectId : EffectId)
    (ins : Insertion) : Prop where
  insertion : (t, ins) ∈ insertions c
  call_eq : ins.call = call
  effectId_eq : ins.effectId = effectId
  pushed : ins.tier = .compensable →
    ∃ push, (t, push) ∈ pushes c ∧ push.call = call ∧ push.effectId = effectId

variable {t : ℕ} {call : ToolCall} {b : Backend} {ins : Insertion}

/-- Unless its insert was ignored and the row in its way not found, an admitted
call has inserted its effect. -/
theorem Admitted.insertedBy (hc : Reaches S guard c) {effectId : EffectId}
    (hstart : Started c t (.intercept call)) (hsafe : NonSafe c t)
    (hmissed : ¬ Missed call.orgId (call.signature S.hash) (pastOf t c))
    (h : Admitted c t effectId) : ∃ ins, InsertedBy c t call effectId ins := by
  obtain ⟨outcome, hout, hadmits⟩ := h
  have hpost := hout.post hc hstart
  cases outcome with
  | replay => cases hadmits
  | execute e =>
    cases hadmits
    rcases hpost with ⟨-, hresolved⟩ | ⟨compensation, undoId, inserted, hins, hclear, hpush, -⟩
    · exact absurd (mem_pastOf.mp hresolved) (hsafe _ _ _)
    · obtain rfl : inserted = true := hclear.resolve_right hmissed
      refine ⟨⟨call, call.signature S.hash, effectId, .compensable, some compensation.args⟩,
        insertion_of_succeeded (succeeded_iff_done.mpr hins) rfl, rfl, rfl, fun _ => ?_⟩
      exact ⟨_, pushOf_successOnly.mem_collect.mpr ⟨_, _, succeeded_iff_done.mpr hpush, rfl⟩, rfl,
        rfl⟩
  | awaitingApproval e id =>
    cases hadmits
    obtain ⟨reason, now, inserted, hins, hclear, -⟩ := hpost
    obtain rfl : inserted = true := hclear.resolve_right hmissed
    exact ⟨⟨call, call.signature S.hash, effectId, .irreversible, none⟩,
      insertion_of_succeeded (succeeded_iff_done.mpr hins) rfl, rfl, rfl, by rintro ⟨⟩⟩

/-! ## PostgreSQL -/

theorem not_missed_of_postgres (hb : S.backend = .postgres) (hc : Reaches S guard c) {orgId : OrgId}
    {signature : CallSignature} : ¬ Missed orgId signature (pastOf t c) := by
  rintro ⟨before, hbefore, r, hr, ins, hins⟩
  have hmem : r ∈ pastOf t c := hbefore.subset (List.mem_append_left _ hr)
  obtain ⟨q, a, rfl⟩ := ignoredOf_successOnly.of_some hins
  have hsqlite := (ignored_row hc (succeeded_iff_done.mpr hmem) hins).1
  rw [hb] at hsqlite
  cases hsqlite

/-- A row does not stand in another month's partition than a row inserted now. -/
def ThisMonth (db : Db) (row : EffectRow) : Prop := monthOf row.executedAt = monthOf db.now

instance (db : Db) (row : EffectRow) : Decidable (ThisMonth db row) :=
  inferInstanceAs (Decidable (_ = _))

/-- Whenever a signature is inserted, the rows of its organisation under it stand
in the current partition. Two compensable rows of one session and step may stand
in different ones: the undo stack has room for one of them only. -/
def OneMonth (c : State S) (_ : ℕ) (st : (system S).Stmt) : Prop :=
  match (st : Stmt) with
  | .db (.insertCompensable call signature _ _) => ∀ row ∈ (dbOf c).effects,
      row.orgId = call.orgId → row.callSignature = signature → ThisMonth (dbOf c) row ∨
      (row.tier = .compensable ∧ row.sessionId = call.sessionId ∧
        row.stepIndex = stepColumn S.backend call.stepIndex)
  | .db (.insertIrreversible call signature _) => ∀ row ∈ (dbOf c).effects,
      row.orgId = call.orgId → row.callSignature = signature → ThisMonth (dbOf c) row
  | _ => True

instance (c : State S) (t : ℕ) (st : (system S).Stmt) : Decidable (OneMonth c t st) := by
  unfold OneMonth
  split <;> infer_instance

/-- Two insertions that share a position of one undo stack. -/
def SharePosition (b : Backend) (ins ins' : Insertion) : Prop :=
  ins.tier = .compensable ∧ ins'.tier = .compensable ∧
    ins.call.sessionId = ins'.call.sessionId ∧
    stepColumn b ins.call.stepIndex = stepColumn b ins'.call.stepIndex

theorem SharePosition.symm {ins' : Insertion} (h : SharePosition b ins ins') :
    SharePosition b ins' ins :=
  ⟨h.2.1, h.1, h.2.2.1.symm, h.2.2.2.symm⟩

theorem not_thisMonth_of_clash {db : Db} {row : EffectRow} (hb : b = .postgres)
    (hclash : clash b row (ins.row b db.now) = false) (hsig : row.callSignature = ins.signature) :
    ¬ ThisMonth db row := by
  intro hmonth
  subst hb
  have hboth := clash_postgres.mpr (.inr ⟨hsig, hmonth⟩ :
    (row.effectId = (ins.row .postgres db.now).effectId ∧
      row.executedAt = (ins.row .postgres db.now).executedAt) ∨ _)
  rw [hclash] at hboth
  cases hboth

/-- The step: a new insertion shares its position with every earlier one of the
same organisation and signature. -/
theorem QueryStep.sharePosition (hb : S.backend = .postgres)
    (hc : Reaches S (onStatements OneMonth) c) {o : Oracle} {q : Query} {a : q.Ret}
    (hguard : onStatements (M := system S) OneMonth c (.run t o)) (hquery : QueryStep c c' t o q a)
    (hins : insertionOf ⟨.db q, .ok a⟩ = some ins) (hclash : ∀ row ∈ (dbOf c).effects,
      clash S.backend row (ins.row S.backend (dbOf c).now) = false) {p : ℕ × Insertion}
    (hp : p ∈ insertions c) (horg : p.2.call.orgId = ins.call.orgId)
    (hsig : p.2.signature = ins.signature) : SharePosition S.backend p.2 ins := by
  obtain ⟨row, hrow, hof⟩ := row_of_insertion hc hp
  have hrowsig : row.callSignature = ins.signature := hof.callSignature.trans hsig
  have hmonth := not_thisMonth_of_clash hb (hclash row hrow) hrowsig
  have hcond := hquery.guarded hguard
  cases q with
  | insertCompensable call signature effectId compensation =>
    cases a with
    | false => cases hins
    | true =>
      cases hins
      rcases hcond row hrow (hof.orgId.trans horg) hrowsig with hthis | ⟨htier, hsession, hstep⟩
      · exact absurd hthis hmonth
      · exact ⟨hof.tier.symm.trans htier, rfl, hof.sessionId.symm.trans hsession,
          hof.stepIndex.symm.trans hstep⟩
  | insertIrreversible call signature effectId =>
    cases a with
    | false => cases hins
    | true =>
      cases hins
      exact absurd (hcond row hrow (hof.orgId.trans horg) hrowsig) hmonth
  | _ => cases hins

/-- The run: insertions of one organisation under one signature are the same or
share a position. -/
theorem insertions_sharePosition (hb : S.backend = .postgres)
    (hc : Reaches S (onStatements OneMonth) c) :
    ∀ p ∈ insertions c, ∀ p' ∈ insertions c, p.2.call.orgId = p'.2.call.orgId →
      p.2.signature = p'.2.signature → p = p' ∨ SharePosition S.backend p.2 p'.2 := by
  refine hc.invariant (fun _ _ _ hp => by cases hp) ?_
  intro c choice c' hc ih hguard htrans
  rcases step_cases htrans with ⟨event, hquiet⟩ | ⟨t, o, q, a, rfl, hquery⟩
  · rw [insertions, hquiet.collect insertionOf_successOnly]
    exact ih
  · rcases (Outcome.of_tx hquery.tx).effects with ⟨ins, hins, hclash, -⟩ | ⟨hins, -⟩
    · have hnew : ∀ p ∈ insertions c, p.2.call.orgId = ins.call.orgId →
          p.2.signature = ins.signature → SharePosition S.backend p.2 ins := fun p hp =>
        hquery.sharePosition hb hc hguard hins hclash hp
      rw [insertions, hquery.collect_some hins]
      intro p hp p' hp' horg hsig
      rcases List.mem_append.mp hp with hp | hp <;> rcases List.mem_append.mp hp' with hp' | hp'
      · exact ih p hp p' hp' horg hsig
      · obtain rfl := List.mem_singleton.mp hp'
        exact .inr (hnew p hp horg hsig)
      · obtain rfl := List.mem_singleton.mp hp
        exact .inr (hnew p' hp' horg.symm hsig.symm).symm
      · rw [List.mem_singleton.mp hp, List.mem_singleton.mp hp']
        exact .inl rfl
    · rw [insertions, hquery.collect_none hins]
      exact ih

theorem InsertedBy.eq_of_sharePosition (hc : Reaches S guard c) {t' : ℕ} {call' : ToolCall}
    {effectId effectId' : EffectId} {ins' : Insertion} (h : InsertedBy c t call effectId ins)
    (h' : InsertedBy c t' call' effectId' ins') (hshare : SharePosition S.backend ins ins') :
    t = t' := by
  obtain ⟨htier, htier', hsession, hstep⟩ := hshare
  obtain ⟨push, hpush, hcall, heffect⟩ := h.pushed htier
  obtain ⟨push', hpush', hcall', heffect'⟩ := h'.pushed htier'
  obtain ⟨u, hu, hcore⟩ := undo_of_push hc hpush
  obtain ⟨u', hu', hcore'⟩ := undo_of_push hc hpush'
  have hkey : ∀ {u : UndoRow} {push : Push}, u.core = (push.row S.backend 0).core →
      (u.sessionId, u.stackPosition) =
        (push.call.sessionId, stepColumn S.backend push.call.stepIndex) := fun hcore =>
    (congrArg (fun r : UndoRow => (r.sessionId, r.stackPosition)) hcore :)
  have hid : ∀ {u : UndoRow} {push : Push}, u.core = (push.row S.backend 0).core →
      u.effectId = push.effectId := fun hcore =>
    (congrArg (fun r : UndoRow => r.effectId) hcore :)
  have hsame : u = u' := by
    refine (undo_keyed hc).eq hu hu' ?_
    rw [hkey hcore, hkey hcore', hcall, hcall', ← h.call_eq, ← h'.call_eq, hsession, hstep]
  have heq : ins.effectId = ins'.effectId := by
    rw [h.effectId_eq, h'.effectId_eq, ← heffect, ← heffect', ← hid hcore, ← hid hcore', hsame]
  exact (insertion_eq_of_effectId hc h.insertion h'.insertion heq).1

/-- On PostgreSQL at most one call of an organisation under a signature is
admitted, in every run in which no signature is inserted in two months. -/
theorem admitsOnce_of_oneMonth (hb : S.backend = .postgres)
    (hc : Reaches S (onStatements OneMonth) c) : AdmitsOnce c := by
  rintro orgId signature t t' effectId effectId' ⟨call, hstart, rfl, rfl⟩
    ⟨call', hstart', horg, hsig⟩ hsafe hsafe' hadm hadm'
  obtain ⟨ins, hins⟩ := hadm.insertedBy hc hstart hsafe (not_missed_of_postgres hb hc)
  obtain ⟨ins', hins'⟩ := hadm'.insertedBy hc hstart' hsafe' (not_missed_of_postgres hb hc)
  have horg' : ins.call.orgId = ins'.call.orgId := by
    rw [hins.call_eq, hins'.call_eq, horg]
  have hsig' : ins.signature = ins'.signature := by
    rw [(insertion_call hc hins.insertion).2.1, (insertion_call hc hins'.insertion).2.1,
      hins.call_eq, hins'.call_eq, hsig]
  rcases insertions_sharePosition hb hc _ hins.insertion _ hins'.insertion horg' hsig' with
    heq | hshare
  · exact congrArg Prod.fst heq
  · exact hins.eq_of_sharePosition hc hins' hshare

/-- Two irreversible calls under one signature: the second one looks it up while the first one,
which has inserted it, asks for a decision. -/
def lookupInTime : Schedule :=
  [.start (.intercept (sampleCall 0)), .start (.intercept (sampleCall 0))] ++ runs 0 9 ++
    runs 1 3 ++ [draw 0 10] ++ runs 0 1 ++ runs 1 2 ++ [draw 0 11] ++ runs 0 5 ++
    [.finish 1, .finish 0]

/-- Within a month the first of two calls is admitted, and the other one is not. -/
theorem admitsOnce_within_month :
    ∃ c, Reaches (sample .postgres) (onStatements OneMonth) c ∧
      Intercepts c 0 sampleOrg ⟨0⟩ ∧ Intercepts c 1 sampleOrg ⟨0⟩ ∧ Admitted c 0 ⟨10⟩ ∧
      (∃ outcome, Outcomes c 1 outcome ∧ outcome.admits = none) ∧ AdmitsOnce c := by
  obtain ⟨c, hc, hcall, hcall', hadm, hother⟩ := exists_sample (onStatements OneMonth) 1780271999
    (.irreversible "") lookupInTime (fun c =>
      Intercepts c 0 sampleOrg ⟨0⟩ ∧ Intercepts c 1 sampleOrg ⟨0⟩ ∧ Admitted c 0 ⟨10⟩ ∧
      outcomeTest (fun t outcome => t = 1 ∧ outcome.admits = none) c = true) (by decide +kernel)
  obtain ⟨t, outcome, hout, htest⟩ := outcomeTest_iff.mp hother
  obtain ⟨rfl, hnone⟩ := of_decide_eq_true htest
  exact ⟨c, hc, hcall, hcall', hadm, ⟨outcome, hout, hnone⟩, admitsOnce_of_oneMonth rfl hc⟩

/-- One irreversible call and a retry of it at the end of May: the retry has looked
the signature up before the first insert, and inserts in June. -/
def monthEnd : Schedule :=
  [.start (.intercept (sampleCall 0)), .start (.intercept (sampleCall 0))] ++ runs 0 8 ++
    runs 1 4 ++ runs 0 1 ++ [draw 0 10] ++ runs 0 1 ++ [.environment (.clock 1780272000)] ++
    runs 1 1 ++ [draw 1 11] ++ runs 1 1 ++ [draw 0 12] ++ runs 0 5 ++ [.finish 0, draw 1 13] ++
    runs 1 5 ++ [.finish 1]

/-- Across the end of a month both calls are told to wait for a decision. -/
theorem admitsOnce_fails_at_month_end :
    ∃ c, Reaches (sample .postgres) unguarded c ∧ ¬ AdmitsOnce c := by
  obtain ⟨c, hc, hcall, hcall', hsafe, hsafe', hadm, hadm'⟩ := exists_sample unguarded 1780271999
    (.irreversible "") monthEnd (fun c =>
      Intercepts c 0 sampleOrg ⟨0⟩ ∧ Intercepts c 1 sampleOrg ⟨0⟩ ∧ NonSafe c 0 ∧ NonSafe c 1 ∧
      Admitted c 0 ⟨10⟩ ∧ Admitted c 1 ⟨11⟩) (by decide +kernel)
  refine ⟨c, hc, fun honce => ?_⟩
  cases honce _ _ _ _ _ _ hcall hcall' hsafe hsafe' hadm hadm'

/-! ## SQLite -/

theorem effects_keyed_signature (hb : S.backend = .sqlite) (hc : Reaches S guard c) :
    Keyed EffectRow.callSignature (dbOf c).effects := by
  refine keyed_invariant (·.effects) hc (fun _ _ _ => rfl) SameTables.effects ?_
  intro c c' t o q a _ _ hquery
  rcases (Outcome.of_tx hquery.tx).effects with ⟨ins, -, hclash, heffects⟩ | ⟨-, heffects⟩
  · refine .inl ⟨_, fun row hrow hsig => ?_, heffects⟩
    have hhit : clash .sqlite row (ins.row .sqlite (dbOf c).now) = true :=
      clash_sqlite.mpr (.inr hsig)
    have hfree := hclash row hrow
    rw [hb, hhit] at hfree
    cases hfree
  · exact .inr ⟨_, fun row => core_callSignature (q.effectChange _ row).core, heffects⟩

/-- The effect an outcome names. -/
def InterceptOutcome.effectId : InterceptOutcome → EffectId
  | .execute effectId | .replay effectId _ | .awaitingApproval effectId _ => effectId

theorem Outcomes.row (hc : Reaches S guard c) {outcome : InterceptOutcome}
    (hone : OneOrganisation c call.orgId (call.signature S.hash))
    (hstart : Started c t (.intercept call)) (hsafe : NonSafe c t) (hout : Outcomes c t outcome) :
    ∃ row ∈ (dbOf c).effects, row.callSignature = call.signature S.hash ∧
      row.effectId = outcome.effectId := by
  cases hadmits : outcome.admits with
  | some effectId =>
    obtain ⟨ins, hins⟩ := Admitted.insertedBy hc hstart hsafe (not_missed hc hone)
      ⟨outcome, hout, hadmits⟩
    obtain ⟨row, hrow, hof⟩ := row_of_insertion hc hins.insertion
    refine ⟨row, hrow, ?_, ?_⟩
    · rw [hof.callSignature, (insertion_call hc hins.insertion).2.1, hins.call_eq]
    · rw [hof.effectId, hins.effectId_eq]
      cases outcome <;> cases hadmits <;> rfl
  | none =>
    cases outcome with
    | execute | awaitingApproval => cases hadmits
    | replay effectId result =>
      obtain ⟨-, existing, hfound, rfl, -⟩ := hout.post hc hstart
      obtain ⟨row, hrow, heffect, -, hsig⟩ := found_row hc (succeeded_iff_done.mpr hfound)
      exact ⟨row, hrow, hsig, heffect⟩

/-- On SQLite, of the calls of an organisation under a signature that no other
organisation uses, at most one is admitted, and every other one that returns an
outcome replays the effect it was admitted with. -/
theorem admits_once_then_replays (hb : S.backend = .sqlite) (hc : Reaches S unguarded c)
    {orgId : OrgId} {signature : CallSignature} (hone : OneOrganisation c orgId signature) :
    (∀ t t' effectId effectId', Intercepts c t orgId signature →
      Intercepts c t' orgId signature → NonSafe c t → NonSafe c t' →
      Admitted c t effectId → Admitted c t' effectId' → t = t') ∧
    (∀ t t' effectId outcome, Intercepts c t orgId signature →
      Intercepts c t' orgId signature → NonSafe c t → NonSafe c t' →
      Admitted c t effectId → t' ≠ t → Outcomes c t' outcome →
      ∃ result, outcome = .replay effectId result) := by
  have hsame : ∀ t t' outcome outcome', Intercepts c t orgId signature →
      Intercepts c t' orgId signature → NonSafe c t → NonSafe c t' → Outcomes c t outcome →
      Outcomes c t' outcome' → outcome.effectId = outcome'.effectId := by
    rintro t t' outcome outcome' ⟨call, hstart, rfl, rfl⟩ ⟨call', hstart', horg', hsig'⟩ hsafe
      hsafe' hout hout'
    obtain ⟨row, hrow, hsig, heffect⟩ := hout.row hc hone hstart hsafe
    rw [← horg', ← hsig'] at hone
    obtain ⟨row', hrow', hsig'', heffect'⟩ := hout'.row hc hone hstart' hsafe'
    have heq : row = row' :=
      (effects_keyed_signature hb hc).eq hrow hrow' (by rw [hsig, hsig'', hsig'])
    rw [← heffect, ← heffect', heq]
  have honce : ∀ t t' effectId effectId', Intercepts c t orgId signature →
      Intercepts c t' orgId signature → NonSafe c t → NonSafe c t' →
      Admitted c t effectId → Admitted c t' effectId' → t = t' := by
    rintro t t' effectId effectId' hcall hcall' hsafe hsafe' hadm hadm'
    obtain ⟨call, hstart, rfl, rfl⟩ := hcall
    obtain ⟨call', hstart', horg', hsig'⟩ := hcall'
    have hone' : OneOrganisation c call'.orgId (call'.signature S.hash) := by
      rw [horg', hsig']
      exact hone
    obtain ⟨ins, hins⟩ := hadm.insertedBy hc hstart hsafe (not_missed hc hone)
    obtain ⟨ins', hins'⟩ := hadm'.insertedBy hc hstart' hsafe' (not_missed hc hone')
    obtain ⟨row, hrow, hof⟩ := row_of_insertion hc hins.insertion
    obtain ⟨row', hrow', hof'⟩ := row_of_insertion hc hins'.insertion
    have heq : row = row' := by
      refine (effects_keyed_signature hb hc).eq hrow hrow' ?_
      rw [hof.callSignature, hof'.callSignature, (insertion_call hc hins.insertion).2.1,
        (insertion_call hc hins'.insertion).2.1, hins.call_eq, hins'.call_eq, hsig']
    have heffect : ins.effectId = ins'.effectId := by
      rw [← hof.effectId, ← hof'.effectId, heq]
    exact (insertion_eq_of_effectId hc hins.insertion hins'.insertion heffect).1
  refine ⟨honce, ?_⟩
  intro t t' effectId outcome hcall hcall' hsafe hsafe' hadm hne hout
  cases hadmits : outcome.admits with
  | some effectId' =>
    exact absurd (honce t t' _ _ hcall hcall' hsafe hsafe' hadm ⟨outcome, hout, hadmits⟩) hne.symm
  | none =>
    obtain ⟨first, hfirst, hfirst'⟩ := hadm
    have heffect := hsame t t' first outcome hcall hcall' hsafe hsafe' hfirst hout
    cases outcome with
    | execute | awaitingApproval => cases hadmits
    | replay effectId' result =>
      refine ⟨result, ?_⟩
      cases first with
      | replay => cases hfirst'
      | execute | awaitingApproval =>
        cases hfirst'
        exact congrArg (InterceptOutcome.replay · result) heffect.symm

/-- Two irreversible calls under one signature, both past the lookup when the first
one inserts. -/
def raceOfTwo : List (Choice (system (sample .sqlite))) :=
  [.start (.intercept (sampleCall 0)), .start (.intercept (sampleCall 0))] ++ runs 0 8 ++
    runs 1 4 ++ [draw 0 10] ++ runs 0 1 ++ [draw 1 11] ++ runs 1 2 ++ [.finish 1, draw 0 12] ++
    runs 0 5 ++ [.finish 0]

/-- The call that loses the race replays the effect of the other one. -/
theorem race_loser_replays :
    ∃ c, Reaches (sample .sqlite) unguarded c ∧ OneOrganisation c sampleOrg ⟨0⟩ ∧
      Admitted c 0 ⟨10⟩ ∧ ∃ result, Outcomes c 1 (.replay ⟨10⟩ result) := by
  obtain ⟨c, hc, hone, hcall, hcall', hsafe, hsafe', hadm, hout⟩ := exists_sample unguarded 0
    (.irreversible "") raceOfTwo (fun c =>
      OneOrganisation c sampleOrg ⟨0⟩ ∧ Intercepts c 0 sampleOrg ⟨0⟩ ∧
      Intercepts c 1 sampleOrg ⟨0⟩ ∧ NonSafe c 0 ∧ NonSafe c 1 ∧ Admitted c 0 ⟨10⟩ ∧
      outcomeTest (fun t _ => t = 1) c = true)
    (by decide +kernel)
  obtain ⟨t, outcome, hout, ht⟩ := outcomeTest_iff.mp hout
  obtain rfl := of_decide_eq_true ht
  obtain ⟨result, rfl⟩ := (admits_once_then_replays rfl hc hone).2 0 1 _ outcome hcall hcall'
    hsafe hsafe' hadm (by decide) hout
  exact ⟨c, hc, hone, hadm, result, hout⟩

/-- The sample tool, registered for the sample organisation and another one. -/
def sharedRegistry : List (OrgId × ToolRegistration) :=
  [sampleOrg, ⟨9⟩].map fun orgId =>
    (orgId, { toolName := "tool", toolVersion := "1", tier := .irreversible "" })

/-- The other organisation takes the signature of the sample call, which is then
intercepted twice. -/
def takenSignature : List (Choice (system (sample .sqlite))) :=
  [.environment (.refresh sharedRegistry),
      .start (.intercept { sampleCall 0 with orgId := ⟨9⟩ })] ++ runs 0 8 ++ [draw 0 10] ++
    runs 0 1 ++ [draw 0 11] ++ runs 0 5 ++ [.finish 0, .start (.intercept (sampleCall 0))] ++
    runs 1 7 ++ [draw 1 20] ++ runs 1 2 ++ [draw 1 21] ++ runs 1 5 ++
    [.finish 1, .start (.intercept (sampleCall 0))] ++ runs 2 7 ++ [draw 2 30] ++ runs 2 2 ++
    [draw 2 31] ++ runs 2 5 ++ [.finish 2]

/-- Both inserts are ignored for the row of the other organisation, which the lookup does not show:
both calls are told to wait for a decision. -/
theorem admitsOnce_fails_when_taken :
    ∃ c, Reaches (sample .sqlite) unguarded c ∧ ¬ AdmitsOnce c := by
  obtain ⟨c, hc, hcall, hcall', hsafe, hsafe', hadm, hadm'⟩ := exists_sample unguarded 0
    (.irreversible "") takenSignature (fun c =>
      Intercepts c 1 sampleOrg ⟨0⟩ ∧ Intercepts c 2 sampleOrg ⟨0⟩ ∧ NonSafe c 1 ∧ NonSafe c 2 ∧
      Admitted c 1 ⟨20⟩ ∧ Admitted c 2 ⟨30⟩) (by decide +kernel)
  refine ⟨c, hc, fun honce => ?_⟩
  cases honce _ _ _ _ _ _ hcall hcall' hsafe hsafe' hadm hadm'

end UndoLog
