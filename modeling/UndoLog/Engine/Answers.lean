import UndoLog.Engine.Provenance

/-!
# What replies and results say about the store

A reply was true of the store when it was given. What it said about columns that
never change is still true later, so results of calls can be read as statements
about the present store.
-/

namespace UndoLog

open Concurrent Machine Relational

variable {S : Setup} {guard : Guard (system S)} {c c' : State S} {t : ℕ} {row : EffectRow}

/-! ## Results of `intercept` -/

/-- The call `t` intercepts for an organisation under a signature. -/
def Intercepts (c : State S) (t : ℕ) (orgId : OrgId) (signature : CallSignature) : Prop :=
  ∃ call, Started c t (.intercept call) ∧ call.orgId = orgId ∧ call.signature S.hash = signature

/-- The result of an `intercept` that has returned. -/
def Outcomes (c : State S) (t : ℕ) (outcome : InterceptOutcome) : Prop :=
  Returned c t (.ok (.intercepted outcome))

/-- A returned `intercept` meets its contract. -/
theorem Outcomes.post (hc : Reaches S guard c) {call : ToolCall}
    {outcome : InterceptOutcome} (hstart : Started c t (.intercept call))
    (h : Outcomes c t outcome) : interceptPost S call (pastOf t c) (.ok outcome) := by
  have hpost : opPost S (.intercept call) (pastOf t c) (.ok (.intercepted outcome)) :=
    (contract S).post_of_returned hc.coherent hstart h
  obtain ⟨call', heq, hout⟩ := intercept_of_post hpost
  cases heq
  exact hout

/-! ## Tables after a statement -/

section QueryStep

variable {t : ℕ} {o : Oracle} {q : Query} {r : q.Ret}

section

variable (hquery : QueryStep c c' t o q r)
include hquery

/-- Every effect after a statement was there before, or the statement has inserted it. -/
theorem QueryStep.effect_origin {row' : EffectRow} (hrow' : row' ∈ (dbOf c').effects) :
    (∃ row ∈ (dbOf c).effects, row' = q.effectAfter (dbOf c).now row) ∨
    ∃ ins, insertionOf ⟨.db q, .ok r⟩ = some ins ∧ row' = ins.row S.backend (dbOf c).now := by
  rcases (Outcome.of_tx hquery.tx).effects with ⟨ins, hins, -, heffects⟩ | ⟨-, heffects⟩
  · rw [heffects] at hrow'
    rcases List.mem_append.mp hrow' with hold | hnew
    · refine .inl ⟨row', hold, ?_⟩
      cases q <;> first | rfl | cases hins
    · exact .inr ⟨ins, hins, List.mem_singleton.mp hnew⟩
  · rw [heffects] at hrow'
    obtain ⟨row, hrow, rfl⟩ := List.mem_map.mp hrow'
    exact .inl ⟨row, hrow, rfl⟩

/-- Every effect is still there after a statement, with what the statement makes of it. -/
theorem QueryStep.effect_after (hrow : row ∈ (dbOf c).effects) :
    q.effectAfter (dbOf c).now row ∈ (dbOf c').effects := by
  rcases (Outcome.of_tx hquery.tx).effects with ⟨ins, hins, -, heffects⟩ | ⟨-, heffects⟩
  · rw [heffects]
    refine List.mem_append_left _ ?_
    cases q <;> first | exact hrow | cases hins
  · rw [heffects]
    exact List.mem_map_of_mem hrow

/-- Every approval after a statement was there before, or the statement has created it. -/
theorem QueryStep.approval_origin {a' : ApprovalRequest} (ha' : a' ∈ (dbOf c').approvals) :
    (∃ a ∈ (dbOf c).approvals, a' = q.approvalAfter S.backend t (dbOf c) a) ∨
    ∃ req, q = .createApproval req ∧ a' = newApprovalRow req (dbOf c).now := by
  rcases (Outcome.of_tx hquery.tx).approvals with ⟨req, hreq, -, happrovals⟩ | ⟨-, happrovals⟩
  · rw [happrovals] at ha'
    cases q with
    | createApproval req' =>
      cases hreq
      rcases List.mem_append.mp ha' with hold | hnew
      · exact .inl ⟨a', hold, rfl⟩
      · exact .inr ⟨req, rfl, List.mem_singleton.mp hnew⟩
    | _ => cases hreq
  · rw [happrovals] at ha'
    obtain ⟨a, ha, rfl⟩ := List.mem_map.mp ha'
    exact .inl ⟨a, ha, rfl⟩

/-- Every approval is still there after a statement, with what the statement makes of
it. -/
theorem QueryStep.approval_after {a : ApprovalRequest} (ha : a ∈ (dbOf c).approvals) :
    q.approvalAfter S.backend t (dbOf c) a ∈ (dbOf c').approvals := by
  rcases (Outcome.of_tx hquery.tx).approvals with ⟨req, hreq, -, happrovals⟩ | ⟨-, happrovals⟩
  · rw [happrovals]
    refine List.mem_append_left _ ?_
    cases q <;> first | exact ha | cases hreq
  · rw [happrovals]
    exact List.mem_map_of_mem ha

end

theorem QueryStep.creation_fresh {req : ApprovalRequest} {u : Unit}
    (hquery : QueryStep c c' t o (.createApproval req) u) :
    ∀ a ∈ (dbOf c).approvals, a.approvalRequestId ≠ req.approvalRequestId := by
  rcases (Outcome.of_tx hquery.tx).approvals with ⟨req', hreq, hfresh, -⟩ | ⟨hnone, -⟩
  · obtain rfl := Option.some.inj hreq
    exact hfresh
  · cases hnone

variable (hquery : QueryStep c c' t o q r)
include hquery

/-- Every session after a statement was there before, or the statement has created it. -/
theorem QueryStep.session_origin {s' : SessionRecord} (hs' : s' ∈ (dbOf c').sessions) :
    (∃ s ∈ (dbOf c).sessions, s'.sessionId = s.sessionId ∧ s'.orgId = s.orgId ∧
      s'.state = q.sessionAfter s) ∨ ∃ orgId sessionId, q = .createSession orgId sessionId ∧
      s' = newSession orgId sessionId (dbOf c).now ∧
      ∀ s ∈ (dbOf c).sessions, s.sessionId ≠ sessionId := by
  rcases (Outcome.of_tx hquery.tx).sessions with ⟨orgId, sessionId, rfl, hfresh, hsessions⟩ |
    ⟨f, hsessions, hmoves⟩
  · rw [hsessions] at hs'
    rcases List.mem_append.mp hs' with hold | hnew
    · exact .inl ⟨s', hold, rfl, rfl, rfl⟩
    · exact .inr ⟨orgId, sessionId, rfl, List.mem_singleton.mp hnew, hfresh⟩
  · rw [hsessions] at hs'
    obtain ⟨s, hs, rfl⟩ := List.mem_map.mp hs'
    exact .inl ⟨s, hs, hmoves s⟩

/-- Every session is still there after a statement, with the state that the statement
gives it. -/
theorem QueryStep.session_after {s : SessionRecord} (hs : s ∈ (dbOf c).sessions) :
    ∃ s' ∈ (dbOf c').sessions, s'.sessionId = s.sessionId ∧ s'.orgId = s.orgId ∧
      s'.state = q.sessionAfter s := by
  rcases (Outcome.of_tx hquery.tx).sessions with ⟨orgId, sessionId, rfl, -, hsessions⟩ |
    ⟨f, hsessions, hmoves⟩
  · rw [hsessions]
    exact ⟨s, List.mem_append_left _ hs, rfl, rfl, rfl⟩
  · rw [hsessions]
    exact ⟨f s, List.mem_map_of_mem hs, hmoves s⟩

theorem QueryStep.approval_kept {a : ApprovalRequest} (ha : a ∈ (dbOf c).approvals)
    (hnot : (a.orgId, a.approvalRequestId) ∉ q.resolves S.backend t (dbOf c)) :
    a ∈ (dbOf c').approvals := by
  have hafter := hquery.approval_after ha
  rwa [Query.approvalAfter_of_not_mem hnot] at hafter

/-- An approval that a statement resolves is not pending afterwards. -/
theorem QueryStep.approval_resolved {a : ApprovalRequest} (ha : a ∈ (dbOf c).approvals)
    (hmem : (a.orgId, a.approvalRequestId) ∈ q.resolves S.backend t (dbOf c)) :
    ∃ a' ∈ (dbOf c').approvals, a'.core = a.core ∧ a'.state ≠ .pending :=
  ⟨_, hquery.approval_after ha, (q.approvalChange _ _ _ a).core, Query.approvalAfter_of_mem hmem⟩

end QueryStep

/-- What a step does to an effect: nothing, or what its statement does. -/
def EffectStep (c : State S) (choice : Choice (system S)) (c' : State S) (row row' : EffectRow) :
    Prop :=
  row' = row ∨ ∃ t o q a, choice = .run t o ∧ QueryStep c c' t o q a ∧ EffectChange q row row'

section EffectStep

variable {choice : Choice (system S)} {row row' : EffectRow}

theorem EffectStep.core (h : EffectStep c choice c' row row') : row'.core = row.core := by
  rcases h with rfl | ⟨t, o, q, a, -, -, hchange⟩
  · rfl
  · exact hchange.core

/-- Every effect is still there after a step. -/
theorem effect_step (htrans : Transition c choice c') (hrow : row ∈ (dbOf c).effects) :
    ∃ row' ∈ (dbOf c').effects, EffectStep c choice c' row row' := by
  rcases step_cases htrans with ⟨event, hquiet⟩ | ⟨t, o, q, a, hchoice, hquery⟩
  · rw [hquiet.tables.effects]
    exact ⟨row, hrow, .inl rfl⟩
  · exact ⟨_, hquery.effect_after hrow,
      .inr ⟨t, o, q, a, hchoice, hquery, q.effectChange _ row⟩⟩

/-- Every effect was there before the step or has just been inserted. -/
theorem effect_origin (htrans : Transition c choice c') (hrow' : row' ∈ (dbOf c').effects) :
    (∃ row ∈ (dbOf c).effects, EffectStep c choice c' row row') ∨
    ∃ t o q a ins, choice = .run t o ∧ QueryStep c c' t o q a ∧
      insertionOf ⟨.db q, .ok a⟩ = some ins ∧ row' = ins.row S.backend (dbOf c).now := by
  rcases step_cases htrans with ⟨event, hquiet⟩ | ⟨t, o, q, a, hchoice, hquery⟩
  · rw [hquiet.tables.effects] at hrow'
    exact .inl ⟨row', hrow', .inl rfl⟩
  · rcases hquery.effect_origin hrow' with ⟨row, hrow, rfl⟩ | ⟨ins, hins, hnew⟩
    · exact .inl ⟨row, hrow, .inr ⟨t, o, q, a, hchoice, hquery, q.effectChange _ row⟩⟩
    · exact .inr ⟨t, o, q, a, ins, hchoice, hquery, hins, hnew⟩

/-- An effect keeps its fixed columns through every step. -/
theorem effect_stays (htrans : Transition c choice c') (hrow : row ∈ (dbOf c).effects) :
    ∃ row' ∈ (dbOf c').effects, row'.core = row.core := by
  obtain ⟨row', hrow', hstep⟩ := effect_step htrans hrow
  exact ⟨row', hrow', hstep.core⟩

theorem effect_later (hc : Reaches S guard c) (hrun : Run guard c c')
    (hrow : row ∈ (dbOf c).effects) : ∃ row' ∈ (dbOf c').effects, row'.core = row.core := by
  refine hrun.invariant (P := fun d => ∃ row' ∈ (dbOf d).effects, row'.core = row.core) hc
    ⟨row, hrow, rfl⟩ ?_
  rintro d choice d' - ⟨row₁, hrow₁, hcore⟩ - htrans
  obtain ⟨row₂, hrow₂, hcore'⟩ := effect_stays htrans hrow₁
  exact ⟨row₂, hrow₂, hcore'.trans hcore⟩

/-- The rule for effects that may run: what is true of an effect when it is marked as executing
or approved, and stays so, is true of every effect that is executing, approved or committed. -/
@[elab_as_elim]
theorem underway_invariant {P : State S → EffectRow → Prop} (hc : Reaches S guard c)
    (hkeep : ∀ {c choice c' row row'}, P c row → Transition c choice c' → row'.core = row.core →
      P c' row')
    (hexecuting : ∀ {c c' t o row row'}, Reaches S guard c → row ∈ (dbOf c).effects →
      QueryStep c c' t o (.setExecuting row.orgId row.effectId) () → row'.core = row.core →
      P c' row')
    (happroved : ∀ {c choice c' t o row row' id actor args approval version}, Reaches S guard c →
      row ∈ (dbOf c).effects → row.effectId = approval.effectId → Transition c choice c' →
      QueryStep c c' t o (.approve row.orgId id actor args approval) version →
      row'.core = row.core → P c' row') :
    ∀ row ∈ (dbOf c).effects, row.state ∈ [.executing, .approved, .committed] → P c row := by
  refine rows_invariant hc (fun c h row hrow => absurd hrow (h.effects row)) ?_
  intro c choice c' hc ih _ htrans row' hrow' hstate
  rcases effect_origin htrans hrow' with ⟨row, hrow, hstep⟩ | ⟨t, o, q, r, ins, -, -, -, rfl⟩
  · have hcore := hstep.core
    rcases hstep with rfl | ⟨t, o, q, r, -, hquery, hchange⟩
    · exact hkeep (ih row' hrow hstate) htrans rfl
    · cases hchange with
      | same | linked => exact hkeep (ih _ hrow hstate) htrans hcore
      | replayed | failed | rejected | compensationFailed => simp at hstate
      | committed hin =>
        have hbefore := List.mem_append_left [EffectState.committed] (ofEffectIn_iff.mp hin).2
        exact hkeep (ih row hrow hbefore) htrans hcore
      | executing hin =>
        obtain ⟨⟨rfl, rfl⟩, -⟩ := ofEffectIn_iff.mp hin
        exact hexecuting hc hrow hquery hcore
      | approved args hin =>
        obtain ⟨⟨heffect, rfl⟩, -⟩ := ofEffectIn_iff.mp hin
        exact happroved hc hrow heffect htrans hquery hcore
  · simp [Insertion.row, newEffectRow] at hstate

end EffectStep

variable {orgId : OrgId} {ins : Insertion} {pick : ℕ}
    {signature : CallSignature} {db db' : Db} {record : EffectRecord}
  {r : Ran Stmt Stmt.Ret UndoLogError}

section ApprovalStep

variable {choice : Choice (system S)} {a a' : ApprovalRequest}

/-- What a step does to an approval: nothing, or what its statement does. -/
def ApprovalStep (c : State S) (choice : Choice (system S)) (c' : State S)
    (a a' : ApprovalRequest) : Prop :=
  a' = a ∨ ∃ t o q r, choice = .run t o ∧ QueryStep c c' t o q r ∧
    ApprovalChange (q.timeoutWrites S.backend t (dbOf c)) q a a'

theorem ApprovalStep.core (h : ApprovalStep c choice c' a a') : a'.core = a.core := by
  rcases h with rfl | ⟨t, o, q, r, -, -, hchange⟩
  · rfl
  · exact hchange.core

theorem ApprovalStep.not_pending (h : ApprovalStep c choice c' a a') (hstate : a.state ≠ .pending) :
    a'.state ≠ .pending := by
  intro hpending
  rcases h with rfl | ⟨t, o, q, r, -, -, hchange⟩
  · exact hstate hpending
  · rw [hchange.pending hpending] at hpending
    exact hstate hpending

/-- Every approval is still there after a step. -/
theorem approval_step (htrans : Transition c choice c') (ha : a ∈ (dbOf c).approvals) :
    ∃ a' ∈ (dbOf c').approvals, ApprovalStep c choice c' a a' := by
  rcases step_cases htrans with ⟨event, hquiet⟩ | ⟨t, o, q, r, hchoice, hquery⟩
  · rw [hquiet.tables.approvals]
    exact ⟨a, ha, .inl rfl⟩
  · exact ⟨_, hquery.approval_after ha,
      .inr ⟨t, o, q, r, hchoice, hquery, q.approvalChange _ _ _ a⟩⟩

/-- An approval keeps its fixed columns through every step. -/
theorem approval_stays (htrans : Transition c choice c') (ha : a ∈ (dbOf c).approvals) :
    ∃ a' ∈ (dbOf c').approvals, a'.core = a.core := by
  obtain ⟨a', ha', hstep⟩ := approval_step htrans ha
  exact ⟨a', ha', hstep.core⟩

/-- What a call has read about an approval is still true of its fixed columns. -/
theorem approval_read (hc : Reaches S guard c) {id : ApprovalRequestId}
    {approval : ApprovalRequest} (h : Succeeded c t (.getApproval orgId id) (some approval)) :
    ∃ a ∈ (dbOf c).approvals, a.core = approval.core ∧ a.approvalRequestId = id ∧
      a.orgId = orgId := by
  refine h.since hc ?_ ?_
  · intro c c' o _ _ htrans hquery
    have htx : getApproval orgId id (dbOf c) = .ok (some approval, dbOf c') := hquery.tx
    obtain ⟨hread, -⟩ := Tx.query_ok.mp htx
    have hfound := Except.ok.inj hread
    obtain ⟨hid, horg⟩ := ofApproval_iff.mp (List.find?_some hfound)
    obtain ⟨a, ha, hcore⟩ := approval_stays htrans (List.mem_of_find?_eq_some hfound)
    obtain ⟨hid', horg', -⟩ := core_approval hcore
    exact ⟨a, ha, hcore, hid'.trans hid, horg'.trans horg⟩
  · rintro c choice c' _ _ htrans ⟨a, ha, hcore, hid, horg⟩
    obtain ⟨a', ha', hcore'⟩ := approval_stays htrans ha
    obtain ⟨hid', horg', -⟩ := core_approval hcore'
    exact ⟨a', ha', hcore'.trans hcore, hid'.trans hid, horg'.trans horg⟩

end ApprovalStep

section SessionStep

variable {choice : Choice (system S)} {s s' : SessionRecord}

/-- What a step does to a session: it stays who it is, and its state is the old one or
what the statement makes of it. -/
structure SessionStep (c : State S) (choice : Choice (system S)) (c' : State S)
    (s s' : SessionRecord) : Prop where
  sessionId : s'.sessionId = s.sessionId
  orgId : s'.orgId = s.orgId
  state : s'.state = s.state ∨ ∃ t o q r, choice = .run t o ∧ QueryStep c c' t o q r ∧
    s'.state = q.sessionAfter s

/-- Every session is still there after a step. -/
theorem session_step (htrans : Transition c choice c') (hs : s ∈ (dbOf c).sessions) :
    ∃ s' ∈ (dbOf c').sessions, SessionStep c choice c' s s' := by
  rcases step_cases htrans with ⟨event, hquiet⟩ | ⟨t, o, q, r, hchoice, hquery⟩
  · rw [hquiet.tables.sessions]
    exact ⟨s, hs, rfl, rfl, .inl rfl⟩
  · obtain ⟨s', hs', hid, horg, hstate⟩ := hquery.session_after hs
    exact ⟨s', hs', hid, horg, .inr ⟨t, o, q, r, hchoice, hquery, hstate⟩⟩

theorem session_origin (htrans : Transition c choice c') (hs' : s' ∈ (dbOf c').sessions) :
    (∃ s ∈ (dbOf c).sessions, SessionStep c choice c' s s') ∨
    ∃ t o orgId sessionId, choice = .run t o ∧
      QueryStep c c' t o (.createSession orgId sessionId) () ∧
      s' = newSession orgId sessionId (dbOf c).now := by
  rcases step_cases htrans with ⟨event, hquiet⟩ | ⟨t, o, q, r, hchoice, hquery⟩
  · rw [hquiet.tables.sessions] at hs'
    exact .inl ⟨s', hs', rfl, rfl, .inl rfl⟩
  · rcases hquery.session_origin hs' with ⟨s, hs, hid, horg, hstate⟩ |
      ⟨orgId, sessionId, rfl, hnew, -⟩
    · exact .inl ⟨s, hs, hid, horg, .inr ⟨t, o, q, r, hchoice, hquery, hstate⟩⟩
    · exact .inr ⟨t, o, orgId, sessionId, hchoice, hquery, hnew⟩

end SessionStep

/-! ## Lookups -/

theorem findBySignature_none (h : findBySignature pick orgId signature db = .ok (none, db')) :
    ∀ row ∈ db.effects, ¬(row.callSignature = signature ∧ row.orgId = orgId) := by
  obtain ⟨hread, -⟩ := Tx.query_ok.mp h
  split at hread
  · next row hrow =>
    cases hmap : mapEffectRow row with
    | error | ok => simp [hmap, Except.map] at hread
  · next hnone =>
    intro row hrow hsame
    have hmem : row ∈ db.effects.filter
        fun row => row.callSignature = signature ∧ row.orgId = orgId :=
      List.mem_filter.mpr ⟨hrow, by simpa using hsame⟩
    rw [limitOne_eq_none.mp hnone] at hmem
    cases hmem

theorem findBySignature_some
    (h : findBySignature pick orgId signature db = .ok (some record, db')) :
    ∃ row ∈ db.effects, row.callSignature = signature ∧ row.orgId = orgId ∧
      mapEffectRow row = .ok record := by
  obtain ⟨hread, -⟩ := Tx.query_ok.mp h
  split at hread
  · next row hrow =>
    have hmem := List.mem_filter.mp (limitOne_mem hrow)
    have hsame : row.callSignature = signature ∧ row.orgId = orgId := by simpa using hmem.2
    refine ⟨row, hmem.1, hsame.1, hsame.2, ?_⟩
    cases hmap : mapEffectRow row with
    | error e => simp [hmap, Except.map] at hread
    | ok record' =>
      simp only [hmap, Except.map, Except.ok.injEq, Option.some.injEq] at hread
      rw [hread]
  · cases hread

/-- A mapped row keeps its identifier. -/
theorem mapEffectRow_effectId
    (h : mapEffectRow row = .ok record) : record.effectId = row.effectId := by
  simp only [mapEffectRow] at h
  split at h
  · cases h
    rfl
  · split at h
    · cases h
      rfl
    · cases h

theorem mapEffectRow_result {result : ToolResult} (h : row.resultSnapshot = some result.toValue) :
    ∃ record, mapEffectRow row = .ok record ∧ record.effectId = row.effectId ∧
      record.resultSnapshot = some result := by
  simp only [mapEffectRow, h, ToolResult.fromValue_toValue]
  exact ⟨_, rfl, rfl, rfl⟩

theorem found_row (hc : Reaches S guard c)
    (h : Succeeded c t (.findBySignature orgId signature) (some record)) :
    ∃ row ∈ (dbOf c).effects, row.effectId = record.effectId ∧ row.orgId = orgId ∧
      row.callSignature = signature := by
  refine h.since hc ?_ ?_
  · intro c c' o _ _ htrans hquery
    obtain ⟨row, hrow, hsig, horg, hmap⟩ := findBySignature_some hquery.tx
    obtain ⟨row', hrow', hcore⟩ := effect_stays htrans hrow
    rw [mapEffectRow_effectId hmap, ← hsig, ← horg]
    exact ⟨row', hrow', core_effectId hcore, core_orgId hcore, core_callSignature hcore⟩
  · rintro c choice c' _ _ htrans ⟨row, hrow, heffect, horg, hsig⟩
    obtain ⟨row', hrow', hcore⟩ := effect_stays htrans hrow
    rw [← heffect, ← hsig, ← horg]
    exact ⟨row', hrow', core_effectId hcore, core_orgId hcore, core_callSignature hcore⟩

/-! ## Inserts -/

theorem ignored_isInsert
    (h : ignoredOf r = some ins) : r.1.isInsert = true ∧ insertionOf r = none := by
  obtain ⟨st, reply⟩ := r
  cases st with
  | app step => cases h
  | db q =>
    cases q with
    | insertCompensable | insertIrreversible =>
      cases reply with
      | error e => cases h
      | ok a =>
        cases a with
        | false => exact ⟨rfl, rfl⟩
        | true => cases h
    | _ => cases h

theorem Outcome.of_ignored {b : Backend} {q : Query} {a : q.Ret} (h : Outcome b t db q a db')
    (hins : ignoredOf ⟨.db q, .ok a⟩ = some ins) : b = .sqlite ∧ ∃ row ∈ db.effects,
      row.effectId = ins.effectId ∨ row.callSignature = ins.signature := by
  cases h with
  | ignored hins' hb hclash =>
    rw [hins] at hins'
    cases hins'
    exact ⟨hb, hclash⟩
  | inserted hins' =>
    rw [(ignored_isInsert hins).2] at hins'
    cases hins'
  | read hread => cases q <;> first | cases hins | cases hread
  | _ => cases hins

theorem ignored_row (hc : Reaches S guard c) {q : Query} {a : q.Ret}
    (h : Succeeded c t q a) (hins : ignoredOf ⟨.db q, .ok a⟩ = some ins) :
    S.backend = .sqlite ∧ ∃ row ∈ (dbOf c).effects,
      row.effectId = ins.effectId ∨ row.callSignature = ins.signature := by
  refine h.since hc ?_ ?_
  · intro c c' o _ _ htrans hquery
    obtain ⟨hb, row, hrow, hsame⟩ := (Outcome.of_tx hquery.tx).of_ignored hins
    obtain ⟨row', hrow', hcore⟩ := effect_stays htrans hrow
    rw [← core_effectId hcore, ← core_callSignature hcore] at hsame
    exact ⟨hb, row', hrow', hsame⟩
  · rintro c choice c' _ _ htrans ⟨hb, row, hrow, hsame⟩
    obtain ⟨row', hrow', hcore⟩ := effect_stays htrans hrow
    rw [← core_effectId hcore, ← core_callSignature hcore] at hsame
    exact ⟨hb, row', hrow', hsame⟩

theorem ignored_call (hc : Reaches S guard c) (hr : r ∈ pastOf t c) (h : ignoredOf r = some ins) :
    Started c t (.intercept ins.call) ∧ ins.signature = ins.call.signature S.hash ∧
      (t, ins.effectId.uuid) ∈ draws c := by
  obtain ⟨q, a, rfl⟩ := ignoredOf_successOnly.of_some h
  exact (succeeded_iff_done.mpr hr).insert_call hc (.inr h)

theorem ignored_signature (hc : Reaches S guard c) (hr : r ∈ pastOf t c)
    (h : ignoredOf r = some ins) : ∃ row ∈ (dbOf c).effects, row.callSignature = ins.signature := by
  obtain ⟨-, -, hdraw⟩ := ignored_call hc hr h
  have hrow : ∃ row ∈ (dbOf c).effects,
      row.effectId = ins.effectId ∨ row.callSignature = ins.signature := by
    obtain ⟨q, a, rfl⟩ := ignoredOf_successOnly.of_some h
    exact (ignored_row hc (succeeded_iff_done.mpr hr) h).2
  obtain ⟨row, hrow, heffect | hsig⟩ := hrow
  · -- a row with the identifier would have been inserted by the same call
    exfalso
    obtain ⟨t', ins', hins', hof⟩ := insertion_of_row hc hrow
    obtain ⟨-, -, hdraw'⟩ := insertion_call hc hins'
    rw [← hof.effectId, heffect] at hdraw'
    obtain rfl := draw_unique hc hdraw hdraw'
    obtain ⟨r', hr', hkind', hins''⟩ := insertion_mem_past hins'
    obtain ⟨hkind, hnone⟩ := ignored_isInsert h
    obtain rfl := insert_once hc hr hr' hkind hkind'
    rw [hnone] at hins''
    cases hins''
  · exact ⟨row, hrow, hsig⟩

/-- All calls under a signature are of one organisation. -/
def OneOrganisation (c : State S) (orgId : OrgId) (signature : CallSignature) : Prop :=
  ∀ t call, Started c t (.intercept call) → call.signature S.hash = signature →
    call.orgId = orgId

/-- When all calls under a signature are of one organisation, a call whose insert
was ignored finds the row in its way. -/
theorem not_missed (hc : Reaches S guard c) (hone : OneOrganisation c orgId signature) :
    ¬ Missed orgId signature (pastOf t c) := by
  rintro ⟨before, hbefore, r, hr, ins, hins⟩
  obtain ⟨earlier, later, htrace, rfl⟩ := ranBy_split (M := system S) hbefore
  -- look at the lookup that found nothing
  obtain ⟨d, choice, d', hrec⟩ := hc.recorded htrace
  obtain ⟨o, -, hquery⟩ := QueryStep.of_trace hrec.step hrec.trace'
  have hd := hrec.reachable
  rw [← hrec.trace] at hr
  obtain ⟨op, hstart, hpre⟩ := hquery.pre hd
  obtain ⟨call, rfl, -, hsig, -⟩ := intercept_of_pre hpre rfl
  obtain ⟨hstart', hsig', -⟩ := ignored_call hd hr hins
  obtain ⟨row, hrow, hrowsig⟩ := ignored_signature hd hr hins
  obtain ⟨t', ins', hins', hof⟩ := insertion_of_row hd hrow
  obtain ⟨hstart'', hsig'', -⟩ := insertion_call hd hins'
  have hcall : call = ins.call := by
    have hop := hstart.unique hd hstart'
    cases hop
    rfl
  have hσ : row.callSignature = signature := by
    rw [hrowsig, hsig', ← hcall, hsig]
  have horg : row.orgId = orgId := by
    rw [hof.orgId]
    refine hone t' ins'.call ?_ (by rw [← hsig'', ← hof.callSignature, hσ])
    rw [Started, htrace, ← hrec.trace]
    exact List.mem_append_left _ hstart''
  exact findBySignature_none hquery.tx row hrow ⟨hσ, horg⟩

end UndoLog
