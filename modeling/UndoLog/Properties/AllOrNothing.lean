import UndoLog.Engine.Decisions
import UndoLog.Engine.Known
import UndoLog.Engine.Schedule

/-!
# Decisions are all or nothing

When `approve` or `reject` returns an error, none of its statements has changed a table. When
it returns normally, its transaction has replaced the rows of the approval, of its effect and
of its session, and has added one audit event. The update of the session in `reject` is not
checked: when the session belongs to another organisation, no session is halted.
-/

namespace UndoLog

open Concurrent Machine Relational

variable {S : Setup} {guard : Guard (system S)} {c c' final : State S}

/-- The approval that a call decides on. -/
def Op.decides : Op → Option (OrgId × ApprovalRequestId)
  | .approve orgId id _ _ | .reject orgId id _ => some (orgId, id)
  | _ => none

/-- What a call of `approve` returns: the approved arguments, or else the proposed ones,
and the effect carries them. -/
def Settles (a : ApprovalRequest) (row : EffectRow) : Op → OpResult → Prop
  | .approve _ _ _ approvedArgs, .approved result =>
      result.args = approvedArgs.getD a.proposedArgs ∧ result.args.eq row.argsSnapshot = true
  | _, _ => True

/-- Exactly one approval, its effect and its session are replaced, and one audit event is
added. -/
def Decided (op : Op) (result : OpResult) (db db' : Db) : Prop :=
  ∃ a a' row row' s s' event,
    op.decides = some (a.orgId, a.approvalRequestId) ∧
    Replaces db.approvals a a' db'.approvals ∧ a.state = .pending ∧ a'.state ≠ .pending ∧
    Replaces db.effects row row' db'.effects ∧ row.effectId = a.effectId ∧ row.orgId = a.orgId ∧
    Replaces db.sessions s s' db'.sessions ∧ s.sessionId = a.sessionId ∧ s.orgId = a.orgId ∧
    db'.events = db.events ++ [event] ∧ event.approvalRequestId = a.approvalRequestId ∧
    db'.undo = db.undo ∧ db'.orgs = db.orgs ∧ Settles a row' op result

/-- A decision is all or nothing: after an error no statement of the call has changed a
table; otherwise one of them has decided and all others have changed nothing. -/
def AllOrNothing (guard : Guard (system S)) (final : State S) (t : ℕ) (op : Op) :
    Except UndoLogError OpResult → Prop
  | .error _ => ∀ before st reply d choice d',
      Recorded (Initial S) guard before (.ran t st reply) d choice d' final →
      SameTables (dbOf d) (dbOf d')
  | .ok result => ∃ before st reply after, final.trace = before ++ .ran t st reply :: after ∧
      ∀ before' st' reply' d choice d',
        Recorded (Initial S) guard before' (.ran t st' reply') d choice d' final →
        (before' = before → Decided op result (dbOf d) (dbOf d')) ∧
        (before' ≠ before → SameTables (dbOf d) (dbOf d'))

/-- The organisation and the session of a rejecting transaction. -/
def Stmt.rejects : Stmt → Option (OrgId × SessionId)
  | .db (.reject orgId _ _ approval) => some (orgId, approval.sessionId)
  | _ => none

/-- A rejection finds the session of its organisation. -/
def RejectsOwnSession (c : State S) (_ : ℕ) (st : (system S).Stmt) : Prop :=
  ∀ key ∈ Stmt.rejects st, ∃ s ∈ (dbOf c).sessions, s.sessionId = key.2 ∧ s.orgId = key.1

instance (c : State S) (t : ℕ) (st : (system S).Stmt) : Decidable (RejectsOwnSession c t st) := by
  unfold RejectsOwnSession
  infer_instance

/-! ## Statements that do not decide -/

/-- The approval that a successful statement decides on. -/
def decisionOf : Ran Stmt Stmt.Ret UndoLogError → Option (OrgId × ApprovalRequestId)
  | ⟨.db (.approve orgId id _ _ _), .ok _⟩
  | ⟨.db (.reject orgId id _ _), .ok _⟩ => some (orgId, id)
  | _ => none

variable {t : ℕ} {orgId : OrgId} {o : Oracle} {st : Stmt} {reply : Except UndoLogError st.Ret}
    {choice : Choice (system S)} {s : SessionRecord} {row : EffectRow} {approval : ApprovalRequest}
    {op : Op} {actor : String}

theorem sameTables_of_not_decision (hc : Reaches S guard c)
    (hop : ∀ op, Started c t op → op.decides ≠ none) (htrans : Transition c choice c')
    (htrace : c'.trace = c.trace ++ [.ran t st reply]) (hnot : decisionOf ⟨st, reply⟩ = none) :
    SameTables (dbOf c) (dbOf c') := by
  rcases step_cases htrans with ⟨event, hquiet⟩ | ⟨t', o, q, r, -, hquery⟩
  · exact hquiet.tables
  · have hevent := List.append_cancel_left (hquery.trace.symm.trans htrace)
    cases hevent
    obtain ⟨op, hstart, hpre⟩ := hquery.pre hc
    have hread : ∃ orgId id, q = .getApproval orgId id := by
      cases op with
      | approve | reject =>
        cases q with
        | getApproval orgId id => exact ⟨orgId, id, rfl⟩
        | approve | reject => cases hnot
        | _ => cases hpre
      | _ => exact absurd rfl (hop _ hstart)
    obtain ⟨orgId, id, rfl⟩ := hread
    have htx : getApproval orgId id (dbOf c) = .ok (r, dbOf c') := hquery.tx
    rw [(Tx.query_ok.mp htx).2]
    exact .refl _

variable {before : List (SystemEvent S)} {st' : Stmt} {sessionId : SessionId} {result : OpResult}

theorem not_decided_before {d d' : State S}
    (h : Recorded (Initial S) guard before (.ran t st reply) d choice d' final)
    (hdecides : decisionOf ⟨st, reply⟩ ≠ none) {reply' : Except UndoLogError st'.Ret}
    (hmem : Event.ran (M := system S) t st' reply' ∈ before) : decisionOf ⟨st', reply'⟩ = none := by
  cases st with
  | app step => exact absurd rfl hdecides
  | db q =>
    cases reply with
    | error e => cases q <;> exact absurd rfl hdecides
    | ok r =>
      obtain ⟨o, rfl, hquery⟩ := QueryStep.of_trace h.step h.trace'
      obtain ⟨op, -, hpre⟩ := hquery.pre h.reachable
      rw [← h.trace] at hmem
      have hpast : _ ∈ pastOf t d := mem_pastOf.mpr hmem
      cases q with
      | approve | reject =>
        rw [past_of_decides hpre rfl] at hpast
        cases List.mem_singleton.mp hpast
        rfl
      | _ => exact absurd rfl hdecides

/-! ## Transactions that decide -/

theorem discountPendingApprovals_confined (resolved : List ApprovalRequest)
    (hresolved : ∀ a ∈ resolved, a.sessionId = sessionId) (sessions : List SessionRecord) :
    ∃ f, discountPendingApprovals resolved sessions = sessions.map f ∧
      Confined SessionRecord.sessionId sessionId f := by
  induction resolved generalizing sessions with
  | nil => exact ⟨_, (List.map_id' _).symm, .id⟩
  | cons a rest ih =>
    obtain rfl := hresolved a List.mem_cons_self
    obtain ⟨g, hg, hconfined⟩ := ih (fun b hb => hresolved b (List.mem_cons_of_mem _ hb))
      (updateWhere (fun s => s.sessionId = a.sessionId)
        (fun s => { s with approvalsPending := s.approvalsPending - 1 }) sessions)
    have hfirst : Confined SessionRecord.sessionId a.sessionId
        (updateRow (fun s => s.sessionId = a.sessionId)
          fun s => { s with approvalsPending := s.approvalsPending - 1 }) :=
      .updateRow (fun _ => rfl) fun s hs => of_decide_eq_true hs
    refine ⟨_, ?_, hconfined.comp hfirst⟩
    change discountPendingApprovals rest _ = _
    rw [hg, updateWhere, List.map_map]

variable {id : ApprovalRequestId} {a : ApprovalRequest}

/-- A decision on the approval of the table replaces one session, if it has one. -/
theorem decided_sessions (hc : Reaches S guard c) {p : SessionRecord → Bool}
    {f : SessionRecord → SessionRecord}
    (happroval : ∀ a ∈ (dbOf c).approvals, a.approvalRequestId = id → a.sessionId = sessionId)
    (hf : ∀ s, (f s).sessionId = s.sessionId) (hp : ∀ s, p s = true → s.sessionId = sessionId)
    (hs : s ∈ (dbOf c).sessions) (hid : s.sessionId = sessionId) :
    ∃ s', Replaces (dbOf c).sessions s s'
      (updateWhere p f (discountedSessions S.backend orgId id (dbOf c))) := by
  have hconfined : ∃ g, discountedSessions S.backend orgId id (dbOf c) = (dbOf c).sessions.map g ∧
      Confined SessionRecord.sessionId sessionId g := by
    cases hb : S.backend with
    | sqlite => exact ⟨_, (List.map_id' _).symm, .id⟩
    | postgres =>
      refine discountPendingApprovals_confined _ ?_ _
      intro a ha
      obtain ⟨hmem, hrow⟩ := List.mem_filter.mp ha
      exact happroval a hmem (ofPendingApproval_iff.mp hrow).1.1
  obtain ⟨g, hg, hconfined⟩ := hconfined
  have hcomp := Confined.comp (Confined.updateRow hf hp) hconfined
  rw [hg, updateWhere, List.map_map]
  rw [← hid] at hcomp
  exact ⟨_, (sessions_keyed hc).replaces hs hcomp⟩

/-! ## Arguments -/

theorem snapshot_of_undecided (hc : Reaches S guard c) :
    ∀ row ∈ (dbOf c).effects, ∀ t ins, (t, ins) ∈ insertions c → row.effectId = ins.effectId →
      (∀ a ∈ (dbOf c).approvals, a.effectId = ins.effectId → a.state = .pending) →
      row.argsSnapshot = ins.call.args := by
  refine rows_invariant hc (fun c h row hrow => absurd hrow (h.effects row)) ?_
  intro c choice c' hc ih hguard htrans row' hrow' t ins hins heffect hundecided
  have hc' := hc.transition hguard htrans
  rcases step_cases htrans with ⟨event, hquiet⟩ | ⟨t', o, q, r, -, hquery⟩
  · rw [hquiet.tables.effects] at hrow'
    rw [hquiet.tables.approvals] at hundecided
    rw [insertions, hquiet.collect insertionOf_successOnly] at hins
    exact ih row' hrow' t ins hins heffect hundecided
  · rcases hquery.effect_origin hrow' with ⟨row, hrow, rfl⟩ | ⟨ins', hins', rfl⟩
    · have hchange := q.effectChange (dbOf c).now row
      have hid := (core_effectId hchange.core).symm.trans heffect
      -- the row was there, so it is an old insertion
      obtain ⟨t₀, ins₀, hins₀, hof⟩ := insertion_of_row hc hrow
      obtain ⟨rfl, rfl⟩ := insertion_eq_of_effectId hc' hins
        (collect_subset htrans.subset hins₀) (hid.symm.trans hof.effectId)
      have hbefore : row.argsSnapshot = ins.call.args := by
        refine ih row hrow t ins hins₀ hid fun a ha haeffect => ?_
        have hcore := (q.approvalChange S.backend t' (dbOf c) a).core
        have hpending := hundecided _ (hquery.approval_after ha)
          ((core_approval hcore).2.2.2.1.trans haeffect)
        rw [← (q.approvalChange S.backend t' (dbOf c) a).pending hpending]
        exact hpending
      generalize q.effectAfter (dbOf c).now row = row' at hchange
      cases hchange with
      | approved args hin =>
        -- the approval that the transaction decides is the one of the effect
        obtain ⟨a, ha, hcore, -, hmem⟩ := hquery.decides_met hc rfl
        obtain ⟨-, -, -, haeffect, -⟩ := core_approval hcore
        obtain ⟨⟨hrowid, -⟩, -⟩ := ofEffectIn_iff.mp hin
        obtain ⟨a', ha', hcore', hstate⟩ := hquery.approval_resolved ha hmem
        obtain ⟨-, -, -, haeffect', -⟩ := core_approval hcore'
        exact absurd (hundecided a' ha'
          (haeffect'.trans (haeffect.trans (hrowid.symm.trans hid)))) hstate
      | _ => exact hbefore
    · have hnew : (t', ins') ∈ insertions c' := by
        rw [insertions, hquery.collect_some hins']
        exact List.mem_concat_self
      obtain ⟨-, rfl⟩ := insertion_eq_of_effectId hc' hins hnew heffect.symm
      rfl

theorem snapshot_of_pending (hc : Reaches S guard c) (ha : a ∈ (dbOf c).approvals)
    (hpending : a.state = .pending) (hrow : row ∈ (dbOf c).effects)
    (heffect : row.effectId = a.effectId) : row.argsSnapshot = a.proposedArgs := by
  obtain ⟨t, ins, hins, hof⟩ := insertion_of_row hc hrow
  obtain ⟨t', req, hreq, haof⟩ := creation_of_approval hc ha
  obtain ⟨call, inserted, hcreated⟩ := creation_createdBy hc hreq
  obtain ⟨-, -, rfl, -⟩ := hcreated.insertion hc hins
    (hof.effectId.symm.trans (heffect.trans haof.effectId))
  obtain ⟨reason, now, -, hrequest⟩ := hcreated.request
  have hproposed : req.proposedArgs = ins.call.args := by
    rw [hrequest]
    rfl
  rw [haof.proposedArgs, hproposed]
  refine snapshot_of_undecided hc row hrow t ins hins hof.effectId fun b hb hbeffect => ?_
  obtain rfl := approval_eq_of_effectId hc ha hb
    (heffect.symm.trans (hof.effectId.trans hbeffect.symm))
  exact hpending

/-! ## The calls -/

section Decides

variable {q : Query} {r : q.Ret} (hc : Reaches S guard c) (hquery : QueryStep c c' t o q r)
  (hq : q.decides = some (orgId, id, approval))
include hc hquery hq

theorem decided_approvals (ha : a ∈ (dbOf c).approvals) (hid : a.approvalRequestId = id) :
    Replaces (dbOf c).approvals a
      (q.approvalAfter S.backend t (dbOf c) a) (dbOf c').approvals := by
  rcases (Outcome.of_tx hquery.tx).approvals with ⟨req, hreq, -⟩ | ⟨-, happrovals⟩
  · cases q <;> cases hq <;> cases hreq
  · rw [happrovals]
    refine (approvals_keyed hc).replaces ha fun b => ⟨?_, fun hne => ?_⟩
    · exact (core_approval (q.approvalChange S.backend t (dbOf c) b).core).1
    · refine Query.approvalAfter_of_not_mem fun hmem => hne ?_
      rw [Query.resolves_of_decides hq] at hmem
      exact (Prod.mk.inj (List.mem_singleton.mp hmem)).2.trans hid.symm

theorem decided_effects (hrow : row ∈ (dbOf c).effects) (hid : row.effectId = approval.effectId) :
    Replaces (dbOf c).effects row (q.effectAfter (dbOf c).now row) (dbOf c').effects := by
  rcases (Outcome.of_tx hquery.tx).effects with ⟨ins, hins, -⟩ | ⟨-, heffects⟩
  · cases q <;> cases hq <;> cases hins
  · rw [heffects]
    refine (effects_keyed hc).replaces hrow fun other => ⟨?_, fun hne => ?_⟩
    · exact core_effectId (q.effectChange _ other).core
    · have hchange := q.effectChange (dbOf c).now other
      generalize q.effectAfter (dbOf c).now other = other' at hchange
      cases hchange with
      | same => rfl
      | approved args hin | rejected hin =>
        cases hq
        exact absurd ((ofEffectIn_iff.mp hin).1.1.trans hid.symm) hne
      | _ => cases hq

theorem decided_of_query {s' : SessionRecord} (hop : op.decides = some (orgId, id))
    (hsessions : Replaces (dbOf c).sessions s s' (dbOf c').sessions)
    (hsid : s.sessionId = approval.sessionId) (hsorg : s.orgId = orgId)
    (hsettles : ∀ a ∈ (dbOf c).approvals, a.state = .pending → a.core = approval.core →
      ∀ row ∈ (dbOf c).effects, ofEffectIn orgId approval.effectId [.pending] row = true →
      Settles a (q.effectAfter (dbOf c).now row) op result) :
    Decided op result (dbOf c) (dbOf c') := by
  obtain ⟨a, ha, hcore, hpending, hmem⟩ := hquery.decides_met hc hq
  obtain ⟨-, row, hrow, hin⟩ := hquery.decides_rows hq
  obtain ⟨⟨haid, haorg⟩, hstate⟩ := ofPendingApproval_iff.mp hpending
  obtain ⟨⟨hrowid, hroworg⟩, -⟩ := ofEffectIn_iff.mp hin
  obtain ⟨-, -, hasession, haeffect, -⟩ := core_approval hcore
  obtain ⟨events, hevents, hkeys⟩ := (Outcome.of_tx hquery.tx).events
  rw [Query.resolves_of_decides hq] at hkeys
  obtain ⟨event, rfl, hkey⟩ := List.map_eq_singleton_iff.mp hkeys
  have hundo : (dbOf c').undo = (dbOf c).undo := by
    rcases (Outcome.of_tx hquery.tx).undo with ⟨push, hpush, -⟩ | ⟨-, hundo⟩
    · cases q <;> cases hq <;> cases hpush
    · rw [hundo]
      cases q <;> first | exact List.map_id _ | cases hq
  exact ⟨a, _, row, _, s, s', event, by rw [hop, haorg, haid],
    decided_approvals hc hquery hq ha haid, hstate, Query.approvalAfter_of_mem hmem,
    decided_effects hc hquery hq hrow hrowid, hrowid.trans haeffect.symm,
    hroworg.trans haorg.symm, hsessions, hsid.trans hasession.symm, hsorg.trans haorg.symm,
    hevents, (congrArg Prod.snd hkey).trans haid.symm, hundo, (Outcome.of_tx hquery.tx).orgs,
    hsettles a ha hstate hcore row hrow hin⟩

end Decides

theorem decided_of_approve (hc : Reaches S guard c) {approvedArgs : Option Json} {version : String}
    (hquery : QueryStep c c' t o (.approve orgId id actor approvedArgs approval) version) :
    Decided (.approve orgId id actor approvedArgs) (.approved ⟨approval.effectId,
      approval.sessionId, approval.toolName, version, resolvedArgs approvedArgs approval⟩)
      (dbOf c) (dbOf c') := by
  obtain ⟨-, -, hsession, hdb⟩ := approveTx_ok hquery.tx
  obtain ⟨s, hs, hwaits⟩ := discountedSessions_iff.mp hsession
  obtain ⟨⟨hsid, hsorg⟩, -⟩ := ofSessionIn_iff.mp hwaits
  obtain ⟨s', hs'⟩ : ∃ s', Replaces (dbOf c).sessions s s' (dbOf c').sessions := by
    rw [hdb]
    exact decided_sessions hc
      (fun b hb hbid => (core_approval (hquery.decides_core hc rfl hb hbid).1).2.2.1)
      (fun _ => rfl) (fun s hs => (ofSessionIn_iff.mp hs).1.1) hs hsid
  refine decided_of_query hc hquery rfl rfl hs' hsid hsorg fun a ha hstate hcore row hrow hin => ?_
  obtain ⟨-, -, -, haeffect, hproposed⟩ := core_approval hcore
  obtain ⟨⟨hrowid, hroworg⟩, -⟩ := ofEffectIn_iff.mp hin
  constructor
  · rw [hproposed]
    rfl
  · change (resolvedArgs approvedArgs approval).eq _ = true
    simp only [Query.effectAfter, updateRow_of_pos hin]
    split
    · simp [updateRow, ofEffectIn, ofEffect, hrowid, hroworg, Json.eq_refl]
    · next hsame =>
      change (resolvedArgs approvedArgs approval).eq row.argsSnapshot = true
      rw [snapshot_of_pending hc ha hstate hrow (hrowid.trans haeffect.symm), hproposed]
      simpa [argsChanged] using hsame

theorem decided_of_reject (hc : Reaches S guard c) {u : Unit}
    (hquery : QueryStep c c' t o (.reject orgId id actor approval) u) (hs : s ∈ (dbOf c).sessions)
    (hsid : s.sessionId = approval.sessionId) (hsorg : s.orgId = orgId) (result : OpResult) :
    Decided (.reject orgId id actor) result (dbOf c) (dbOf c') := by
  obtain ⟨-, -, hdb⟩ := rejectTx_ok.mp hquery.tx
  obtain ⟨s', hs'⟩ : ∃ s', Replaces (dbOf c).sessions s s' (dbOf c').sessions := by
    rw [hdb]
    exact decided_sessions hc
      (fun b hb hbid => (core_approval (hquery.decides_core hc rfl hb hbid).1).2.2.1)
      (fun _ => rfl) (fun s hs => (ofSession_iff.mp hs).1) hs hsid
  exact decided_of_query hc hquery rfl rfl hs' hsid hsorg fun _ _ _ _ _ _ _ => trivial

theorem not_decision_of_error (hfinal : Reaches S guard final)
    (hstart : Started final t op) {e : UndoLogError} (hret : Returned final t (.error e))
    (hran : Event.ran (M := system S) t st reply ∈ final.trace) :
    decisionOf ⟨st, reply⟩ = none := by
  have hpost := (contract S).post_of_returned hfinal.coherent hstart hret
  obtain ⟨before, -, -, hpre⟩ := (contract S).pre_of_ran hfinal.coherent hstart hran
  cases st with
  | app step => rfl
  | db q =>
    cases reply with
    | error e => cases q <;> rfl
    | ok r =>
      cases q with
      | approve =>
        obtain ⟨rfl, -⟩ := approve_of_pre hpre
        obtain ⟨r', hpost, hr⟩ := hpost
        cases r' with
        | ok => cases hr
        | error => exact absurd (mem_pastOf.mpr hran) (hpost _ _)
      | reject =>
        obtain ⟨rfl, -⟩ := reject_of_pre hpre
        obtain ⟨r', hpost, hr⟩ := hpost
        cases r' with
        | ok => cases hr
        | error => exact absurd (mem_pastOf.mpr hran) (hpost _)
      | _ => rfl

theorem decided_of_returned (hfinal : Reaches S (onStatements RejectsOwnSession) final)
    (hstart : Started final t op) (hop : op.decides ≠ none) (hret : Returned final t (.ok result)) :
    ∃ (st : Stmt) (reply : Except UndoLogError st.Ret),
      Event.ran (M := system S) t st reply ∈ final.trace ∧ decisionOf ⟨st, reply⟩ ≠ none ∧
      ∀ before d choice d', Recorded (Initial S) (onStatements RejectsOwnSession) before
        (.ran t st reply) d choice d' final → Decided op result (dbOf d) (dbOf d') := by
  have hpost := (contract S).post_of_returned hfinal.coherent hstart hret
  cases op with
  | approve orgId id actor approvedArgs =>
    obtain ⟨r, hpost, hr⟩ := hpost
    cases r with
    | error => cases hr
    | ok r =>
      cases hr
      obtain ⟨approval, version, hdone, rfl⟩ := hpost
      refine ⟨_, _, mem_pastOf.mp hdone, by rintro ⟨⟩, fun before d choice d' h => ?_⟩
      obtain ⟨o, -, hquery⟩ := QueryStep.of_trace h.step h.trace'
      exact decided_of_approve h.reachable hquery
  | reject orgId id actor =>
    obtain ⟨r, hpost, hr⟩ := hpost
    cases r with
    | error => cases hr
    | ok r =>
      obtain ⟨approval, hdone⟩ := hpost
      refine ⟨_, _, mem_pastOf.mp hdone, by rintro ⟨⟩, fun before d choice d' h => ?_⟩
      obtain ⟨o, rfl, hquery⟩ := QueryStep.of_trace h.step h.trace'
      obtain ⟨s, hs, hsid, hsorg⟩ := hquery.guarded h.allowed _ rfl
      exact decided_of_reject h.reachable hquery hs hsid hsorg _
  | _ => exact absurd rfl hop

/-- In every run in which rejections find the session of their organisation, decisions
are all or nothing. -/
theorem allOrNothing_of_rejectsOwnSession
    (hfinal : Reaches S (onStatements RejectsOwnSession) final) {t : ℕ} {op : Op}
    (hstart : Started final t op) (hop : op.decides ≠ none) {r : Except UndoLogError OpResult}
    (hret : Returned final t r) : AllOrNothing (onStatements RejectsOwnSession) final t op r := by
  have hsame : ∀ {before st reply d choice d'},
      Recorded (Initial S) (onStatements RejectsOwnSession) before (.ran t st reply) d choice d'
        final → decisionOf ⟨st, reply⟩ = none → SameTables (dbOf d) (dbOf d') := by
    intro before st reply d choice d' h hnot
    refine sameTables_of_not_decision h.reachable (fun op' hstart' => ?_) h.step h.trace' hnot
    obtain rfl := hstart.unique hfinal (h.rest.trace.subset (h.step.subset hstart'))
    exact hop
  cases r with
  | error e =>
    intro before st reply d choice d' h
    have hran : Event.ran (M := system S) t st reply ∈ final.trace :=
      h.rest.trace.subset (by simp [h.trace'])
    exact hsame h (not_decision_of_error hfinal hstart hret hran)
  | ok result =>
    obtain ⟨st, reply, hran, hdecides, hdecided⟩ := decided_of_returned hfinal hstart hop hret
    obtain ⟨before, after, htrace⟩ := List.append_of_mem hran
    obtain ⟨e, choice, e', hrec⟩ := hfinal.recorded htrace
    refine ⟨before, st, reply, after, htrace, fun before' st' reply' d choice' d' h => ⟨?_, ?_⟩⟩
    · rintro rfl
      cases hrec.event_eq h
      exact hdecided _ _ _ _ h
    · intro hne
      refine hsame h (by_contra fun hdecides' => hne ?_)
      rcases hrec.order h with heq | hlater | hearlier
      · exact heq
      · exact absurd (not_decided_before h hdecides' (hlater.subset (by simp))) hdecides
      · exact absurd (not_decided_before hrec hdecides (hearlier.subset (by simp))) hdecides'

/-- The rejection of the sample call is all or nothing. -/
theorem rejectedCall_allOrNothing :
    ∃ c op r, Reaches (sample .postgres) (onStatements RejectsOwnSession) c ∧ Started c 1 op ∧
      op.decides = some (sampleOrg, ⟨11⟩) ∧ Returned c 1 (.ok r) ∧
      AllOrNothing (onStatements RejectsOwnSession) c 1 op (.ok r) := by
  obtain ⟨c, hc, hstarted, r, hret⟩ := exists_sample (onStatements RejectsOwnSession)
    1780271999 (.irreversible "") rejectedCall (fun c =>
      startedTest (fun t op => t = 1 ∧ op.decides = some (sampleOrg, ⟨11⟩)) c = true ∧
      ∃ r, Returned c 1 (.ok r)) (by decide +kernel)
  obtain ⟨t, op, hstart, hpasses⟩ := startedTest_iff.mp hstarted
  obtain ⟨rfl, hop⟩ := of_decide_eq_true hpasses
  exact ⟨c, op, r, hc, hstart, hop, hret,
    allOrNothing_of_rejectsOwnSession hc hstart (by simp [hop]) hret⟩

/-- A call of another organisation takes the session of the sample call. The sample call
asks for a decision and is rejected. -/
def rejectedElsewhere : List (Choice (system (sample .sqlite))) :=
  [.start (.intercept { sampleCall 1 with orgId := ⟨9⟩ })] ++ runs 0 9 ++
    [.finish 0, .start (.intercept (sampleCall 0))] ++ runs 1 7 ++ [draw 1 10] ++ runs 1 1 ++
    [draw 1 11] ++ runs 1 5 ++ [.finish 1, .start (.reject sampleOrg ⟨11⟩ "human")] ++ runs 2 3 ++
    [.finish 2]

/-- The rejection returns normally, and there is no session that it could have halted. -/
theorem allOrNothing_fails_elsewhere :
    ∃ c op r, Reaches (sample .sqlite) unguarded c ∧ Started c 2 op ∧
      op.decides = some (sampleOrg, ⟨11⟩) ∧ Returned c 2 (.ok r) ∧
      ¬ AllOrNothing unguarded c 2 op (.ok r) := by
  obtain ⟨c, hc, hstarted, ⟨r, hret⟩, hnone⟩ := exists_sample unguarded 0 (.irreversible "")
    rejectedElsewhere (fun c =>
      startedTest (fun t op => t = 2 ∧ op.decides = some (sampleOrg, ⟨11⟩)) c = true ∧
      (∃ r, Returned c 2 (.ok r)) ∧ ∀ s ∈ (dbOf c).sessions, s.orgId ≠ sampleOrg)
    (by decide +kernel)
  obtain ⟨t, op, hstart, hpasses⟩ := startedTest_iff.mp hstarted
  obtain ⟨rfl, hop⟩ := of_decide_eq_true hpasses
  refine ⟨c, op, r, hc, hstart, hop, hret, ?_⟩
  rintro ⟨before, st, reply, after, htrace, hsteps⟩
  obtain ⟨d, choice, d', hrec⟩ := hc.recorded htrace
  obtain ⟨a, a', row, row', s, s', event, hdecides, -, -, -, -, -, -, hreplaces, -, hsorg, -⟩ :=
    (hsteps _ _ _ _ _ _ hrec).1 rfl
  have horg : sampleOrg = a.orgId :=
    congrArg Prod.fst (Option.some.inj (hop.symm.trans hdecides))
  -- the session would still be there at the end
  have hsession : HasSession (dbOf d') sampleOrg s.sessionId :=
    HasSession.step ⟨s, hreplaces.mem, rfl, hsorg.trans horg.symm⟩ hrec.step
  obtain ⟨s', hs', -, horg'⟩ : HasSession (dbOf c) sampleOrg s.sessionId :=
    hrec.rest.invariant hrec.reachable' hsession fun _ _ _ _ h _ htrans => h.step htrans
  exact hnone s' hs' horg'

end UndoLog
