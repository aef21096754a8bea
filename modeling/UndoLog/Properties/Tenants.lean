import UndoLog.Engine.Schedule
import UndoLog.Engine.Tenants
import UndoLog.Engine.UndoStack

/-!
# Organisations cannot tell what others do

An organisation that makes the same calls in two runs gets the same outcomes, whatever the
others do, provided that none of its statements meets a row of another organisation under a
key that all organisations share: the identifier of a session, the signature of a call within a
month, and the position on the undo stack of a session. Without that it does not.
-/

namespace UndoLog

open Concurrent Machine Relational

variable {S : Setup}

/-! ## The condition -/

/-- A statement made for the organisation meets no row of another one under a shared key. -/
def Query.apart (orgId : OrgId) (db : Db) : Query → Bool
  | .createSession o sessionId =>
      o = orgId → ∀ s ∈ db.sessions, s.sessionId = sessionId → s.orgId = orgId
  | .insertCompensable call signature _ _ | .insertIrreversible call signature _ =>
      call.orgId = orgId → ∀ row ∈ db.effects, row.callSignature = signature →
        monthOf row.executedAt = monthOf db.now → row.orgId = orgId
  | .insertUndo call _ _ _ => call.orgId = orgId →
      (∀ s ∈ db.sessions, s.sessionId = call.sessionId → s.orgId = orgId) ∧
      ∀ u ∈ db.undo, u.sessionId = call.sessionId →
        u.stackPosition = stepColumn .postgres call.stepIndex → u.orgId = orgId
  | .createApproval req => req.orgId = orgId →
      ∀ s ∈ db.sessions, s.sessionId = req.sessionId → s.orgId = orgId
  | _ => true

/-- The same for all statements. -/
def Stmt.apart (orgId : OrgId) (db : Db) : Stmt → Bool
  | .db q => q.apart orgId db
  | .app _ => true

/-- A statement of the organisation meets no rows of others under shared keys. -/
def MeetsOwnRows (orgId : OrgId) (c : State S) (_t : ℕ) (st : (system S).Stmt) : Prop :=
  Stmt.apart orgId (dbOf c) st = true

instance (orgId : OrgId) (c : State S) (t : ℕ) (st : (system S).Stmt) :
    Decidable (MeetsOwnRows orgId c t st) :=
  inferInstanceAs (Decidable (Stmt.apart orgId (dbOf c) st = true))

/-- The statements of an organisation meet no rows of others under shared keys. -/
def KeepsApart (S : Setup) (orgId : OrgId) : Guard (system S) := onStatements (MeetsOwnRows orgId)

instance (orgId : OrgId) (c : State S) (choice : Choice (system S)) :
    Decidable (KeepsApart S orgId c choice) :=
  inferInstanceAs (Decidable (onStatements (MeetsOwnRows orgId) c choice))

/-- A call of the organisation records an effect or decides about one, and every other call
works for some other organisation. -/
def TenantOp (orgId : OrgId) (op : Op) : Prop :=
  op.orgId? ≠ none ∧ (op.orgId? = some orgId → op.recordsEffects = true)

instance decidableTenantOp (orgId : OrgId) (op : Op) : Decidable (TenantOp orgId op) :=
  inferInstanceAs (Decidable (_ ∧ (_ → _)))

/-- The calls that a schedule starts. -/
def StartsTenants (S : Setup) (orgId : OrgId) : Choice (system S) → Prop
  | .start op => TenantOp orgId op
  | _ => True

instance (orgId : OrgId) : ∀ choice : Choice (system S), Decidable (StartsTenants S orgId choice)
  | .start op => decidableTenantOp orgId op
  | .run _ _ | .finish _ | .crash _ | .environment _ => .isTrue trivial

/-- The calls of an organisation. -/
def madeFor (S : Setup) (orgId : OrgId) : (system S).Op → Bool :=
  fun op => Op.orgId? op = some orgId

/-- Runs of the organisation and of others that keep their keys apart. -/
def Tenancy (S : Setup) (orgId : OrgId) : Guard (system S) :=
  fun c choice => KeepsApart S orgId c choice ∧ StartsTenants S orgId choice

instance (orgId : OrgId) (c : State S) (choice : Choice (system S)) :
    Decidable (Tenancy S orgId c choice) :=
  inferInstanceAs (Decidable (_ ∧ _))

/-! ## What a call of the organisation meets -/

section Calls

variable {orgId : OrgId} {c c' : State S} {t : ℕ} {op : Op}

/-- Only calls of organisations run. -/
theorem tenantOp_of_started (hc : Reaches S (Tenancy S orgId) c) :
    ∀ t op, Started c t op → TenantOp orgId op := by
  refine hc.invariant ?_ ?_
  · intro w _ t op hmem
    cases hmem
  · intro c choice c' _ ih hguard htrans t op hmem
    rcases htrans.started hmem with hold | ⟨rfl, -⟩
    · exact ih t op hold
    · exact hguard.2

/-- The organisation's calls issue statements that record effects and decide about them. -/
theorem ofEffects_of_pre {past : History} {q : Query} (hop : op.recordsEffects = true)
    (hpre : opPre S op past (.db q)) : q.ofEffects = true := by
  cases op with
  | intercept | commit | fail | approve | reject => cases q <;> first | rfl | cases hpre
  | _ => cases hop

theorem untimed (hc : Reaches S (Tenancy S orgId) c) : Untimed orgId (dbOf c) := by
  refine rows_invariant hc (fun c h tx htx => absurd htx (h.timeouts tx)) ?_
  intro c choice c' hc ih hguard htrans
  rcases step_cases htrans with ⟨event, hquiet⟩ | ⟨t, o, q, a, -, hquery⟩
  · exact fun tx htx => ih tx (hquiet.tables.timeouts.subset htx)
  · have htimeouts := (Outcome.of_tx hquery.tx).timeouts
    intro tx htx write hwrite
    rw [htimeouts] at htx
    cases q with
    | timeoutSelect =>
      rcases List.mem_snoc.mp htx with hold | rfl
      · exact ih tx hold write hwrite
      · cases hwrite
    | timeoutUpdate other id autoApprove =>
      obtain ⟨old, hold, rfl⟩ := mem_updateWhere.mp htx
      cases howner : decide (old.owner = t) with
      | false =>
        rw [updateRow_of_neg (p := fun tx : TimeoutTx => decide (tx.owner = t)) howner] at hwrite
        exact ih old hold write hwrite
      | true =>
        rw [updateRow_of_pos (p := fun tx : TimeoutTx => decide (tx.owner = t)) howner] at hwrite
        rcases List.mem_snoc.mp hwrite with hbefore | rfl
        · exact ih old hold write hbefore
        · -- the update is made for the organisation of its call, which is another one
          rintro rfl
          obtain ⟨next, hcall⟩ := hquery.call
          obtain ⟨op, hstart, hworks⟩ := (tenancy S).pre_of_call hc.coherent hcall
          obtain ⟨op', hstart', hpre⟩ := hquery.pre hc
          obtain rfl := Started.unique hc hstart hstart'
          obtain ⟨hsome, hown⟩ := tenantOp_of_started hc _ _ hstart
          obtain ⟨owner, howns⟩ := Option.ne_none_iff_exists'.mp hsome
          obtain rfl : other = owner := hworks owner howns
          cases ofEffects_of_pre (hown howns) hpre
    | timeoutCommit => exact ih tx (List.mem_filter.mp htx).1 write hwrite
    | _ => exact ih tx htx write hwrite

theorem org_of_drawn (hc : Reaches S (Tenancy S orgId) c) {call : ToolCall} {t' : ℕ}
    {call' : ToolCall} {u : Uuid} (hstart : Started c t (.intercept call))
    (hstart' : Started c t' (.intercept call')) (hdraw : (t, u) ∈ draws c)
    (hdraw' : (t', u) ∈ draws c) : call' = call := by
  obtain rfl := draw_unique hc hdraw hdraw'
  exact Op.intercept.inj (Started.unique hc hstart' hstart)

/-- Unless it meets rows of others under a shared key, a statement of the organisation meets
its own rows only: new identifiers are its own. -/
theorem clear_of_apart (hS : S.backend = .postgres) (hc : Reaches S (Tenancy S orgId) c)
    {q : Query} {next : Except UndoLogError q.Ret → (system S).Prog}
    (hcall : c.calls t = some (.call (.db q) next)) (hworks : q.WorksFor orgId)
    (hapart : q.apart orgId (dbOf c) = true) : q.Clear S.backend orgId (dbOf c) := by
  obtain ⟨op, hstart, hpre⟩ := (contract S).pre_of_call hc.coherent hcall
  have hclash : ∀ {call : ToolCall} {signature : CallSignature} {effectId : EffectId}
      {tier : TierLabel} {args : Option Json}, call.orgId = orgId →
      Started c t (.intercept call) → Drew (pastOf t c) effectId.uuid →
      (∀ row ∈ (dbOf c).effects, row.callSignature = signature →
        monthOf row.executedAt = monthOf (dbOf c).now → row.orgId = orgId) →
      ∀ old ∈ (dbOf c).effects, clash S.backend old
        (newEffectRow S.backend call signature effectId tier args (dbOf c).now) = true →
        old.orgId = orgId := by
    intro call signature effectId tier args horg hstart hdrew hfree old hold hboth
    rw [hS] at hboth
    rcases clash_postgres.mp hboth with ⟨hid, -⟩ | ⟨hsignature, hmonth⟩
    · obtain ⟨t', ins, hins, hrow⟩ := insertion_of_row hc hold
      obtain ⟨hstart', -, hdraw'⟩ := insertion_call hc hins
      have huuid : ins.effectId.uuid = effectId.uuid :=
        congrArg EffectId.uuid (hrow.effectId.symm.trans hid)
      have hsame := org_of_drawn hc hstart hstart' (draw_of_drew hdrew) (huuid ▸ hdraw')
      rw [hrow.orgId, hsame, horg]
    · exact hfree old hold hsignature hmonth
  cases q with
  | createSession o sessionId =>
    obtain rfl : o = orgId := hworks
    exact (of_decide_eq_true hapart) rfl
  | insertCompensable | insertIrreversible =>
    obtain ⟨call', rfl, hcall', -, hdrew, -⟩ := intercept_of_pre hpre rfl
    subst hcall'
    exact hclash hworks hstart hdrew ((of_decide_eq_true hapart) hworks)
  | insertUndo call effectId compensation undoId =>
    obtain ⟨call', rfl, hcall', hdrew, -⟩ := intercept_of_pre hpre rfl
    subst hcall'
    obtain ⟨hsession, hposition⟩ := (of_decide_eq_true hapart) hworks
    refine ⟨hsession, fun u hu hmet => ?_⟩
    rcases hmet with hid | ⟨hsame, hplace⟩
    · have hmem := List.mem_map_of_mem (f := UndoRow.core) hu
      rw [undo_eq hc] at hmem
      obtain ⟨⟨t', push⟩, hpush, hcore⟩ := List.mem_map.mp hmem
      obtain ⟨hpushed, horg, -⟩ := core_undo hcore.symm
      obtain ⟨call', before, hstart', hbefore, rfl, hdrew', -⟩ := push_pre hc hpush
      have huuid : push.undoId.uuid = undoId.uuid :=
        congrArg UndoId.uuid (hpushed.symm.trans hid)
      have hsame := org_of_drawn hc hstart hstart' (draw_of_drew hdrew)
        (huuid ▸ draw_of_drew (hbefore.subset hdrew'))
      exact horg.trans ((congrArg ToolCall.orgId hsame).trans hworks)
    · rw [hS] at hplace
      exact hposition u hu hsame hplace
  | createApproval req =>
    obtain ⟨call, rfl, effectId, reason, id, now, rfl, hdrew, -⟩ := intercept_of_pre hpre rfl
    refine ⟨(of_decide_eq_true hapart) hworks, fun a ha hid => ?_⟩
    obtain ⟨t', req', hreq', hof⟩ := creation_of_approval hc ha
    obtain ⟨call', inserted, hcreated⟩ := creation_createdBy hc hreq'
    obtain ⟨reason', now', -, hreq⟩ := hcreated.request
    have huuid : req'.approvalRequestId.uuid = id.uuid :=
      congrArg ApprovalRequestId.uuid (hof.approvalRequestId.symm.trans hid)
    have hsame := org_of_drawn hc hstart hcreated.started (draw_of_drew hdrew)
      (huuid ▸ hcreated.drawn)
    rw [hof.orgId, hreq, hsame]
    exact hworks
  | _ => trivial

/-- A session that a call caches belongs to the organisation of the call. -/
theorem org_of_cached (hc : Reaches S (Tenancy S orgId) c) {record : SessionRecord}
    {next : Except UndoLogError Unit → (system S).Prog} {owner : OrgId}
    (hcall : c.calls t = some (.call (.app (.cacheInsert record)) next))
    (hstart : Started c t op) (howner : op.orgId? = some owner) : record.orgId = owner := by
  obtain ⟨op', hstart', hpre⟩ := (contract S).pre_of_call hc.coherent hcall
  obtain rfl := Started.unique hc hstart hstart'
  cases op with
  | intercept call =>
    cases howner
    have hread : Done (pastOf t c) (.getSession call.orgId call.sessionId) (some record) := hpre
    exact (session_read hc (succeeded_iff_done.mpr hread)).2.1
  | processTimeouts | processPendingTimeouts => cases hpre.1
  | _ => cases hpre

end Calls

/-! ## Noninterference -/

/-- The organisation cannot tell two runs apart that keep its keys apart. -/
def tenantUnwinding (hS : S.backend = .postgres) (orgId : OrgId) :
    Unwinding (madeFor S orgId) (Initial S) (Tenancy S orgId) where
  View := SameWorld orgId
  Alike := Alike
  view_symm := SameWorld.symm
  alike_symm := Alike.symm
  initial := fun {w} _ => .refl orgId w
  program := by
    intro c op hguard hmine
    exact programOf_alike S (hguard.2.2 (of_decide_eq_true hmine))
  done := by
    intro r p h
    cases h
    rfl
  run := by
    intro c c' t t' o st st' next next' reply reply' w w' hc hc' hguard hguard' ht ht' hcall hcall'
      hview halike hexec hexec'
    obtain ⟨op, hstart, hmine⟩ := mem_ours.mp ht
    have howner : Op.orgId? op = some orgId := of_decide_eq_true hmine
    have hworks : Stmt.WorksFor orgId st := by
      obtain ⟨op', hstart', hworks⟩ := (tenancy S).pre_of_call hc.coherent hcall
      obtain rfl := Started.unique hc hstart hstart'
      exact hworks orgId howner
    cases halike with
    | @call st next next' halike =>
      cases st with
      | app step =>
        by_cases hinsert : ∃ record, step = .cacheInsert record
        · obtain ⟨record, rfl⟩ := hinsert
          cases hexec
          cases hexec'
          have horg := org_of_cached hc hcall hstart howner
          exact ⟨hview.insert rfl horg, halike _ _ (.ok rfl)⟩
        · have hstep := AppStep.agree hview hworks (fun record h => hinsert ⟨record, h⟩)
            hexec hexec'
          exact ⟨hstep.2, halike _ _ hstep.1⟩
      | db q =>
        have hkind : q.ofEffects = true := by
          obtain ⟨op', hstart', hpre⟩ := (contract S).pre_of_call hc.coherent hcall
          obtain rfl := Started.unique hc hstart hstart'
          exact ofEffects_of_pre ((tenantOp_of_started hc _ _ hstart).2 howner) hpre
        have hclear := clear_of_apart hS hc hcall hworks (onStatements_run hguard.1 hcall)
        have hclear' := clear_of_apart hS hc' hcall' hworks (onStatements_run hguard'.1 hcall')
        have hstep := Query.run_agree hview hworks hkind hclear hclear' hexec hexec'
        exact ⟨hstep.2, halike _ _ hstep.1⟩
    | @insert record record' next next' hrecord halike =>
      cases hexec
      cases hexec'
      exact ⟨hview.insert hrecord (org_of_cached hc hcall hstart howner), halike _⟩
  stranger := by
    intro c t o st next reply w w' hc hguard ht hcall hexec hview
    obtain ⟨op, hstart, hworks⟩ := (tenancy S).pre_of_call hc.coherent hcall
    obtain ⟨hsome, -⟩ := tenantOp_of_started hc _ _ hstart
    obtain ⟨owner, howner⟩ := Option.ne_none_iff_exists'.mp hsome
    have hne : owner ≠ orgId := by
      rintro rfl
      exact ht (mem_ours.mpr ⟨op, hstart, decide_eq_true howner⟩)
    have hhidden : SameWorld orgId c.store w := by
      refine execStmt_foreign hne (hworks owner howner) ?_ (untimed hc) hexec
      rintro record rfl
      exact org_of_cached hc hcall hstart howner
    exact hhidden.symm.trans hview
  abort := fun t h => h.rollback t
  environment := by
    intro w w' w₁ w₁' e h henv henv'
    change e.run S.backend w = some w₁ at henv
    change e.run S.backend w' = some w₁' at henv'
    cases e with
    | clock now =>
      simp only [Env.run] at henv henv'
      split at henv <;> cases henv
      split at henv' <;> cases henv'
      exact ⟨{ h.db with now := rfl }, h.registry, h.cache⟩
    | refresh registry =>
      simp only [Env.run] at henv henv'
      split at henv <;> cases henv
      split at henv' <;> cases henv'
      exact ⟨h.db, rfl, h.cache⟩
    | restart =>
      cases henv
      cases henv'
      exact ⟨h.db, h.registry, rfl⟩

/-- An organisation gets the same outcomes for its calls in every two runs in which it makes the
same calls under the same circumstances, whatever other organisations do, as long as none of its
statements meets a row of another organisation under a shared key. -/
theorem tenants_cannot_interfere (hS : S.backend = .postgres) {orgId : OrgId} {w : World}
    (hw : Initial S w) {left right : List (Choice (system S))} {c d : State S}
    (hops : ∀ op, (Choice.start (M := system S) op ∈ left ∨ Choice.start op ∈ right) →
      TenantOp orgId op) (hpart : part (madeFor S orgId) left = part (madeFor S orgId) right)
    (hleft : play (KeepsApart S orgId) (Config.initial (M := system S) w) left = some c)
    (hright : play (KeepsApart S orgId) (Config.initial (M := system S) w) right = some d) :
    outcomes (madeFor S orgId) c = outcomes (madeFor S orgId) d := by
  have hstarts : ∀ choices : List (Choice (system S)),
      (∀ op, Choice.start (M := system S) op ∈ choices → TenantOp orgId op) →
      ∀ choice ∈ choices, StartsTenants S orgId choice := by
    intro choices hchoices choice hmem
    cases choice with
    | start op => exact hchoices op hmem
    | _ => trivial
  have hleft' := play_and hleft (hstarts left fun op h => hops op (.inl h))
  have hright' := play_and hright (hstarts right fun op h => hops op (.inr h))
  exact Unwinding.outcomes_eq (tenantUnwinding hS orgId) hw hleft' hright' hpart

/-! ## Two organisations -/

/-- Another organisation. -/
def otherOrg : OrgId := ⟨9⟩

/-- The sample deployment with two organisations that have registered the same tool. -/
def twoTenants : World where
  db := Db.empty 1780000000 [⟨2026, 5⟩, ⟨2026, 6⟩] [sampleOrg, otherOrg]
  issued := []
  cache := []
  registry := [sampleOrg, otherOrg].map fun orgId =>
    (orgId, { toolName := "tool", toolVersion := "1", tier := .compensable sampleCompensation })

theorem twoTenants_initial : Initial (sample .postgres) twoTenants := by
  refine ⟨_, _, _, rfl, rfl, rfl, fun _ r hr => ?_⟩
  obtain ⟨orgId, horg, rfl⟩ := List.mem_map.mp hr
  exact horg

/-- The organisation makes two calls, and the other one a call of its own in between. -/
def disturbedCalls (call : ToolCall) (statements : ℕ) : Schedule :=
  [.start (.intercept (sampleCall 0))] ++ runs 0 9 ++ [draw 0 10] ++ runs 0 1 ++ [draw 0 11] ++
    runs 0 2 ++ [.finish 0, .start (.intercept call)] ++ runs 1 statements ++ [draw 1 30] ++
    runs 1 1 ++ [draw 1 31] ++ runs 1 2 ++ [.finish 1, .start (.intercept (sampleCall 1))] ++
    runs 2 5 ++ [draw 2 20] ++ runs 2 1 ++ [draw 2 21] ++ runs 2 2 ++ [.finish 2]

/-- The calls that a schedule starts are of organisations. -/
def startsTenants (S : Setup) (orgId : OrgId) (choices : List (Choice (system S))) : Bool :=
  choices.all fun choice => StartsTenants S orgId choice

theorem tenantOp_of_startsTenants {orgId : OrgId} {choices : List (Choice (system S))}
    (h : startsTenants S orgId choices = true) {op : Op}
    (hmem : Choice.start (M := system S) op ∈ choices) : TenantOp orgId op :=
  of_decide_eq_true (p := StartsTenants S orgId (.start op)) (List.all_eq_true.mp h _ hmem)

/-- A call of the other organisation in a session of its own. -/
def strangerCall : ToolCall := { sampleCall 7 with orgId := otherOrg, sessionId := ⟨5⟩ }

/-- It is not noticed. -/
theorem stranger_unnoticed : ∃ c d : State (sample .postgres),
      play (KeepsApart _ sampleOrg) (Config.initial twoTenants) (disturbedCalls strangerCall 9) =
        some c ∧
      play (KeepsApart _ sampleOrg) (Config.initial twoTenants) twoExecutedCalls = some d ∧
      outcomes (madeFor (sample .postgres) sampleOrg) c = outcomes (madeFor _ sampleOrg) d := by
  have hleft : (play (KeepsApart (sample .postgres) sampleOrg) (Config.initial twoTenants)
      (disturbedCalls strangerCall 9)).isSome = true := by decide +kernel
  have hright : (play (KeepsApart (sample .postgres) sampleOrg) (Config.initial twoTenants)
      twoExecutedCalls).isSome = true := by decide +kernel
  have hpart : part (madeFor (sample .postgres) sampleOrg) (disturbedCalls strangerCall 9) =
      part (madeFor (sample .postgres) sampleOrg) twoExecutedCalls := rfl
  have hops : startsTenants (sample .postgres) sampleOrg (disturbedCalls strangerCall 9) = true ∧
      startsTenants (sample .postgres) sampleOrg twoExecutedCalls = true := by decide +kernel
  obtain ⟨c, hc⟩ := Option.isSome_iff_exists.mp hleft
  obtain ⟨d, hd⟩ := Option.isSome_iff_exists.mp hright
  refine ⟨c, d, hc, hd, ?_⟩
  refine tenants_cannot_interfere (S := sample .postgres) rfl twoTenants_initial ?_ hpart hc hd
  rintro op (hmem | hmem)
  · exact tenantOp_of_startsTenants hops.1 hmem
  · exact tenantOp_of_startsTenants hops.2 hmem

/-- The outcome of a call is an error. -/
def failedAt (i : ℕ) (outcomes : List (Option (Except UndoLogError OpResult))) : Bool :=
  match outcomes[i]? with
  | some (some (.error _)) => true
  | _ => false

/-- A call of the other organisation that names the session, the step, the tool and the arguments of
the next call. -/
def intruderCall : ToolCall := { sampleCall 1 with orgId := otherOrg }

/-- It takes the signature of that call, which then fails. -/
theorem intruder_noticed : ∃ c d : State (sample .postgres),
      play unguarded (Config.initial twoTenants) (disturbedCalls intruderCall 8) = some c ∧
      play unguarded (Config.initial twoTenants) twoExecutedCalls = some d ∧
      part (madeFor (sample .postgres) sampleOrg) (disturbedCalls intruderCall 8) =
        part (madeFor _ sampleOrg) twoExecutedCalls ∧
      failedAt 1 (outcomes (madeFor _ sampleOrg) c) = true ∧
      failedAt 1 (outcomes (madeFor _ sampleOrg) d) = false ∧
      outcomes (madeFor _ sampleOrg) c ≠ outcomes (madeFor _ sampleOrg) d := by
  have hleft : (play unguarded (Config.initial twoTenants) (disturbedCalls intruderCall 8)).any
      (fun c => failedAt 1 (outcomes (madeFor (sample .postgres) sampleOrg) c)) = true := by
    decide +kernel
  have hright : (play unguarded (Config.initial twoTenants) twoExecutedCalls).any
      (fun d => !failedAt 1 (outcomes (madeFor (sample .postgres) sampleOrg) d)) = true := by
    decide +kernel
  obtain ⟨c, hc, hfailed⟩ := (Option.any_eq_true _ _).mp hleft
  obtain ⟨d, hd, hpassed⟩ := (Option.any_eq_true _ _).mp hright
  rw [Bool.not_eq_true'] at hpassed
  refine ⟨c, d, hc, hd, rfl, hfailed, hpassed, fun heq => ?_⟩
  rw [heq, hpassed] at hfailed
  cases hfailed

end UndoLog
