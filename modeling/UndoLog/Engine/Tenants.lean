import UndoLog.Concurrent.Noninterference
import UndoLog.Engine.Known
import UndoLog.Engine.Tenancy
import UndoLog.Saga.Contract

/-!
# Calls of one organisation and of others

Every call works for one organisation, except the job that looks for timeouts everywhere. A
statement of an organisation is answered alike in two worlds that are the same for it, up to
what does not matter of a session, and one of another organisation changes nothing it sees.
-/

namespace UndoLog

open Concurrent Machine Relational

/-! ## The organisation of a call -/

/-- The organisation that a call works for. -/
def Op.orgId? : Op → Option OrgId
  | .intercept call => some call.orgId
  | .commit orgId _ _ | .fail orgId _ _ | .approve orgId _ _ _ | .reject orgId _ _
  | .listPendingApprovals orgId | .processTimeouts orgId | .compensateSession orgId _ =>
      some orgId
  | .processPendingTimeouts => none

section Issued

variable {orgId : OrgId}

theorem settle_worksFor (b : Backend) (effectId : EffectId) (rows : ℕ × Bool) :
    Program.Issues (Stmt.WorksFor orgId) (settle b orgId effectId rows) := by
  unfold settle
  split
  · exact .done _
  · cases b with
    | postgres =>
      refine .bind (.done _) fun known => ?_
      cases known <;> exact .done _
    | sqlite =>
      refine .bind (.stmt rfl) fun known => ?_
      cases known <;> exact .done _

theorem timeoutRows_worksFor (rows : List (ApprovalRequestId × Bool)) :
    Program.Issues (Stmt.WorksFor orgId) (timeoutRows orgId rows) := by
  induction rows with
  | nil => exact .done _
  | cons row rest ih => exact .bind (.stmt rfl) fun _ => ih

theorem reject_worksFor (id : ApprovalRequestId) (actor : String) :
    Program.Issues (Stmt.WorksFor orgId) (reject orgId id actor) := by
  refine .bind (.stmt rfl) ?_
  rintro (_ | approval)
  · exact .done _
  · exact .bind (.stmt rfl) fun _ => perform_issues rfl

theorem processTimeouts_worksFor (b : Backend) :
    Program.Issues (Stmt.WorksFor orgId) (processTimeouts b orgId) := by
  cases b with
  | postgres =>
    exact .bind (.stmt rfl) fun rows => .bind (timeoutRows_worksFor rows) fun _ =>
      .bind (.stmt rfl) fun _ => .done _
  | sqlite => exact .stmt rfl

theorem programOf_worksFor (S : Setup) {op : Op} (h : op.orgId? = some orgId) :
    Program.Issues (Stmt.WorksFor orgId) (programOf S op) := by
  cases op with
  | intercept call =>
    cases h
    exact .bind ((intercept_serves _ _ _).mono fun _ h => h.2) fun _ => .done _
  | commit | fail =>
    cases h
    exact .bind (.bind (.stmt rfl) fun rows => settle_worksFor _ _ rows) fun _ => .done _
  | approve o id actor args =>
    cases h
    refine .bind (.bind (.stmt rfl) ?_) fun _ => .done _
    rintro (_ | approval)
    · exact .done _
    · exact .bind (.stmt rfl) fun _ => .bind (perform_issues rfl) fun _ => .done _
  | reject o id actor =>
    cases h
    exact .bind (reject_worksFor id actor) fun _ => .done _
  | listPendingApprovals o =>
    cases h
    exact .bind (.stmt rfl) fun _ => .done _
  | processTimeouts o =>
    cases h
    exact .bind (processTimeouts_worksFor _) fun _ => .done _
  | processPendingTimeouts => cases h
  | compensateSession o sessionId =>
    cases h
    exact .bind ((compensateSession_compensates sessionId).mono fun _ h => h.2) fun _ => .done _

end Issued

/-- Calls issue statements for their organisations. -/
def tenancy (S : Setup) : Machine.Contract (system S) where
  pre := fun op _ st => ∀ orgId, Op.orgId? op = some orgId → Stmt.WorksFor orgId st
  post := fun _ _ _ => True
  satisfied := by
    intro op
    cases h : Op.orgId? op with
    | none => exact Program.satisfies_of_forall (by rintro _ _ _ ⟨⟩) (fun _ _ => trivial) _ _
    | some orgId =>
      refine (programOf_worksFor S h []).mono ?_ fun _ _ h => h
      rintro past st hst other hother
      cases hother
      exact hst

/-! ## Answers that are alike -/

/-- Answers of a database statement that differ at most in what does not matter of a session. -/
def Query.AnswersAlike : (q : Query) → q.Ret → q.Ret → Prop
  | .getSession _ _, a, a' => a.map SessionRecord.standing = a'.map SessionRecord.standing
  | _, a, a' => a = a'

/-- The same for the steps inside the process. -/
def AppStep.AnswersAlike : (step : AppStep) → step.Ret → step.Ret → Prop
  | .cacheGet _ _, a, a' => a.map SessionRecord.standing = a'.map SessionRecord.standing
  | _, a, a' => a = a'

/-- The same for all statements. -/
def Stmt.AnswersAlike : (st : Stmt) → st.Ret → st.Ret → Prop
  | .app step => step.AnswersAlike
  | .db q => q.AnswersAlike

/-- Replies that are alike: answers that are, or the same error. -/
inductive RepliesAlike {α : Type} (R : α → α → Prop) :
    Except UndoLogError α → Except UndoLogError α → Prop
  | ok {a a' : α} (h : R a a') : RepliesAlike R (.ok a) (.ok a')
  | error (e : UndoLogError) : RepliesAlike R (.error e) (.error e)

theorem RepliesAlike.symm {α : Type} {R : α → α → Prop} (hR : ∀ a a', R a a' → R a' a)
    {r r' : Except UndoLogError α} (h : RepliesAlike R r r') : RepliesAlike R r' r := by
  cases h with
  | ok h => exact .ok (hR _ _ h)
  | error e => exact .error e

variable {st : Stmt} {t : ℕ} {o : Oracle} {q : Query} {b : Backend}

theorem Stmt.AnswersAlike.symm {a a' : st.Ret} (h : st.AnswersAlike a a') :
    st.AnswersAlike a' a := by
  cases st with
  | app step => cases step <;> exact Eq.symm h
  | db q => cases q <;> exact Eq.symm h

theorem RepliesAlike.eq (hst : st.readsSession = false)
    {r r' : Except UndoLogError st.Ret} (h : RepliesAlike st.AnswersAlike r r') : r = r' := by
  cases h with
  | error e => rfl
  | ok h =>
    refine congrArg Except.ok ?_
    cases st with
    | app step => cases step <;> first | exact h | cases hst
    | db q => cases q <;> first | exact h | cases hst

/-- Programs that issue the same statements as long as they are answered alike. -/
inductive Alike {α : Type} : Proc α → Proc α → Prop
  | done (r : Except UndoLogError α) : Alike (.done r) (.done r)
  | call {st : Stmt} {next next' : Except UndoLogError st.Ret → Proc α}
      (h : ∀ r r', RepliesAlike st.AnswersAlike r r' → Alike (next r) (next' r')) :
      Alike (.call st next) (.call st next')
  | insert {record record' : SessionRecord} {next next' : Except UndoLogError Unit → Proc α}
      (hrecord : record.standing = record'.standing) (h : ∀ r, Alike (next r) (next' r)) :
      Alike (.call (.app (.cacheInsert record)) next) (.call (.app (.cacheInsert record')) next')

section Alike

variable {α β : Type}

theorem Alike.symm {p q : Proc α} (h : Alike p q) : Alike q p := by
  induction h with
  | done r => exact .done r
  | call _ ih => exact .call fun r r' hr => ih r' r (hr.symm fun _ _ => Stmt.AnswersAlike.symm)
  | insert hrecord _ ih => exact .insert hrecord.symm ih

theorem Alike.bind {p q : Proc α} {f g : α → Proc β} (h : Alike p q)
    (hf : ∀ a, Alike (f a) (g a)) : Alike (p >>= f) (q >>= g) := by
  induction h with
  | done r =>
    cases r with
    | ok a => exact hf a
    | error e => exact .done _
  | call _ ih => exact .call ih
  | insert hrecord _ ih => exact .insert hrecord ih

theorem Alike.of_satisfies {pre : History → Stmt → Prop}
    {post : History → Except UndoLogError α → Prop} {past : History} {p : Proc α}
    (h : Program.Satisfies pre post past p)
    (hpre : ∀ past st, pre past st → st.readsSession = false) : Alike p p := by
  induction p generalizing past with
  | done r => exact .done r
  | call st next ih =>
    refine .call fun r r' hr => ?_
    obtain rfl := hr.eq (hpre past st h.1)
    exact ih r (h.2 r)

theorem Alike.of_issues {P : Stmt → Prop} {p : Proc α} (h : Program.Issues P p)
    (hP : ∀ st, P st → st.readsSession = false) : Alike p p :=
  Alike.of_satisfies (h []) fun _ st hst => hP st hst

/-- The lookup of a session is followed alike when it is answered alike. -/
theorem Alike.call_bind {f g : st.Ret → Proc α}
    (h : ∀ a a', st.AnswersAlike a a' → Alike (f a) (g a')) :
    Alike (Program.stmt st >>= f) (Program.stmt st >>= g) := by
  refine .call fun r r' hr => ?_
  cases hr with
  | ok ha => exact h _ _ ha
  | error e => exact .done _

/-- Two lookups that are alike have found nothing or two copies of one session. -/
theorem found_cases {a a' : Option SessionRecord}
    (h : a.map SessionRecord.standing = a'.map SessionRecord.standing) : (a = none ∧ a' = none) ∨
      ∃ s s', a = some s ∧ a' = some s' ∧ s.standing = s'.standing := by
  cases a with
  | none => exact .inl ⟨rfl, Option.map_eq_none_iff.mp h.symm⟩
  | some s =>
    obtain ⟨s', rfl, hs⟩ := Option.map_eq_some_iff.mp h.symm
    exact .inr ⟨s, s', rfl, rfl, hs.symm⟩

theorem cacheFound_alike {a a' : Option SessionRecord}
    (h : a.map SessionRecord.standing = a'.map SessionRecord.standing) :
    Alike (cacheFound a) (cacheFound a') := by
  rcases found_cases h with ⟨rfl, rfl⟩ | ⟨s, s', rfl, rfl, hs⟩
  · exact .done _
  · exact .insert hs fun _ => .done _

theorem ensureSession_alike (call : ToolCall) :
    Alike (ensureSession call) (ensureSession call) := by
  refine Alike.call_bind fun cached cached' hcached => ?_
  rcases found_cases hcached with ⟨rfl, rfl⟩ | ⟨s, s', rfl, rfl, -⟩
  · refine Alike.call_bind fun found found' hfound => ?_
    rcases found_cases hfound with ⟨rfl, rfl⟩ | ⟨s, s', rfl, rfl, -⟩
    · refine Alike.call_bind fun _ _ _ => Alike.call_bind fun record record' hrecord => ?_
      exact cacheFound_alike hrecord
    · exact cacheFound_alike hfound
  · exact .done _

end Alike

/-- The calls that record effects and decide about them. -/
def Op.recordsEffects : Op → Bool
  | .intercept _ | .commit _ _ _ | .fail _ _ _ | .approve _ _ _ _ | .reject _ _ _ => true
  | _ => false

theorem programOf_alike (S : Setup) {op : Op} (hop : op.recordsEffects = true) :
    Alike (programOf S op) (programOf S op) := by
  have hsatisfied : Program.Satisfies (opPre S op) _ [] (programOf S op) :=
    (contract S).satisfied op
  cases op with
  | intercept call =>
    refine Alike.bind ?_ fun _ => .done _
    refine Alike.call_bind fun _ _ _ => (ensureSession_alike call).bind fun _ => Alike.bind ?_ ?_
    · exact .of_issues (acquireAdvisoryLock_routes call.orgId _ _ _) fun _ h => h.2
    · exact fun _ => .of_issues (lookupOrRoute_routes _ _) fun _ h => h.2
  | commit | fail | approve | reject =>
    refine .of_satisfies hsatisfied ?_
    rintro past (step | q) hpre
    · cases step <;> first | rfl | cases hpre
    · cases q <;> first | rfl | cases hpre
  | _ => cases hop

/-! ## One statement -/

/-- The rows in the way of a statement, under the keys that all organisations share, are the
organisation's own. -/
def Query.Clear (b : Backend) (orgId : OrgId) (db : Db) : Query → Prop
  | .createSession _ sessionId => OwnSession orgId sessionId db
  | .insertCompensable call signature effectId compensation =>
      ∀ old ∈ db.effects, clash b old (newEffectRow b call signature effectId .compensable
        (some compensation.args) db.now) = true → old.orgId = orgId
  | .insertIrreversible call signature effectId =>
      ∀ old ∈ db.effects, clash b old (newEffectRow b call signature effectId .irreversible
        none db.now) = true → old.orgId = orgId
  | .insertUndo call _ _ undoId => OwnSession orgId call.sessionId db ∧
      ∀ u ∈ db.undo, (u.undoId = undoId ∨ (u.sessionId = call.sessionId ∧
        u.stackPosition = stepColumn b call.stepIndex)) → u.orgId = orgId
  | .createApproval req => OwnSession orgId req.sessionId db ∧
      ∀ a ∈ db.approvals, a.approvalRequestId = req.approvalRequestId → a.orgId = orgId
  | _ => True

/-- The database statements of the calls that record effects. -/
def Query.ofEffects : Query → Bool
  | .listPending _ | .listOrgsWithPendingApprovals | .timeoutSelect _ | .timeoutUpdate _ _ _
  | .timeoutCommit _ | .processTimeouts _ | .loadUndoStack _ _ | .markCompensated _ _
  | .markCompensationFailed _ _ _ | .markEffectCompensationFailed _ _ | .setCompensated _ _
  | .setHalted _ _ _ => false
  | _ => true

theorem Query.agree {t' : ℕ} {orgId : OrgId} {db db' : Db} (h : SameFor orgId db db')
    (hworks : q.WorksFor orgId)
    (hkind : q.ofEffects = true) (hclear : q.Clear b orgId db) (hclear' : q.Clear b orgId db') :
    Agree orgId q.AnswersAlike (q.tx b t o db) (q.tx b t' o db') := by
  cases q with
  | getSession o sessionId =>
    obtain rfl := hworks
    refine .ok ?_ h
    exact h.find?_sessions (fun _ _ => ofSession_standing) fun _ => org_of_ofSession
  | createSession o sessionId =>
    obtain rfl := hworks
    exact createSession_agree h hclear hclear'
  | tryAdvisoryLock key => exact .ok rfl h
  | findBySignature o signature =>
    obtain rfl := hworks
    exact findBySignature_local _ signature db db' h
  | markReplayed o effectId =>
    obtain rfl := hworks
    exact markReplayed_local b db db' h
  | insertCompensable | insertIrreversible =>
    obtain rfl := hworks
    exact insertEffect_agree h (by rw [h.now]) hclear (by rw [h.now]; exact hclear')
  | insertUndo call effectId compensation undoId =>
    obtain rfl := hworks
    exact insertUndo_agree h hclear.1 hclear'.1 hclear.2 hclear'.2
  | setExecuting o effectId =>
    obtain rfl := hworks
    exact setExecuting_local db db' h
  | createApproval req =>
    obtain rfl := hworks
    exact createApproval_agree h hclear.1 hclear'.1 hclear.2 hclear'.2
  | setApprovalRequestId o effectId id =>
    obtain rfl := hworks
    exact setApprovalRequestId_local id db db' h
  | setAwaitingApproval o sessionId =>
    obtain rfl := hworks
    exact setAwaitingApproval_local db db' h
  | commitRows o effectId result =>
    obtain rfl := hworks
    exact commitRows_local result db db' h
  | failRows o effectId reason =>
    obtain rfl := hworks
    exact failRows_local reason db db' h
  | effectExists o effectId =>
    obtain rfl := hworks
    exact effectExists_local db db' h
  | getApproval o id =>
    obtain rfl := hworks
    exact getApproval_local db db' h
  | approve o id actor args approval =>
    obtain rfl := hworks
    exact approveTx_local b _ actor args approval db db' h
  | reject o id actor approval =>
    obtain rfl := hworks
    exact rejectTx_local b actor approval db db' h
  | _ => cases hkind

/-- No open timeout transaction has updated an approval of the organisation. -/
def Untimed (orgId : OrgId) (db : Db) : Prop :=
  ∀ tx ∈ db.timeouts, ∀ write ∈ tx.writes, write.orgId ≠ orgId

theorem org_of_insertion {a : q.Ret} {ins : Insertion} {orgId : OrgId} (hworks : q.WorksFor orgId)
    (hins : insertionOf ⟨.db q, .ok a⟩ = some ins) : ins.call.orgId = orgId := by
  cases q with
  | insertCompensable | insertIrreversible =>
    cases a with
    | false => cases hins
    | true =>
      cases hins
      exact hworks
  | _ => cases hins

section Foreign

variable {b : Backend} {orgId other : OrgId} {db db' : Db} {row row' : EffectRow}
  (hne : other ≠ orgId) (hworks : q.WorksFor other)
include hne hworks

theorem EffectChange.foreign (h : EffectChange q row row') (horg : row.orgId = orgId) :
    row' = row := by
  cases h with
  | same => rfl
  | replayed hrow | linked hrow | compensationFailed hrow =>
    have hother : row.orgId = other := (ofEffect_iff.mp hrow).2.trans hworks
    exact absurd (hother.symm.trans horg) hne
  | executing hrow | committed hrow | failed hrow | approved _ hrow | rejected hrow =>
    have hother : row.orgId = other := (ofEffectIn_iff.mp hrow).1.2.trans hworks
    exact absurd (hother.symm.trans horg) hne

theorem UndoChange.foreign {u u' : UndoRow} (h : UndoChange q u u') (horg : u.orgId = orgId) :
    u' = u := by
  cases h with
  | same => rfl
  | compensated hrow | failed hrow =>
    have hother : u.orgId = other := (ofUndo_iff.mp hrow).2.trans hworks
    exact absurd (hother.symm.trans horg) hne

theorem ApprovalChange.foreign {writes : List TimeoutWrite} {a a' : ApprovalRequest}
    (h : ApprovalChange writes q a a') (hwrites : ∀ write ∈ writes, write.orgId ≠ orgId)
    (horg : a.orgId = orgId) : a' = a := by
  cases h with
  | same => rfl
  | approved hrow | rejected hrow =>
    have hother : a.orgId = other := (ofPendingApproval_iff.mp hrow).1.2.trans hworks
    exact absurd (hother.symm.trans horg) hne
  | timedOut hwrite hrow =>
    exact absurd ((ofApproval_iff.mp hrow).2.symm.trans horg) (hwrites _ hwrite)

theorem Query.sessionAfter_foreign {s : SessionRecord} (horg : s.orgId = orgId) :
    q.sessionAfter s = s.state := by
  have hof : ∀ o sessionId, o = other → ofSession o sessionId s = false := by
    rintro o sessionId rfl
    exact Bool.eq_false_iff.mpr fun hs => hne ((ofSession_iff.mp hs).2.symm.trans horg)
  cases q with
  | setAwaitingApproval | approve | reject | setCompensated | setHalted =>
    simp [Query.sessionAfter, ofSessionIn, hof _ _ hworks]
  | _ => rfl

theorem Query.timeoutWrites_foreign (huntimed : Untimed orgId db) :
    ∀ write ∈ q.timeoutWrites b t db, write.orgId ≠ orgId := by
  intro write hwrite
  cases q with
  | timeoutCommit =>
    obtain ⟨tx, htx, hwrite⟩ := List.mem_flatMap.mp hwrite
    exact huntimed tx (List.mem_filter.mp htx).1 write hwrite
  | processTimeouts o =>
    obtain rfl : o = other := hworks
    obtain ⟨row, -, rfl⟩ := List.mem_map.mp hwrite
    exact hne
  | _ => cases hwrite

theorem Outcome.foreign {a : q.Ret} (h : Outcome b t db q a db') (huntimed : Untimed orgId db) :
    SameFor orgId db db' where
  now := h.clock.1.symm
  partitions := h.clock.2.symm
  orgs := h.orgs.symm
  sessions := by
    rcases h.sessions with ⟨o, sessionId, rfl, -, hsessions⟩ | ⟨f, hsessions, hmoves⟩
    · obtain rfl : o = other := hworks
      simp [hsessions, List.filter_append, newSession, hne]
    · rw [hsessions, hmoves.standing fun s => Query.sessionAfter_foreign hne hworks]
  effects := by
    rcases h.effects with ⟨ins, hins, -, heffects⟩ | ⟨-, heffects⟩
    · have horg : (ins.row b db.now).orgId ≠ orgId := by
        change ins.call.orgId ≠ orgId
        rw [org_of_insertion hworks hins]
        exact hne
      simp [heffects, List.filter_append, horg]
    · have hchange := fun row => q.effectChange db.now row
      rw [heffects, view_map_hidden fun row => by rw [core_orgId (hchange row).core]]
      exact fun row hrow => (hchange row).foreign hne hworks (of_decide_eq_true hrow)
  undo := by
    rcases h.undo with ⟨push, hpush, -, hundo⟩ | ⟨-, hundo⟩
    · cases q with
      | insertUndo call =>
        cases hpush
        obtain rfl : call.orgId = other := hworks
        simp [hundo, List.filter_append, Push.row, newUndoRow, hne]
      | _ => cases hpush
    · have hchange := fun u => q.undoChange db.now u
      have hown : ∀ u, (q.undoAfter db.now u).orgId = u.orgId := fun u =>
        (congrArg (fun u : UndoRow => u.orgId) (hchange u).core :)
      rw [hundo, view_map_hidden fun u => by rw [hown u]]
      exact fun u hu => (hchange u).foreign hne hworks (of_decide_eq_true hu)
  approvals := by
    rcases h.approvals with ⟨req, hreq, -, happrovals⟩ | ⟨-, happrovals⟩
    · cases q with
      | createApproval =>
        cases hreq
        obtain rfl : req.orgId = other := hworks
        simp [happrovals, List.filter_append, newApprovalRow, hne]
      | _ => cases hreq
    · have hchange := fun a => q.approvalChange b t db a
      rw [happrovals, view_map_hidden fun a => by rw [(core_approval (hchange a).core).2.1]]
      exact fun a ha => (hchange a).foreign hne hworks
        (Query.timeoutWrites_foreign hne hworks huntimed) (of_decide_eq_true ha)

end Foreign

/-! ## Worlds -/

/-- Two worlds that an organisation cannot tell apart. -/
structure SameWorld (orgId : OrgId) (w w' : World) : Prop where
  db : SameFor orgId w.db w'.db
  registry : w.registry = w'.registry
  cache : (w.cache.filter fun s => s.orgId = orgId).map SessionRecord.standing =
    (w'.cache.filter fun s => s.orgId = orgId).map SessionRecord.standing

section SameWorld

variable {orgId other : OrgId} {w w' w'' : World} {sessionId : SessionId}

theorem SameWorld.refl (orgId : OrgId) (w : World) : SameWorld orgId w w :=
  ⟨.refl orgId _, rfl, rfl⟩

theorem SameWorld.symm (h : SameWorld orgId w w') : SameWorld orgId w' w :=
  ⟨h.db.symm, h.registry.symm, h.cache.symm⟩

theorem SameWorld.trans (h : SameWorld orgId w w') (h' : SameWorld orgId w' w'') :
    SameWorld orgId w w'' :=
  ⟨h.db.trans h'.db, h.registry.trans h'.registry, h.cache.trans h'.cache⟩

theorem SameWorld.rollback (t : ℕ) (h : SameWorld orgId w w') : SameWorld orgId (w.rollback t) w' :=
  ⟨h.db.rollback t, h.registry, h.cache⟩

theorem SameWorld.evict (h : SameWorld orgId w w') :
    ((evict orgId sessionId w.cache).filter fun s => s.orgId = orgId).map SessionRecord.standing =
      ((UndoLog.evict orgId sessionId w'.cache).filter fun s => s.orgId = orgId).map
        SessionRecord.standing := by
  have hkeep : ∀ s s' : SessionRecord, s.standing = s'.standing →
      (!ofSession orgId sessionId s) = !ofSession orgId sessionId s' :=
    fun s s' hs => congrArg not (ofSession_standing hs)
  simp only [UndoLog.evict, List.filter_comm (p := fun s => decide (SessionRecord.orgId s = orgId))]
  exact filter_columns hkeep h.cache

theorem evict_hidden (hne : other ≠ orgId) (cache : List SessionRecord) :
    ((evict other sessionId cache).filter fun s => s.orgId = orgId) =
      cache.filter fun s => s.orgId = orgId := by
  rw [evict, List.filter_filter]
  refine List.filter_congr fun s _ => ?_
  by_cases hs : s.orgId = orgId
  · have hother : ofSession other sessionId s = false := by
      by_contra hmatch
      exact hne (hs ▸ (org_of_ofSession (by simpa using hmatch)).symm)
    simp [hs, hother]
  · simp [hs]

theorem AppStep.agree {step : AppStep} {r r' : Except UndoLogError step.Ret}
    {w₁ w₁' : World} (h : SameWorld orgId w w') (hworks : (Stmt.app step).WorksFor orgId)
    (hinsert : ∀ record, step ≠ .cacheInsert record) (hrun : step.run o w = some (r, w₁))
    (hrun' : step.run o w' = some (r', w₁')) :
    RepliesAlike step.AnswersAlike r r' ∧ SameWorld orgId w₁ w₁' := by
  cases step with
  | rateLimit =>
    simp only [AppStep.run] at hrun hrun'
    cases hrefusal : o.refusal with
    | some refusal =>
      simp only [hrefusal] at hrun hrun'
      cases hrun
      cases hrun'
      exact ⟨.error _, h⟩
    | none =>
      simp only [hrefusal] at hrun hrun'
      cases hrun
      cases hrun'
      exact ⟨.ok rfl, h⟩
  | cacheGet owner sessionId =>
    obtain rfl : owner = orgId := hworks
    simp only [AppStep.run] at hrun hrun'
    cases hmiss : o.cacheMiss with
    | true =>
      simp only [hmiss, if_true] at hrun hrun'
      cases hrun
      cases hrun'
      exact ⟨.ok rfl, h.db, h.registry, h.evict⟩
    | false =>
      simp only [hmiss, Bool.false_eq_true, if_false] at hrun hrun'
      cases hrun
      cases hrun'
      have hfind := find?_columns (p := ofSession owner sessionId)
        (fun _ _ => ofSession_standing) h.cache
      rw [find?_view fun s hs => decide_eq_true (org_of_ofSession hs),
        find?_view fun s hs => decide_eq_true (org_of_ofSession hs)] at hfind
      exact ⟨.ok hfind, h⟩
  | cacheInsert record => exact absurd rfl (hinsert record)
  | cacheInvalidate owner sessionId =>
    obtain rfl : owner = orgId := hworks
    cases hrun
    cases hrun'
    exact ⟨.ok rfl, h.db, h.registry, h.evict⟩
  | resolveTier o toolName toolVersion =>
    cases hrun
    cases hrun'
    exact ⟨.ok (by rw [h.registry]; rfl), h⟩
  | newUuid =>
    simp only [AppStep.run] at hrun hrun'
    split at hrun
    · cases hrun
    · split at hrun'
      · cases hrun'
      · cases hrun
        cases hrun'
        exact ⟨.ok rfl, h.db, h.registry, h.cache⟩
  | clock | post =>
    cases hrun
    cases hrun'
    exact ⟨.ok rfl, h⟩

theorem SameWorld.insert {record record' : SessionRecord} (h : SameWorld orgId w w')
    (hrecord : record.standing = record'.standing) (horg : record.orgId = orgId) : SameWorld orgId
      { w with cache := record :: UndoLog.evict record.orgId record.sessionId w.cache }
      { w' with cache := record' :: UndoLog.evict record'.orgId record'.sessionId w'.cache } := by
  have horg' : record'.orgId = record.orgId := (congrArg (fun x => x.2.1) hrecord).symm
  have hid : record'.sessionId = record.sessionId := (congrArg Prod.fst hrecord).symm
  subst horg
  refine ⟨h.db, h.registry, ?_⟩
  rw [List.filter_cons_of_pos (by simp), List.filter_cons_of_pos (by simp [horg']), horg', hid,
    List.map_cons, List.map_cons, hrecord, h.evict]

theorem Query.run_agree {t' : ℕ} {r r' : Except UndoLogError q.Ret} {w₁ w₁' : World}
    (h : SameWorld orgId w w') (hworks : q.WorksFor orgId) (hkind : q.ofEffects = true)
    (hclear : q.Clear b orgId w.db) (hclear' : q.Clear b orgId w'.db)
    (hrun : q.run b t o w = some (r, w₁)) (hrun' : q.run b t' o w' = some (r', w₁')) :
    RepliesAlike q.AnswersAlike r r' ∧ SameWorld orgId w₁ w₁' := by
  have hback : SameWorld orgId (w.rollback t) (w'.rollback t') :=
    ((h.rollback t).symm.rollback t').symm
  have hagree : Agree orgId q.AnswersAlike (q.tx b t o w.db) (q.tx b t' o w'.db) :=
    Query.agree h.db hworks hkind hclear hclear'
  simp only [Query.run] at hrun hrun'
  cases hfault : o.fault with
  | true =>
    rw [hfault] at hrun hrun'
    cases hrun
    cases hrun'
    exact ⟨.error _, hback⟩
  | false =>
    simp only [hfault, Bool.false_eq_true, if_false] at hrun hrun'
    split at hrun
    · cases hrun
    · split at hrun'
      · cases hrun'
      · generalize q.tx b t o w.db = first at hagree hrun
        generalize q.tx b t' o w'.db = second at hagree hrun'
        cases hagree with
        | error e =>
          cases hrun
          cases hrun'
          exact ⟨.error e, hback⟩
        | ok ha hdb =>
          cases hrun
          cases hrun'
          exact ⟨.ok ha, hdb, h.registry, h.cache⟩

theorem execStmt_foreign
    {r : Except UndoLogError st.Ret} (hne : other ≠ orgId) (hworks : st.WorksFor other)
    (hrecord : ∀ record, st = .app (.cacheInsert record) → record.orgId = other)
    (huntimed : Untimed orgId w.db) (hexec : execStmt b t o st w = some (r, w')) :
    SameWorld orgId w w' := by
  have hevict : ∀ sessionId, SameWorld orgId w
      { w with cache := UndoLog.evict other sessionId w.cache } := fun sessionId =>
    ⟨.refl orgId _, rfl, by rw [evict_hidden hne]⟩
  cases st with
  | db q =>
    rcases Query.run_cases hexec with ⟨e, -, rfl⟩ | ⟨a, db, -, -, htx, rfl⟩
    · exact ((SameWorld.refl orgId w).rollback t).symm
    · exact ⟨(Outcome.of_tx htx).foreign hne hworks huntimed, rfl, rfl⟩
  | app step =>
    change step.run o w = some (r, w') at hexec
    cases step with
    | rateLimit =>
      simp only [AppStep.run] at hexec
      split at hexec <;> cases hexec <;> exact .refl orgId w
    | cacheGet o' sessionId =>
      obtain rfl : o' = other := hworks
      simp only [AppStep.run] at hexec
      split at hexec
      · cases hexec
        exact hevict sessionId
      · cases hexec
        exact .refl orgId w
    | cacheInsert record =>
      have horg := hrecord record rfl
      cases hexec
      refine ⟨.refl orgId _, rfl, ?_⟩
      rw [List.filter_cons_of_neg (by simpa [horg] using hne), evict_hidden (horg ▸ hne)]
    | cacheInvalidate o' sessionId =>
      obtain rfl : o' = other := hworks
      cases hexec
      exact hevict sessionId
    | newUuid =>
      simp only [AppStep.run] at hexec
      split at hexec
      · cases hexec
      · cases hexec
        exact ⟨.refl orgId _, rfl, rfl⟩
    | resolveTier | clock | post =>
      cases hexec
      exact .refl orgId w

end SameWorld

end UndoLog
