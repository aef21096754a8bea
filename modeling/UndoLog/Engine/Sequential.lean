import UndoLog.Engine.Decisions
import UndoLog.Engine.Known

/-!
# Calls one after another

Runs in which a call starts only when no other call runs, no call crashes and the
connection holds. In such runs an irreversible call that has inserted its effect asks
for a decision before it returns, and nobody else acts while it runs.
-/

namespace UndoLog

open Concurrent Machine Relational

variable {S : Setup} {guard : Guard (system S)} {c c' : State S}

/-- The calls of the saga orchestrator. -/
def Op.compensates : Op → Bool
  | .compensateSession _ _ => true
  | _ => false

/-- No call is running. -/
def Idle (c : State S) : Prop := ∀ t < c.next, (c.calls t).isNone = true

instance (c : State S) : Decidable (Idle c) :=
  inferInstanceAs (Decidable (∀ t < c.next, _))

theorem not_running_of_idle (hidle : Idle c) (hc : Reaches S guard c) (t : ℕ) :
    ¬ (c.calls t).isSome = true := by
  intro hsome
  obtain ⟨p, hp⟩ := Option.isSome_iff_exists.mp hsome
  have hnone := hidle t (hc.coherent.running t p hp).1
  rw [hp] at hnone
  cases hnone

/-- Calls of the engine and of the timeout job run one after another, none of them
crashes, and no statement fails on the connection. -/
def Sequential (c : State S) : Choice (system S) → Prop
  | .start op => Idle c ∧ Op.compensates op = false
  | .run _ o => Oracle.fault o = false
  | .crash _ => False
  | .finish _ | .environment _ => True

instance : ∀ (c : State S) (choice : Choice (system S)), Decidable (Sequential c choice)
  | _, .start _ => inferInstanceAs (Decidable (_ ∧ _))
  | _, .run _ o => inferInstanceAs (Decidable (Oracle.fault o = false))
  | _, .crash _ => .isFalse id
  | _, .finish _ | _, .environment _ => .isTrue trivial

/-- Sequential runs whose statements meet a condition. -/
def SequentialWith (cond : State S → ℕ → (system S).Stmt → Prop) : Guard (system S) :=
  fun c choice => Sequential c choice ∧ onStatements cond c choice

instance {cond : State S → ℕ → (system S).Stmt → Prop} [∀ c t st, Decidable (cond c t st)]
    (c : State S) (choice : Choice (system S)) : Decidable (SequentialWith cond c choice) :=
  inferInstanceAs (Decidable (_ ∧ _))

variable {t : ℕ} {q : Query} {o : Oracle} {call : ToolCall} {op : Op} {step : AppStep}
  {e : UndoLogError}

theorem AppStep.run_ok {w w' : World} (h : step.run o w = some (.error e, w')) :
    step = .rateLimit := by
  cases step with
  | rateLimit => rfl
  | cacheGet | newUuid =>
    simp only [AppStep.run] at h
    split at h <;> cases h
  | _ => cases h

theorem app_not_failed (hc : Reaches S guard c) (hstep : step ≠ .rateLimit) :
    Event.ran (M := system S) t (.app step) (.error e) ∉ c.trace := by
  intro hran
  refine hc.since hran ?_ fun _ _ _ _ _ _ hfalse => hfalse
  intro d choice d' _ _ htrans htrace
  obtain ⟨o, next, -, -, hexec⟩ := htrans.of_ran htrace
  exact hstep (AppStep.run_ok hexec)

section Sequential

variable (hseq : ∀ (c : State S) choice, guard c choice → Sequential c choice)

include hseq

section

variable (hc : Reaches S guard c)
include hc

theorem not_crashed (t : ℕ) : Event.crashed (M := system S) t ∉ c.trace := by
  refine hc.invariant ?_ ?_
  · exact fun w _ => List.not_mem_nil
  · intro c choice c' _ ih hguard htrans hmem
    have hallowed := hseq c choice hguard
    cases htrans with
    | crash hcall => exact hallowed
    | start | run | finish | environment => exact ih (by simpa using hmem)

theorem not_compensates (h : Started c t op) : op.compensates = false := by
  refine hc.since h ?_ fun _ _ _ _ _ _ hop => hop
  intro c choice c' _ hguard htrans htrace
  have hallowed := hseq c choice hguard
  cases htrans with
  | start op' =>
    have hevent := List.append_cancel_left htrace
    cases hevent
    exact hallowed.2
  | run | finish | crash | environment => cases List.append_cancel_left htrace

theorem one_running {u : ℕ} {p q : (system S).Prog} (ht : c.calls t = some p)
    (hu : c.calls u = some q) : t = u := by
  have hone : ∀ t u, (c.calls t).isSome = true → (c.calls u).isSome = true → t = u := by
    refine hc.invariant ?_ ?_
    · intro w _ t u ht
      cases ht
    · intro c choice c' hc ih hguard htrans t u ht hu
      have hallowed := hseq c choice hguard
      rcases htrans.running ht with ht | ⟨op, rfl, rfl⟩
      · rcases htrans.running hu with hu | ⟨op, rfl, rfl⟩
        · exact ih t u ht hu
        · exact absurd ht (not_running_of_idle hallowed.1 hc t)
      · rcases htrans.running hu with hu | ⟨op', -, rfl⟩
        · exact absurd hu (not_running_of_idle hallowed.1 hc u)
        · rfl
  exact hone t u (by rw [ht]; rfl) (by rw [hu]; rfl)

theorem returned_of_idle (hidle : Idle c) (h : Started c t op) : ∃ r, Returned c t r := by
  rcases hc.started_cases t op h with ⟨p, hp⟩ | hreturned | hcrash
  · exact absurd (by rw [hp]; rfl) (not_running_of_idle hidle hc t)
  · exact hreturned
  · exact absurd hcrash (not_crashed hseq hc t)

theorem not_failed (hok : ∀ (d : State S) o, Reaches S guard d →
      (∃ op, Started d t op ∧ opPre S op (pastOf t d) (.db q)) →
      ∃ a db', q.tx S.backend t o (dbOf d) = .ok (a, db')) :
    Event.ran (M := system S) t (.db q) (.error e) ∉ c.trace := by
  intro hran
  refine hc.since hran ?_ fun _ _ _ _ _ _ hfalse => hfalse
  intro d choice d' hd hguard htrans htrace
  obtain ⟨o, next, rfl, hcall, hexec⟩ := htrans.of_ran htrace
  have hreply := Query.run_reply (hseq _ _ hguard) hexec
  obtain ⟨a, db', htx⟩ := hok d o hd ((contract S).pre_of_call hd.coherent hcall)
  rw [htx] at hreply
  cases hreply

end

variable {ins : Insertion} {r : q.Ret} (hc : Reaches S guard c)
include hc

theorem not_failed_after_insert {before : History} {st : Stmt}
    (hpast : pastOf t c = before ++ [⟨st, .error e⟩]) (hpre : interceptPre S call before st)
    (hins : (t, ins) ∈ insertions c) (htier : ins.tier = .irreversible) : False := by
  obtain ⟨x, hx, hkind, hxins⟩ := insertion_mem_past hins
  have hbefore : x ∈ before := by
    rw [hpast] at hx
    rcases List.mem_snoc.mp hx with hx | rfl
    · exact hx
    · cases st with
      | app step => cases hkind
      | db q =>
        rw [insertionOf_successOnly.error] at hxins
        cases hxins
  have hfree : ¬ Free Stmt.isInsert before := fun hfree => by
    rw [hfree x hbefore] at hkind
    cases hkind
  have hran : Event.ran (M := system S) t st (.error e) ∈ c.trace :=
    mem_pastOf.mp (by
      rw [hpast]
      exact List.mem_concat_self)
  -- no compensable row was inserted by the call
  have hcompensable : ∀ {effectId compensation inserted}, ¬ Done before
      (.insertCompensable call (call.signature S.hash) effectId compensation) inserted := by
    intro effectId compensation inserted hdone
    have hmem : ⟨.db (.insertCompensable call (call.signature S.hash) effectId compensation),
        .ok inserted⟩ ∈ pastOf t c := by
      rw [hpast]
      exact List.mem_append_left _ hdone
    obtain rfl := insert_once hc hx hmem hkind rfl
    cases inserted with
    | false => cases hxins
    | true =>
      cases hxins
      cases htier
  cases st with
  | app step =>
    by_cases hstep : step = .rateLimit
    · subst hstep
      exact hfree hpre
    · exact app_not_failed hc hstep hran
  | db q =>
    cases q with
    | findBySignature =>
      have hnone := hpre.2.2.1 x hbefore
      rw [hxins] at hnone
      cases hnone
    | insertUndo =>
      obtain ⟨-, -, inserted, hdone, -⟩ := hpre
      exact hcompensable hdone
    | setExecuting =>
      obtain ⟨-, compensation, undoId, -, inserted, hdone, -⟩ := hpre
      exact hcompensable hdone
    | createApproval req =>
      refine not_failed hseq hc ?_ hran
      rintro d o hd ⟨op, -, hpre'⟩
      obtain ⟨call', rfl, hpre''⟩ := intercept_of_pre hpre' rfl
      obtain ⟨db', htx⟩ := createApproval_ok hd hpre''
      exact ⟨(), db', htx⟩
    | setApprovalRequestId | setAwaitingApproval =>
      exact not_failed hseq hc (fun _ _ _ _ => ⟨(), _, rfl⟩) hran
    | getSession | tryAdvisoryLock => exact hfree hpre
    | createSession => exact hfree hpre.2.2
    | markReplayed => exact hfree hpre.2.1
    | insertCompensable | insertIrreversible => exact hfree hpre.2.2.2
    | _ => exact hpre

/-- An irreversible call that has inserted its effect has asked for a decision when it returns. -/
theorem asked_of_returned {r : Except UndoLogError OpResult} (hins : (t, ins) ∈ insertions c)
    (htier : ins.tier = .irreversible) (hreturned : Returned c t r) : ∃ reason id now,
      Succeeded c t (.createApproval
        (approvalRequestFor S.config ins.call ins.effectId reason id now)) () ∧
      Succeeded c t (.setApprovalRequestId ins.call.orgId ins.effectId id) () ∧
      Succeeded c t (.setAwaitingApproval ins.call.orgId ins.call.sessionId) () := by
  obtain ⟨hstart, hsig, -⟩ := insertion_call hc hins
  obtain ⟨x, hx, hkind, hxins⟩ := insertion_mem_past hins
  have hfree : ¬ Free Stmt.isInsert (pastOf t c) := fun hfree => by
    rw [hfree x hx] at hkind
    cases hkind
  obtain ⟨r', hpost, -⟩ := (contract S).post_of_returned hc.coherent hstart hreturned
  rcases r' with e | outcome
  · rcases hpost with hnone | ⟨before, st, hpast, hpre⟩
    · exact absurd hnone hfree
    · exact (not_failed_after_insert hseq hc hpast hpre hins htier).elim
  · cases outcome with
    | execute effectId =>
      rcases hpost with ⟨hnone, -⟩ | ⟨compensation, undoId, inserted, hdone, -⟩
      · exact absurd hnone hfree
      · obtain rfl := insert_once hc hx hdone hkind rfl
        cases inserted with
        | false => cases hxins
        | true =>
          have hlabel := (congrArg Insertion.tier (Option.some.inj hxins)).trans htier
          cases hlabel
    | replay effectId result =>
      have hnone := hpost.1 x hx
      rw [hxins] at hnone
      cases hnone
    | awaitingApproval effectId id =>
      obtain ⟨reason, now, inserted, hdone, -, hcreate, hlink, hawait⟩ := hpost
      obtain rfl := insert_once hc hx hdone hkind rfl
      cases inserted with
      | false => cases hxins
      | true =>
        obtain rfl : effectId = ins.effectId :=
          congrArg Insertion.effectId (Option.some.inj hxins)
        exact ⟨reason, id, now, succeeded_iff_done.mpr hcreate, succeeded_iff_done.mpr hlink,
          succeeded_iff_done.mpr hawait⟩

theorem pending_while_running {req : ApprovalRequest} (hreq : (t, req) ∈ creations c)
    (hrunning : (c.calls t).isSome = true) :
    ∀ a ∈ (dbOf c).approvals, a.approvalRequestId = req.approvalRequestId → a.state = .pending := by
  refine (creation_event hreq).while_running hc hrunning ?_ ?_
  · intro c c' o hc hquery a' ha' hid
    rcases hquery.approval_origin ha' with ⟨_, ha, rfl⟩ | ⟨req', -, rfl⟩
    · exact absurd hid (hquery.creation_fresh _ ha)
    · rfl
  · intro c choice c' hc _ htrans hcreated hrunning hpending a' ha' hid
    rcases step_cases htrans with ⟨event, hquiet⟩ | ⟨t', o, q, r, -, hquery⟩
    · rw [hquiet.tables.approvals] at ha'
      exact hpending a' ha' hid
    · rcases hquery.approval_origin ha' with ⟨a, ha, rfl⟩ | ⟨req', -, rfl⟩
      · obtain ⟨call, inserted, hby⟩ := creation_createdBy hc (creation_of_succeeded hcreated)
        obtain ⟨p, hp⟩ := Option.isSome_iff_exists.mp hrunning
        have hnil : q.resolves S.backend t' (dbOf c) = [] := by
          obtain ⟨next, hcall⟩ := hquery.call
          obtain rfl := one_running hseq hc hp hcall
          obtain ⟨op, hstart, hpre⟩ := hquery.pre hc
          obtain rfl := hby.started.unique hc hstart
          cases q <;> first | rfl | cases hpre
        rw [Query.approvalAfter_of_not_mem (by rw [hnil]; exact List.not_mem_nil)] at hid ⊢
        exact hpending a ha hid
      · rfl

/-- Nothing is compensated: no statement but the read of a session is one of the
orchestrator. -/
theorem not_compensation (hquery : QueryStep c c' t o q r) :
    (Stmt.db q).isCompensation = false ∨ ∃ orgId sessionId, q = .getSession orgId sessionId := by
  obtain ⟨op, hstart, hpre⟩ := hquery.pre hc
  have hop := not_compensates hseq hc hstart
  cases q with
  | getSession orgId sessionId => exact .inr ⟨orgId, sessionId, rfl⟩
  | _ =>
    left
    cases op with
    | compensateSession => cases hop
    | processTimeouts | processPendingTimeouts => first | rfl | cases hpre.1
    | _ => first | rfl | cases hpre

theorem session_states :
    ∀ s ∈ (dbOf c).sessions, s.state ∈ [.active, .awaitingApproval, .halted] := by
  refine tables_invariant (P := fun db => ∀ s ∈ db.sessions,
    s.state ∈ [.active, .awaitingApproval, .halted]) hc (by rintro _ _ _ _ ⟨⟩) ?_ ?_
  · intro db db' htables ih
    rwa [htables.sessions]
  · intro c c' t o q r hc _ hquery ih s' hs'
    rcases hquery.session_origin hs' with ⟨s, hs, -, -, hafter⟩ | ⟨orgId, sessionId, -, rfl, -⟩
    · rw [hafter]
      have hstate := ih s hs
      cases q with
      | setCompensated =>
        rcases not_compensation hseq hc hquery with hno | ⟨orgId, sessionId, hno⟩
        · cases hno
        · cases hno
      | setAwaitingApproval | approve | reject | setHalted =>
        simp only [Query.sessionAfter]
        split
        · simp
        · exact hstate
      | _ => exact hstate
    · simp [newSession]

end Sequential

end UndoLog
