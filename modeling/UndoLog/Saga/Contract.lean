import UndoLog.Engine.Contract

/-!
# What `compensate_session` has done before each of its statements

The walk over the undo stack: how far it has come, which requests were answered and which
entries were marked. Like the other contracts it is read off the program and holds
whatever the store and the endpoints answer.
-/

namespace UndoLog

open Concurrent

/-- A request for an undo entry was answered with success. -/
def Undone (past : History) (entry : UndoEntry) : Prop :=
  ∃ endpoint code, ⟨.app (.post endpoint entry.undoId entry.compensation.args),
    .ok (.status code)⟩ ∈ past ∧ 200 ≤ code ∧ code < 300

/-- Statements that record a permanent failure. -/
def Stmt.isFailure : Stmt → Bool
  | .db (.markCompensationFailed _ _ _) | .db (.markEffectCompensationFailed _ _)
  | .db (.setHalted _ _ _) => true
  | _ => false

/-- How far the walk over the undo stack has come: the entries before it are marked after a
successful request, and requests went out for them and the next entry only. -/
structure Walked (orgId : OrgId) (sessionId : SessionId) (past : History)
    (before rest : List UndoEntry) : Prop where
  session : ∃ s, Done past (.getSession orgId sessionId) (some s) ∧ s.state.isTerminal = false
  loaded : Done past (.loadUndoStack orgId sessionId) (before ++ rest)
  undone : ∀ e ∈ before, e.state.isTerminal = false → Undone past e
  marked : ∀ e ∈ before, e.state.isTerminal = false →
    Done past (.markCompensated orgId e.undoId) ()
  posts : ∀ endpoint undoId args reply, ⟨.app (.post endpoint undoId args), reply⟩ ∈ past →
    ∃ e ∈ before ++ rest.take 1, e.undoId = undoId
  marks : ∀ o undoId reply, ⟨.db (.markCompensated o undoId), reply⟩ ∈ past →
    ∃ e ∈ before, e.undoId = undoId
  unfailed : Free Stmt.isFailure past

/-- The walk is at an entry that has to be compensated. -/
def At (orgId : OrgId) (sessionId : SessionId) (past : History) (entry : UndoEntry) : Prop :=
  entry.state.isTerminal = false ∧
    ∃ before rest, Walked orgId sessionId past before (entry :: rest)

/-- The statements of `compensate_session` and what each relies on. -/
def sagaPre (registry : CompensationRegistry) (orgId : OrgId) (sessionId : SessionId)
    (past : History) : Stmt → Prop
  | .app (.post endpoint undoId args) => ∃ entry, At orgId sessionId past entry ∧
      registry.endpointFor entry.compensation.fnName = some endpoint ∧
      undoId = entry.undoId ∧ args = entry.compensation.args
  | .db (.getSession o s) => o = orgId ∧ s = sessionId ∧ past = []
  | .db (.loadUndoStack o s) => o = orgId ∧ s = sessionId ∧ ∃ session,
      session.state.isTerminal = false ∧
      past = [⟨.db (.getSession orgId sessionId), .ok (some session)⟩]
  | .db (.markCompensated o undoId) => o = orgId ∧ ∃ entry, At orgId sessionId past entry ∧
      undoId = entry.undoId ∧ Undone past entry
  | .db (.markCompensationFailed o undoId _) => o = orgId ∧ ∃ entry,
      At orgId sessionId past entry ∧ undoId = entry.undoId
  | .db (.markEffectCompensationFailed o _) => o = orgId ∧ ∃ undoId reason,
      Done past (.markCompensationFailed orgId undoId reason) ()
  | .db (.setHalted o s _) => o = orgId ∧ s = sessionId ∧ ∃ undoId reason,
      Done past (.markCompensationFailed orgId undoId reason) ()
  | .db (.setCompensated o s) => o = orgId ∧ s = sessionId ∧ ∃ entries,
      Walked orgId sessionId past entries []
  | _ => False

/-- The statements after an entry was marked as failed. -/
def Query.followsFailure : Query → Bool
  | .markEffectCompensationFailed _ _ | .setHalted _ _ _ => true
  | _ => false

/-- Once an entry is marked as failed, the session is halted, unless one of the statements
that follow fails. -/
def FailureHalted (orgId : OrgId) (sessionId : SessionId) (past : History) : Prop :=
  ∀ undoId reason, Done past (.markCompensationFailed orgId undoId reason) () →
    (∃ reason', Done past (.setHalted orgId sessionId reason') ()) ∨
    ∃ q e, Query.followsFailure q = true ∧ ⟨.db q, .error e⟩ ∈ past

section Walk

variable {registry : CompensationRegistry} {orgId : OrgId} {sessionId : SessionId}
  {past : History} {before rest : List UndoEntry} {entry : UndoEntry}

theorem Undone.append (h : Undone past entry) (more : History) : Undone (past ++ more) entry := by
  obtain ⟨endpoint, code, hmem, hcode⟩ := h
  exact ⟨endpoint, code, List.mem_append_left _ hmem, hcode⟩

theorem undone_of_succeeded {endpoint : String} {response : HttpResponse}
    (h : classify registry response = .succeeded) :
    Undone (past ++ [⟨.app (.post endpoint entry.undoId entry.compensation.args),
      .ok response⟩]) entry := by
  cases response with
  | failure message => cases h
  | status code =>
    simp only [classify] at h
    split at h
    · next hcode => exact ⟨endpoint, code, by simp, hcode⟩
    · split at h <;> cases h

/-- Without a recorded failure there is nothing to show about one. -/
theorem FailureHalted.of_unfailed (h : Free Stmt.isFailure past) :
    FailureHalted orgId sessionId past := by
  intro undoId reason hdone
  cases h _ hdone

theorem FailureHalted.of_error {q : Query} (hq : q.followsFailure = true) (e : UndoLogError) :
    FailureHalted orgId sessionId (past ++ [⟨.db q, .error e⟩]) :=
  fun _ _ _ => .inr ⟨q, e, hq, List.mem_concat_self⟩

theorem Walked.start {session : SessionRecord} (hopen : session.state.isTerminal = false)
    (entries : List UndoEntry) :
    Walked orgId sessionId [⟨.db (.getSession orgId sessionId), .ok (some session)⟩,
      ⟨.db (.loadUndoStack orgId sessionId), .ok entries⟩] [] entries where
  session := ⟨session, by simp [Done], hopen⟩
  loaded := by simp [Done]
  undone := by simp
  marked := by simp
  posts := by simp
  marks := by simp
  unfailed := by simp [Free, Stmt.isFailure]

section

variable (h : Walked orgId sessionId past before (entry :: rest))
include h

theorem Walked.post (endpoint : String) (args : Json) (reply : Except UndoLogError HttpResponse) :
    Walked orgId sessionId (past ++ [⟨.app (.post endpoint entry.undoId args), reply⟩]) before
      (entry :: rest) := by
  obtain ⟨s, hsession, hopen⟩ := h.session
  refine ⟨⟨s, hsession.append _, hopen⟩, h.loaded.append _,
    fun e he hstate => (h.undone e he hstate).append _,
    fun e he hstate => (h.marked e he hstate).append _, ?_, ?_, h.unfailed.snoc rfl _⟩
  · intro endpoint' undoId args' reply' hmem
    rcases List.mem_snoc.mp hmem with hold | heq
    · exact h.posts _ _ _ _ hold
    · cases heq
      exact ⟨entry, by simp, rfl⟩
  · intro o undoId reply' hmem
    rcases List.mem_append.mp hmem with hold | hnew
    · exact h.marks _ _ _ hold
    · cases List.mem_singleton.mp hnew

theorem Walked.mark (hundone : Undone past entry) :
    Walked orgId sessionId (past ++ [⟨.db (.markCompensated orgId entry.undoId), .ok ()⟩])
      (before ++ [entry]) rest := by
  obtain ⟨s, hsession, hopen⟩ := h.session
  refine ⟨⟨s, hsession.append _, hopen⟩, ?_, ?_, ?_, ?_, ?_, h.unfailed.snoc rfl _⟩
  · rw [List.append_assoc]
    exact h.loaded.append _
  · intro e he hstate
    rcases List.mem_append.mp he with hold | hnew
    · exact (h.undone e hold hstate).append _
    · rw [List.mem_singleton.mp hnew]
      exact hundone.append _
  · intro e he hstate
    rcases List.mem_append.mp he with hold | hnew
    · exact (h.marked e hold hstate).append _
    · rw [List.mem_singleton.mp hnew]
      exact done_snoc _ _
  · intro endpoint undoId args reply hmem
    rcases List.mem_append.mp hmem with hold | hnew
    · obtain ⟨e, he, hid⟩ := h.posts _ _ _ _ hold
      exact ⟨e, List.mem_append_left _ he, hid⟩
    · cases List.mem_singleton.mp hnew
  · intro o undoId reply hmem
    rcases List.mem_snoc.mp hmem with hold | heq
    · obtain ⟨e, he, hid⟩ := h.marks _ _ _ hold
      exact ⟨e, List.mem_append_left _ he, hid⟩
    · cases heq
      exact ⟨entry, by simp, rfl⟩

theorem Walked.skip (hterminal : entry.state.isTerminal = true) :
    Walked orgId sessionId past (before ++ [entry]) rest := by
  have hold : ∀ e ∈ before ++ [entry], e.state.isTerminal = false → e ∈ before := by
    intro e he hstate
    rcases List.mem_append.mp he with hold | hnew
    · exact hold
    · rw [List.mem_singleton.mp hnew, hterminal] at hstate
      cases hstate
  refine ⟨h.session, ?_, fun e he hstate => h.undone e (hold e he hstate) hstate,
    fun e he hstate => h.marked e (hold e he hstate) hstate, ?_, ?_, h.unfailed⟩
  · rw [List.append_assoc]
    exact h.loaded
  · intro endpoint undoId args reply hmem
    obtain ⟨e, he, hid⟩ := h.posts _ _ _ _ hmem
    exact ⟨e, List.mem_append_left _ he, hid⟩
  · intro o undoId reply hmem
    obtain ⟨e, he, hid⟩ := h.marks _ _ _ hmem
    exact ⟨e, List.mem_append_left _ he, hid⟩

variable (hopen : entry.state.isTerminal = false)
include hopen

theorem postLoop_contract {endpoint : String} (retries : ℕ)
    (hendpoint : registry.endpointFor entry.compensation.fnName = some endpoint) :
    Program.Satisfies (sagaPre registry orgId sessionId)
      (fun past r => Walked orgId sessionId past before (entry :: rest) ∧
        (r = .ok none → Undone past entry)) past (postLoop registry endpoint entry retries) := by
  induction retries using Nat.strongRec generalizing past with
  | ind retries ih =>
    unfold postLoop
    refine Program.satisfies_stmt_bind ⟨entry, ⟨hopen, before, rest, h⟩, hendpoint, rfl, rfl⟩
      (fun e => ⟨h.post _ _ _, by rintro ⟨⟩⟩) fun response => ?_
    have hnext := h.post endpoint entry.compensation.args (.ok response)
    cases hclass : classify registry response with
    | succeeded => exact ⟨hnext, fun _ => undone_of_succeeded hclass⟩
    | permanent => exact ⟨hnext, by rintro ⟨⟩⟩
    | retryable =>
      cases retries with
      | zero => exact ⟨hnext, by rintro ⟨⟩⟩
      | succ retries => exact ih retries (Nat.lt_succ_self _) hnext

theorem failEntry_contract (reason : String) :
    Program.Satisfies (sagaPre registry orgId sessionId) (fun past r => (r = .ok () →
          ∃ undoId reason, Done past (.markCompensationFailed orgId undoId reason) ()) ∧
        (r ≠ .ok () → FailureHalted orgId sessionId past)) past (failEntry orgId entry reason) := by
  refine Program.satisfies_stmt_bind ⟨rfl, entry, ⟨hopen, before, rest, h⟩, rfl⟩ ?_ fun _ => ?_
  · intro e
    refine ⟨by rintro ⟨⟩, fun _ undoId reason' hdone => ?_⟩
    rcases List.mem_append.mp hdone with hold | hnew
    · cases h.unfailed _ hold
    · cases List.mem_singleton.mp hnew
  · refine Program.satisfies_stmt ⟨rfl, entry.undoId, reason, done_snoc _ _⟩ ?_
    rintro (e | _)
    · exact ⟨by rintro ⟨⟩, fun _ => .of_error rfl e⟩
    · exact ⟨fun _ => ⟨entry.undoId, reason, (done_snoc _ _).append _⟩, fun hne => absurd rfl hne⟩

/-- What has happened when an entry was executed: it is undone, or its failure is
recorded. -/
def Executed (orgId : OrgId) (sessionId : SessionId) (before rest : List UndoEntry)
    (entry : UndoEntry) (past : History) : Except UndoLogError (Except SagaError Unit) → Prop
  | .ok (.ok _) => Walked orgId sessionId past before (entry :: rest) ∧ Undone past entry
  | .ok (.error e) => e.haltReason.isSome = true ∧ ∃ undoId reason,
      Done past (.markCompensationFailed orgId undoId reason) ()
  | .error _ => FailureHalted orgId sessionId past

theorem reportFailure_contract {e : SagaError} (reason : String) (he : e.haltReason.isSome = true) :
    Program.Satisfies (sagaPre registry orgId sessionId)
      (Executed orgId sessionId before rest entry) past (do
        failEntry orgId entry reason
        pure (.error e)) := by
  refine (failEntry_contract h hopen reason).andThen ?_
  rintro past' (e' | _) ⟨hok, herror⟩
  · exact herror (by rintro ⟨⟩)
  · exact ⟨he, hok rfl⟩

theorem executeEntry_contract : Program.Satisfies (sagaPre registry orgId sessionId)
      (Executed orgId sessionId before rest entry) past (executeEntry registry orgId entry) := by
  unfold executeEntry
  split
  · exact reportFailure_contract h hopen _ rfl
  · next endpoint hendpoint =>
    refine (postLoop_contract h hopen _ hendpoint).andThen ?_
    rintro past' (e | _ | reason) ⟨hwalked, hundone⟩
    · exact .of_unfailed hwalked.unfailed
    · exact ⟨hwalked, hundone rfl⟩
    · exact reportFailure_contract hwalked hopen _ rfl

end

theorem compensateEntries_contract (h : Walked orgId sessionId past before rest) :
    Program.Satisfies (sagaPre registry orgId sessionId)
      (fun past _ => FailureHalted orgId sessionId past) past
      (compensateEntries registry orgId sessionId rest) := by
  induction rest generalizing past before with
  | nil =>
    refine Program.satisfies_stmt_bind ⟨rfl, rfl, before, h⟩ (fun e => ?_) fun _ => ?_
    · exact .of_unfailed (h.unfailed.snoc rfl _)
    · exact .of_unfailed (h.unfailed.snoc rfl _)
  | cons entry rest ih =>
    unfold compensateEntries
    split
    · next hterminal => exact ih (h.skip hterminal)
    · next hopen =>
      have hopen : entry.state.isTerminal = false := Bool.eq_false_iff.mpr hopen
      refine (executeEntry_contract h hopen).andThen ?_
      rintro past' (e | e | _) hexecuted
      · exact hexecuted
      · obtain ⟨hhalts, undoId, reason, hdone⟩ := hexecuted
        obtain ⟨halt, hhalt⟩ := Option.isSome_iff_exists.mp hhalts
        simp only [Program.Handoff, hhalt]
        refine Program.satisfies_stmt_bind ⟨rfl, rfl, undoId, reason, hdone⟩ (.of_error rfl)
          fun _ _ _ _ => .inl ⟨halt, done_snoc _ _⟩
      · obtain ⟨hwalked, hundone⟩ := hexecuted
        refine Program.satisfies_stmt_bind
          ⟨rfl, entry, ⟨hopen, before, rest, hwalked⟩, rfl, hundone⟩ (fun e => ?_)
          fun _ => ih (hwalked.mark hundone)
        exact .of_unfailed (hwalked.unfailed.snoc rfl _)

theorem compensateSession_contract : Program.Satisfies (sagaPre registry orgId sessionId)
      (fun past _ => FailureHalted orgId sessionId past) []
      (compensateSession registry orgId sessionId) := by
  have hnone : Free Stmt.isFailure [] := by simp [Free]
  refine Program.satisfies_stmt_bind ⟨rfl, rfl, rfl⟩ (fun e => .of_unfailed (hnone.snoc rfl _)) ?_
  rintro (_ | session)
  · exact .of_unfailed (hnone.snoc rfl _)
  · dsimp only
    split
    · exact .of_unfailed (hnone.snoc rfl _)
    · next hopen =>
      have hopen : session.state.isTerminal = false := Bool.eq_false_iff.mpr hopen
      refine Program.satisfies_stmt_bind ⟨rfl, rfl, session, hopen, rfl⟩
        (fun e => .of_unfailed ((hnone.snoc rfl _).snoc rfl _)) fun entries => ?_
      exact compensateEntries_contract (.start hopen entries)

end Walk

/-! ## Other calls send no requests -/

/-- A statement that sends no request. -/
def Stmt.isLocal : Stmt → Bool
  | .app (.post _ _ _) => false
  | _ => true

/-- A statement that looks up a session. -/
def Stmt.readsSession : Stmt → Bool
  | .app (.cacheGet _ _) | .db (.getSession _ _) => true
  | _ => false

/-- What a call of an organisation may issue that is no compensation. -/
def Stmt.Serves (orgId : OrgId) (st : Stmt) : Prop := st.isLocal = true ∧ st.WorksFor orgId

/-- What `intercept` issues once it knows its session. -/
def Stmt.Routes (orgId : OrgId) (st : Stmt) : Prop :=
  st.Serves orgId ∧ st.readsSession = false

section Local

variable {call : ToolCall}

theorem perform_issues {P : Stmt → Prop} {step : AppStep} (h : P (.app step)) :
    Program.Issues P (perform step) :=
  fun _ => And.intro h fun _ => trivial

theorem ensureSession_serves : Program.Issues (Stmt.Serves call.orgId) (ensureSession call) := by
  refine .bind (.stmt ⟨rfl, rfl⟩) ?_
  rintro (_ | _)
  · refine .bind (.stmt ⟨rfl, rfl⟩) ?_
    rintro (_ | _)
    · refine .bind (.stmt ⟨rfl, rfl⟩) fun _ => .bind (.stmt ⟨rfl, rfl⟩) ?_
      rintro (_ | _)
      · exact .done _
      · exact perform_issues ⟨rfl, trivial⟩
    · exact perform_issues ⟨rfl, trivial⟩
  · exact .done _

theorem lockLoop_routes (orgId : OrgId) (signature : CallSignature) (maxAttempts attempts : ℕ) :
    Program.Issues (Stmt.Routes orgId) (lockLoop signature maxAttempts attempts) := by
  induction attempts with
  | zero => exact .done _
  | succ attempts ih =>
    refine .bind (.stmt ⟨⟨rfl, trivial⟩, rfl⟩) ?_
    rintro (_ | _)
    · exact ih
    · exact .done _

theorem acquireAdvisoryLock_routes (orgId : OrgId) (b : Backend) (signature : CallSignature)
    (maxAttempts : ℕ) :
    Program.Issues (Stmt.Routes orgId) (acquireAdvisoryLock b signature maxAttempts) := by
  unfold acquireAdvisoryLock
  split
  · exact lockLoop_routes _ _ _ _
  · exact .done _

theorem findDuplicate_routes (signature : CallSignature) (inserted : Bool) :
    Program.Issues (Stmt.Routes call.orgId) (findDuplicate call signature inserted) := by
  cases inserted with
  | true => exact .done _
  | false => exact .stmt ⟨⟨rfl, rfl⟩, rfl⟩

theorem interceptCompensable_routes (signature : CallSignature) (effectId : EffectId)
    (compensation : CompensationDescriptor) : Program.Issues (Stmt.Routes call.orgId)
      (interceptCompensable call signature effectId compensation) := by
  refine .bind (.stmt ⟨⟨rfl, rfl⟩, rfl⟩) fun inserted => .bind (findDuplicate_routes _ inserted) ?_
  rintro (_ | existing)
  · exact .bind (.bind (.stmt ⟨⟨rfl, trivial⟩, rfl⟩) fun _ => .stmt ⟨⟨rfl, rfl⟩, rfl⟩) fun _ =>
      .bind (.stmt ⟨⟨rfl, rfl⟩, rfl⟩) fun _ => .done _
  · exact .done _

theorem interceptIrreversible_routes (config : EngineConfig) (signature : CallSignature)
    (effectId : EffectId) (reason : String) : Program.Issues (Stmt.Routes call.orgId)
      (interceptIrreversible config call signature effectId reason) := by
  refine .bind (.stmt ⟨⟨rfl, rfl⟩, rfl⟩) fun inserted => .bind (findDuplicate_routes _ inserted) ?_
  rintro (_ | existing)
  · exact .bind (.stmt ⟨⟨rfl, trivial⟩, rfl⟩) fun _ => .bind (.stmt ⟨⟨rfl, trivial⟩, rfl⟩) fun _ =>
      .bind (.stmt ⟨⟨rfl, rfl⟩, rfl⟩) fun _ => .bind (.stmt ⟨⟨rfl, rfl⟩, rfl⟩) fun _ =>
      .bind (.stmt ⟨⟨rfl, rfl⟩, rfl⟩) fun _ =>
      .bind (perform_issues ⟨⟨rfl, rfl⟩, rfl⟩) fun _ => .done _
  · exact .done _

theorem lookupOrRoute_routes (config : EngineConfig) (signature : CallSignature) :
    Program.Issues (Stmt.Routes call.orgId) (lookupOrRoute config call signature) := by
  refine .bind (.stmt ⟨⟨rfl, rfl⟩, rfl⟩) ?_
  rintro (_ | existing)
  · refine .bind (.stmt ⟨⟨rfl, rfl⟩, rfl⟩) fun tier =>
      .bind (.stmt ⟨⟨rfl, trivial⟩, rfl⟩) fun effectId => ?_
    cases tier with
    | safe => exact .done _
    | compensable compensation => exact interceptCompensable_routes _ _ _
    | irreversible reason => exact interceptIrreversible_routes _ _ _ _
  · exact .bind (.stmt ⟨⟨rfl, rfl⟩, rfl⟩) fun _ => .done _

/-- Every statement of `intercept` is made for the organisation of the call. -/
theorem intercept_serves (b : Backend) (hash : SignatureHash) (config : EngineConfig) :
    Program.Issues (Stmt.Serves call.orgId) (intercept b hash config call) :=
  .bind (.stmt ⟨rfl, trivial⟩) fun _ => .bind ensureSession_serves fun _ =>
    .bind ((acquireAdvisoryLock_routes _ _ _ _).mono fun _ h => h.1) fun _ =>
      (lookupOrRoute_routes _ _).mono fun _ h => h.1

theorem isLocal_of_pre {S : Setup} {op : Op} {past : History} {st : Stmt}
    (hintercept : ∀ call, op ≠ .intercept call)
    (hcompensate : ∀ orgId sessionId, op ≠ .compensateSession orgId sessionId)
    (hpre : opPre S op past st) : st.isLocal = true := by
  cases st with
  | db q => rfl
  | app step =>
    cases op with
    | intercept => exact absurd rfl (hintercept _)
    | compensateSession => exact absurd rfl (hcompensate _ _)
    | approve | reject => cases step <;> first | rfl | cases hpre
    | processTimeouts | processPendingTimeouts => cases hpre.1
    | _ => cases hpre

end Local

/-- The contract of `compensate_session`. The other calls send no requests. -/
def sagaContract (S : Setup) : Machine.Contract (system S) where
  pre
    | .compensateSession orgId sessionId => sagaPre S.compensations orgId sessionId
    | _ => fun _ st => Stmt.isLocal st = true
  post
    | .compensateSession orgId sessionId =>
        Renamed .compensated fun past _ => FailureHalted orgId sessionId past
    | _ => fun _ _ => True
  satisfied := by
    intro op
    have hlocal : (∀ call, op ≠ .intercept call) →
        (∀ orgId sessionId, op ≠ .compensateSession orgId sessionId) →
        Program.Satisfies (fun _ st => Stmt.isLocal st = true) (fun _ _ => True) []
          (programOf S op) := fun hintercept hcompensate =>
      ((contract S).satisfied op).mono (fun _ _ hpre => isLocal_of_pre hintercept hcompensate hpre)
        fun _ _ _ => trivial
    cases op with
    | compensateSession orgId sessionId => exact as_contract _ compensateSession_contract
    | intercept call =>
      exact ((intercept_serves _ _ _).mono fun _ h => h.1).bind (fun _ => .done _) []
    | _ => exact hlocal (by rintro _ ⟨⟩) (by rintro _ _ ⟨⟩)

end UndoLog
