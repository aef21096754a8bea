import UndoLog.Engine.Outcome
import UndoLog.Engine.System

/-!
# What a call has done before each of its statements

The contract of every call, read off its program: which statements it may issue,
which of its own earlier statements each of them relies on, and what it has run
when it returns. Nothing here depends on the store or on other calls.
-/

namespace UndoLog

open Concurrent

/-- The statements a call has run, with their replies. -/
abbrev History : Type := List (Ran Stmt Stmt.Ret UndoLogError)

/-- A database statement of the history that succeeded. -/
def Done (past : History) (q : Query) (a : q.Ret) : Prop := ⟨.db q, .ok a⟩ ∈ past

/-- An identifier that the call generated. -/
def Drew (past : History) (u : Uuid) : Prop := ⟨.app .newUuid, .ok u⟩ ∈ past

/-- An insert into the effect log. -/
def Stmt.isInsert : Stmt → Bool
  | .db (.insertCompensable _ _ _ _) | .db (.insertIrreversible _ _ _) => true
  | _ => false

/-- The creation of an approval request. -/
def Stmt.isApprovalCreation : Stmt → Bool
  | .db (.createApproval _) => true
  | _ => false

/-- The step of a compensable effect into `executing`. -/
def Stmt.isExecution : Stmt → Bool
  | .db (.setExecuting _ _) => true
  | _ => false

/-- A statement that only prepares a call: rate limit, session, lock and lookup. -/
def Stmt.isPreparation : Stmt → Bool
  | .app .rateLimit | .app (.cacheGet _ _) | .app (.cacheInsert _) | .db (.getSession _ _)
  | .db (.createSession _ _) | .db (.tryAdvisoryLock _) | .db (.findBySignature _ _) => true
  | _ => false

/-- No statement of the history is of the given kind. -/
def Free (kind : Stmt → Bool) (past : History) : Prop := ∀ r ∈ past, kind r.1 = false

/-- Only preparations so far. -/
def Preparing (past : History) : Prop := ∀ r ∈ past, r.1.isPreparation = true

/-- After an ignored insert the call looked for the row in its way and found none. -/
def Missed (orgId : OrgId) (signature : CallSignature) (past : History) : Prop :=
  ∃ before, before ++ [⟨.db (.findBySignature orgId signature), .ok none⟩] <+: past ∧
    ∃ r ∈ before, ∃ ins, ignoredOf r = some ins

/-- A call goes on after its insert: the row is in, or the insert was ignored and
nothing was found in its way. -/
def Cleared (orgId : OrgId) (signature : CallSignature) (inserted : Bool) (past : History) : Prop :=
  inserted = true ∨ Missed orgId signature past

/-- No row was inserted so far. -/
def NothingInserted (past : History) : Prop := ∀ r ∈ past, insertionOf r = none

/-- The call has seen its session in the cache or in the store, or has created it. -/
def SessionKnown (call : ToolCall) (past : History) : Prop :=
  (∃ record, ⟨.app (.cacheGet call.orgId call.sessionId), .ok (some record)⟩ ∈ past) ∨
  (∃ record, Done past (.getSession call.orgId call.sessionId) (some record)) ∨
  Done past (.createSession call.orgId call.sessionId) ()

/-- The registry gave the call's tool a tier. -/
def Resolved (call : ToolCall) (tier : ToolTier) (past : History) : Prop :=
  ⟨.app (.resolveTier call.orgId call.toolName call.toolVersion), .ok tier⟩ ∈ past

/-- The statements of `intercept` and what each relies on. -/
def interceptPre (S : Setup) (call : ToolCall) (past : History) : Stmt → Prop
  | .app .rateLimit => Free Stmt.isInsert past
  | .app (.cacheInsert record) =>
      Done past (.getSession call.orgId call.sessionId) (some record)
  | .app _ => True
  | .db (.getSession _ _) => Free Stmt.isInsert past
  | .db (.createSession orgId sessionId) =>
      orgId = call.orgId ∧ sessionId = call.sessionId ∧ Free Stmt.isInsert past
  | .db (.tryAdvisoryLock _) => Free Stmt.isInsert past
  | .db (.findBySignature orgId signature) =>
      orgId = call.orgId ∧ signature = call.signature S.hash ∧ NothingInserted past ∧
      Free Stmt.isApprovalCreation past
  | .db (.markReplayed orgId effectId) => orgId = call.orgId ∧ Free Stmt.isInsert past ∧
      ∃ existing, Done past (.findBySignature orgId (call.signature S.hash)) (some existing) ∧
      existing.effectId = effectId
  | .db (.insertCompensable c signature effectId _) => c = call ∧
      signature = call.signature S.hash ∧ Drew past effectId.uuid ∧ Free Stmt.isInsert past
  | .db (.insertIrreversible c signature effectId) => c = call ∧
      signature = call.signature S.hash ∧ Drew past effectId.uuid ∧ Free Stmt.isInsert past
  | .db (.insertUndo c effectId compensation undoId) => c = call ∧ Drew past undoId.uuid ∧
      ∃ inserted, Done past
        (.insertCompensable call (call.signature S.hash) effectId compensation) inserted ∧
        Cleared call.orgId (call.signature S.hash) inserted past ∧
        Resolved call (.compensable compensation) past
  | .db (.setExecuting orgId effectId) => orgId = call.orgId ∧ ∃ compensation undoId,
      Done past (.insertUndo call effectId compensation undoId) () ∧
      ∃ inserted, Done past
        (.insertCompensable call (call.signature S.hash) effectId compensation) inserted ∧
        Cleared call.orgId (call.signature S.hash) inserted past ∧
        Free Stmt.isExecution past
  | .db (.createApproval req) => ∃ effectId reason id now,
      req = approvalRequestFor S.config call effectId reason id now ∧ Drew past id.uuid ∧
      Free Stmt.isApprovalCreation past ∧ SessionKnown call past ∧
      Resolved call (.irreversible reason) past ∧
      ∃ inserted, Done past
        (.insertIrreversible call (call.signature S.hash) effectId) inserted ∧
        Cleared call.orgId (call.signature S.hash) inserted past
  | .db (.setApprovalRequestId orgId effectId id) => orgId = call.orgId ∧ ∃ reason now,
      Done past (.createApproval (approvalRequestFor S.config call effectId reason id now)) ()
  | .db (.setAwaitingApproval orgId sessionId) => orgId = call.orgId ∧
      sessionId = call.sessionId ∧ ∃ effectId reason id now,
      Done past (.createApproval (approvalRequestFor S.config call effectId reason id now)) () ∧
      Done past (.setApprovalRequestId call.orgId effectId id) ()
  | _ => False

/-- What `intercept` has run when it returns. -/
def interceptPost (S : Setup) (call : ToolCall) (past : History) :
    Except UndoLogError InterceptOutcome → Prop
  | .ok (.execute effectId) =>
      (Free Stmt.isInsert past ∧ Resolved call .safe past) ∨
      ∃ compensation undoId inserted,
        Done past (.insertCompensable call (call.signature S.hash) effectId compensation)
          inserted ∧
        Cleared call.orgId (call.signature S.hash) inserted past ∧
        Done past (.insertUndo call effectId compensation undoId) () ∧
        Done past (.setExecuting call.orgId effectId) ()
  | .ok (.replay effectId result) => NothingInserted past ∧ ∃ existing,
      Done past (.findBySignature call.orgId (call.signature S.hash)) (some existing) ∧
      existing.effectId = effectId ∧ existing.resultSnapshot = result
  | .ok (.awaitingApproval effectId id) => ∃ reason now inserted,
      Done past (.insertIrreversible call (call.signature S.hash) effectId) inserted ∧
      Cleared call.orgId (call.signature S.hash) inserted past ∧
      Done past (.createApproval (approvalRequestFor S.config call effectId reason id now)) () ∧
      Done past (.setApprovalRequestId call.orgId effectId id) () ∧
      Done past (.setAwaitingApproval call.orgId call.sessionId) ()
  | .error e => Free Stmt.isInsert past ∨
      ∃ before st, past = before ++ [⟨st, .error e⟩] ∧ interceptPre S call before st

/-! ## The contract of `intercept` -/

variable {st : Stmt} {effectId : EffectId} {orgId : OrgId} {signature : CallSignature}
  {inserted : Bool} {pre : History → Stmt → Prop} {kind : Stmt → Bool} {q : Query} {past : History}

section Intercept

variable {S : Setup} {call : ToolCall} {past : History}

/-- A preparation extends a history of preparations. -/
theorem Preparing.snoc (h : Preparing past) (hst : st.isPreparation = true)
    (reply : Except UndoLogError st.Ret) : Preparing (past ++ [⟨st, reply⟩]) :=
  List.forall_mem_snoc h hst

/-- Preparations are of no other kind. -/
theorem kinds_of_isPreparation (st : Stmt) (h : st.isPreparation = true) :
    st.isInsert = false ∧ st.isApprovalCreation = false ∧ st.isExecution = false := by
  cases st with
  | app step => exact ⟨rfl, rfl, rfl⟩
  | db q => cases q <;> first | exact ⟨rfl, rfl, rfl⟩ | cases h

/-- A statement of another kind keeps a history free of a kind. -/
theorem Free.snoc (h : Free kind past) (hst : kind st = false)
    (reply : Except UndoLogError st.Ret) : Free kind (past ++ [⟨st, reply⟩]) :=
  List.forall_mem_snoc h hst

/-- Without an insert statement nothing was inserted. -/
theorem Free.nothingInserted (h : Free Stmt.isInsert past) : NothingInserted past := by
  rintro ⟨st, reply⟩ hr
  have hst := h _ hr
  cases st with
  | app step => rfl
  | db q => cases q <;> first | rfl | cases hst

theorem Done.append {a : q.Ret} (h : Done past q a) (more : History) : Done (past ++ more) q a :=
  List.mem_append_left _ h

theorem done_snoc (q : Query) (a : q.Ret) : Done (past ++ [⟨.db q, .ok a⟩]) q a := by
  simp [Done]

theorem Resolved.append {tier : ToolTier} (h : Resolved call tier past) (more : History) :
    Resolved call tier (past ++ more) :=
  List.mem_append_left _ h

variable {more : History} {compensation : CompensationDescriptor}
  {reply : Except UndoLogError st.Ret} {reason : String}

theorem Missed.mono (h : Missed orgId signature past) (hmore : past <+: more) :
    Missed orgId signature more := by
  obtain ⟨before, hbefore, hr⟩ := h
  exact ⟨before, hbefore.trans hmore, hr⟩

theorem Cleared.mono (h : Cleared orgId signature inserted past) (hmore : past <+: more) :
    Cleared orgId signature inserted more :=
  h.imp_right fun hmissed => hmissed.mono hmore

theorem Cleared.append (h : Cleared orgId signature inserted past) (more : History) :
    Cleared orgId signature inserted (past ++ more) :=
  h.mono (List.prefix_append _ _)

/-- An infallible step satisfies a contract when every reply leads to its end. -/
theorem perform_contract {post : History → Except UndoLogError Unit → Prop} {step : AppStep}
    (hpre : pre past (.app step)) (hpost : ∀ reply, post (past ++ [⟨.app step, reply⟩]) (.ok ())) :
    Program.Satisfies pre post past (perform step) :=
  ⟨hpre, hpost⟩

/-- What is left of `intercept` meets its contract. -/
abbrev Meets (S : Setup) (call : ToolCall) : History → Proc InterceptOutcome → Prop :=
  Program.Satisfies (interceptPre S call) (interceptPost S call)

/-- One statement of `intercept`, followed by the rest. -/
theorem intercept_bind {f : st.Ret → Proc InterceptOutcome} (hpre : interceptPre S call past st)
    (hok : ∀ a, Meets S call (past ++ [⟨st, .ok a⟩]) (f a)) :
    Meets S call past (Program.stmt st >>= f) :=
  Program.satisfies_stmt_bind hpre (fun _ => .inr ⟨past, st, rfl, hpre⟩) hok

theorem Preparing.noInsert (h : Preparing past) : Free Stmt.isInsert past :=
  fun r hr => (kinds_of_isPreparation r.1 (h r hr)).1

theorem Preparing.noCreation (h : Preparing past) : Free Stmt.isApprovalCreation past :=
  fun r hr => (kinds_of_isPreparation r.1 (h r hr)).2.1

theorem Preparing.noExecution (h : Preparing past) : Free Stmt.isExecution past :=
  fun r hr => (kinds_of_isPreparation r.1 (h r hr)).2.2

/-- What is known after preparations that have gone well. -/
def Ready (call : ToolCall) (past : History) : Prop := Preparing past ∧ SessionKnown call past

theorem SessionKnown.mono (h : SessionKnown call past) (hmore : past <+: more) :
    SessionKnown call more :=
  h.imp (fun ⟨record, hr⟩ => ⟨record, hmore.subset hr⟩)
    (Or.imp (fun ⟨record, hr⟩ => ⟨record, hmore.subset hr⟩) fun hr => hmore.subset hr)

theorem SessionKnown.append (h : SessionKnown call past) (more : History) :
    SessionKnown call (past ++ more) :=
  h.mono (List.prefix_append _ _)

theorem ensureSession_contract (h : Preparing past) : Program.Satisfies (interceptPre S call)
      (fun past r => Preparing past ∧ (r = .ok () → SessionKnown call past)) past
      (ensureSession call) := by
  refine Program.satisfies_stmt_bind trivial (fun _ => ⟨h.snoc rfl _, by rintro ⟨⟩⟩) ?_
  rintro (_ | cached)
  · have h₁ : ∀ reply,
        Preparing (past ++ [⟨.app (.cacheGet call.orgId call.sessionId), reply⟩]) :=
      fun reply => h.snoc rfl reply
    refine Program.satisfies_stmt_bind (h₁ _).noInsert
      (fun _ => ⟨(h₁ _).snoc rfl _, by rintro ⟨⟩⟩) ?_
    rintro (_ | record)
    · refine Program.satisfies_stmt_bind ⟨rfl, rfl, ((h₁ _).snoc rfl _).noInsert⟩
        (fun _ => ⟨((h₁ _).snoc rfl _).snoc rfl _, by rintro ⟨⟩⟩) fun _ => ?_
      refine Program.satisfies_stmt_bind (((h₁ _).snoc rfl _).snoc rfl _).noInsert
        (fun _ => ⟨(((h₁ _).snoc rfl _).snoc rfl _).snoc rfl _, by rintro ⟨⟩⟩) ?_
      rintro (_ | record)
      · exact ⟨(((h₁ _).snoc rfl _).snoc rfl _).snoc rfl _,
          fun _ => .inr (.inr ((done_snoc _ _).append _))⟩
      · exact perform_contract (done_snoc _ _) fun _ =>
          ⟨((((h₁ _).snoc rfl _).snoc rfl _).snoc rfl _).snoc rfl _,
            fun _ => .inr (.inr (((done_snoc _ _).append _).append _))⟩
    · exact perform_contract (done_snoc _ _) fun _ => ⟨((h₁ _).snoc rfl _).snoc rfl _,
        fun _ => .inr (.inl ⟨record, (done_snoc _ _).append _⟩)⟩
  · exact ⟨h.snoc rfl _, fun _ => .inl ⟨cached, by simp⟩⟩

theorem lockLoop_contract (signature : CallSignature) (maxAttempts attempts : ℕ)
    (h : Preparing past) :
    Program.Satisfies (interceptPre S call) (fun past _ => Preparing past) past
      (lockLoop signature maxAttempts attempts) := by
  induction attempts generalizing past with
  | zero => exact h
  | succ attempts ih =>
    refine Program.satisfies_stmt_bind h.noInsert (fun _ => h.snoc rfl _) ?_
    rintro (_ | _)
    · exact ih (h.snoc rfl _)
    · exact h.snoc rfl _

theorem acquireAdvisoryLock_contract (signature : CallSignature) (maxAttempts : ℕ)
    (h : Preparing past) :
    Program.Satisfies (interceptPre S call) (fun past _ => Preparing past) past
      (acquireAdvisoryLock S.backend signature maxAttempts) := by
  unfold acquireAdvisoryLock
  split
  · exact lockLoop_contract signature maxAttempts maxAttempts h
  · exact h

/-- Once its insert is cleared, a compensable call registers its undo entry, marks
its effect as executing and is told to execute. -/
theorem pushAndExecute_contract
    (hdone : Done past (.insertCompensable call (call.signature S.hash) effectId compensation)
      inserted) (hclear : Cleared call.orgId (call.signature S.hash) inserted past)
    (htier : Resolved call (.compensable compensation) past)
    (hexecution : Free Stmt.isExecution past) :
    Meets S call past (do
      pushUndoEntry call effectId compensation
      query (.setExecuting call.orgId effectId)
      pure (.execute effectId)) := by
  rw [pushUndoEntry, Program.bind_assoc]
  refine intercept_bind trivial fun undoId => ?_
  refine intercept_bind ⟨rfl, by simp [Drew], inserted, hdone.append _, hclear.append _,
    htier.append _⟩ fun _ => ?_
  refine intercept_bind ⟨rfl, compensation, ⟨undoId⟩, done_snoc _ _, inserted,
    (hdone.append _).append _, (hclear.append _).append _,
    (hexecution.snoc rfl _).snoc rfl _⟩ fun _ => ?_
  exact .inr ⟨compensation, ⟨undoId⟩, inserted, ((hdone.append _).append _).append _,
    ((hclear.append _).append _).append _, (done_snoc _ _).append _, done_snoc _ _⟩

/-- After an ignored insert, a lookup that finds nothing counts as a miss. -/
theorem missed_of_ignored {ins : Insertion} (h : ignoredOf ⟨st, reply⟩ = some ins) :
    Missed orgId signature
      (past ++ [⟨st, reply⟩] ++ [⟨.db (.findBySignature orgId signature), .ok none⟩]) :=
  ⟨past ++ [⟨st, reply⟩], List.prefix_rfl, ⟨st, reply⟩, by simp, ins, h⟩

theorem NothingInserted.snoc (h : NothingInserted past) (hst : insertionOf ⟨st, reply⟩ = none) :
    NothingInserted (past ++ [⟨st, reply⟩]) :=
  List.forall_mem_snoc h hst

theorem interceptCompensable_contract (hdrew : Drew past effectId.uuid)
    (hfree : Free Stmt.isInsert past) (hcreate : Free Stmt.isApprovalCreation past)
    (htier : Resolved call (.compensable compensation) past)
    (hexecution : Free Stmt.isExecution past) :
    Meets S call past
      (interceptCompensable call (call.signature S.hash) effectId compensation) := by
  have hnothing : NothingInserted past := hfree.nothingInserted
  refine intercept_bind ⟨rfl, rfl, hdrew, hfree⟩ ?_
  rintro (_ | _)
  · refine intercept_bind ⟨rfl, rfl, hnothing.snoc rfl, hcreate.snoc rfl _⟩ ?_
    rintro (_ | existing)
    · exact pushAndExecute_contract ((done_snoc _ _).append _) (.inr (missed_of_ignored rfl))
        ((htier.append _).append _) ((hexecution.snoc rfl _).snoc rfl _)
    · exact ⟨(hnothing.snoc rfl).snoc rfl, existing, done_snoc _ _, rfl, rfl⟩
  · exact pushAndExecute_contract (done_snoc _ _) (.inl rfl) (htier.append _)
      (hexecution.snoc rfl _)

theorem requestApproval_contract (hfree : Free Stmt.isApprovalCreation past)
    (hknown : SessionKnown call past) (htier : Resolved call (.irreversible reason) past)
    (hdone : Done past (.insertIrreversible call (call.signature S.hash) effectId) inserted)
    (hclear : Cleared call.orgId (call.signature S.hash) inserted past) :
    Meets S call past (requestApproval S.config call effectId reason) := by
  refine intercept_bind trivial fun id => ?_
  refine intercept_bind trivial fun now => ?_
  refine intercept_bind
    ⟨effectId, reason, ⟨id⟩, now, rfl, by simp [Drew], (hfree.snoc rfl _).snoc rfl _,
      (hknown.append _).append _, (htier.append _).append _, inserted,
      (hdone.append _).append _, (hclear.append _).append _⟩ fun _ => ?_
  refine intercept_bind ⟨rfl, reason, now, done_snoc _ _⟩ fun _ => ?_
  refine intercept_bind ⟨rfl, rfl, effectId, reason, ⟨id⟩, now, (done_snoc _ _).append _,
    done_snoc _ _⟩ fun _ => ?_
  refine Program.Satisfies.bind (perform_contract trivial fun _ => ?_)
  refine ⟨reason, now, inserted, ?_, ?_, (((done_snoc _ _).append _).append _).append _,
    ((done_snoc _ _).append _).append _, (done_snoc _ _).append _⟩
  · simpa only [List.append_assoc] using hdone.append _
  · simpa only [List.append_assoc] using hclear.append _

theorem interceptIrreversible_contract (hdrew : Drew past effectId.uuid)
    (hinsert : Free Stmt.isInsert past) (hcreate : Free Stmt.isApprovalCreation past)
    (hknown : SessionKnown call past) (htier : Resolved call (.irreversible reason) past) :
    Meets S call past
      (interceptIrreversible S.config call (call.signature S.hash) effectId reason) := by
  have hnothing : NothingInserted past := hinsert.nothingInserted
  refine intercept_bind ⟨rfl, rfl, hdrew, hinsert⟩ ?_
  rintro (_ | _)
  · refine intercept_bind ⟨rfl, rfl, hnothing.snoc rfl, hcreate.snoc rfl _⟩ ?_
    rintro (_ | existing)
    · exact requestApproval_contract ((hcreate.snoc rfl _).snoc rfl _)
        ((hknown.append _).append _) ((htier.append _).append _) ((done_snoc _ _).append _)
        (.inr (missed_of_ignored rfl))
    · exact ⟨(hnothing.snoc rfl).snoc rfl, existing, done_snoc _ _, rfl, rfl⟩
  · exact requestApproval_contract (hcreate.snoc rfl _) (hknown.append _) (htier.append _)
      (done_snoc _ _) (.inl rfl)

theorem routeTier_contract (h : Ready call past) :
    Meets S call past (routeTier S.config call (call.signature S.hash)) := by
  have hinsert := h.1.noInsert
  have hcreate := h.1.noCreation
  refine intercept_bind trivial fun tier => ?_
  have htier : Resolved call tier (past ++
      [⟨.app (.resolveTier call.orgId call.toolName call.toolVersion), .ok tier⟩]) := by
    simp [Resolved]
  refine intercept_bind trivial fun effectId => ?_
  cases tier with
  | safe => exact .inl ⟨(hinsert.snoc rfl _).snoc rfl _, htier.append _⟩
  | compensable compensation =>
    exact interceptCompensable_contract (by simp [Drew]) ((hinsert.snoc rfl _).snoc rfl _)
      ((hcreate.snoc rfl _).snoc rfl _) (htier.append _)
      ((h.1.noExecution.snoc rfl _).snoc rfl _)
  | irreversible reason =>
    exact interceptIrreversible_contract (by simp [Drew]) ((hinsert.snoc rfl _).snoc rfl _)
      ((hcreate.snoc rfl _).snoc rfl _) ((h.2.append _).append _) (htier.append _)

theorem lookupOrRoute_contract (h : Ready call past) :
    Meets S call past (lookupOrRoute S.config call (call.signature S.hash)) := by
  refine intercept_bind ⟨rfl, rfl, h.1.noInsert.nothingInserted, h.1.noCreation⟩ ?_
  rintro (_ | existing)
  · exact routeTier_contract ⟨h.1.snoc rfl _, h.2.append _⟩
  · refine intercept_bind ⟨rfl, (h.1.snoc rfl _).noInsert, existing, done_snoc _ _, rfl⟩
      fun _ => ?_
    exact ⟨((h.1.snoc rfl _).noInsert.snoc rfl _).nothingInserted, existing,
      (done_snoc _ _).append _, rfl, rfl⟩

theorem intercept_contract : Meets S call [] (intercept S.backend S.hash S.config call) := by
  have hstart : Preparing [] := by simp [Preparing]
  refine intercept_bind hstart.noInsert fun _ => ?_
  refine (ensureSession_contract (hstart.snoc rfl _)).andThen ?_
  rintro past (_ | _) ⟨hprepared, hknown⟩
  · exact .inl hprepared.noInsert
  · refine (acquireAdvisoryLock_contract _ _ hprepared).grown.andThen ?_
    rintro past' (_ | _) ⟨hmore, hlocked⟩
    · exact .inl hlocked.noInsert
    · exact lookupOrRoute_contract ⟨hlocked, (hknown rfl).mono hmore⟩

end Intercept

/-! ## The contracts of the other operations -/

/-- The statements of `commit`. -/
def commitPre (orgId : OrgId) (effectId : EffectId) (result : ToolResult) (past : History) :
    Stmt → Prop
  | .db (.commitRows o e r) => o = orgId ∧ e = effectId ∧ r = result ∧ past = []
  | .db (.effectExists _ _) => True
  | _ => False

/-- `commit` succeeds when its update met a row. -/
def commitPost (orgId : OrgId) (effectId : EffectId) (result : ToolResult) (past : History)
    (r : Except UndoLogError Unit) : Prop :=
  ∀ rows : ℕ × Bool, Done past (.commitRows orgId effectId result) rows → 0 < rows.1 → r = .ok ()

/-- The statements of `fail`. -/
def failPre (orgId : OrgId) (effectId : EffectId) (reason : String) : Stmt → Prop
  | .db (.failRows o e r) => o = orgId ∧ e = effectId ∧ r = reason
  | .db (.effectExists _ _) => True
  | _ => False

/-- The statements of `approve`: the transaction works on the approval read before. -/
def approvePre (orgId : OrgId) (id : ApprovalRequestId) (actor : String)
    (approvedArgs : Option Json) (past : History) : Stmt → Prop
  | .app (.cacheInvalidate _ _) => True
  | .db (.getApproval o i) => o = orgId ∧ i = id ∧ past = []
  | .db (.approve o i a args approval) => o = orgId ∧ i = id ∧ a = actor ∧ args = approvedArgs ∧
      past = [⟨.db (.getApproval orgId id), .ok (some approval)⟩]
  | _ => False

/-- `approve` returns the data of its transaction, or an error without one. -/
def approvePost (orgId : OrgId) (id : ApprovalRequestId) (actor : String)
    (approvedArgs : Option Json) (past : History) : Except UndoLogError ApprovalResult → Prop
  | .ok result => ∃ (approval : ApprovalRequest) (version : String),
      Done past (.approve orgId id actor approvedArgs approval) version ∧
      result = ⟨approval.effectId, approval.sessionId, approval.toolName, version,
        resolvedArgs approvedArgs approval⟩
  | .error _ => ∀ (approval : ApprovalRequest) (version : String),
      ¬ Done past (.approve orgId id actor approvedArgs approval) version

/-- The statements of `reject`. -/
def rejectPre (orgId : OrgId) (id : ApprovalRequestId) (actor : String) (past : History) :
    Stmt → Prop
  | .app (.cacheInvalidate _ _) => True
  | .db (.getApproval o i) => o = orgId ∧ i = id ∧ past = []
  | .db (.reject o i a approval) => o = orgId ∧ i = id ∧ a = actor ∧
      past = [⟨.db (.getApproval orgId id), .ok (some approval)⟩]
  | _ => False

/-- `reject` returns after its transaction, or an error without one. -/
def rejectPost (orgId : OrgId) (id : ApprovalRequestId) (actor : String) (past : History) :
    Except UndoLogError Unit → Prop
  | .ok _ => ∃ approval : ApprovalRequest, Done past (.reject orgId id actor approval) ()
  | .error _ => ∀ approval : ApprovalRequest, ¬ Done past (.reject orgId id actor approval) ()

/-- The read of pending approvals. -/
def Stmt.isListing : Stmt → Bool
  | .db (.listPending _) => true
  | _ => false

/-- The statements of the timeout job. -/
def Stmt.isTimeout : Stmt → Bool
  | .db (.timeoutSelect _) | .db (.timeoutUpdate _ _ _) | .db (.timeoutCommit _)
  | .db (.processTimeouts _) | .db .listOrgsWithPendingApprovals => true
  | _ => false

/-- The statements of `compensate_session`. -/
def Stmt.isCompensation : Stmt → Bool
  | .app (.post _ _ _) | .db (.getSession _ _) | .db (.loadUndoStack _ _)
  | .db (.markCompensated _ _) | .db (.markCompensationFailed _ _ _)
  | .db (.markEffectCompensationFailed _ _) | .db (.setCompensated _ _)
  | .db (.setHalted _ _ _) => true
  | _ => false

/-- Every statement of a program is of one kind. -/
def OnlyIssues {α : Type} (kind : Stmt → Bool) (p : Proc α) : Prop :=
  ∀ past, Program.Satisfies (fun _ st => kind st = true) (fun _ _ => True) past p

theorem OnlyIssues.query (h : kind (.db q) = true) : OnlyIssues kind (query q) :=
  Program.Issues.stmt (P := fun st => kind st = true) h

/-- The database statement is made for an organisation. The advisory lock is not made for
any, and the list of organisations with pending approvals is made for all. -/
def Query.WorksFor (orgId : OrgId) : Query → Prop
  | .getSession o _ | .createSession o _ | .findBySignature o _ | .markReplayed o _
  | .setExecuting o _ | .setApprovalRequestId o _ _ | .setAwaitingApproval o _
  | .commitRows o _ _ | .failRows o _ _ | .effectExists o _ | .getApproval o _
  | .approve o _ _ _ _ | .reject o _ _ _ | .listPending o | .timeoutSelect o
  | .timeoutUpdate o _ _ | .timeoutCommit o | .processTimeouts o | .loadUndoStack o _
  | .markCompensated o _ | .markCompensationFailed o _ _ | .markEffectCompensationFailed o _
  | .setCompensated o _ | .setHalted o _ _ => o = orgId
  | .insertCompensable call _ _ _ | .insertIrreversible call _ _ | .insertUndo call _ _ _ =>
      call.orgId = orgId
  | .createApproval req => req.orgId = orgId
  | .tryAdvisoryLock _ => True
  | .listOrgsWithPendingApprovals => False

/-- The statement is made for an organisation. -/
def Stmt.WorksFor (orgId : OrgId) : Stmt → Prop
  | .app (.cacheGet o _) | .app (.cacheInvalidate o _) | .app (.resolveTier o _ _) => o = orgId
  | .app _ => True
  | .db q => q.WorksFor orgId

/-- A statement of a compensation that an organisation asks for. -/
def Stmt.Compensates (orgId : OrgId) (st : Stmt) : Prop :=
  st.isCompensation = true ∧ st.WorksFor orgId

/-- Whether a call has an open timeout transaction after one more statement. A
failed statement ends it. -/
def opensTimeouts (before : Bool) : Ran Stmt Stmt.Ret UndoLogError → Bool
  | ⟨.db (.timeoutSelect _), .ok _⟩ => true
  | ⟨.db (.timeoutCommit _), .ok _⟩ | ⟨.db _, .error _⟩ => false
  | _ => before

/-- Whether a call has an open timeout transaction. -/
def timeoutsOpen (past : History) : Bool := past.foldl opensTimeouts false

variable (b : Backend)

/-- The timeout job issues timeout statements only. It opens a transaction when none
is open, and runs as one statement on SQLite only. -/
def timeoutPre (past : History) (st : Stmt) : Prop :=
  st.isTimeout = true ∧ (∀ orgId, st = .db (.timeoutSelect orgId) → timeoutsOpen past = false) ∧
    ∀ orgId, st = .db (.processTimeouts orgId) → b = .sqlite

section Timeouts

variable {past : History}

theorem timeoutsOpen_snoc (r : Ran Stmt Stmt.Ret UndoLogError) :
    timeoutsOpen (past ++ [r]) = opensTimeouts (timeoutsOpen past) r := by
  simp [timeoutsOpen]

/-- A failed statement leaves no open transaction. -/
theorem timeoutsOpen_error (q : Query) (e : UndoLogError) :
    timeoutsOpen (past ++ [⟨.db q, .error e⟩]) = false := by
  rw [timeoutsOpen_snoc]
  cases q <;> rfl

theorem timeoutRows_contract (orgId : OrgId) (rows : List (ApprovalRequestId × Bool)) :
    Program.Satisfies (timeoutPre b)
      (fun past r => ∀ e, r = .error e → timeoutsOpen past = false) past
      (timeoutRows orgId rows) := by
  induction rows generalizing past with
  | nil => rintro _ ⟨⟩
  | cons row rest ih =>
    exact Program.satisfies_stmt_bind ⟨rfl, by rintro _ ⟨⟩, by rintro _ ⟨⟩⟩
      (fun e _ _ => timeoutsOpen_error _ e)
      fun _ => ih

theorem processTimeouts_contract (orgId : OrgId) (h : timeoutsOpen past = false) :
    Program.Satisfies (timeoutPre b) (fun past _ => timeoutsOpen past = false) past
      (processTimeouts b orgId) := by
  cases b with
  | postgres =>
    refine Program.satisfies_stmt_bind ⟨rfl, fun _ _ => h, by rintro _ ⟨⟩⟩ (timeoutsOpen_error _)
      fun rows => ?_
    refine (timeoutRows_contract .postgres orgId rows).andThen ?_
    rintro past' (e | _) hrows
    · exact hrows e rfl
    · refine Program.satisfies_stmt_bind ⟨rfl, by rintro _ ⟨⟩, by rintro _ ⟨⟩⟩
        (timeoutsOpen_error _) fun _ => ?_
      change timeoutsOpen _ = false
      rw [timeoutsOpen_snoc]
      rfl
  | sqlite =>
    refine Program.satisfies_stmt ⟨rfl, by rintro _ ⟨⟩, fun _ _ => rfl⟩ ?_
    rintro (e | count)
    · exact timeoutsOpen_error _ e
    · rw [timeoutsOpen_snoc]
      exact h

theorem timeoutOrgs_contract (orgs : List OrgId) (h : timeoutsOpen past = false) :
    Program.Satisfies (timeoutPre b) (fun past _ => timeoutsOpen past = false) past
      (timeoutOrgs b orgs) := by
  induction orgs generalizing past with
  | nil => exact h
  | cons orgId rest ih =>
    refine Program.Satisfies.bind (Program.Satisfies.attempt ?_)
    exact (processTimeouts_contract b orgId h).mono (fun _ _ hpre => hpre) fun _ _ h' => ih h'

theorem processPendingTimeouts_contract :
    Program.Satisfies (timeoutPre b) (fun past _ => timeoutsOpen past = false) []
      (processPendingTimeouts b) := by
  refine Program.Satisfies.bind (Program.Satisfies.attempt ?_)
  refine Program.satisfies_stmt ⟨rfl, by rintro _ ⟨⟩, by rintro _ ⟨⟩⟩ ?_
  rintro (e | orgs)
  · exact timeoutsOpen_error _ e
  · exact timeoutOrgs_contract b orgs rfl

end Timeouts

section Compensation

variable {registry : CompensationRegistry} {orgId : OrgId}

theorem postLoop_compensates (endpoint : String) (entry : UndoEntry) (retries : ℕ) :
    Program.Issues (Stmt.Compensates orgId) (postLoop registry endpoint entry retries) := by
  induction retries with
  | zero =>
    unfold postLoop
    refine .bind (.stmt ⟨rfl, trivial⟩) fun response => ?_
    cases classify registry response <;> exact .done _
  | succ retries ih =>
    unfold postLoop
    refine .bind (.stmt ⟨rfl, trivial⟩) fun response => ?_
    cases classify registry response with
    | succeeded | permanent => exact .done _
    | retryable => exact ih

theorem failEntry_compensates (entry : UndoEntry) (reason : String) :
    Program.Issues (Stmt.Compensates orgId) (failEntry orgId entry reason) :=
  .bind (.stmt ⟨rfl, rfl⟩) fun _ => .stmt ⟨rfl, rfl⟩

theorem executeEntry_compensates (entry : UndoEntry) :
    Program.Issues (Stmt.Compensates orgId) (executeEntry registry orgId entry) := by
  unfold executeEntry
  split
  · exact .bind (failEntry_compensates entry _) fun _ => .done _
  · refine .bind (postLoop_compensates _ entry _) ?_
    rintro (_ | reason)
    · exact .done _
    · exact .bind (failEntry_compensates entry _) fun _ => .done _

theorem compensateEntries_compensates (sessionId : SessionId) (entries : List UndoEntry) :
    Program.Issues (Stmt.Compensates orgId)
      (compensateEntries registry orgId sessionId entries) := by
  induction entries with
  | nil => exact .bind (.stmt ⟨rfl, rfl⟩) fun _ => .done _
  | cons entry rest ih =>
    unfold compensateEntries
    split
    · exact ih
    · refine .bind (executeEntry_compensates entry) ?_
      rintro (e | _)
      · dsimp only
        split
        · exact .bind (.stmt ⟨rfl, rfl⟩) fun _ => .done _
        · exact .done _
      · exact .bind (.stmt ⟨rfl, rfl⟩) fun _ => ih

theorem compensateSession_compensates (sessionId : SessionId) :
    Program.Issues (Stmt.Compensates orgId) (compensateSession registry orgId sessionId) := by
  refine .bind (.stmt ⟨rfl, rfl⟩) ?_
  rintro (_ | session)
  · exact .done _
  · dsimp only
    split
    · exact .done _
    · exact .bind (.stmt ⟨rfl, rfl⟩) fun entries => compensateEntries_compensates sessionId entries

end Compensation

/-- `commit` and `fail` end with an error only when their update met no row. -/
theorem settle_contract {rows : ℕ × Bool}
    (hpre : ∀ past, pre past (.db (.effectExists orgId effectId))) :
    Program.Satisfies pre (fun after r => (∃ more, after = past ++ more ∧
        ∀ x ∈ more, x.1 = .db (.effectExists orgId effectId)) ∧ (0 < rows.1 → r = .ok ())) past
      (settle b orgId effectId rows) := by
  unfold settle
  split
  · exact ⟨⟨[], by simp⟩, fun _ => rfl⟩
  · next hrows =>
    cases b with
    | postgres =>
      rcases rows with ⟨n, _ | _⟩ <;> exact ⟨⟨[], by simp⟩, fun h => absurd h hrows⟩
    | sqlite =>
      refine Program.satisfies_stmt_bind (hpre past) (fun e => ?_) ?_
      · exact ⟨⟨[_], rfl, by simp⟩, fun h => absurd h hrows⟩
      · rintro (_ | _) <;> exact ⟨⟨[_], rfl, by simp⟩, fun h => absurd h hrows⟩

theorem commit_contract (orgId : OrgId) (effectId : EffectId) (result : ToolResult) :
    Program.Satisfies (commitPre orgId effectId result) (commitPost orgId effectId result) []
      (commit b orgId effectId result) := by
  refine Program.satisfies_stmt_bind ⟨rfl, rfl, rfl, rfl⟩ (fun e rows hdone _ => ?_)
    fun rows => ?_
  · simp [Done] at hdone
  · refine (settle_contract b fun _ => trivial).mono (fun _ _ h => h) ?_
    rintro after r ⟨⟨more, rfl, hmore⟩, hok⟩ rows' hdone hpos
    rcases List.mem_append.mp hdone with hdone | hdone
    · obtain rfl : rows' = rows := by simpa using hdone
      exact hok hpos
    · cases hmore _ hdone

theorem fail_contract (orgId : OrgId) (effectId : EffectId) (reason : String) :
    Program.Satisfies (fun _ => failPre orgId effectId reason) (fun _ _ => True) []
      (failEffect b orgId effectId reason) := by
  refine Program.satisfies_stmt_bind ⟨rfl, rfl, rfl⟩ (fun _ => trivial) fun rows => ?_
  exact (settle_contract b fun _ => trivial).mono (fun _ _ h => h) fun _ _ _ => trivial

theorem approve_contract (orgId : OrgId) (id : ApprovalRequestId) (actor : String)
    (approvedArgs : Option Json) : Program.Satisfies (approvePre orgId id actor approvedArgs)
      (approvePost orgId id actor approvedArgs) [] (approve orgId id actor approvedArgs) := by
  refine Program.satisfies_stmt_bind ⟨rfl, rfl, rfl⟩ (fun e approval version => ?_) ?_
  · simp [Done]
  · rintro (_ | approval)
    · intro approval version
      simp [Done]
    · refine Program.satisfies_stmt_bind ⟨rfl, rfl, rfl, rfl, rfl⟩
        (fun e approval' version => ?_) fun version => ?_
      · simp [Done]
      · exact Program.Satisfies.bind (perform_contract trivial fun _ =>
          ⟨approval, version, (done_snoc _ _).append _, rfl⟩)

theorem reject_contract (orgId : OrgId) (id : ApprovalRequestId) (actor : String) :
    Program.Satisfies (rejectPre orgId id actor) (rejectPost orgId id actor) []
      (reject orgId id actor) := by
  refine Program.satisfies_stmt_bind ⟨rfl, rfl, rfl⟩ (fun e approval => ?_) ?_
  · simp [Done]
  · rintro (_ | approval)
    · intro approval
      simp [Done]
    · refine Program.satisfies_stmt_bind ⟨rfl, rfl, rfl, rfl⟩ (fun e approval' => ?_) fun _ => ?_
      · simp [Done]
      · exact perform_contract trivial fun _ => ⟨approval, (done_snoc _ _).append _⟩

/-! ## The contract of the system -/

/-- A postcondition carried over to a renamed result. -/
def Renamed {α β : Type} (f : α → β) (post : History → Except UndoLogError α → Prop)
    (past : History) (r : Except UndoLogError β) : Prop :=
  ∃ r', post past r' ∧ r = r'.map f

theorem as_contract {α β : Type} {post : History → Except UndoLogError α → Prop} {p : Proc α}
    (f : α → β) (h : Program.Satisfies pre post past p) :
    Program.Satisfies pre (Renamed f post) past (p.as f) := by
  refine h.andThen ?_
  rintro past (e | a) hpost
  · exact ⟨.error e, hpost, rfl⟩
  · exact ⟨.ok a, hpost, rfl⟩

/-- What every call has run before each statement. -/
def opPre (S : Setup) : Op → History → Stmt → Prop
  | .intercept call => interceptPre S call
  | .commit orgId effectId result => commitPre orgId effectId result
  | .fail orgId effectId reason => fun _ => failPre orgId effectId reason
  | .approve orgId id actor approvedArgs => approvePre orgId id actor approvedArgs
  | .reject orgId id actor => rejectPre orgId id actor
  | .listPendingApprovals _ => fun _ st => st.isListing = true
  | .processTimeouts _ | .processPendingTimeouts => timeoutPre S.backend
  | .compensateSession _ _ => fun _ st => st.isCompensation = true

/-- What every call has run when it returns. -/
def opPost (S : Setup) : Op → History → Except UndoLogError OpResult → Prop
  | .intercept call => Renamed .intercepted (interceptPost S call)
  | .commit orgId effectId result => Renamed (fun _ => .done) (commitPost orgId effectId result)
  | .approve orgId id actor approvedArgs =>
      Renamed .approved (approvePost orgId id actor approvedArgs)
  | .reject orgId id actor => Renamed (fun _ => .done) (rejectPost orgId id actor)
  | .processTimeouts _ => Renamed .processed fun past _ => timeoutsOpen past = false
  | .processPendingTimeouts =>
    Renamed (fun _ : Unit => .done) fun past _ => timeoutsOpen past = false
  | .fail _ _ _ => Renamed (fun _ : Unit => .done) fun _ _ => True
  | .listPendingApprovals _ => Renamed .pending fun _ _ => True
  | .compensateSession _ _ => Renamed .compensated fun _ _ => True

theorem intercept_of_post {S : Setup} {op : Op} {outcome : InterceptOutcome}
    (h : opPost S op past (.ok (.intercepted outcome))) :
    ∃ call, op = .intercept call ∧ interceptPost S call past (.ok outcome) := by
  cases op with
  | intercept call =>
    obtain ⟨r, hr, heq⟩ := h
    cases r with
    | error e => cases heq
    | ok outcome' =>
      cases heq
      exact ⟨call, rfl, hr⟩
  | _ =>
    obtain ⟨r, -, heq⟩ := h
    cases r <;> cases heq

/-- The contract of the system. -/
def contract (S : Setup) : Machine.Contract (system S) where
  pre := opPre S
  post := opPost S
  satisfied := by
    intro op
    cases op with
    | intercept call => exact as_contract _ intercept_contract
    | commit orgId effectId result => exact as_contract _ (commit_contract _ _ _ _)
    | fail orgId effectId reason => exact as_contract _ (fail_contract _ _ _ _)
    | approve orgId id actor approvedArgs => exact as_contract _ (approve_contract _ _ _ _)
    | reject orgId id actor => exact as_contract _ (reject_contract _ _ _)
    | listPendingApprovals orgId => exact as_contract _ (OnlyIssues.query rfl [])
    | processTimeouts orgId => exact as_contract _ (processTimeouts_contract _ _ rfl)
    | processPendingTimeouts => exact as_contract _ (processPendingTimeouts_contract _)
    | compensateSession orgId sessionId =>
      exact as_contract _ ((compensateSession_compensates _).mono (fun _ h => h.1) [])

end UndoLog
