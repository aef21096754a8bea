import UndoLog.Properties.Admission

/-!
# Finished sessions

All updates of sessions but one ask for an unfinished state: `set_halted`, which `reject` and
`compensate_session` use, does not, so it also halts a compensated session. And `intercept`
never looks at the state of the session, so it admits new calls to a finished one.
-/

namespace UndoLog

open Concurrent Machine Relational

variable {S : Setup} {guard : Guard (system S)} {c c' : State S}

/-! ## Steps of a finished session -/

/-- The session that a statement halts. -/
def Stmt.halts : Stmt → Option (OrgId × SessionId)
  | .db (.reject orgId _ _ approval) => some (orgId, approval.sessionId)
  | .db (.setHalted orgId sessionId _) => some (orgId, sessionId)
  | _ => none

variable {orgId : OrgId} {sessionId : SessionId} {s : SessionRecord} {call : ToolCall}

theorem ofSessionIn_of_terminal {states : List SessionState} (h : s.state.isTerminal = true)
    (hopen : ∀ state ∈ states, state.isTerminal = false) :
    ofSessionIn orgId sessionId states s = false := by
  refine Bool.eq_false_iff.mpr fun hin => ?_
  rw [hopen _ (ofSessionIn_iff.mp hin).2] at h
  cases h

theorem sessionAfter_of_terminal (q : Query) (h : s.state.isTerminal = true) :
    q.sessionAfter s = s.state ∨
      q.sessionAfter s = .halted ∧ Stmt.halts (.db q) = some (s.orgId, s.sessionId) := by
  cases q with
  | setAwaitingApproval | approve | setCompensated =>
    rw [Query.sessionAfter, ofSessionIn_of_terminal h (by decide)]
    exact .inl rfl
  | reject | setHalted =>
    rw [Query.sessionAfter]
    split
    · next hs =>
      obtain ⟨hid, horg⟩ := ofSession_iff.mp hs
      exact .inr ⟨rfl, by rw [hid, horg]; rfl⟩
    · exact .inl rfl
  | _ => exact .inl rfl

/-- The session of an organisation is finished. -/
def Finished (db : Db) (orgId : OrgId) (sessionId : SessionId) : Prop :=
  ∃ s ∈ db.sessions, s.sessionId = sessionId ∧ s.orgId = orgId ∧ s.state.isTerminal = true

instance (db : Db) (orgId : OrgId) (sessionId : SessionId) :
    Decidable (Finished db orgId sessionId) := by
  unfold Finished
  infer_instance

/-- A finished session stays finished. -/
theorem Finished.step {choice : Choice (system S)} (h : Finished (dbOf c) orgId sessionId)
    (htrans : Transition c choice c') : Finished (dbOf c') orgId sessionId := by
  obtain ⟨s, hs, hid, horg, hterminal⟩ := h
  obtain ⟨s', hs', hstep⟩ := session_step htrans hs
  refine ⟨s', hs', hstep.sessionId.trans hid, hstep.orgId.trans horg, ?_⟩
  rcases hstep.state with hsame | ⟨t, o, q, r, -, -, hafter⟩
  · rw [hsame]
    exact hterminal
  · rw [hafter]
    rcases sessionAfter_of_terminal q hterminal with hkept | ⟨hhalted, -⟩
    · rw [hkept]
      exact hterminal
    · rw [hhalted]
      rfl

/-! ## States of finished sessions -/

/-- The session has the same state as before. -/
def StateKept (db : Db) (s : SessionRecord) : Prop :=
  ∃ s' ∈ db.sessions, s'.sessionId = s.sessionId ∧ s'.orgId = s.orgId ∧ s'.state = s.state

/-- A statement that halts a session does not meet a completed or compensated one. -/
def HaltsUnfinished (c : State S) (_ : ℕ) (st : (system S).Stmt) : Prop :=
  ∀ key ∈ Stmt.halts st, ∀ s ∈ (dbOf c).sessions, s.orgId = key.1 → s.sessionId = key.2 →
    s.state ∉ [.completed, .compensated]

instance (c : State S) (t : ℕ) (st : (system S).Stmt) : Decidable (HaltsUnfinished c t st) := by
  unfold HaltsUnfinished
  infer_instance

theorem eq_halted_of_terminal {state : SessionState} (h : state.isTerminal = true)
    (hnot : state ∉ [.completed, .compensated]) : state = .halted := by
  cases state with
  | halted => rfl
  | completed | compensated => simp at hnot
  | _ => cases h

/-- In every run that halts no completed or compensated session, finished sessions keep
their states. -/
theorem stateKept_of_haltsUnfinished (hc : Reaches S (onStatements HaltsUnfinished) c)
    (hrun : Run (onStatements HaltsUnfinished) c c') {s : SessionRecord}
    (hs : s ∈ (dbOf c).sessions) (hterminal : s.state.isTerminal = true) :
    StateKept (dbOf c') s := by
  refine hrun.invariant (P := fun d => StateKept (dbOf d) s) hc ⟨s, hs, rfl, rfl, rfl⟩ ?_
  rintro d choice d' - ⟨s₁, hs₁, hid, horg, hstate⟩ hguard htrans
  obtain ⟨s₂, hs₂, hstep⟩ := session_step htrans hs₁
  refine ⟨s₂, hs₂, hstep.sessionId.trans hid, hstep.orgId.trans horg, ?_⟩
  rw [← hstate] at hterminal ⊢
  rcases hstep.state with hsame | ⟨t, o, q, r, rfl, hquery, hafter⟩
  · exact hsame
  · rcases sessionAfter_of_terminal q hterminal with hkept | ⟨hhalted, hhalts⟩
    · exact hafter.trans hkept
    · have hnot := hquery.guarded hguard _ hhalts s₁ hs₁ rfl rfl
      rw [hafter, hhalted, eq_halted_of_terminal hterminal hnot]

/-- Two calls wait for decisions, the first one is approved and the session is
compensated. -/
def compensatedWithApproval : Schedule :=
  awaitingCall ++ [.start (.intercept (sampleCall 1))] ++ runs 1 7 ++ [draw 1 20] ++ runs 1 1 ++
    [draw 1 21] ++ runs 1 5 ++ [.finish 1, .start (.approve sampleOrg ⟨11⟩ "human" none)] ++
    runs 2 3 ++ [.finish 2, .start (.compensateSession sampleOrg ⟨2⟩)] ++ runs 3 3 ++ [.finish 3]

/-- The second call is approved, which the compensated session does not allow. -/
def refusedApproval : Schedule :=
  [.start (.approve sampleOrg ⟨21⟩ "human" none)] ++ runs 4 2 ++ [.finish 4]

/-- A compensated session stays compensated when an approval is refused. -/
theorem stateKept_after_refusedApproval :
    ∃ c c' s, Reaches (sample .postgres) (onStatements HaltsUnfinished) c ∧
      Run (onStatements HaltsUnfinished) c c' ∧ s ∈ (dbOf c).sessions ∧
      s.state = .compensated ∧ StateKept (dbOf c') s := by
  obtain ⟨c, c', hc, hrun, s, hs, hstate⟩ := exists_run (onStatements HaltsUnfinished) 1780271999
    (.irreversible "") compensatedWithApproval refusedApproval
    (fun c _ => ∃ s ∈ (dbOf c).sessions, s.state = .compensated) (by decide +kernel)
  exact ⟨c, c', s, hc, hrun, hs, hstate,
    stateKept_of_haltsUnfinished hc hrun hs (by rw [hstate]; rfl)⟩

/-- The second call is rejected. -/
def lateRejection : Schedule :=
  [.start (.reject sampleOrg ⟨21⟩ "human")] ++ runs 4 3 ++ [.finish 4]

/-- The rejection halts the compensated session. -/
theorem stateKept_fails_after_rejection :
    ∃ c c' s, Reaches (sample .postgres) unguarded c ∧ Run unguarded c c' ∧
      s ∈ (dbOf c).sessions ∧ s.state = .compensated ∧ ¬ StateKept (dbOf c') s := by
  obtain ⟨c, c', hc, hrun, s, hs, hstate, hhalted⟩ := exists_run unguarded 1780271999
    (.irreversible "") compensatedWithApproval lateRejection (fun c c' => ∃ s ∈ (dbOf c).sessions,
      s.state = .compensated ∧ ∀ s' ∈ (dbOf c').sessions, s'.state = .halted) (by decide +kernel)
  refine ⟨c, c', s, hc, hrun, hs, hstate, ?_⟩
  rintro ⟨s', hs', -, -, hkept⟩
  rw [hhalted s' hs', hstate] at hkept
  cases hkept

/-! ## New calls in finished sessions -/

/-- The call was not admitted and has inserted no row. -/
structure AdmitsNothing (c : State S) (t : ℕ) : Prop where
  execute : ∀ effectId, ¬ Outcomes c t (.execute effectId)
  awaitingApproval : ∀ effectId id, ¬ Outcomes c t (.awaitingApproval effectId id)
  effects : ∀ ins, (t, ins) ∉ insertions c
  undo : ∀ push, (t, push) ∉ pushes c
  approvals : ∀ req, (t, req) ∉ creations c

/-- The statements that a call has to get past before it writes anything. -/
def Stmt.isGate : Stmt → Bool
  | .app .rateLimit | .db (.getSession _ _) | .db (.createSession _ _) | .db (.tryAdvisoryLock _)
  | .db (.findBySignature _ _) => true
  | st => st.isInsert

/-- The statements that write the rows of a call. -/
def Stmt.isRow : Stmt → Bool
  | .db (.insertUndo _ _ _ _) | .db (.createApproval _) => true
  | st => st.isInsert

/-- A reply that ends a call before it writes: it is refused, a statement on the way to its
row or the insert fails, or a row is found under its signature. -/
def stops : Ran Stmt Stmt.Ret UndoLogError → Bool
  | ⟨.db (.findBySignature _ _), .ok (some _)⟩ => true
  | ⟨st, .error _⟩ => st.isGate
  | _ => false

/-- A reply that gives a call the lock. -/
def locks : Ran Stmt Stmt.Ret UndoLogError → Bool
  | ⟨.db (.tryAdvisoryLock _), .ok true⟩ => true
  | _ => false

/-- A reply that tells that a row was written. -/
def writes (r : Ran Stmt Stmt.Ret UndoLogError) : Bool :=
  (insertionOf r).isSome || (pushOf r).isSome || (creationOf r).isSome

/-- The call was stopped: by a reply, for want of the lock, or by a crash. -/
inductive Stopped (c : State S) (t : ℕ) : Prop
  | replied (h : ∃ r ∈ pastOf t c, stops r = true)
  | busy (hb : S.backend = .postgres) (hreturned : ∃ r, Returned c t r)
      (h : ∀ r ∈ pastOf t c, locks r = false)
  | crashed (h : Event.crashed (M := system S) t ∈ c.trace)
      (hfree : Free Stmt.isRow (pastOf t c))

/-- Nothing has stopped the call, and it has written nothing. -/
def Passing (past : History) : Prop := ∀ r ∈ past, stops r = false ∧ writes r = false

/-- Nothing has stopped the call, which has the lock where there is one. -/
def Through (b : Backend) (past : History) : Prop :=
  (∀ r ∈ past, stops r = false) ∧ (b = .postgres → ∃ r ∈ past, locks r = true)

/-- A call passes its gates before it writes, and writes only when it is through. -/
def passingPre (b : Backend) (past : History) (st : Stmt) : Prop :=
  (st.isGate = true → Passing past) ∧ (st.isRow = true → Through b past)

variable {past : History} {st : Stmt} {reply : Except UndoLogError st.Ret} {b : Backend}
  {effectId : EffectId} {config : EngineConfig} {t : ℕ}

/-- Other statements are free to run. -/
theorem passingPre.other (hgate : st.isGate = false) (hrow : st.isRow = false) :
    passingPre b past st := by
  simp [passingPre, hgate, hrow]

theorem passingPre.gate (h : Passing past) (hrow : st.isRow = false) : passingPre b past st := by
  simp [passingPre, h, hrow]

/-- The calls that go on as `passingPre` says. -/
abbrev Passes {α : Type} (b : Backend) (past : History) (p : Proc α) : Prop :=
  p.Satisfies (passingPre b) (fun _ _ => True) past

theorem Passing.snoc (h : Passing past) (hstops : stops ⟨st, reply⟩ = false)
    (hwrites : writes ⟨st, reply⟩ = false) : Passing (past ++ [⟨st, reply⟩]) :=
  List.forall_mem_snoc h ⟨hstops, hwrites⟩

theorem Through.snoc (h : Through b past) (hstops : stops ⟨st, reply⟩ = false) :
    Through b (past ++ [⟨st, reply⟩]) := by
  refine ⟨List.forall_mem_snoc h.1 hstops, fun hb => ?_⟩
  obtain ⟨r, hr, hlock⟩ := h.2 hb
  exact ⟨r, List.mem_append_left _ hr, hlock⟩

theorem ensureSession_passes (h : Passing past) : Program.Satisfies (passingPre b)
      (fun past r => r = .ok () → Passing past) past (ensureSession call) := by
  refine Program.satisfies_stmt_bind (.other rfl rfl) (by rintro _ ⟨⟩) ?_
  rintro (_ | cached)
  · have h₁ : Passing (past ++ [⟨.app (.cacheGet call.orgId call.sessionId), .ok none⟩]) :=
      h.snoc rfl rfl
    refine Program.satisfies_stmt_bind (.gate h₁ rfl) (by rintro _ ⟨⟩) ?_
    rintro (_ | record)
    · refine Program.satisfies_stmt_bind (.gate (h₁.snoc rfl rfl) rfl)
        (by rintro _ ⟨⟩) fun _ => ?_
      refine Program.satisfies_stmt_bind (.gate ((h₁.snoc rfl rfl).snoc rfl rfl) rfl)
        (by rintro _ ⟨⟩) ?_
      rintro (_ | record)
      · exact fun _ => ((h₁.snoc rfl rfl).snoc rfl rfl).snoc rfl rfl
      · refine perform_contract (.other rfl rfl) fun reply _ => ?_
        exact (((h₁.snoc rfl rfl).snoc rfl rfl).snoc rfl rfl).snoc (by cases reply <;> rfl) rfl
    · refine perform_contract (.other rfl rfl) fun reply _ => ?_
      exact (h₁.snoc rfl rfl).snoc (by cases reply <;> rfl) rfl
  · exact fun _ => h.snoc rfl rfl

/-- A call that goes on after the attempts at the lock has it. -/
theorem lockLoop_passes (signature : CallSignature) (maxAttempts attempts : ℕ) (h : Passing past) :
    Program.Satisfies (passingPre b)
      (fun past r => r = .ok () → Passing past ∧ ∃ r ∈ past, locks r = true) past
      (lockLoop signature maxAttempts attempts) := by
  induction attempts generalizing past with
  | zero => rintro ⟨⟩
  | succ attempts ih =>
    refine Program.satisfies_stmt_bind (.gate h rfl) (by rintro _ ⟨⟩) ?_
    rintro (_ | _)
    · exact ih (h.snoc rfl rfl)
    · exact fun _ => ⟨h.snoc rfl rfl, _, List.mem_concat_self, rfl⟩

/-- One statement, followed by the rest. -/
theorem passes_bind {α : Type} {f : st.Ret → Proc α} (hpre : passingPre b past st)
    (hok : ∀ a, Passes b (past ++ [⟨st, .ok a⟩]) (f a)) : Passes b past (Program.stmt st >>= f) :=
  Program.satisfies_stmt_bind hpre (fun _ => trivial) hok

theorem pushAndExecute_passes {compensation : CompensationDescriptor}
    (h : Through b past) : Passes b past (do
      pushUndoEntry call effectId compensation
      query (.setExecuting call.orgId effectId)
      pure (InterceptOutcome.execute effectId)) := by
  rw [pushUndoEntry, Program.bind_assoc]
  refine passes_bind (.other rfl rfl) fun _ => ?_
  refine passes_bind ⟨by rintro ⟨⟩, fun _ => h.snoc rfl⟩ fun _ => ?_
  exact passes_bind (.other rfl rfl) fun _ => trivial

theorem requestApproval_passes {reason : String}
    (h : Through b past) : Passes b past (requestApproval config call effectId reason) := by
  refine passes_bind (.other rfl rfl) fun _ => ?_
  refine passes_bind (.other rfl rfl) fun _ => ?_
  refine passes_bind ⟨by rintro ⟨⟩, fun _ => (h.snoc rfl).snoc rfl⟩ fun _ => ?_
  refine passes_bind (.other rfl rfl) fun _ => ?_
  refine passes_bind (.other rfl rfl) fun _ => ?_
  exact Program.Satisfies.bind (perform_contract (.other rfl rfl) fun _ => trivial)

theorem interceptCompensable_passes {compensation : CompensationDescriptor}
    (signature : CallSignature) (h : Passing past) (hthrough : Through b past) :
    Passes b past (interceptCompensable call signature effectId compensation) := by
  refine passes_bind ⟨fun _ => h, fun _ => hthrough⟩ ?_
  rintro (_ | _)
  · refine passes_bind (.gate (h.snoc rfl rfl) rfl) ?_
    rintro (_ | existing)
    · exact pushAndExecute_passes ((hthrough.snoc rfl).snoc rfl)
    · trivial
  · exact pushAndExecute_passes (hthrough.snoc rfl)

theorem interceptIrreversible_passes
    {reason : String} (signature : CallSignature) (h : Passing past) (hthrough : Through b past) :
    Passes b past (interceptIrreversible config call signature effectId reason) := by
  refine passes_bind ⟨fun _ => h, fun _ => hthrough⟩ ?_
  rintro (_ | _)
  · refine passes_bind (.gate (h.snoc rfl rfl) rfl) ?_
    rintro (_ | existing)
    · exact requestApproval_passes ((hthrough.snoc rfl).snoc rfl)
    · trivial
  · exact requestApproval_passes (hthrough.snoc rfl)

theorem routeTier_passes (signature : CallSignature) (h : Passing past)
    (hthrough : Through b past) : Passes b past (routeTier config call signature) := by
  refine passes_bind (.other rfl rfl) fun tier => ?_
  refine passes_bind (.other rfl rfl) fun effectId => ?_
  cases tier with
  | safe => trivial
  | compensable =>
    exact interceptCompensable_passes signature ((h.snoc rfl rfl).snoc rfl rfl)
      ((hthrough.snoc rfl).snoc rfl)
  | irreversible =>
    exact interceptIrreversible_passes signature ((h.snoc rfl rfl).snoc rfl rfl)
      ((hthrough.snoc rfl).snoc rfl)

theorem intercept_passes : Passes S.backend [] (intercept S.backend S.hash S.config call) := by
  have hstart : Passing [] := by simp [Passing]
  refine passes_bind (.gate hstart rfl) fun _ => ?_
  refine (ensureSession_passes (hstart.snoc rfl rfl)).andThen ?_
  rintro past (_ | _) hpassing
  · trivial
  have hlocked : Program.Satisfies (passingPre S.backend) (fun past r => r = .ok () →
      Passing past ∧ Through S.backend past) past
      (acquireAdvisoryLock S.backend (call.signature S.hash) S.config.lockMaxAttempts) := by
    cases S.backend with
    | sqlite => exact fun _ => ⟨hpassing rfl, fun r hr => (hpassing rfl r hr).1, by rintro ⟨⟩⟩
    | postgres =>
      refine (lockLoop_passes _ _ _ (hpassing rfl)).mono (fun _ _ h => h) fun _ _ h hr => ?_
      obtain ⟨hpassing, hlock⟩ := h hr
      exact ⟨hpassing, fun r hr => (hpassing r hr).1, fun _ => hlock⟩
  refine hlocked.andThen ?_
  rintro past' (_ | _) h
  · trivial
  · obtain ⟨hpassing, hthrough⟩ := h rfl
    refine passes_bind (.gate hpassing rfl) ?_
    rintro (_ | existing)
    · exact routeTier_passes _ (hpassing.snoc rfl rfl) (hthrough.snoc rfl)
    · exact passes_bind (.other rfl rfl) fun _ => trivial

/-- A reply that tells of a row answers one of the statements that write rows, and does not stop
the call. -/
theorem of_writes {r : Ran Stmt Stmt.Ret UndoLogError} (h : writes r = true) :
    r.1.isRow = true ∧ stops r = false := by
  obtain ⟨st, reply⟩ := r
  cases st with
  | app step => cases h
  | db q =>
    cases q with
    | insertCompensable | insertIrreversible | insertUndo | createApproval =>
      cases reply with
      | error => cases h
      | ok => exact ⟨rfl, rfl⟩
    | _ => cases h

theorem isGate_of_stops {r : Ran Stmt Stmt.Ret UndoLogError} (h : stops r = true) :
    r.1.isGate = true := by
  unfold stops at h
  split at h
  · rfl
  · exact h
  · cases h

/-- A call that was stopped by a reply has written nothing, and one that has written something has
got the lock. -/
theorem history_passes (hc : Reaches S guard c) (hstart : Started c t (.intercept call)) :
    (∀ r ∈ pastOf t c, stops r = true → ∀ x ∈ pastOf t c, writes x = false) ∧
    ∀ x ∈ pastOf t c, writes x = true → S.backend = .postgres →
      ∃ r ∈ pastOf t c, locks r = true := by
  obtain ⟨p, hpath⟩ := hc.coherent.following t _ hstart
  refine hpath.invariant (P := fun past => (∀ r ∈ past, stops r = true →
      ∀ x ∈ past, writes x = false) ∧ ∀ x ∈ past, writes x = true → S.backend = .postgres →
      ∃ r ∈ past, locks r = true) (as_contract _ intercept_passes) (by simp) ?_
  rintro past st ⟨hgate, hrow⟩ ⟨hstopped, hlocked⟩ reply
  constructor
  · intro r hr hstops x hx
    refine Bool.eq_false_iff.mpr fun hwrites => ?_
    rcases List.mem_snoc.mp hx with hx | rfl
    · rcases List.mem_snoc.mp hr with hr | rfl
      · simp [hstopped r hr hstops x hx] at hwrites
      · simp [(hgate (isGate_of_stops hstops) x hx).2] at hwrites
    · obtain ⟨hkind, hgoes⟩ := of_writes hwrites
      rcases List.mem_snoc.mp hr with hr | rfl
      · simp [(hrow hkind).1 r hr] at hstops
      · simp [hgoes] at hstops
  · intro x hx hwrites hb
    obtain ⟨r, hr, hlock⟩ : ∃ r ∈ past, locks r = true := by
      rcases List.mem_snoc.mp hx with hx | rfl
      · exact hlocked x hx hwrites hb
      · exact (hrow (of_writes hwrites).1).2 hb
    exact ⟨r, List.mem_append_left _ hr, hlock⟩

/-- A call of a tool that is not safe and that has written nothing was not admitted. -/
theorem admitsNothing_of_unwritten (hc : Reaches S guard c) (hstart : Started c t (.intercept call))
    (hsafe : NonSafe c t) (h : ∀ x ∈ pastOf t c, writes x = false) : AdmitsNothing c t := by
  have hnot : ∀ {x}, x ∈ pastOf t c → writes x ≠ true := fun hx => by simp [h _ hx]
  refine ⟨fun effectId hout => ?_, fun effectId id hout => ?_, fun ins hins => ?_,
    fun push hpush => ?_, fun req hreq => ?_⟩
  · rcases hout.post hc hstart with ⟨-, hresolved⟩ | ⟨_, _, _, -, -, hpush, -⟩
    · exact hsafe _ _ _ (mem_pastOf.mp hresolved)
    · exact hnot hpush rfl
  · obtain ⟨_, _, _, -, -, hcreated, -⟩ := hout.post hc hstart
    exact hnot hcreated rfl
  · obtain ⟨x, hx, -, hins⟩ := insertion_mem_past hins
    exact hnot hx (by simp [writes, hins])
  · obtain ⟨q, a, hran, hpush⟩ := pushOf_successOnly.mem_collect.mp hpush
    exact hnot (succeeded_iff_done.mp hran) (by simp [writes, hpush])
  · exact hnot (succeeded_iff_done.mp (creation_event hreq)) rfl

/-- Whatever the state of its session, a call that is stopped is not admitted and writes
nothing. Of the calls that return an outcome, the others all break this. -/
theorem admitsNothing_of_stopped (hc : Reaches S unguarded c)
    (hstart : Started c t (.intercept call)) (hsafe : NonSafe c t) :
    (Stopped c t → AdmitsNothing c t) ∧
      ∀ outcome, Outcomes c t outcome → AdmitsNothing c t → Stopped c t := by
  obtain ⟨hstopped, hlocked⟩ := history_passes hc hstart
  constructor
  · intro h
    refine admitsNothing_of_unwritten hc hstart hsafe fun x hx => ?_
    refine Bool.eq_false_iff.mpr fun hwrites => ?_
    cases h with
    | replied h =>
      obtain ⟨r, hr, hstops⟩ := h
      simp [hstopped r hr hstops x hx] at hwrites
    | busy hb _ h =>
      obtain ⟨r, hr, hlock⟩ := hlocked x hx hwrites hb
      simp [h r hr] at hlock
    | crashed _ hfree =>
      have hkind := (of_writes hwrites).1
      simp [hfree x hx] at hkind
  · intro outcome hout hnothing
    cases outcome with
    | execute => exact absurd hout (hnothing.execute _)
    | awaitingApproval => exact absurd hout (hnothing.awaitingApproval _ _)
    | replay =>
      obtain ⟨-, existing, hfound, -⟩ := hout.post hc hstart
      exact .replied ⟨_, hfound, rfl⟩

/-- The insert of the next call fails. -/
def failedInsert : Schedule :=
  runs 2 7 ++ [draw 2 20, .run 2 ({ fault := true } : Oracle), .finish 2]

/-- A call in the halted session of a rejected one whose insert fails. -/
theorem admitsNothing_when_insert_fails :
    ∃ d d' c, Reaches (sample .postgres) unguarded d ∧
      Transition d (.start (.intercept (sampleCall 1))) d' ∧ Run unguarded d' c ∧
      Finished (dbOf d) sampleOrg ⟨2⟩ ∧ NonSafe c d.next ∧ Stopped c d.next ∧
      AdmitsNothing c d.next := by
  obtain ⟨d, d', c, hd, hstart, hrun, hfinished, hsafe, hstops⟩ := exists_started unguarded
    1780271999 (.irreversible "") rejectedCall (.intercept (sampleCall 1)) (fun _ => trivial)
    failedInsert (fun d c => Finished (dbOf d) sampleOrg ⟨2⟩ ∧ NonSafe c d.next ∧
      ∃ r ∈ pastOf d.next c, stops r = true) (by decide +kernel)
  have hd' := hd.transition trivial hstart
  have hstarted : Started c d.next (.intercept (sampleCall 1)) := by
    refine hrun.trace.subset ?_
    cases hstart
    exact List.mem_concat_self
  exact ⟨d, d', c, hd, hstart, hrun, hfinished, hsafe, .replied hstops,
    (admitsNothing_of_stopped (hd'.run hrun) hstarted hsafe).1 (.replied hstops)⟩

/-- The next call runs to its end. -/
def laterCall : Schedule :=
  runs 2 7 ++ [draw 2 20] ++ runs 2 1 ++ [draw 2 21] ++ runs 2 5 ++ [.finish 2]

/-- A new call in the halted session of a rejected one asks for a decision. -/
theorem admitsNothing_fails_when_halted : ∃ d d' c, Reaches (sample .postgres) unguarded d ∧
      Transition d (.start (.intercept (sampleCall 1))) d' ∧ Run unguarded d' c ∧
      Finished (dbOf d) sampleOrg ⟨2⟩ ∧ (∀ row ∈ (dbOf d).effects,
        row.callSignature ≠ (sampleCall 1).signature (sample .postgres).hash) ∧
      NonSafe c d.next ∧ ¬ AdmitsNothing c d.next := by
  obtain ⟨d, d', c, hd, hstart, hrun, hfinished, hnew, hsafe, outcome, hout, hadmits⟩ :=
    exists_started unguarded 1780271999 (.irreversible "") rejectedCall (.intercept (sampleCall 1))
      (fun _ => trivial) laterCall (fun d c => Finished (dbOf d) sampleOrg ⟨2⟩ ∧
        (∀ row ∈ (dbOf d).effects,
          row.callSignature ≠ (sampleCall 1).signature (sample .postgres).hash) ∧
        NonSafe c d.next ∧ Admitted c d.next ⟨20⟩) (by decide +kernel)
  refine ⟨d, d', c, hd, hstart, hrun, hfinished, hnew, hsafe, fun h => ?_⟩
  cases outcome with
  | execute => exact h.execute _ hout
  | awaitingApproval => exact h.awaitingApproval _ _ hout
  | replay => cases hadmits

end UndoLog
