import UndoLog.Properties.Replay

/-!
# Commits

The caller that was told to execute a call commits its result. The commit is
recorded as long as the effect is still marked as executing; from then on every
further call under the signature is answered with the recorded result.
-/

namespace UndoLog

open Concurrent Machine Relational

variable {S : Setup} {guard : Guard (system S)} {c c' : State S}

/-- A statement of `commit` or `fail` for an effect. -/
def Stmt.settles (effectId : EffectId) : Stmt → Bool
  | .db (.commitRows _ e _) | .db (.failRows _ e _) => e = effectId
  | _ => false

/-- What a commit by call `u` is worth: the update met the row and the call returns
no error, the result is on record, and every call under the signature that started
afterwards is answered with it. -/
structure CommitKept (c : State S) (after : List (SystemEvent S)) (u : ℕ) (call : ToolCall)
    (effectId : EffectId) (result : ToolResult) (reply : Except UndoLogError (ℕ × Bool)) :
    Prop where
  met : ∃ rows, reply = .ok rows ∧ 0 < rows.1
  returned : ∀ r, Returned c u r → r = .ok .done
  recorded : ∃ row ∈ (dbOf c).effects, row.effectId = effectId ∧
    row.resultSnapshot = some result.toValue
  replayed : ∀ v call', Event.started (M := system S) v (.intercept call') ∈ after →
    call'.orgId = call.orgId → call'.signature S.hash = call.signature S.hash →
    ∀ r, Returned c v r → r = .ok (.intercepted (.replay effectId (some result)))

/-- The first commit of every effect that a call was told to execute is kept, unless
a failure was reported before it. -/
def CommitsKept (c : State S) : Prop :=
  ∀ before after t u call effectId result reply,
    c.trace = before ++ .ran u (.db (.commitRows call.orgId effectId result)) reply :: after →
    Event.started (M := system S) t (.intercept call) ∈ before → NonSafe c t →
    outcomeEvent (S := S) t (.execute effectId) ∈ before →
    (∀ v st reply, Event.ran (M := system S) v st reply ∈ before →
      Stmt.settles effectId st = false) →
    CommitKept c after u call effectId result reply

/-- The statements that answer a call once its result is on record, and the commit. -/
def Stmt.answering : Stmt → Bool
  | .app .rateLimit | .db (.getSession _ _) | .db (.createSession _ _) | .db (.tryAdvisoryLock _)
  | .db (.findBySignature _ _) | .db (.markReplayed _ _) | .db (.commitRows _ _ _) => true
  | _ => false

/-- Nothing disturbs the calls around a commit: nothing unusual happens outside, no signature is
inserted in two months, the replay counter does not overflow, and an executing effect is marked
neither as replayed nor as a failed compensation. -/
def Undisturbed (c : State S) (_ : ℕ) (o : (system S).Oracle) (st : (system S).Stmt) : Prop :=
  (Stmt.answering st = true → Oracle.calm o = true) ∧
  (∀ key ∈ Stmt.inserts st, ∀ row ∈ (dbOf c).effects,
    (row.orgId, row.callSignature) = key → ThisMonth (dbOf c) row) ∧
  (∀ key ∈ Stmt.replays st, ∀ row ∈ (dbOf c).effects, ofEffect key.1 key.2 row = true →
    row.state ≠ .executing ∧ row.replayCount < smallintMax) ∧
  (∀ key ∈ Stmt.failsCompensation st, ∀ row ∈ (dbOf c).effects,
    ofEffect key.1 key.2 row = true → row.state ≠ .executing)

instance (c : State S) (t : ℕ) (o : (system S).Oracle) (st : (system S).Stmt) :
    Decidable (Undisturbed c t o st) := by
  unfold Undisturbed
  infer_instance

/-! ## One row for each signature -/

variable {orgId : OrgId} {t : ℕ} {row : EffectRow} {db : Db} {b : Backend} {ins : Insertion}
  {q : Query} {signature : CallSignature} {rows : ℕ × Bool} {effectId : EffectId}
  {result : ToolResult} {call : ToolCall}

theorem clash_of_thisMonth (hmonth : ThisMonth db row) (hsig : row.callSignature = ins.signature) :
    clash b row (ins.row b db.now) = true := by
  cases b with
  | postgres => exact clash_postgres.mpr (.inr ⟨hsig, hmonth⟩)
  | sqlite => exact clash_sqlite.mpr (.inr hsig)

theorem effects_keyed_call (hc : Reaches S (onRuns Undisturbed) c) :
    Keyed (fun row : EffectRow => (row.orgId, row.callSignature)) (dbOf c).effects := by
  refine keyed_invariant (·.effects) hc (fun _ _ _ => rfl) SameTables.effects ?_
  intro c c' t o q a _ hguard hquery
  obtain ⟨next, hcall⟩ := hquery.call
  have hcond : Undisturbed c t o (.db q) := onRuns_run hguard hcall
  rcases (Outcome.of_tx hquery.tx).effects with ⟨ins, hins, hclash, heffects⟩ | ⟨-, heffects⟩
  · refine .inl ⟨_, fun row hrow hkey => ?_, heffects⟩
    have hinserts : (ins.call.orgId, ins.signature) ∈ Stmt.inserts (.db q) := by
      cases q with
      | insertCompensable | insertIrreversible =>
        cases a with
        | false => cases hins
        | true =>
          cases hins
          rfl
      | _ => cases hins
    have hmonth := hcond.2.1 _ hinserts row hrow hkey
    have hfree := hclash row hrow
    rw [clash_of_thisMonth hmonth (Prod.mk.inj hkey).2] at hfree
    cases hfree
  · refine .inr ⟨_, fun row => ?_, heffects⟩
    have hcore := (q.effectChange (dbOf c).now row).core
    exact Prod.ext (core_orgId hcore) (core_callSignature hcore)

/-! ## Until the commit -/

theorem EffectChange.executing_or_settles {row' : EffectRow} (h : EffectChange q row row')
    {o : Oracle} (hcond : Undisturbed c t o (.db q)) (hrow : row ∈ (dbOf c).effects)
    (hstate : row.state = .executing) :
    row'.state = .executing ∨ Stmt.settles row.effectId (.db q) = true := by
  cases h with
  | same | linked => exact .inl hstate
  | replayed hof => exact absurd hstate (hcond.2.2.1 _ rfl row hrow hof).1
  | compensationFailed hof => exact absurd hstate (hcond.2.2.2 _ rfl row hrow hof)
  | committed hin | failed hin =>
    obtain ⟨⟨heffect, -⟩, -⟩ := ofEffectIn_iff.mp hin
    exact .inr (decide_eq_true heffect.symm)
  | executing hin | approved args hin | rejected hin =>
    obtain ⟨-, hmem⟩ := ofEffectIn_iff.mp hin
    simp [hstate] at hmem

theorem executing_or_settled (hc : Reaches S (onRuns Undisturbed) c)
    (h : Succeeded c t (.setExecuting orgId effectId) ()) :
    (∃ row ∈ (dbOf c).effects, (row.effectId = effectId ∧ row.orgId = orgId) ∧
      row.state = .executing) ∨ ∃ v st reply, Event.ran (M := system S) v st reply ∈ c.trace ∧
      Stmt.settles effectId st = true := by
  refine h.since hc ?_ ?_
  · intro c c' o _ _ htrans hquery
    -- the update met a pending row
    obtain ⟨hcount, hdb⟩ := transitionEffect_ok.mp hquery.tx
    obtain ⟨row, hrow, hpending⟩ := exists_of_countP_ne_zero hcount
    refine .inl ⟨{ row with state := .executing }, ?_, (ofEffectIn_iff.mp hpending).1, rfl⟩
    rw [hdb]
    exact mem_updateWhere.mpr ⟨row, hrow, updateRow_of_pos hpending⟩
  · intro c choice c' _ hguard htrans ih
    rcases ih with ⟨row, hrow, hof, hstate⟩ | ⟨v, st, reply, hran, hsettles⟩
    · obtain ⟨row', hrow', hstep⟩ := effect_step htrans hrow
      have hof' : row'.effectId = effectId ∧ row'.orgId = orgId := by
        rw [core_effectId hstep.core, core_orgId hstep.core]
        exact hof
      rcases hstep with rfl | ⟨v, o, q, a, rfl, hquery, hchange⟩
      · exact .inl ⟨row', hrow', hof', hstate⟩
      · obtain ⟨next, hcall⟩ := hquery.call
        have hcond := onRuns_run hguard hcall
        rcases hchange.executing_or_settles hcond hrow hstate with hstate' | hsettles
        · exact .inl ⟨row', hrow', hof', hstate'⟩
        · refine .inr ⟨v, .db q, .ok a, ?_, by rwa [← hof.1]⟩
          rw [hquery.trace]
          simp
    · exact .inr ⟨v, st, reply, htrans.subset hran, hsettles⟩

/-! ## The commit and what comes after it -/

/-- The effect is in a final state with a recorded result. -/
def ResultOnRecord (c : State S) (orgId : OrgId) (signature : CallSignature)
    (effectId : EffectId) (result : ToolResult) : Prop :=
  ∃ row ∈ (dbOf c).effects, row.effectId = effectId ∧
    (row.orgId, row.callSignature) = (orgId, signature) ∧ row.state.isTerminal = true ∧
    row.resultSnapshot = some result.toValue

theorem ResultOnRecord.step {choice : Choice (system S)}
    (h : ResultOnRecord c orgId signature effectId result) (htrans : Transition c choice c') :
    ResultOnRecord c' orgId signature effectId result := by
  obtain ⟨row, hrow, heffect, hkey, hterminal, hresult⟩ := h
  obtain ⟨row', hrow', hstep⟩ := effect_step htrans hrow
  refine ⟨row', hrow', ?_, ?_, ?_⟩
  · rw [core_effectId hstep.core, heffect]
  · rw [core_orgId hstep.core, core_callSignature hstep.core, hkey]
  · rcases hstep with rfl | ⟨t, o, q, a, -, -, hchange⟩
    · exact ⟨hterminal, hresult⟩
    · obtain ⟨hterminal', hresult'⟩ := hchange.terminal hterminal
      exact ⟨hterminal', hresult'.trans hresult⟩

/-- The replies a call gets while the result of its effect is on record. -/
def Answers (effectId : EffectId) (result : ToolResult) : Ran Stmt Stmt.Ret UndoLogError → Prop
  | ⟨.app .rateLimit, reply⟩ => reply = .ok ()
  | ⟨.app (.cacheGet _ _), reply⟩ => ∃ cached, reply = .ok cached
  | ⟨.db (.getSession _ _), reply⟩ => ∃ found, reply = .ok found
  | ⟨.db (.createSession _ _), reply⟩ => reply = .ok ()
  | ⟨.db (.tryAdvisoryLock _), reply⟩ => reply = .ok true
  | ⟨.db (.findBySignature _ _), reply⟩ => ∃ existing, reply = .ok (some existing) ∧
      existing.effectId = effectId ∧ existing.resultSnapshot = some result
  | ⟨.db (.markReplayed _ _), reply⟩ => reply = .ok ()
  | _ => True

section Contract

variable {call : ToolCall} {effectId : EffectId} {result : ToolResult} {past : History}

theorem ensureSession_answers : Program.Satisfies (fun _ _ => True)
      (Program.Expected (Answers effectId result) fun r => ∃ u, r = .ok u) past
      (ensureSession call) := by
  refine Program.expected_stmt_bind (by simp [Answers]) ?_
  rintro (_ | cached) -
  · refine Program.expected_stmt_bind (by simp [Answers]) ?_
    rintro (_ | record) -
    · refine Program.expected_stmt_bind (by simp [Answers]) fun _ _ => ?_
      refine Program.expected_stmt_bind (by simp [Answers]) ?_
      rintro (_ | record) -
      · exact fun _ => ⟨(), rfl⟩
      · exact perform_contract trivial fun _ _ => ⟨(), rfl⟩
    · exact perform_contract trivial fun _ _ => ⟨(), rfl⟩
  · exact fun _ => ⟨(), rfl⟩

theorem acquireAdvisoryLock_answers {attempts : ℕ} (hlock : b = .postgres → 0 < attempts) :
    Program.Satisfies (fun _ _ => True)
      (Program.Expected (Answers effectId result) fun r => ∃ u, r = .ok u) past
      (acquireAdvisoryLock b signature attempts) := by
  cases b with
  | sqlite => exact fun _ => ⟨(), rfl⟩
  | postgres =>
    obtain ⟨n, rfl⟩ := Nat.exists_eq_succ_of_ne_zero (Nat.pos_iff_ne_zero.mp (hlock rfl))
    simp only [acquireAdvisoryLock, lockLoop]
    refine Program.expected_stmt_bind (by simp [Answers]) fun acquired hacquired => ?_
    obtain rfl : acquired = true := Except.ok.inj hacquired
    exact fun _ => ⟨(), rfl⟩

theorem intercept_answers (hlock : S.backend = .postgres → 0 < S.config.lockMaxAttempts) :
    Program.Satisfies (fun _ _ => True) (Program.Expected (Answers effectId result) fun r =>
        r = .ok (.replay effectId (some result))) past
      (intercept S.backend S.hash S.config call) := by
  refine Program.expected_stmt_bind ?_ fun _ _ => ?_
  · intro e he
    cases he
  refine Program.expected_bind ensureSession_answers fun past _ => ?_
  refine Program.expected_bind (acquireAdvisoryLock_answers hlock) fun past _ => ?_
  refine Program.expected_stmt_bind (by simp [Answers]) ?_
  rintro found ⟨existing, hfound, heffect, hresult⟩
  obtain rfl : found = some existing := Except.ok.inj hfound
  refine Program.expected_stmt_bind (by simp [Answers]) fun _ _ _ => ?_
  rw [heffect, hresult]

end Contract

section Replies

variable {call : ToolCall} {effectId : EffectId} {result : ToolResult} {o : Oracle}

theorem findBySignature_record (hc : Reaches S (onRuns Undisturbed) c)
    (h : ResultOnRecord c call.orgId (call.signature S.hash) effectId result) (pick : ℕ) :
    ∃ existing, findBySignature pick call.orgId (call.signature S.hash) (dbOf c) =
      .ok (some existing, dbOf c) ∧ existing.effectId = effectId ∧
      existing.resultSnapshot = some result := by
  obtain ⟨row, hrow, heffect, hkey, -, hresult⟩ := h
  obtain ⟨horg, hsig⟩ := Prod.mk.inj hkey
  have hmem : row ∈ (dbOf c).effects.filter fun row =>
      row.callSignature = call.signature S.hash ∧ row.orgId = call.orgId :=
    List.mem_filter.mpr ⟨hrow, decide_eq_true ⟨hsig, horg⟩⟩
  cases hfound : limitOne pick ((dbOf c).effects.filter fun row =>
      row.callSignature = call.signature S.hash ∧ row.orgId = call.orgId) with
  | none =>
    rw [limitOne_eq_none.mp hfound] at hmem
    cases hmem
  | some row' =>
    obtain ⟨hrow', hsame⟩ := List.mem_filter.mp (limitOne_mem hfound)
    obtain ⟨hsig', horg'⟩ := of_decide_eq_true hsame
    have heq : row' = row :=
      (effects_keyed_call hc).eq hrow' hrow (by rw [hkey, hsig', horg'])
    obtain ⟨record, hrecord, hid, hsnapshot⟩ := mapEffectRow_result hresult
    refine ⟨record, Tx.query_ok.mpr ⟨?_, rfl⟩, hid.trans heffect, hsnapshot⟩
    rw [hfound, heq]
    exact congrArg (Except.map some) hrecord

theorem createSession_ok (sessionId : SessionId) (horg : b = .postgres → orgId ∈ db.orgs) :
    ∃ db', createSession b orgId sessionId db = .ok ((), db') := by
  simp only [createSession]
  split
  · exact ⟨_, rfl⟩
  · rw [if_neg fun h => h.2 (horg h.1)]
    exact ⟨_, rfl⟩

theorem markReplayed_ok (hroom : ∀ row ∈ db.effects, ofEffect orgId effectId row = true →
      row.replayCount < smallintMax) : ∃ db', markReplayed b orgId effectId db = .ok ((), db') := by
  simp only [markReplayed]
  rw [if_neg]
  · exact ⟨_, rfl⟩
  · rintro ⟨-, hany⟩
    obtain ⟨row, hrow, hfull⟩ := List.any_eq_true.mp hany
    obtain ⟨hof, hmax⟩ := of_decide_eq_true hfull
    have hlt := hroom row hrow hof
    omega

/-- While the result is on record, a call under its signature gets the replies that
lead to a replay. -/
theorem answers_of_run (hc : Reaches S (onRuns Undisturbed) c) {st : Stmt}
    {next : Except UndoLogError st.Ret → Proc OpResult} {reply : Except UndoLogError st.Ret}
    {w : World} {past : History} (hguard : onRuns (M := system S) Undisturbed c (.run t o))
    (hcall : c.calls t = some (.call st next))
    (hexec : execStmt S.backend t o st c.store = some (reply, w))
    (hrecord : ResultOnRecord c call.orgId (call.signature S.hash) effectId result)
    (horg : S.backend = .postgres → call.orgId ∈ (dbOf c).orgs) (hpre : interceptPre S call past st)
    (hpast : ∀ x ∈ past, Answers effectId result x) : Answers effectId result ⟨st, reply⟩ := by
  have hcond : Undisturbed c t o st := onRuns_run hguard hcall
  cases st with
  | app step =>
    cases step with
    | rateLimit =>
      obtain ⟨-, -, hnone⟩ := Oracle.calm_iff.mp (hcond.1 rfl)
      simp only [execStmt, AppStep.run, hnone] at hexec
      cases hexec
      rfl
    | cacheGet =>
      simp only [execStmt, AppStep.run] at hexec
      split at hexec <;> cases hexec <;> exact ⟨_, rfl⟩
    | _ => trivial
  | db q =>
    change q.run S.backend t o c.store = some (reply, w) at hexec
    have hreply (hst : Stmt.answering (.db q) = true) :
        reply = (q.tx S.backend t o (dbOf c)).map Prod.fst :=
      Query.run_reply (Oracle.calm_iff.mp (hcond.1 hst)).1 hexec
    cases q with
    | getSession orgId sessionId =>
      rw [hreply rfl]
      exact ⟨_, rfl⟩
    | createSession orgId sessionId =>
      obtain ⟨rfl, -⟩ := hpre
      obtain ⟨db', hok⟩ := createSession_ok sessionId horg
      rw [hreply rfl]
      simp only [Query.tx, hok]
      rfl
    | tryAdvisoryLock key =>
      obtain ⟨-, hfree, -⟩ := Oracle.calm_iff.mp (hcond.1 rfl)
      rw [hreply rfl]
      simp only [Query.tx, hfree]
      rfl
    | findBySignature orgId signature =>
      obtain ⟨rfl, rfl, -⟩ := hpre
      obtain ⟨existing, hok, hfound⟩ := findBySignature_record hc hrecord o.pick
      refine ⟨existing, ?_, hfound⟩
      rw [hreply rfl]
      simp only [Query.tx, hok]
      rfl
    | markReplayed orgId effectId' =>
      obtain ⟨rfl, -, existing, hfound, rfl⟩ := hpre
      obtain ⟨existing', heq, hid, -⟩ := hpast _ hfound
      obtain rfl : existing = existing' := Option.some.inj (Except.ok.inj heq)
      have hroom := fun row hrow hof => (hcond.2.2.1 _ rfl row hrow hof).2
      obtain ⟨db', hok⟩ := markReplayed_ok (b := S.backend) hroom
      rw [hreply rfl]
      simp only [Query.tx, hok]
      rfl
    | _ => trivial

end Replies

/-! ## From the commit on -/

/-- Every call under the signature that starts after the result is on record gets
the replies that lead to a replay. -/
theorem answers_since (hc : Reaches S (onRuns Undisturbed) c) (hrun : Run (onRuns Undisturbed) c c')
    (hrecord : ResultOnRecord c call.orgId (call.signature S.hash) effectId result)
    (horg : S.backend = .postgres → call.orgId ∈ (dbOf c).orgs) :
    ResultOnRecord c' call.orgId (call.signature S.hash) effectId result ∧
    (S.backend = .postgres → call.orgId ∈ (dbOf c').orgs) ∧
    ∀ v st reply, Event.ran (M := system S) v st reply ∈ c'.trace → c.next ≤ v →
      Intercepts c' v call.orgId (call.signature S.hash) → Answers effectId result ⟨st, reply⟩ := by
  refine hrun.invariant
    hc ⟨hrecord, horg, fun v st reply hran hle _ => ?_⟩ ?_
  · exact absurd (hc.coherent.fresh _ hran v rfl) (Nat.not_lt.mpr hle)
  · rintro d choice d' hd ⟨hrecord, horg, ih⟩ hguard htrans
    refine ⟨hrecord.step htrans, fun hb => ?_, ?_⟩
    · rw [orgs_step htrans]
      exact horg hb
    · rintro v st reply hran hle ⟨call', hstart, horg', hsig'⟩
      have hd' : Coherent d' := hd.coherent.transition htrans
      obtain ⟨last, htrace⟩ := htrans.trace
      -- whoever has run a statement before the step had started by then
      have hstarted : ∀ op, Started d v op → Started d v (.intercept call') := by
        intro op hop
        have heq := hd'.started_unique v op _ (htrans.subset hop) hstart
        exact heq ▸ hop
      rw [htrace] at hran
      rcases List.mem_snoc.mp hran with hold | rfl
      · obtain ⟨op, hop⟩ := hd.coherent.ran_started v st reply hold
        exact ih v st reply hold hle ⟨call', hstarted op hop, horg', hsig'⟩
      · obtain ⟨o, next, rfl, hcall, hexec⟩ := htrans.of_ran htrace
        obtain ⟨op, hop, hpre⟩ := (contract S).pre_of_call hd.coherent hcall
        have hop' := hstarted op hop
        obtain rfl := hd.coherent.started_unique v op _ hop hop'
        rw [← horg', ← hsig'] at hrecord ih
        rw [← horg'] at horg
        refine answers_of_run hd hguard hcall hexec hrecord horg hpre ?_
        rintro ⟨st', reply'⟩ hx
        exact ih v st' reply' (mem_pastOf.mp hx) hle ⟨call', hop', rfl, rfl⟩

theorem commit_of_pre {op : Op} {past : History}
    (h : opPre S op past (.db (.commitRows orgId effectId result))) :
    op = .commit orgId effectId result := by
  cases op with
  | commit =>
    obtain ⟨rfl, rfl, rfl, -⟩ := h
    rfl
  | processTimeouts | processPendingTimeouts => cases h.1
  | _ => cases h

theorem commit_returns (hc : Reaches S guard c) {u : ℕ}
    {r : Except UndoLogError OpResult} (hstart : Started c u (.commit orgId effectId result))
    (hran : Succeeded c u (.commitRows orgId effectId result) rows) (hpos : 0 < rows.1)
    (hreturn : Returned c u r) : r = .ok .done := by
  have hpost : opPost S (.commit orgId effectId result) (pastOf u c) r :=
    (contract S).post_of_returned hc.coherent hstart hreturn
  obtain ⟨r', hcommit, rfl⟩ := hpost
  rw [hcommit rows (succeeded_iff_done.mp hran) hpos]
  rfl

theorem org_of_push (hb : S.backend = .postgres) (hc : Reaches S guard c)
    {compensation : CompensationDescriptor}
    {undoId : UndoId} (h : Succeeded c t (.insertUndo call effectId compensation undoId) ()) :
    call.orgId ∈ (dbOf c).orgs := by
  refine h.since hc ?_ ?_
  · intro c c' o _ _ htrans hquery
    have hkeys := (Outcome.of_tx hquery.tx).undo_keys
    rw [hb] at hkeys
    rw [orgs_step htrans]
    exact (of_decide_eq_true hkeys).1
  · intro c choice c' _ _ htrans ih
    rw [orgs_step htrans]
    exact ih

/-- An effect that a call was told to execute and that is first settled now is the row of the call
and still executing. -/
theorem executing_row (hc : Reaches S (onRuns Undisturbed) c)
    (hstart : Started c t (.intercept call)) (hsafe : NonSafe c t)
    (hout : Outcomes c t (.execute effectId))
    (hfirst : ∀ v st reply, Event.ran (M := system S) v st reply ∈ c.trace →
      Stmt.settles effectId st = false) : (∃ row ∈ (dbOf c).effects, row.effectId = effectId ∧
      (row.orgId, row.callSignature) = (call.orgId, call.signature S.hash) ∧
      row.state = .executing) ∧ (S.backend = .postgres → call.orgId ∈ (dbOf c).orgs) := by
  rcases hout.post hc hstart with ⟨-, hresolved⟩ |
    ⟨compensation, undoId, inserted, hins, -, hpush, hexecuting⟩
  · exact absurd (mem_pastOf.mp hresolved) (hsafe _ _ _)
  · refine ⟨?_, fun hb => org_of_push hb hc (succeeded_iff_done.mpr hpush)⟩
    rcases executing_or_settled hc (succeeded_iff_done.mpr hexecuting) with
      ⟨row, hrow, ⟨rfl, -⟩, hstate⟩ | ⟨v, st, reply, hran, hsettles⟩
    · obtain ⟨call', before, -, hbefore, -, -, hdrew, -⟩ :=
        (succeeded_iff_done.mpr hins).intercept_pre hc rfl
      obtain ⟨t', ins, hinsertion, hof⟩ := insertion_of_row hc hrow
      obtain ⟨hstart', hsig, hdraw⟩ := insertion_call hc hinsertion
      rw [← hof.effectId] at hdraw
      obtain rfl := draw_unique hc hdraw (draw_of_drew (hbefore.subset hdrew))
      cases hstart.unique hc hstart'
      exact ⟨row, hrow, rfl, by rw [hof.orgId, hof.callSignature, hsig], hstate⟩
    · rw [hfirst v st reply hran] at hsettles
      cases hsettles

theorem commit_met {u : ℕ} {o : Oracle}
    (hquery : QueryStep c c' u o (.commitRows orgId effectId result) rows)
    (hrow : row ∈ (dbOf c).effects) (heffect : row.effectId = effectId) (horg : row.orgId = orgId)
    (hstate : row.state = .executing) :
    0 < rows.1 ∧ ResultOnRecord c' orgId row.callSignature effectId result := by
  have hin : ofEffectIn orgId effectId [.executing, .approved] row = true := by
    simp [heffect, horg, hstate]
  obtain ⟨hrows, hdb⟩ := Prod.mk.inj (Except.ok.inj hquery.tx)
  constructor
  · rw [← hrows]
    exact List.countP_pos_iff.mpr ⟨row, hrow, hin⟩
  · refine ⟨{ row with
      state := .committed
      resultSnapshot := some result.toValue
      committedAt := some (dbOf c).now }, ?_, heffect, by rw [horg], rfl, rfl⟩
    rw [← hdb]
    exact mem_updateWhere.mpr ⟨row, hrow, updateRow_of_pos hin⟩

/-- In every undisturbed run the first commit of an executed call is kept. -/
theorem commitsKept_of_undisturbed (hlock : S.backend = .postgres → 0 < S.config.lockMaxAttempts)
    (hc : Reaches S (onRuns Undisturbed) c) : CommitsKept c := by
  intro before after t u call effectId result reply htrace hstart hsafe hout hfirst
  obtain ⟨d, choice, d', hrec⟩ := hc.recorded htrace
  have hd := hrec.reachable
  rw [← hrec.trace] at hstart hout hfirst
  have hsub : d.trace ⊆ c.trace := by
    rw [htrace, hrec.trace]
    exact List.subset_append_left _ _
  obtain ⟨⟨row, hrow, heffect, hkey, hstate⟩, horg⟩ := executing_row hd hstart
    (fun _ _ _ hmem => hsafe _ _ _ (hsub hmem)) hout hfirst
  obtain ⟨hroworg, hrowsig⟩ := Prod.mk.inj hkey
  -- the commit itself
  obtain ⟨o, next, rfl, hcall, hexec⟩ := hrec.step.of_ran hrec.trace'
  have hcond : Undisturbed d u o (.db (.commitRows call.orgId effectId result)) :=
    onRuns_run hrec.allowed hcall
  have hreply := Query.run_reply (b := S.backend) (Oracle.calm_iff.mp (hcond.1 rfl)).1 hexec
  obtain ⟨op, hop, hpre⟩ := (contract S).pre_of_call hd.coherent hcall
  obtain rfl := commit_of_pre hpre
  obtain ⟨rows, rfl⟩ : ∃ rows, reply = .ok rows := ⟨_, hreply⟩
  obtain ⟨o', -, hquery⟩ := QueryStep.of_trace hrec.step hrec.trace'
  obtain ⟨hpos, hrecord⟩ := commit_met hquery hrow heffect hroworg hstate
  rw [hrowsig] at hrecord
  -- everything after it
  rw [← orgs_step hrec.step] at horg
  obtain ⟨hrecord', -, hanswers⟩ := answers_since hrec.reachable' hrec.rest hrecord horg
  obtain ⟨-, after', htrace', hnew⟩ := hrec.rest.started
  have hafter : after' = after := by
    rw [htrace, hrec.trace', hrec.trace] at htrace'
    simpa using htrace'.symm
  refine ⟨⟨rows, rfl, hpos⟩, fun r hr => ?_, ?_, fun v call' hstart' horg' hsig' r hr => ?_⟩
  · refine commit_returns hc (hsub hop) ?_ hpos hr
    rw [Succeeded, htrace]
    exact List.mem_append_right _ List.mem_cons_self
  · obtain ⟨row', hrow', heffect', -, -, hresult⟩ := hrecord'
    exact ⟨row', hrow', heffect', hresult⟩
  · have hstarted : Started c v (.intercept call') := by
      rw [Started, htrace]
      exact List.mem_append_right _ (List.mem_cons_of_mem _ hstart')
    have hprogram : Program.Satisfies (fun _ _ => True) (Program.Expected
        (Answers effectId result) fun r => r = .ok (.replay effectId (some result))) []
        (intercept S.backend S.hash S.config call') := intercept_answers hlock
    have hpost := hc.coherent.post_of_returned hstarted hr
      (as_contract OpResult.intercepted hprogram)
    obtain ⟨r', hreplay, rfl⟩ := hpost
    rw [hafter] at hnew
    rw [hreplay]
    · rfl
    · rintro ⟨st, reply⟩ hx
      exact hanswers v st reply (mem_pastOf.mp hx) (hnew v _ hstart')
        ⟨call', hstarted, horg', hsig'⟩

/-- A compensable call is executed and committed; then it is made again. -/
def commitThenRetry : Schedule :=
  executedCall ++ [.start sampleCommit] ++ runs 1 1 ++
    [.finish 1, .start (.intercept (sampleCall 0))] ++ runs 2 5 ++ [.finish 2]

/-- An outcome that brings a result. -/
def InterceptOutcome.hasResult : InterceptOutcome → Bool
  | .replay _ (some _) => true
  | _ => false

/-- The retry is answered with a result. -/
theorem retry_gets_result : ∃ c, Reaches (sample .postgres) (onRuns Undisturbed) c ∧
      (∃ t outcome, Outcomes c t outcome ∧ outcome.hasResult = true) ∧ CommitsKept c := by
  obtain ⟨c, hc, htest⟩ := exists_sample (onRuns Undisturbed)
    1780271999 (.compensable sampleCompensation) commitThenRetry
    (fun c => outcomeTest (fun _ outcome => outcome.hasResult) c) (by decide +kernel)
  exact ⟨c, hc, outcomeTest_iff.mp htest, commitsKept_of_undisturbed (by decide) hc⟩

/-- The same call made again while the first one is being executed, before its
result is committed. -/
def retryThenCommit : Schedule :=
  executedCall ++ [.start (.intercept (sampleCall 0))] ++ runs 1 5 ++
    [.finish 1, .start sampleCommit] ++ runs 2 1

/-- The commit after the trace `before` has met no row. -/
def commitLost (before : List (SystemEvent S)) (event : SystemEvent S) : Bool :=
  before.any (fun
    | .started 0 (.intercept call) => call.orgId = sampleOrg
    | _ => false) &&
  before.any (fun
    | .returned 0 (.ok (.intercepted (.execute effectId))) => effectId = ⟨10⟩
    | _ => false) &&
  before.all (fun
    | .ran _ st _ => !Stmt.settles ⟨10⟩ st
    | _ => true) &&
  match event with
  | .ran _ (.db (.commitRows orgId effectId _)) (.ok rows) =>
      orgId = sampleOrg ∧ effectId = ⟨10⟩ ∧ rows.1 = 0
  | _ => false

theorem not_commitsKept_of_lost {i : ℕ} (hsafe : NonSafe c 0)
    (h : (c.trace[i]?).any (commitLost (c.trace.take i)) = true) : ¬ CommitsKept c := by
  obtain ⟨event, hevent, hlost⟩ := (Option.any_eq_true _ _).mp h
  have htrace := trace_split hevent
  simp only [commitLost, Bool.and_eq_true, List.any_eq_true, List.all_eq_true] at hlost
  obtain ⟨⟨⟨⟨started, hstarted, htest⟩, returned, hreturned, htest'⟩, hfirst⟩, hmet⟩ := hlost
  intro hkept
  split at htest
  · next call =>
    split at htest'
    · next effectId =>
      split at hmet
      · next u orgId effectId' result rows =>
        obtain ⟨rfl, rfl, hzero⟩ := of_decide_eq_true hmet
        obtain rfl := of_decide_eq_true htest'
        rw [← of_decide_eq_true htest] at htrace
        have hcommit := hkept _ _ 0 u call _ result _ htrace hstarted hsafe hreturned
          fun v st reply hran => by simpa using hfirst _ hran
        obtain ⟨rows', heq, hpos⟩ := hcommit.met
        cases heq
        omega
      · cases hmet
    · cases htest'
  · cases htest

/-- The retry marks the effect as replayed, and the commit of the first call meets
no executing row any more. -/
theorem commitsKept_fails_after_retry :
    ∃ c, Reaches (sample .postgres) unguarded c ∧ ¬ CommitsKept c := by
  obtain ⟨c, hc, hsafe, hlost⟩ := exists_sample unguarded 1780271999
    (.compensable sampleCompensation) retryThenCommit
    (fun c => NonSafe c 0 ∧ (c.trace[24]?).any (commitLost (c.trace.take 24)) = true)
    (by decide +kernel)
  exact ⟨c, hc, not_commitsKept_of_lost hsafe hlost⟩

end UndoLog
