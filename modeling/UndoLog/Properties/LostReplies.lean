import UndoLog.Engine.Schedule
import UndoLog.Engine.Settlement
import UndoLog.Proxy.Client

/-!
# Lost replies of commits and failures

The client retries `Commit` and `Fail` when a reply is lost. The first attempt that reaches
the effect settles it; a later one finds it settled and is answered with an error. So a lost
reply is reported as an error, although the effect was changed, and exactly once.
-/

namespace UndoLog.Proxy

open Concurrent Machine Relational

variable {S : Setup} {c c' : State S}

/-- The effect whose result a call reports. -/
def reportOf : Op → Option (OrgId × EffectId)
  | .commit orgId effectId _ | .fail orgId effectId _ => some (orgId, effectId)
  | _ => none

/-- The reply of an attempt reaches the client: the engine has run the call. -/
structure Delivered (display : UndoLogError → String) (op : Op) (c c' : State S)
    (reply : Option ClientError) : Prop where
  run : Run unguarded c c'
  answered : ∃ t r, c.next ≤ t ∧ Started c' t op ∧ Returned c' t r ∧ reply = rpcReply display op r

/-- One attempt of the client, from one state of the engine to another. Either its reply
arrives, or it ends with a retryable status; then the engine may have run the call, a part
of it, or nothing. -/
def Attempt (display : UndoLogError → String) (op : Op) (c c' : State S)
    (reply : Option ClientError) : Prop :=
  Delivered display op c c' reply ∨
    Run unguarded c c' ∧ ∃ e, reply = some e ∧ isRetryableRPCError e = true

/-- A client call with its attempts, on an engine that others use at the same time. -/
structure Reporting (display : UndoLogError → String) (op : Op) (retry : RetryConfig)
    (env : Surroundings) (states : ℕ → State S) : Prop where
  start : Reaches S unguarded (states 0)
  attempt : ∀ i < (env.report retry).made,
    Attempt display op (states i) (states (i + 1)) (env.rpc i)

/-- A run of the reported call has changed the effect. -/
def AppliedBy (c : State S) (op : Op) (effectId : EffectId) : Prop :=
  ∃ t q a, Started c t op ∧ Succeeded c t q a ∧
    settlesEffect (S := S) effectId (.ran t (.db q) (.ok a)) = true

/-! ## What a late attempt is answered -/

variable {t : ℕ} {q : Query}

section Late

variable {orgId : OrgId} {effectId : EffectId} {b : Backend} {past : History}

/-- The replies of the database to a late report: the update meets no row, though the
effect has one. -/
def LateReply (orgId : OrgId) (effectId : EffectId) : (q : Query) → q.Ret → Prop
  | .commitRows o e _, rows | .failRows o e _, rows => o = orgId → e = effectId → rows = (0, true)
  | .effectExists o e, known => o = orgId → e = effectId → known = true
  | _, _ => True

/-- The same for all statements. -/
def LateAnswer (orgId : OrgId) (effectId : EffectId) : Ran Stmt Stmt.Ret UndoLogError → Prop
  | ⟨.db q, .ok a⟩ => LateReply orgId effectId q a
  | _ => True

/-- A program that fails after such answers. -/
def FailsLate {α : Type} (orgId : OrgId) (effectId : EffectId) (past : History) (p : Proc α) :
    Prop :=
  Program.Satisfies (fun _ _ => True)
    (Program.Expected (LateAnswer orgId effectId) fun r => ∃ e, r = .error e) past p

theorem settle_late : FailsLate orgId effectId past (settle b orgId effectId (0, true)) := by
  cases b with
  | postgres => exact fun _ => ⟨_, rfl⟩
  | sqlite =>
    refine Program.satisfies_stmt_bind trivial (fun e _ => ⟨e, rfl⟩) ?_
    rintro (_ | _)
    · intro hall
      have hlate : LateAnswer orgId effectId ⟨.db (.effectExists orgId effectId), .ok false⟩ :=
        hall _ (by simp)
      cases hlate rfl rfl
    · exact fun _ => ⟨_, rfl⟩

/-- An update that meets no row fails, and other numbers of rows are not among the answers. -/
theorem settle_rows_late {rows : ℕ × Bool} {x : Ran Stmt Stmt.Ret UndoLogError} (hx : x ∈ past)
    (hrows : LateAnswer orgId effectId x → rows = (0, true)) :
    FailsLate orgId effectId past (settle b orgId effectId rows) := by
  by_cases hzero : rows = (0, true)
  · rw [hzero]
    exact settle_late
  · exact Program.satisfies_unexpected hx (fun hlate => hzero (hrows hlate)) _

theorem commit_late (result : ToolResult) :
    FailsLate orgId effectId [] (commit b orgId effectId result) :=
  Program.satisfies_stmt_bind trivial (fun e _ => ⟨e, rfl⟩) fun _ =>
    settle_rows_late List.mem_concat_self fun hlate => hlate rfl rfl

theorem fail_late (reason : String) :
    FailsLate orgId effectId [] (failEffect b orgId effectId reason) :=
  Program.satisfies_stmt_bind trivial (fun e _ => ⟨e, rfl⟩) fun _ =>
    settle_rows_late List.mem_concat_self fun hlate => hlate rfl rfl

theorem report_late {op : Op} (hop : reportOf op = some (orgId, effectId)) :
    FailsLate orgId effectId [] (programOf S op) := by
  have hrename : ∀ {p : Proc Unit}, FailsLate orgId effectId [] p →
      FailsLate orgId effectId [] (p.as fun _ => OpResult.done) := by
    intro p hp
    refine (as_contract (fun _ => OpResult.done) hp).mono (fun _ _ h => h) ?_
    rintro past r ⟨r', hpost, rfl⟩ hall
    obtain ⟨e, rfl⟩ := hpost hall
    exact ⟨e, rfl⟩
  cases op with
  | commit =>
    cases hop
    exact hrename (commit_late _)
  | fail =>
    cases hop
    exact hrename (fail_late _)
  | _ => cases hop

variable (hc : Reaches S unguarded c)
include hc

theorem lateReply_of_settled {row : EffectRow} (hrow : row ∈ (dbOf c).effects)
    (hsettled : Settled c row) {o : Oracle} {a : q.Ret} (hquery : QueryStep c c' t o q a) :
    LateReply row.orgId row.effectId q a := by
  have hcount : (dbOf c).effects.countP
      (ofEffectIn row.orgId row.effectId [.executing, .approved]) = 0 := by
    refine List.countP_eq_zero.mpr fun other hother hin => ?_
    obtain ⟨⟨hid, -⟩, hstate⟩ := ofEffectIn_iff.mp hin
    rw [(effects_keyed hc).eq hother hrow hid] at hstate
    exact hsettled.state hstate
  have hany : (dbOf c).effects.any (ofEffect row.orgId row.effectId) = true :=
    List.any_eq_true.mpr ⟨row, hrow, by simp⟩
  have htx := hquery.tx
  cases q with
  | commitRows | failRows =>
    rintro rfl rfl
    obtain ⟨hrows, -⟩ := Prod.mk.inj (Except.ok.inj htx)
    rw [← hrows, hcount, hany]
  | effectExists =>
    rintro rfl rfl
    have hread : effectExists row.orgId row.effectId (dbOf c) = .ok (a, dbOf c') := htx
    rw [effectExists, Tx.query_ok] at hread
    rw [← Except.ok.inj hread.1, hany]
  | _ => trivial

theorem lateReplies (hrun : Run unguarded c c')
    (hsettled : ∃ row ∈ (dbOf c).effects, row.effectId = effectId ∧ row.orgId = orgId ∧
      Settled c row) : ∀ t ≥ c.next, ∀ q a, Succeeded c' t q a → LateReply orgId effectId q a := by
  have hboth : (∃ row ∈ (dbOf c').effects, row.effectId = effectId ∧ row.orgId = orgId ∧
      Settled c' row) ∧ ∀ t ≥ c.next, ∀ q a, Succeeded c' t q a → LateReply orgId effectId q a := by
    refine hrun.invariant (P := fun d => (∃ row ∈ (dbOf d).effects, row.effectId = effectId ∧
      row.orgId = orgId ∧ Settled d row) ∧
      ∀ t ≥ c.next, ∀ q a, Succeeded d t q a → LateReply orgId effectId q a) hc
      ⟨hsettled, ?_⟩ ?_
    · intro t ht q a hran
      exact absurd (hc.coherent.fresh _ hran t rfl) (by omega)
    · rintro d choice d' hd ⟨⟨row, hrow, rfl, rfl, hrowSettled⟩, hold⟩ _ htrans
      obtain ⟨row', hrow', hcore, hsettled', -⟩ := hrowSettled.step hd hrow htrans
      refine ⟨⟨row', hrow', core_effectId hcore, core_orgId hcore, hsettled'⟩, ?_⟩
      intro t ht q a hran
      rcases hran.step_cases htrans with hbefore | ⟨o, hquery⟩
      · exact hold t ht q a hbefore
      · exact lateReply_of_settled hd hrow hrowSettled hquery
  exact hboth.2

end Late

/-! ## The client call -/

section Client

variable {display : UndoLogError → String} {op : Op} {retry : RetryConfig} {env : Surroundings}
  {states : ℕ → State S} {orgId : OrgId} {effectId : EffectId}

theorem Attempt.run {reply : Option ClientError} (h : Attempt display op c c' reply) :
    Run unguarded c c' :=
  h.elim (fun hdelivered => hdelivered.run) fun hlost => hlost.1

variable {i : ℕ}

theorem Reporting.reaches (h : Reporting display op retry env states)
    (hi : i ≤ (env.report retry).made) : Reaches S unguarded (states i) := by
  induction i with
  | zero => exact h.start
  | succ i ih => exact (ih (by omega)).run (h.attempt i (by omega)).run

theorem Reporting.trace (h : Reporting display op retry env states) {j : ℕ} (hij : i ≤ j)
    (hj : j ≤ (env.report retry).made) : (states i).trace <+: (states j).trace := by
  induction j with
  | zero =>
    obtain rfl : i = 0 := by omega
    exact List.prefix_rfl
  | succ j ih =>
    by_cases hlast : i = j + 1
    · subst hlast
      exact List.prefix_rfl
    · exact (ih (by omega) (by omega)).trans (h.attempt j (by omega)).run.trace

theorem reports_of_pre {past : History} (hop : reportOf op = some (orgId, effectId))
    (hpre : opPre S op past (.db q)) {key : OrgId × EffectId} (hq : q.reports = some key) :
    key = (orgId, effectId) := by
  cases op with
  | commit | fail =>
    cases hop
    cases q with
    | commitRows | failRows =>
      rcases hpre with ⟨rfl, rfl, -⟩ <;> exact (Option.some.inj hq).symm
    | _ => cases hq
  | _ => cases hop

/-- An effect that a report has changed was settled once and stays settled. -/
theorem AppliedBy.settled (hc : Reaches S unguarded c) (hop : reportOf op = some (orgId, effectId))
    (h : AppliedBy c op effectId) :
    settlements c effectId = 1 ∧ ∃ row ∈ (dbOf c).effects, row.effectId = effectId ∧
      row.orgId = orgId ∧ Settled c row := by
  obtain ⟨t, q, a, hstart, hran, hsettles⟩ := h
  obtain ⟨before, -, -, hpre⟩ := (contract S).pre_of_ran hc.coherent hstart hran
  have horg : ∃ row ∈ (dbOf c).effects, row.effectId = effectId ∧ row.orgId = orgId := by
    have hkeep : ∀ {c c' : State S} {choice}, Transition c choice c' →
        (∃ row ∈ (dbOf c).effects, row.effectId = effectId ∧ row.orgId = orgId) →
        ∃ row ∈ (dbOf c').effects, row.effectId = effectId ∧ row.orgId = orgId := by
      rintro c c' choice htrans ⟨row, hrow, hid, horg⟩
      obtain ⟨row', hrow', hcore⟩ := effect_stays htrans hrow
      exact ⟨row', hrow', (core_effectId hcore).trans hid, (core_orgId hcore).trans horg⟩
    refine hran.since hc ?_ fun _ _ _ _ _ => hkeep
    intro c c' o _ _ htrans hquery
    obtain ⟨row, hrow, hq, hid, -⟩ := hquery.settles hsettles
    obtain ⟨horg, -⟩ := Prod.mk.inj (reports_of_pre hop hpre hq)
    exact hkeep htrans ⟨row, hrow, hid, horg⟩
  have hpos : 0 < settlements c effectId := List.countP_pos_iff.mpr ⟨_, hran, hsettles⟩
  rcases settled_once hc effectId with hzero | ⟨hone, row, hrow, hid, hsettled⟩
  · omega
  · obtain ⟨other, hother, hid', horg⟩ := horg
    obtain rfl := (effects_keyed hc).eq hother hrow (hid'.trans hid.symm)
    exact ⟨hone, other, hother, hid, horg, hsettled⟩

/-- A reply that arrives after the report was applied makes the client return an error. -/
theorem report_error_of_applied (hreport : Reporting display op retry env states)
    (hop : reportOf op = some (orgId, effectId)) (hi : i < (env.report retry).made)
    (happlied : AppliedBy (states i) op effectId)
    (hdelivered : Delivered display op (states i) (states (i + 1)) (env.rpc i)) :
    (env.report retry).error ≠ none := by
  have hc : Reaches S unguarded (states i) := hreport.reaches hi.le
  obtain ⟨-, hsettled⟩ := happlied.settled hc hop
  obtain ⟨t, r, ht, hstart, hreturned, hreply⟩ := hdelivered.answered
  obtain ⟨e, rfl⟩ : ∃ e, r = .error e := by
    have hpost := (hc.run hdelivered.run).coherent.post_of_returned hstart hreturned
      (report_late hop)
    refine hpost ?_
    rintro ⟨st, reply⟩ hx
    cases st with
    | app step => trivial
    | db q =>
      cases reply with
      | error e => trivial
      | ok a => exact lateReplies hc hdelivered.run hsettled t ht q a (succeeded_iff_done.mpr hx)
  have hloop : env.report retry = retryLoop env retry.attempts 0 :=
    report_eq_retryLoop (by omega)
  have hmade : i < (retryLoop env retry.attempts 0).made := by rwa [← hloop]
  rw [hloop, retryLoop_of_permanent (Nat.zero_le i) hmade hreply rfl]
  simp

/-- In every client call, when the engine has applied the report and the reply of a later
attempt arrives, the client returns an error, although the effect was changed, and exactly
once. -/
theorem report_fails_after_applied (hreport : Reporting display op retry env states)
    (hop : reportOf op = some (orgId, effectId)) {i : ℕ} (hi : i < (env.report retry).made)
    (happlied : AppliedBy (states i) op effectId)
    (hdelivered : Delivered display op (states i) (states (i + 1)) (env.rpc i)) :
    (env.report retry).error ≠ none ∧
      settlements (states (env.report retry).made) effectId = 1 := by
  refine ⟨report_error_of_applied hreport hop hi happlied hdelivered, ?_⟩
  obtain ⟨hone, -⟩ := happlied.settled (hreport.reaches hi.le) hop
  have hgrows : settlements (states i) effectId ≤
      settlements (states (env.report retry).made) effectId :=
    (hreport.trace hi.le le_rfl).sublist.countP_le
  rcases settled_once (hreport.reaches le_rfl) effectId with hzero | ⟨hfinal, -⟩
  · omega
  · exact hfinal

end Client

/-! ## A lost reply -/

/-- A commit of the sample call, from its start to its return. -/
def commitRun (t : ℕ) : Schedule :=
  [.start sampleCommit] ++ runs t 1 ++ [.finish t]

/-- Whether a call has changed the effect. -/
def appliedTest (t : ℕ) (effectId : EffectId) (c : State S) : Bool :=
  c.trace.any fun
    | .ran u (.db q) (.ok a) =>
      u = t && settlesEffect (S := S) effectId (.ran u (.db q) (.ok a))
    | _ => false

theorem appliedBy_of_test {op : Op} {effectId : EffectId} (hstart : Started c t op)
    (h : appliedTest t effectId c = true) : AppliedBy c op effectId := by
  obtain ⟨event, hmem, htest⟩ := List.any_eq_true.mp h
  split at htest
  · next u q a =>
    obtain ⟨hu, hsettles⟩ := Bool.and_eq_true_iff.mp htest
    obtain rfl := of_decide_eq_true hu
    exact ⟨u, q, a, hstart, hmem, hsettles⟩
  · cases htest

/-- Whether a call has returned an error. -/
def failedTest (t : ℕ) (c : State S) : Bool :=
  c.trace.any fun
    | .returned u (.error _) => u = t
    | _ => false

theorem exists_of_failedTest (h : failedTest t c = true) : ∃ e, Returned c t (.error e) := by
  obtain ⟨event, hmem, htest⟩ := List.any_eq_true.mp h
  split at htest
  · next u e =>
    obtain rfl := of_decide_eq_true htest
    exact ⟨e, hmem⟩
  · cases htest

/-- The engine commits an effect, the reply is lost, and a second commit is answered. -/
theorem exists_lostReply (display : UndoLogError → String) :
    ∃ (env : Surroundings) (states : ℕ → State (sample .postgres)),
      Reporting display sampleCommit ⟨2⟩ env states ∧ 1 < (env.report ⟨2⟩).made ∧
      (∃ row ∈ (dbOf (states 0)).effects, row.effectId = ⟨10⟩ ∧ row.state = .executing) ∧
      AppliedBy (states 1) sampleCommit ⟨10⟩ ∧
      Delivered display sampleCommit (states 1) (states 2) (env.rpc 1) := by
  obtain ⟨c₀, hc₀, htest⟩ := exists_sample unguarded 1780271999 (.compensable sampleCompensation)
    executedCall (fun c₀ =>
        (runGuarded unguarded c₀ (commitRun 1)).any fun c₁ =>
        (runGuarded unguarded c₁ (commitRun 2)).any fun c₂ =>
          decide (∃ row ∈ (dbOf c₀).effects, row.effectId = ⟨10⟩ ∧ row.state = .executing) &&
          (c₀.next = 1 && (c₁.next = 2 && (appliedTest 1 ⟨10⟩ c₁ && failedTest 2 c₂))))
    (by decide +kernel)
  obtain ⟨c₁, hrun₁, htest⟩ := (Option.any_eq_true _ _).mp htest
  obtain ⟨c₂, hrun₂, htest⟩ := (Option.any_eq_true _ _).mp htest
  simp only [Bool.and_eq_true, decide_eq_true_eq] at htest
  obtain ⟨hrow, hnext₀, hnext₁, happlied, hfailed⟩ := htest
  have hstart₁ : Started c₁ 1 sampleCommit := by
    rw [← hnext₀]
    exact started_of_runGuarded hrun₁
  have hstart₂ : Started c₂ 2 sampleCommit := by
    rw [← hnext₁]
    exact started_of_runGuarded hrun₂
  obtain ⟨e, hreturned⟩ := exists_of_failedTest hfailed
  let lost : ClientError := .status .unavailable "connection reset"
  let reply := rpcReply display sampleCommit (.error e)
  let env : Surroundings :=
    { rejected := none, disconnected := none, done := fun _ => none
      rpc := fun i => if i = 0 then some lost else reply }
  have hdelivered : Delivered display sampleCommit c₁ c₂ reply :=
    ⟨Run.of_runGuarded hrun₂, 2, _, hnext₁.le, hstart₂, hreturned, rfl⟩
  refine ⟨env, fun i => if i = 0 then c₀ else if i = 1 then c₁ else c₂, ⟨hc₀, ?_⟩, ?_, hrow,
    appliedBy_of_test hstart₁ happlied, hdelivered⟩
  · intro i hi
    have hmade : (env.report ⟨2⟩).made = 2 := rfl
    have hcases : i = 0 ∨ i = 1 := by omega
    rcases hcases with rfl | rfl
    · exact .inr ⟨Run.of_runGuarded hrun₁, lost, rfl, rfl⟩
    · exact .inl hdelivered
  · change 1 < 2
    omega

/-- A commit that the engine has applied, and whose retry it has answered, is reported as
an error. -/
theorem lostReply_is_error : ∃ (env : Surroundings) (states : ℕ → State (sample .postgres)),
      Reporting (fun _ => "") sampleCommit ⟨2⟩ env states ∧
      (∃ row ∈ (dbOf (states 0)).effects, row.effectId = ⟨10⟩ ∧ row.state = .executing) ∧
      AppliedBy (states 1) sampleCommit ⟨10⟩ ∧
      Delivered (fun _ => "") sampleCommit (states 1) (states 2) (env.rpc 1) ∧
      (env.report ⟨2⟩).error ≠ none := by
  obtain ⟨env, states, hreport, hmade, hrow, happlied, hdelivered⟩ :=
    exists_lostReply fun _ => ""
  exact ⟨env, states, hreport, hrow, happlied, hdelivered,
    report_error_of_applied hreport rfl hmade happlied hdelivered⟩

/-- The lost reply of the schedule is reported as an error, and the effect was changed
once. -/
theorem lostReply_changes_once : ∃ (env : Surroundings) (states : ℕ → State (sample .postgres)),
      AppliedBy (states 1) sampleCommit ⟨10⟩ ∧
      (env.report ⟨2⟩).error ≠ none ∧ settlements (states (env.report ⟨2⟩).made) ⟨10⟩ = 1 := by
  obtain ⟨env, states, hreport, hmade, -, happlied, hdelivered⟩ := exists_lostReply fun _ => ""
  obtain ⟨herror, honce⟩ := report_fails_after_applied hreport rfl hmade happlied hdelivered
  exact ⟨env, states, happlied, herror, honce⟩

end UndoLog.Proxy
