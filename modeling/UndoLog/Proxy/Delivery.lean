import UndoLog.Engine.Decisions
import UndoLog.Proxy.Gateway

/-!
# Requests and replies

What a proxy knows about the engine it knows from replies. A request that was sent has
started a call of the engine with a number of its own, and a reply that has arrived tells the
result of that call.
-/

namespace UndoLog.Proxy

open Concurrent Machine

variable {D : Deployment} {c c' : Situation D}

/-! ## The engine behind the proxies -/

variable {req : Request} {u t : ℕ} {choice : Choice (gateway D)} {past : Past}

theorem deliver_ok {s s' : Site D.engine} (h : deliver D req s = some (.ok u, s')) :
    u = s.engine.next ∧ ∃ op, D.wire.op req = .ok op ∧
      Transition s.engine (.start op) s'.engine := by
  unfold deliver at h
  cases hop : D.wire.op req with
  | error e => simp [hop] at h
  | ok op =>
    simp only [hop] at h
    obtain ⟨engine, hstep, heq⟩ := Option.map_eq_some_iff.mp h
    cases heq
    exact ⟨rfl, op, rfl, .of_step hstep⟩

theorem Step.run_engine {o : Circumstance} {st : Step} {s s' : Site D.engine}
    {reply : Except ClientError st.Ret} (h : st.run D o s = some (reply, s')) :
    s'.engine = s.engine ∨ ∃ op, Transition s.engine (.start op) s'.engine := by
  cases st with
  | view | execute =>
    cases h
    exact .inl rfl
  | outside =>
    simp only [Step.run] at h
    split at h <;> cases h <;> exact .inl rfl
  | send req =>
    simp only [Step.run] at h
    split at h
    · cases h
      exact .inl rfl
    · cases reply with
      | error e =>
        unfold deliver at h
        split at h
        · cases h
          exact .inl rfl
        · obtain ⟨engine, -, heq⟩ := Option.map_eq_some_iff.mp h
          cases heq
      | ok u =>
        obtain ⟨-, op, -, hstart⟩ := deliver_ok h
        exact .inr ⟨op, hstart⟩
  | receive req call =>
    simp only [Step.run] at h
    split at h
    · cases h
      exact .inl rfl
    · obtain ⟨reply', -, heq⟩ := Option.map_eq_some_iff.mp h
      cases heq
      exact .inl rfl

theorem engine_runs (htrans : Transition c choice c') :
    Run unguarded c.store.engine c'.store.engine := by
  cases htrans with
  | start | finish | crash => exact .refl
  | run hcall hexec =>
    rcases Step.run_engine hexec with hsame | ⟨op, hstart⟩
    · rw [hsame]
      exact .refl
    · exact .single ⟨_, trivial, hstart.to_step⟩
  | @environment e store henv =>
    cases e with
    | engine choice =>
      obtain ⟨engine, hstep, heq⟩ := Option.map_eq_some_iff.mp henv
      cases heq
      exact .single ⟨choice, trivial, hstep⟩
    | restart proxy =>
      cases henv
      exact .refl

/-- The engine behind the proxies is in a state that it can reach. -/
theorem Occurs.engine (hc : Occurs D c) : Reaches D.engine unguarded c.store.engine := by
  refine hc.invariant ?_ ?_
  · rintro s ⟨w, hw, rfl⟩
    exact .initial hw
  · intro c choice c' _ ih _ htrans
    exact ih.run (engine_runs htrans)

theorem engine_trace (htrans : Transition c choice c') :
    c.store.engine.trace ⊆ c'.store.engine.trace :=
  (engine_runs htrans).trace.subset

/-! ## Requests -/

/-- A call of a proxy has sent a request, which became call `u` of the engine. -/
def Sent (c : Situation D) (t : ℕ) (req : Request) (u : ℕ) : Prop :=
  Event.ran (M := gateway D) t (.send req) (.ok u) ∈ c.trace

/-- A call of a proxy has received the response to a request. -/
def Received (c : Situation D) (t : ℕ) (req : Request) (u : ℕ) (response : req.Response) : Prop :=
  Event.ran (M := gateway D) t (.receive req u) (.ok response) ∈ c.trace

theorem delivered_of_sent (htrans : Transition c choice c')
    (htrace : c'.trace = c.trace ++ [.ran t (.send req) (.ok u)]) :
    u = c.store.engine.next ∧ ∃ op, D.wire.op req = .ok op ∧
      Transition c.store.engine (.start op) c'.store.engine := by
  obtain ⟨o, next, -, -, hexec⟩ := htrans.of_ran htrace
  change Step.run D o c.store (.send req) = _ at hexec
  simp only [Step.run] at hexec
  split at hexec
  · cases hexec
  · exact deliver_ok hexec

theorem started_of_sent (hc : Occurs D c) (h : Sent c t req u) :
    ∃ op, D.wire.op req = .ok op ∧ Started c.store.engine u op := by
  refine hc.since h ?_ ?_
  · intro c choice c' _ _ htrans htrace
    obtain ⟨rfl, op, hop, hstart⟩ := delivered_of_sent htrans htrace
    refine ⟨op, hop, ?_⟩
    rw [Started, hstart.trace_start]
    exact List.mem_concat_self
  · rintro c choice c' _ _ htrans ⟨op, hop, hstart⟩
    exact ⟨op, hop, engine_trace htrans hstart⟩

theorem sent_once (hc : Occurs D c) {t' : ℕ} {req' : Request} (h : Sent c t req u)
    (h' : Sent c t' req' u) : t = t' := by
  refine hc.invariant (P := fun c => Sent c t req u → Sent c t' req' u → t = t') ?_ ?_ h h'
  · intro s _ hsent
    cases hsent
  · intro c choice c' hc ih _ htrans hsent hsent'
    obtain ⟨event, htrace⟩ := htrans.trace
    -- a number that was given out before is not the next one
    have hfresh : ∀ {t t' : ℕ} {req req' : Request}, Sent c t req u →
        event = .ran t' (.send req') (.ok u) → False := by
      intro t t' req req' hold hevent
      obtain ⟨op, -, hstart⟩ := started_of_sent hc hold
      have hlt := (Occurs.engine hc).coherent.fresh _ hstart u rfl
      obtain ⟨hnext, -⟩ := delivered_of_sent htrans (by rw [htrace, hevent])
      omega
    have hcases : ∀ {t : ℕ} {req : Request}, Sent c' t req u →
        Sent c t req u ∨ event = .ran t (.send req) (.ok u) := by
      intro t req hsent
      rw [Sent, htrace] at hsent
      rcases List.mem_append.mp hsent with hold | hnew
      · exact .inl hold
      · exact .inr (List.mem_singleton.mp hnew).symm
    rcases hcases hsent with hold | hnew <;> rcases hcases hsent' with hold' | hnew'
    · exact ih hold hold'
    · exact (hfresh hold hnew').elim
    · exact (hfresh hold' hnew).elim
    · cases hnew.symm.trans hnew'
      rfl

theorem returned_of_resultOf {S : Setup} {engine : State S}
    {r : Except UndoLogError OpResult} (h : resultOf u engine = some r) : Returned engine u r := by
  obtain ⟨event, hmem, hevent⟩ := List.exists_of_findSome?_eq_some h
  cases event with
  | returned t r' =>
    dsimp only at hevent
    split at hevent
    · next heq =>
      subst heq
      cases hevent
      exact hmem
    · cases hevent
  | _ => cases hevent

theorem returned_of_received (hc : Occurs D c)
    {response : req.Response} (h : Received c t req u response) :
    ∃ result, Returned c.store.engine u (.ok result) ∧
      D.wire.response req result = some response := by
  refine hc.since h ?_ ?_
  · intro c choice c' _ _ htrans htrace
    obtain ⟨o, next, -, -, hexec⟩ := htrans.of_ran htrace
    change Step.run D o c.store (.receive req u) = _ at hexec
    simp only [Step.run] at hexec
    split at hexec
    · cases hexec
    · obtain ⟨reply, hreply, heq⟩ := Option.map_eq_some_iff.mp hexec
      obtain rfl := (Prod.mk.inj heq).1
      unfold replyOf at hreply
      split at hreply
      · next result op hresult hop =>
        obtain ⟨response', hresponse, heq⟩ := Option.map_eq_some_iff.mp hreply
        cases heq
        exact ⟨result, engine_trace htrans (returned_of_resultOf hresult), hresponse⟩
      · obtain ⟨e, -, heq⟩ := Option.map_eq_some_iff.mp hreply
        cases heq
      · cases hreply
  · rintro c choice c' _ _ htrans ⟨result, hreturned, hresponse⟩
    exact ⟨result, engine_trace htrans hreturned, hresponse⟩

/-! ## What a proxy has done before it runs a tool -/

/-- What a request of a proxy has done. -/
abbrev Past : Type := List (Ran Step Step.Ret ClientError)

/-- Whether a step runs a tool. -/
def Step.executes : Step → Bool
  | .execute _ => true
  | _ => false

/-- A request was sent and answered. -/
def Answered (req : Request) (response : req.Response) (past : Past) : Prop :=
  ∃ u, ⟨.send req, .ok u⟩ ∈ past ∧ ⟨.receive req u, .ok response⟩ ∈ past

/-- The postcondition of a client call: a response is an answer to the request. -/
def Answers (req : Request) (past : Past) (r : Except ClientError req.Response) : Prop :=
  ∀ response, r = .ok response → Answered req response past

theorem Answered.mono {response : req.Response} {past' : Past}
    (h : Answered req response past) (hsub : past ⊆ past') : Answered req response past' := by
  obtain ⟨u, hsent, hreceived⟩ := h
  exact ⟨u, hsub hsent, hsub hreceived⟩

/-- No step of a past runs a tool. -/
def Idling (past : Past) : Prop := ∀ x ∈ past, x.1.executes = false

/-- Steps that run no tool. -/
def harmless (_ : Past) (st : Step) : Prop := st.executes = false

theorem roundTrip_answers (req : Request) (past : Past) :
    Program.Satisfies harmless (Answers req) past (roundTrip req) := by
  refine Program.satisfies_stmt_bind rfl ?_ ?_
  · rintro e response ⟨⟩
  · intro u
    refine Program.satisfies_stmt rfl ?_
    rintro reply response rfl
    exact ⟨u, by simp, by simp⟩

theorem callOnce_answers (req : Request) (past : Past) :
    Program.Satisfies harmless (Answers req) past (callOnce req) := by
  refine Program.satisfies_stmt_bind rfl ?_ ?_
  · rintro e response ⟨⟩
  · intro _
    refine Program.Satisfies.bind (Program.Satisfies.attempt ?_)
    refine (roundTrip_answers req _).mono (fun _ _ h => h) ?_
    rintro past (e | response) hanswers
    · rintro response ⟨⟩
    · exact hanswers

theorem report_harmless (req : Request) :
    Program.Issues (fun st => st.executes = false) (report D req) := by
  have hloop : ∀ left, Program.Issues (fun st => st.executes = false) (attempts req left) := by
    intro left
    induction left with
    | zero => exact .done _
    | succ left ih =>
      refine .bind (.attempt (.bind (.stmt rfl) fun u => .stmt rfl)) fun reply => ?_
      cases reply with
      | ok _ => exact .done _
      | error last =>
        dsimp only
        split
        · exact .done _
        · exact .bind (.stmt rfl) fun _ => ih
  exact .bind (.stmt rfl) fun _ => .bind (.stmt rfl) fun _ => hloop _

/-- An approval of the engine, in the name of the decision request, was received. -/
def Granted (r : DecisionRequest) (past : Past) : Prop :=
  ∃ id actor approvedArgs response, r.approvalId = some id ∧
    Answered (.approve r.orgId id actor approvedArgs) response past

/-- An approve request runs a tool after an approval was received, and once. -/
def taskPre : Task → Past → Step → Prop
  | .approve r, past, .execute _ => Granted r past ∧ Idling past
  | _, _, _ => True

theorem taskPre_of_harmless {task : Task} {st : Step} (h : harmless past st) :
    taskPre task past st := by
  cases st with
  | execute call => cases h
  | _ => cases task <;> trivial

theorem decisionChecks_named (r : DecisionRequest) (past : Past) :
    Program.Satisfies harmless (fun _ result => ∀ id body, result = .ok (.ok (id, body)) →
      r.approvalId = some id) past (decisionChecks r) := by
  unfold decisionChecks
  split
  · rintro id body ⟨⟩
  · split
    · rintro id body ⟨⟩
    · next id hid =>
      refine Program.satisfies_stmt_bind rfl ?_ ?_
      · rintro e id' body ⟨⟩
      · intro found
        cases found with
        | none => rintro id' body ⟨⟩
        | some record =>
          dsimp only
          split
          · rintro id' body ⟨⟩
          · split
            · rintro id' body ⟨⟩
            · rintro id' body ⟨⟩
            · rintro id' body ⟨⟩
              exact hid

theorem resolveApproved_pre {r : DecisionRequest} {id : String} (hid : r.approvalId = some id)
    (body : DecisionBody) (hidle : Idling past) :
    Program.Satisfies (taskPre (.approve r)) (fun _ _ => True) past
      (resolveApproved D r id body) := by
  refine Program.Satisfies.bind (Program.Satisfies.attempt ?_)
  have hanswers : Program.Satisfies harmless (Answers _) past (guarded (callOnce
      (.approve r.orgId id body.actor body.approvedArgs))) :=
    Program.satisfies_stmt_bind rfl (by rintro e response ⟨⟩) fun _ => callOnce_answers _ _
  refine (hanswers.all (fun _ _ h => h) hidle).mono (fun _ _ => taskPre_of_harmless) ?_
  rintro past' (e | response) ⟨hidle', hanswer⟩
  · exact ⟨trivial, fun reply => by cases reply <;> trivial⟩
  · have hgranted : Granted r past' := ⟨id, _, _, response, hid, hanswer response rfl⟩
    refine Program.satisfies_stmt_bind ⟨hgranted, hidle'⟩ (fun _ => trivial) fun result => ?_
    -- after the tool has run, the result is reported
    have hreport : ∀ req past, Program.Satisfies (taskPre (.approve r)) (fun _ _ => True) past
        ((report D req).attempt >>= fun _ =>
          (pure (.approved id response.effectId result) : Handler Reply)) := fun req past =>
      (Program.Issues.bind (report_harmless req).attempt (fun _ => .done _) past).mono
        (fun _ _ => taskPre_of_harmless) fun _ _ h => h
    cases result with
    | error | ok => exact hreport _ _

theorem taskProgram_pre (task : Task) :
    Program.Satisfies (taskPre task) (fun _ _ => True) [] (taskProgram D task) := by
  cases task with
  | approve r =>
    have hstart : Idling [] := by
      intro x hx
      cases hx
    refine Program.Satisfies.bind (((decisionChecks_named r []).all (fun _ _ h => h) hstart).mono
      (fun _ _ => taskPre_of_harmless) ?_)
    rintro past (e | checked) ⟨hidle, hnamed⟩
    · trivial
    · cases checked with
      | error reply => trivial
      | ok named =>
        refine Program.satisfies_stmt_bind trivial (fun _ => trivial) fun swapped => ?_
        cases swapped with
        | none => trivial
        | some record =>
          refine resolveApproved_pre (hnamed named.1 named.2 rfl) named.2 ?_
          intro x hx
          rcases List.mem_snoc.mp hx with hold | rfl
          · exact hidle x hold
          · rfl
  | reject | toolCall | reconcile =>
    exact Program.satisfies_of_forall (fun _ _ => trivial) (fun _ _ => trivial) _ _

/-- The contract of the proxies. -/
def gatewayContract (D : Deployment) : Machine.Contract (gateway D) where
  pre := taskPre
  post := fun _ _ _ => True
  satisfied := taskProgram_pre

end UndoLog.Proxy
