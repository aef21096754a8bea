import UndoLog.Sdk.Client

/-!
# What passes between the client and the server

A value that is sent as a dict is read back as it was. The client reads the outcome of an
intercept off the JSON of the reply, and the server reads the result of a commit off the JSON
of the request.
-/

namespace UndoLog.Sdk

open Concurrent Machine Text Dev

variable {V : Server} {c : Moment V} {K : Codec} {call : Invocation} {stamp : Stamp}
  {reply : Reply} {response : Response}

/-! ## Values that are read back -/

variable {fields result : Dict} {r : PyValue} {α : Type} {body : Body} {id : String}

theorem distinct_object (hkeys : (fields.map Prod.fst).Nodup)
    (hvalues : ∀ f ∈ fields, f.2.Distinct) : (Value.object fields : PyValue).Distinct := by
  simp only [Value.Distinct, Value.All, Value.allFields_iff]
  exact ⟨hkeys, hvalues⟩

theorem distinct_text (s : String) : (text s).Distinct := trivial

theorem distinct_null : (Value.null : PyValue).Distinct := trivial

theorem distinct_number (n : Canonical.Python.Number) : (Value.number n : PyValue).Distinct :=
  trivial

theorem distinct_optional (s : Option String) : (optional s).Distinct := by
  cases s <;> trivial

/-- The envelope of a result. -/
def envelopeFields (r : PyValue) : Dict := [("success".toList, .bool true), ("output".toList, r)]

theorem distinct_envelope (hr : r.Distinct) :
    (Value.object (envelopeFields r) : PyValue).Distinct := by
  refine distinct_object (by simp [envelopeFields]) ?_
  intro f hf
  rcases List.mem_pair.mp hf with rfl | rfl
  · trivial
  · exact hr

theorem distinct_commitJson (call : Invocation) (hr : r.Distinct) :
    (call.commitJson r).Distinct := by
  refine distinct_object (by simp) ?_
  intro f hf
  rcases List.mem_pair.mp hf with rfl | rfl
  · trivial
  · exact distinct_envelope hr

/-- What a response consists of. -/
theorem respond_some (h : respond K stamp reply = some response) :
    ∃ body content, payload K stamp reply = some body ∧ K.dumps body = some content ∧
      response = ⟨statusOf reply, content⟩ := by
  obtain ⟨body, hbody, hrest⟩ := Option.bind_eq_some_iff.mp h
  obtain ⟨content, hcontent, hresponse⟩ := Option.bind_eq_some_iff.mp hrest
  exact ⟨body, content, hbody, hcontent, (Option.some.inj hresponse).symm⟩

theorem loads_respond (hK : K.Lawful) {body : PyValue}
    (hpayload : payload K stamp reply = some body) (hbody : body.Distinct)
    (h : respond K stamp reply = some response) :
    response.status = statusOf reply ∧ K.loads response.content = .ok body := by
  obtain ⟨body', content, hbody', hcontent, rfl⟩ := respond_some h
  obtain rfl := Option.some.inj (hpayload.symm.trans hbody')
  exact ⟨rfl, hK.loads_dumps body content hbody hcontent⟩

theorem distinct_journaled (hK : K.Lawful) {v : PyValue} (h : journaled K result = some v) :
    v.Distinct := by
  obtain ⟨stored, -, hloads⟩ := Option.bind_eq_some_iff.mp h
  cases hread : K.loads stored with
  | error e =>
    rw [hread] at hloads
    cases hloads
  | ok w =>
    rw [hread] at hloads
    cases hloads
    exact hK.distinct_loads stored v hread

/-! ## What the client makes of a reply -/

/-- The client reads a response without an error off its body. -/
theorem interceptResponse_of_payload (hK : K.Lawful) {body : Dict}
    (hpayload : payload K stamp reply = some (.object body))
    (hdistinct : (Value.object body : PyValue).Distinct)
    (hstatus : 200 ≤ statusOf reply ∧ statusOf reply < 300)
    (h : respond K stamp reply = some response) :
    interceptResponse K response = (outcomeOf body).map fun outcome =>
      { outcome
        effectId := textField body "effect_id"
        approvalId := textField body "approval_id"
        cachedResult :=
          ((body.get "cached_result").orElse fun _ => body.get "result").getD .null } := by
  obtain ⟨hcode, hloads⟩ := loads_respond hK hpayload hdistinct h
  have hcheck : checkStatus response = .ok () := by
    rw [checkStatus, hcode, if_neg (by omega), if_neg (by omega), if_pos hstatus]
  rw [interceptResponse, hcheck, hloads]
  rfl

theorem interceptResponse_refused (h : 400 ≤ response.status) :
    ∃ e, interceptResponse K response = .error e := by
  have hcheck : ∃ e, checkStatus response = .error e := by
    unfold checkStatus
    split
    · exact ⟨_, rfl⟩
    · split
      · exact ⟨_, rfl⟩
      · exact ⟨_, if_neg (by omega)⟩
  obtain ⟨e, he⟩ := hcheck
  refine ⟨e, ?_⟩
  rw [interceptResponse, he]
  rfl

theorem decision_executed (hK : K.Lawful) {id : Option String}
    (h : respond K stamp (.executed id) = some response) :
    interceptResponse K response = .ok ⟨.execute, id, none, .null⟩ := by
  have hdistinct : (dict [("status", text "executed"), ("effect_id", optional id),
      ("result", .null)]).Distinct := by
    refine distinct_object (by simp) ?_
    simp [distinct_text, distinct_optional, distinct_null]
  rw [interceptResponse_of_payload hK rfl hdistinct (by simp [statusOf]) h]
  cases id <;> simp [outcomeOf, textField, Dict.get, List.lookup_cons, text, optional, outcomeMap,
    Except.map]

theorem decision_pending (hK : K.Lawful)
    (h : respond K stamp (.pendingApproval id) = some response) :
    interceptResponse K response = .ok ⟨.awaitingApproval, none, some id, .null⟩ := by
  have hdistinct : (dict [("status", text "pending_approval"), ("approval_id", text id),
      ("retry_after", .number (.int 5))]).Distinct := by
    refine distinct_object (by simp) ?_
    simp [distinct_text, distinct_number]
  rw [interceptResponse_of_payload hK rfl hdistinct (by simp [statusOf]) h]
  simp [outcomeOf, textField, Dict.get, List.lookup_cons, text, outcomeMap, Except.map]

theorem decision_replayed (hK : K.Lawful) {result : Option Dict}
    (h : respond K stamp (.replayed id result) = some response) :
    ∃ v, interceptResponse K response = .ok ⟨.replay, some id, none, v⟩ ∧
      ∀ d, result = some d → journaled K d = some v := by
  have hread : ∀ v : PyValue, v.Distinct → payload K stamp (.replayed id result) =
      some (dict [("status", text "replayed"), ("effect_id", text id), ("result", v)]) →
      interceptResponse K response = .ok ⟨.replay, some id, none, v⟩ := by
    intro v hv hpayload
    have hdistinct : (dict [("status", text "replayed"), ("effect_id", text id),
        ("result", v)]).Distinct := by
      refine distinct_object (by simp) ?_
      simp [distinct_text, hv]
    rw [interceptResponse_of_payload hK hpayload hdistinct (by simp [statusOf]) h]
    simp [outcomeOf, textField, Dict.get, List.lookup_cons, text, outcomeMap, Except.map]
  cases result with
  | none => exact ⟨.null, hread .null trivial rfl, by simp⟩
  | some result =>
    obtain ⟨body, content, hbody, -, -⟩ := respond_some h
    obtain ⟨v, hv, rfl⟩ := Option.map_eq_some_iff.mp hbody
    refine ⟨v, hread v (distinct_journaled hK hv) hbody, ?_⟩
    rintro d heq
    cases heq
    exact hv

theorem executed_of_execute (hK : K.Lawful) {past : Past} {tool : Dev.ToolCall}
    {signature : CallSignature} {decision : InterceptResponse}
    (hanswer : Answer V tool signature past reply) (h : respond K stamp reply = some response)
    (hdecision : interceptResponse K response = .ok decision)
    (houtcome : decision.outcome = .execute) : reply = .executed decision.effectId := by
  have hreplayed : ∀ id result, reply ≠ .replayed id result := by
    rintro id result rfl
    obtain ⟨v, hreplay, -⟩ := decision_replayed hK h
    cases hdecision.symm.trans hreplay
    cases houtcome
  have hpending : ∀ id, reply ≠ .pendingApproval id := by
    rintro id rfl
    cases hdecision.symm.trans (decision_pending hK h)
    cases houtcome
  have hexecuted : ∀ id, reply = .executed id → reply = .executed decision.effectId := by
    rintro id rfl
    cases hdecision.symm.trans (decision_executed hK h)
    rfl
  cases hanswer with
  | replayed hfound hstatus => exact absurd rfl (hreplayed _ _)
  | held | suspended | lostPending => exact absurd rfl (hpending _)
  | _ => exact hexecuted _ rfl

/-! ## What the server makes of a request -/

/-- Refusals have the status of an error. -/
def Refuses {α : Type} (x : Except RequestError α) : Prop := ∀ e, x = .error e → 400 ≤ e.status

theorem refuses_ok (a : α) : Refuses (.ok a) := by
  rintro e ⟨⟩

theorem refuses_error {e : RequestError} (h : 400 ≤ e.status) :
    Refuses (.error e : Except RequestError α) := by
  rintro e' ⟨⟩
  exact h

theorem refuses_invalid (message : String) :
    Refuses (.error (invalidRequest message) : Except RequestError α) :=
  refuses_error (Nat.le_refl 400)

theorem Refuses.bind {β : Type} {x : Except RequestError α} {f : α → Except RequestError β}
    (hx : Refuses x) (hf : ∀ a, Refuses (f a)) : Refuses (x.bind f) := by
  cases x with
  | error e => exact refuses_error (hx e rfl)
  | ok a => exact hf a

theorem refuses_receive (K : Codec) (content : Stream.Bytes) : Refuses (receive K content) := by
  unfold receive Connection.decode
  split
  · split
    · exact refuses_ok _
    · split
      · exact refuses_invalid _
      · exact refuses_invalid _
      · exact refuses_ok _
      · exact refuses_invalid _
  · exact refuses_error (by decide)

theorem refuses_requiredText (body : Dict) (key : String) : Refuses (requiredText body key) := by
  unfold requiredText
  split
  · exact refuses_ok _
  · exact refuses_invalid _

theorem refuses_argsField (body : Dict) : Refuses (argsField body) := by
  unfold argsField
  split
  · exact refuses_ok _
  · exact refuses_ok _
  · exact refuses_invalid _

theorem refuses_stepField (body : Dict) : Refuses (stepField body) := by
  unfold stepField
  split
  · exact refuses_ok _
  · exact refuses_ok _
  · exact refuses_invalid _

theorem refuses_toolCallOf (body : Dict) : Refuses (toolCallOf body) := by
  refine (refuses_requiredText body "session_id").bind fun sessionId => ?_
  refine (refuses_requiredText body "tool_name").bind fun toolName => ?_
  refine (refuses_argsField body).bind fun args => ?_
  exact (refuses_stepField body).bind fun stepIndex => refuses_ok _

theorem calls_of_reply (hc : Arises V unguarded c) {t : ℕ} {headers : Headers}
    (hbody : Refuses body) (hstart : Started c t (.toolCall headers body))
    (hreturned : Returned c t (.ok reply)) :
    (∃ tool signature, Calls V (.toolCall headers body) tool signature) ∨
      ∃ e, reply = .error e ∧ 400 ≤ e.status := by
  -- a program that ends at once returns its result
  have hdone : ∀ r, handleToolCall V headers body = .done r → .ok reply = r := by
    intro r hprogram
    have hsatisfies : Program.Satisfies (fun _ _ => True) (fun _ r' => r' = r) []
        (dispatch V (.toolCall headers body)) := by
      rw [dispatch, hprogram]
      rfl
    exact hc.coherent.post_of_returned hstart hreturned hsatisfies
  cases htool : body.bind toolCallOf with
  | error e =>
    have hreply := hdone (.ok (.error e)) (by rw [handleToolCall, htool]; rfl)
    exact .inr ⟨e, Except.ok.inj hreply, hbody.bind refuses_toolCallOf e htool⟩
  | ok tool =>
    cases hsignature : V.callSignature tool with
    | ok signature => exact .inl ⟨tool, signature, ⟨headers, body, rfl, htool⟩, hsignature⟩
    | error e =>
      have hrefused : ∀ message,
          handleToolCall V headers body = .done (.ok (.error (invalidRequest message))) →
          ∃ e, reply = .error e ∧ 400 ≤ e.status := by
        intro message hprogram
        exact ⟨_, Except.ok.inj (hdone _ hprogram), Nat.le_refl 400⟩
      right
      cases e with
      | session s => exact hrefused _ (by simp only [handleToolCall, htool, hsignature]; rfl)
      | raised x =>
        cases x with
        | tooManyDigits limit =>
          exact hrefused _ (by simp only [handleToolCall, htool, hsignature]; rfl)
        | packRange =>
          cases hdone (.error .structError) (by simp only [handleToolCall, htool, hsignature]; rfl)

/-- The server reads the object that the client has sent, unless its text is too long. -/
theorem receive_send (hK : K.Lawful) (hfields : (Value.object fields : PyValue).Distinct)
    {content : Stream.Bytes} (hsend : K.send (.object fields) = some content) :
    receive K content = if content.length ≤ Connection.maxBodyBytes then .ok fields
      else .error Connection.bodyTooLarge := by
  have hloads := hK.loads_send _ content hfields hsend
  have hne : content ≠ [] := by
    rintro rfl
    cases hK.loads_nil.symm.trans hloads
  rw [receive, Connection.decode, if_neg hne, hloads]

theorem handleEffectAction_commit
    (hbody : body.bind resultField = .ok result ∨ ∃ e, body = .error e) :
    Program.Satisfies (fun _ st => st = .recordCommit id result)
      (fun past r => r = .ok (.committed id) → ⟨.recordCommit id result, .ok true⟩ ∈ past) []
      (handleEffectAction id .commit body) := by
  rcases hbody with hresult | ⟨e, rfl⟩
  · rw [handleEffectAction, hresult]
    refine Program.satisfies_stmt_bind rfl (fun e => by rintro ⟨⟩) fun updated => ?_
    cases updated with
    | true => exact fun _ => ran_last _ _
    | false => rintro ⟨⟩
  · rintro ⟨⟩

end UndoLog.Sdk
