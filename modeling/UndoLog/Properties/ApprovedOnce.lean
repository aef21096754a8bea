import UndoLog.Canonical.Doubles
import UndoLog.Engine.Schedule
import UndoLog.Proxy.Delivery

/-!
# An approved tool runs at most once

Several proxies may take several decision requests for one approval, replies may be lost,
and the approval views may change meanwhile. The executor runs only for a request that has
received the engine's approval, and the engine decides an approval once. So it is called at
most once for an approval, and not at all once the engine has rejected it.
-/

namespace UndoLog.Proxy

open Concurrent Machine

variable {D : Deployment} {c : Situation D}

/-- A request of a proxy is a request to approve the given approval. -/
def Approves (c : Situation D) (t : ℕ) (id : ApprovalRequestId) : Prop :=
  ∃ r text, Event.started (M := gateway D) t (.approve r) ∈ c.trace ∧ r.approvalId = some text ∧
    D.wire.Names text id

/-- The event at a position of the trace is a call of the executor for the given approval. -/
def ExecutedAt (c : Situation D) (id : ApprovalRequestId) (i : ℕ) : Prop :=
  ∃ t call reply, c.trace[i]? = some (.ran t (.execute call) reply) ∧ Approves c t id

variable {t : ℕ} {call : Protocol.ToolCall} {r : DecisionRequest}
    {reply : Except ClientError (Except String Protocol.ToolResult)}

theorem approved_of_granted (hc : Occurs D c) {text : String}
    {id : ApprovalRequestId} (htext : r.approvalId = some text) (hnames : D.wire.Names text id)
    (hgranted : Granted r (ranBy t c.trace)) :
    ∃ req u orgId actor approvedArgs approval version, Sent c t req u ∧
      Succeeded c.store.engine u (.approve orgId id actor approvedArgs approval) version := by
  obtain ⟨text', actor, raw, response, htext', u, hsent, hreceived⟩ := hgranted
  obtain rfl := Option.some.inj (htext.symm.trans htext')
  have hsent : Sent c t _ u := mem_ranBy.mp hsent
  have hreceived : Received c t _ u response := mem_ranBy.mp hreceived
  obtain ⟨op, hop, hstart⟩ := started_of_sent hc hsent
  unfold Wire.op at hop
  obtain ⟨org, -, hop⟩ := bind_eq_ok.mp hop
  obtain ⟨uuid, huuid, hop⟩ := bind_eq_ok.mp hop
  obtain ⟨approvedArgs, -, hop⟩ := bind_eq_ok.mp hop
  cases hop
  obtain rfl : uuid = id.uuid := Except.ok.inj ((invalid_eq_ok.mp huuid).symm.trans hnames)
  obtain ⟨result, hreturned, hresponse⟩ := returned_of_received hc hreceived
  cases result with
  | approved result =>
    obtain ⟨answer, hpost, heq⟩ :=
      (contract _).post_of_returned (Occurs.engine hc).coherent hstart hreturned
    cases answer with
    | error e => cases heq
    | ok =>
      obtain ⟨approval, version, hdone, -⟩ := hpost
      exact ⟨_, u, ⟨org⟩, actor, approvedArgs, approval, version, hsent,
        succeeded_iff_done.mpr hdone⟩
  | _ => cases hresponse

theorem approved_of_executed (hc : Occurs D c) {id : ApprovalRequestId}
    (happroves : Approves c t id)
    (hran : Event.ran (M := gateway D) t (.execute call) reply ∈ c.trace) :
    ∃ req u orgId actor approvedArgs approval version, Sent c t req u ∧
      Succeeded c.store.engine u (.approve orgId id actor approvedArgs approval) version := by
  obtain ⟨r, text, hstart, htext, hnames⟩ := happroves
  obtain ⟨before, hbefore, -, ⟨text', actor, raw, response, htext', hanswered⟩, -⟩ :=
    (gatewayContract D).pre_of_ran hc.coherent hstart hran
  exact approved_of_granted hc htext hnames
    ⟨text', actor, raw, response, htext', hanswered.mono hbefore.subset⟩

variable {call' : Protocol.ToolCall}
  {reply' : Except ClientError (Except String Protocol.ToolResult)}

theorem executed_by_one (hc : Occurs D c) {t' : ℕ} {id : ApprovalRequestId}
    (happroves : Approves c t id) (happroves' : Approves c t' id)
    (hran : Event.ran (M := gateway D) t (.execute call) reply ∈ c.trace)
    (hran' : Event.ran (M := gateway D) t' (.execute call') reply' ∈ c.trace) : t = t' := by
  obtain ⟨req, u, orgId, actor, args, approval, version, hsent, happroved⟩ :=
    approved_of_executed hc happroves hran
  obtain ⟨req', u', orgId', actor', args', approval', version', hsent', happroved'⟩ :=
    approved_of_executed hc happroves' hran'
  obtain ⟨rfl, -⟩ := decided_once (Occurs.engine hc) happroved happroved' rfl rfl
  exact sent_once hc hsent hsent'

theorem not_executed_twice (hc : Occurs D c) {id : ApprovalRequestId} {i j : ℕ}
    (hi : ExecutedAt c id i) (hj : ExecutedAt c id j) : ¬ i < j := by
  intro hlt
  obtain ⟨t, call, reply, hevent, happroves⟩ := hi
  obtain ⟨t', call', reply', hevent', happroves'⟩ := hj
  obtain rfl := executed_by_one hc happroves happroves' (List.mem_of_getElem? hevent)
    (List.mem_of_getElem? hevent')
  obtain ⟨d, choice, d', hrec⟩ := hc.recorded (trace_split hevent')
  obtain ⟨o, next, -, hcall, -⟩ := hrec.step.of_ran hrec.trace'
  -- the earlier call of the executor is in the trace before the later one
  have hearlier : Event.ran (M := gateway D) t (.execute call) reply ∈ d.trace := by
    rw [hrec.trace]
    refine List.mem_of_getElem? (i := i) ?_
    rw [List.getElem?_take_of_lt hlt, hevent]
  obtain ⟨task, hstart⟩ := hrec.reachable.coherent.ran_started t _ _ hearlier
  obtain ⟨r, text, hstart', -⟩ := happroves
  obtain rfl := hc.coherent.started_unique t _ _ (hrec.run.trace.subset hstart) hstart'
  obtain ⟨task, hstart', hpre⟩ := (gatewayContract D).pre_of_call hrec.reachable.coherent hcall
  obtain rfl := hrec.reachable.coherent.started_unique t _ _ hstart hstart'
  cases hpre.2 _ (mem_ranBy.mpr hearlier)

/-- The executor is called at most once for an approval, and never once a reject of that
approval has taken effect in the engine. -/
theorem approved_tool_runs_once (hc : Occurs D c) (id : ApprovalRequestId) :
    (∀ i j, ExecutedAt c id i → ExecutedAt c id j → i = j) ∧
    ((∃ i, ExecutedAt c id i) → ∀ u orgId actor approval,
      ¬ Succeeded c.store.engine u (.reject orgId id actor approval) ()) := by
  constructor
  · intro i j hi hj
    have hij := not_executed_twice hc hi hj
    have hji := not_executed_twice hc hj hi
    omega
  · rintro ⟨i, t, call, reply, hevent, happroves⟩ u orgId actor approval hrejected
    obtain ⟨req, u', orgId', actor', args, approval', version, -, happroved⟩ :=
      approved_of_executed hc happroves (List.mem_of_getElem? hevent)
    obtain ⟨-, hsame⟩ := decided_once (Occurs.engine hc) happroved hrejected rfl rfl
    cases hsame

/-! ## A run with one call of the executor -/

/-- The bytes of `null`. -/
def nullBytes : Bytes := [110, 117, 108, 108]

/-- Hyphenated identifiers, and texts of the JSON value `null`. -/
def sampleWire : Wire where
  parseUuid := fun text => (Text.readUuid text).elim (.error "invalid UUID") .ok
  showUuid := Text.uuidText
  parseJson := fun bytes => if bytes = nullBytes then .ok .null else .error "expected null"
  showJson := fun _ => nullBytes
  marshalRaw := id

/-- Proxies in front of the sample engine. -/
noncomputable def sampleDeployment : Deployment where
  engine := sample .postgres
  wire := sampleWire
  retry := ⟨1⟩
  display := fun _ => ""
  json := ⟨fun bytes => if bytes = nullBytes then some .null else none, fun _ => none, .standard⟩

/-- The sample engine with an irreversible tool, and proxies that know nothing yet. -/
def sampleSite : Site (sample .postgres) where
  engine := Config.initial (sampleWorld 1780271999 (.irreversible "final"))
  views := fun _ => []

/-- The next steps of a request, with nothing unusual from outside. -/
def proxyRuns (t n : ℕ) : List (Choice (gateway sampleDeployment)) :=
  List.replicate n (.run t ({} : Circumstance))

/-- Steps of the engine. -/
def engineSteps (choices : Schedule) : List (Choice (gateway sampleDeployment)) :=
  choices.map fun choice => .environment (.engine choice)

/-- A tool call on the first proxy that the engine suspends. -/
def suspendedToolCall : List (Choice (gateway sampleDeployment)) :=
  [.start (.toolCall 0 (Text.uuidText 1)
      (.decoded ⟨Text.uuidText 2, "tool", "1", 0, nullBytes⟩))] ++ proxyRuns 0 3 ++
    engineSteps awaitingCall.tail ++ proxyRuns 0 2 ++ [.finish 0]

/-- The decision request for the suspended call. -/
def sampleDecision : DecisionRequest where
  proxy := 0
  orgId := Text.uuidText 1
  approvalId := some (Text.uuidText 11)
  body := .decoded ⟨"human", []⟩

/-- The rest of an approve request up to the call of the executor. -/
def approvedRequest : List (Choice (gateway sampleDeployment)) :=
  proxyRuns 1 5 ++ engineSteps (runs 1 3 ++ [.finish 1]) ++ proxyRuns 1 2

/-- Whether the executor was called by a request at a position. -/
def executedTest (t i : ℕ) (c : Situation D) : Bool :=
  match c.trace[i]? with
  | some (.ran u (.execute _) _) => u = t
  | _ => false

theorem exists_of_executedTest {i : ℕ} (h : executedTest t i c = true) :
    ∃ call reply, c.trace[i]? = some (.ran t (.execute call) reply) := by
  unfold executedTest at h
  split at h
  · next u call reply hevent =>
    obtain rfl := of_decide_eq_true h
    exact ⟨call, reply, hevent⟩
  · cases h

/-- The tool of an approved call is run by the approve request, once, and no reject of the
approval takes effect. -/
theorem sampleDecision_runs_once :
    ∃ c : Situation sampleDeployment, Occurs sampleDeployment c ∧ ExecutedAt c ⟨11⟩ 36 ∧
      (∀ j, ExecutedAt c ⟨11⟩ j → 36 = j) ∧ ∀ u orgId actor approval,
        ¬ Succeeded c.store.engine u (.reject orgId ⟨11⟩ actor approval) () := by
  have hrun : (runGuarded unguarded (Config.initial (M := gateway sampleDeployment) sampleSite)
      suspendedToolCall).any (fun d => (runGuarded unguarded d
        (.start (Task.approve sampleDecision) :: approvedRequest)).any fun c =>
          d.next = 1 && executedTest 1 36 c) = true := by
    decide +kernel
  have hidle : Idle sampleDeployment sampleSite := ⟨_, sampleWorld_initial _ _ _, rfl⟩
  obtain ⟨d, hd, htest⟩ := exists_reachable_of_any hidle hrun
  obtain ⟨c, hrun', htest⟩ := (Option.any_eq_true _ _).mp htest
  obtain ⟨hnext, htest⟩ := Bool.and_eq_true_iff.mp htest
  have hc : Occurs sampleDeployment c := hd.run (Run.of_runGuarded hrun')
  have hstart := started_of_runGuarded hrun'
  rw [of_decide_eq_true hnext] at hstart
  obtain ⟨call, reply, hevent⟩ := exists_of_executedTest htest
  have hexecuted : ExecutedAt c ⟨11⟩ 36 :=
    ⟨1, call, reply, hevent, sampleDecision, _, hstart, rfl, by unfold Wire.Names; decide⟩
  obtain ⟨honce, hnever⟩ := approved_tool_runs_once hc ⟨11⟩
  exact ⟨c, hc, hexecuted, fun j hj => honce 36 j hexecuted hj, hnever ⟨36, hexecuted⟩⟩

end UndoLog.Proxy
