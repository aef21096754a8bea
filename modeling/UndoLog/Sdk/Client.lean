import UndoLog.Dev.Connection
import UndoLog.Dev.History

/-!
# Decorated tools of the Python SDK

A decorated tool asks the server before its body runs. It runs the body and commits what that
returns, or it returns what an earlier call has committed. A value passes JSON texts on its way
to the journal and back.
-/

namespace UndoLog.Sdk

open Concurrent Text Text.Stream Dev Dev.Connection

/-! ## JSON texts -/

/-- What a decorated call raises. -/
inductive SdkError where
  /-- The tool has raised. -/
  | raised (text : String)
  | authentication (status : ℕ)
  | server (status : ℕ)
  /-- `raise_for_status` -/
  | httpStatus (status : ℕ)
  | unexpectedStatus
  /-- The response is not the JSON object that the client reads. -/
  | malformed
  | awaitingApproval (approvalId : String)

/-- The libraries that write and read JSON texts. -/
structure Codec where
  /-- The text of a request, `none` where the HTTP client raises. -/
  send : PyValue → Option Bytes
  /-- `json.dumps`, `none` where it raises. -/
  dumps : PyValue → Option Bytes
  /-- `json.loads` -/
  loads : Bytes → Except LoadError PyValue
  /-- `str` of an exception. -/
  str : SdkError → String

/-- What the documentation of the libraries says. -/
structure Codec.Lawful (K : Codec) : Prop where
  /-- What was written is read back, for values of dicts. -/
  loads_send : ∀ v text, v.Distinct → K.send v = some text → K.loads text = .ok v
  loads_dumps : ∀ v text, v.Distinct → K.dumps v = some text → K.loads text = .ok v
  /-- Objects are read as dicts. -/
  distinct_loads : ∀ text v, K.loads text = .ok v → v.Distinct
  /-- An empty text is not JSON. -/
  loads_nil : K.loads [] = .error .jsonDecode
  /-- The HTTP client writes nothing that `json.dumps` does not write. -/
  dumps_of_send : ∀ v, (K.send v).isSome = true → (K.dumps v).isSome = true
  /-- An object is written if its values are. -/
  dumps_object : ∀ fields : Dict,
    (K.dumps (.object fields)).isSome = true ↔ ∀ f ∈ fields, (K.dumps f.2).isSome = true
  dumps_string : ∀ s, (K.dumps (.string s)).isSome = true

/-- A text as a JSON value. -/
def text (s : String) : PyValue := .string s.toList

/-- A text or `None`. -/
def optional (s : Option String) : PyValue := (s.map text).getD .null

/-- A dict display. -/
def dict (fields : List (String × PyValue)) : PyValue :=
  .object (fields.map fun f => (f.1.toList, f.2))

/-! ## Requests and responses -/

/-- The requests of the client. -/
inductive HttpRequest where
  /-- `POST /mcp/tool_call` -/
  | intercept (headers : Headers) (json : PyValue)
  /-- `PUT /effects/{id}/commit` -/
  | commit (effectId : String) (json : PyValue)
  /-- `PUT /effects/{id}/fail` -/
  | fail (effectId : String) (json : PyValue)

/-- A response of the server. -/
structure Response where
  status : ℕ
  content : Bytes

variable (K : Codec)

/-- What the server reads of the text of a request. -/
def receive (content : Bytes) : Body :=
  if content.length ≤ maxBodyBytes then decode K.loads content else .error bodyTooLarge

/-- The request that reaches the server. -/
def HttpRequest.request : HttpRequest → Option Request
  | .intercept headers json =>
    (K.send json).map fun content => .toolCall headers (receive K content)
  | .commit effectId json => (K.send json).map fun content =>
      .effect effectId .commit (receive K content)
  | .fail effectId json => (K.send json).map fun content =>
      .effect effectId .fail (receive K content)

/-- What the error envelope carries besides the error. -/
structure Stamp where
  requestId : String
  timestamp : String

/-- A result as it is read back from the journal: `record_commit` writes a text, and
`_effect_to_dict` reads it. -/
def journaled (result : Dict) : Option PyValue :=
  (K.dumps (.object result)).bind fun stored => (K.loads stored).toOption

/-- The JSON of a reply. -/
def payload (stamp : Stamp) : Reply → Option PyValue
  | .error e => some (dict [("request_id", text stamp.requestId), ("code", text e.code),
      ("message", text e.message), ("timestamp", text stamp.timestamp)])
  | .executed effectId => some (dict [("status", text "executed"),
      ("effect_id", optional effectId), ("result", .null)])
  | .replayed effectId none => some (dict [("status", text "replayed"),
      ("effect_id", text effectId), ("result", .null)])
  | .replayed effectId (some result) => (journaled K result).map fun result =>
      dict [("status", text "replayed"), ("effect_id", text effectId), ("result", result)]
  | .pendingApproval approvalId => some (dict [("status", text "pending_approval"),
      ("approval_id", text approvalId), ("retry_after", .number (.int 5))])
  | .committed effectId => some (dict [("status", text "committed"), ("effect_id", text effectId)])
  | .failed effectId => some (dict [("status", text "failed"), ("effect_id", text effectId)])
  | .approved approvalId effectId result => some (dict [("status", text "approved"),
      ("approval_id", text approvalId), ("effect_id", text effectId),
      ("execution", text "committed"), ("result", .object result)])
  | .rejected approvalId => some (dict [("status", text "rejected"),
      ("approval_id", text approvalId)])

/-- The HTTP status of a reply. -/
def statusOf : Reply → ℕ
  | .error e => e.status
  | .pendingApproval _ => 202
  | _ => 200

/-- The response to a request, `none` where it cannot be written. -/
def respond (stamp : Stamp) (reply : Reply) : Option Response := do
  let body ← payload K stamp reply
  let content ← K.dumps body
  pure { status := statusOf reply, content }

/-! ## The client -/

/-- The checks of a status that all methods of the client make. -/
def checkStatus (response : Response) : Except SdkError Unit :=
  if response.status = 401 ∨ response.status = 403 then .error (.authentication response.status)
  else if response.status ≥ 500 then .error (.server response.status)
  else if 200 ≤ response.status ∧ response.status < 300 then .ok ()
  else .error (.httpStatus response.status)

/-- The outcomes of an intercept. -/
inductive Outcome where
  | execute
  | replay
  | awaitingApproval
deriving DecidableEq

/-- `InterceptResponse` -/
structure InterceptResponse where
  outcome : Outcome
  effectId : Option String
  approvalId : Option String
  cachedResult : PyValue

/-- `outcome_map` -/
def outcomeMap (status : List Char) : Except SdkError Outcome :=
  if status = "executed".toList then .ok .execute
  else if status = "replayed".toList then .ok .replay
  else if status = "pending_approval".toList then .ok .awaitingApproval
  else .error .unexpectedStatus

/-- The outcome in the body of a response. -/
def outcomeOf (body : Dict) : Except SdkError Outcome :=
  match body.get "status" with
  | none => outcomeMap "executed".toList
  | some (.string status) => outcomeMap status
  | some _ => .error .unexpectedStatus

/-- A text in the body of a response. -/
def textField (body : Dict) (key : String) : Option String :=
  match body.get key with
  | some (.string s) => some (String.ofList s)
  | _ => none

/-- `UndoLogClient.intercept`, once there is a response. -/
def interceptResponse (response : Response) : Except SdkError InterceptResponse := do
  checkStatus response
  match K.loads response.content with
  | .ok (.object body) => do
    let outcome ← outcomeOf body
    pure
      { outcome
        effectId := textField body "effect_id"
        approvalId := textField body "approval_id"
        cachedResult :=
          ((Dict.get body "cached_result").orElse fun _ => Dict.get body "result").getD .null }
  | _ => .error .malformed

/-- `UndoLogClient.commit` and `fail`, once there is a response. A response without an effect
passes for a success. -/
def reportResponse (response : Response) : Except SdkError Unit :=
  if response.status = 404 then .ok ()
  else do
    checkStatus response
    match K.loads response.content with
    | .ok _ => .ok ()
    | .error _ => .error .malformed

/-! ## Decorated calls -/

/-- `ToolTier` -/
inductive ToolTier where
  | safe
  | compensable
  | irreversible
deriving DecidableEq

/-- A call of a decorated tool with its arguments bound. -/
structure Invocation where
  orgId : String
  sessionId : String
  stepIndex : ℕ
  toolName : String
  args : Dict

/-- The JSON of an intercept. -/
def Invocation.json (call : Invocation) : PyValue :=
  dict [("session_id", text call.sessionId), ("tool_name", text call.toolName),
    ("tool_version", text "1.0.0"), ("step_index", .number (.int call.stepIndex)),
    ("args", .object call.args)]

/-- `_headers` -/
def Invocation.headers (call : Invocation) : Headers where
  undoLogOrgId := some call.orgId
  orgId := none

/-- The envelope of a result. -/
def envelope (result : PyValue) : PyValue := dict [("success", .bool true), ("output", result)]

/-- The JSON of a commit. -/
def Invocation.commitJson (call : Invocation) (result : PyValue) : PyValue :=
  dict [("session_id", text call.sessionId), ("result", envelope result)]

/-- The JSON of a failure. -/
def Invocation.failJson (call : Invocation) (error : String) : PyValue :=
  dict [("session_id", text call.sessionId), ("error", text error)]

/-- `_unwrap_replay_result` -/
def unwrapReplayResult : PyValue → PyValue
  | .object fields => (Dict.get fields "output").getD (.object fields)
  | cached => cached

/-- What a decorated call does: it sends a request, or it runs the body of the tool. -/
inductive Action where
  | http (q : HttpRequest)
  | body

/-- What each action returns. -/
abbrev Action.Ret : Action → Type
  | .http _ => Response
  | .body => PyValue

/-- A part of a decorated call. -/
abbrev Script (α : Type) : Type := Program Action Action.Ret SdkError α

/-- Send a request and wait for the response. -/
def http (q : HttpRequest) : Script Response := Program.stmt (Action.http q)

/-- Run the body of the tool. -/
def runBody : Script PyValue := Program.stmt Action.body

/-- A result, or an exception that is raised. -/
def result {α : Type} (r : Except SdkError α) : Script α := .done r

/-- The wrapper once the body has run. An empty identifier counts as none. -/
def settle (call : Invocation) (effectId : Option String)
    (outcome : Except SdkError PyValue) : Script PyValue :=
  match outcome, effectId.filter (· ≠ "") with
  | .error e, none => Program.fail e
  | .error e, some id => do
    let _ ← (do
      let response ← http (.fail id (call.failJson (K.str e)))
      result (reportResponse K response)).attempt
    Program.fail e
  | .ok value, none => pure value
  | .ok value, some id => do
    let response ← http (.commit id (call.commitJson value))
    let _ ← result (reportResponse K response)
    pure value

/-- The wrapper once the server lets the body run. -/
def execute (call : Invocation) (effectId : Option String) : Script PyValue := do
  let outcome ← runBody.attempt
  settle K call effectId outcome

/-- The wrapper once there is a response to the intercept. -/
def follow (call : Invocation) (response : InterceptResponse) : Script PyValue :=
  match response.outcome with
  | .replay => pure (unwrapReplayResult response.cachedResult)
  | .awaitingApproval => Program.fail (.awaitingApproval (response.approvalId.getD ""))
  | .execute => execute K call response.effectId

/-- The wrapper of `undolog_tool`. -/
def wrapper (tier : ToolTier) (call : Invocation) : Script PyValue :=
  match tier with
  | .safe => runBody
  | .compensable | .irreversible => do
    let response ← http (.intercept call.headers call.json)
    let decision ← result (interceptResponse K response)
    follow K call decision

/-! ## Decorated calls in a run of the server -/

/-- What a decorated call has done. -/
inductive Entry where
  /-- A request of the client was call `t` of the server, which gave a reply. -/
  | exchanged (t : ℕ) (q : HttpRequest) (reply : Reply)
  /-- The body has run. -/
  | ran (result : Except SdkError PyValue)

variable {V : Server}

/-- The server has answered a request of the client, and the response has arrived. -/
def Exchange (c : Moment V) (t : ℕ) (q : HttpRequest) (reply : Reply)
    (response : Response) : Prop :=
  ∃ req stamp, q.request K = some req ∧ Started c t req ∧ Returned c t (.ok reply) ∧
    respond K stamp reply = some response

/-- A script has run to its end, and every request of it was answered. -/
def Conducts (c : Moment V) :
    Script PyValue → List Entry → Except SdkError PyValue → Prop
  | .done r, entries, outcome => entries = [] ∧ outcome = r
  | .call .body next, entries, outcome =>
    ∃ r rest, entries = .ran r :: rest ∧ Conducts c (next r) rest outcome
  | .call (.http q) next, entries, outcome =>
    ∃ t reply response rest, entries = .exchanged t q reply :: rest ∧
      Exchange K c t q reply response ∧ Conducts c (next (.ok response)) rest outcome

end UndoLog.Sdk
