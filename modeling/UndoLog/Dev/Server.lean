import UndoLog.Concurrent.History
import UndoLog.Dev.Journal

/-!
# The requests of the local development server

Each request runs on a thread of its own and reaches the journal through several separate
transactions. The transactions of different requests may interleave in any order, and a
thread may disappear between two of them.
-/

namespace UndoLog.Dev

open Concurrent Machine Text Canonical

/-! ## Requests and responses -/

/-- A refused request, `_RequestError`. -/
structure RequestError where
  status : ℕ
  code : String
  message : String

/-- A refusal with status 400. -/
def invalidRequest (message : String) : RequestError := ⟨400, "invalid_request", message⟩

/-- The headers that name an organisation. -/
structure Headers where
  undoLogOrgId : Option String
  orgId : Option String

/-- `_org_id`. An empty header counts as absent. -/
def Headers.organisation (h : Headers) : String :=
  ((h.undoLogOrgId.filter (· ≠ "")).orElse fun _ => h.orgId.filter (· ≠ "")).getD "local"

/-- What `_read_body` returns or raises. -/
abbrev Body : Type := Except RequestError Dict

/-- The two decisions on an approval. -/
inductive Decision where
  | approve
  | reject
deriving DecidableEq

/-- The two reports on an effect. -/
inductive Report where
  | commit
  | fail
deriving DecidableEq

/-- The requests that reach the journal. -/
inductive Request where
  /-- `POST /mcp/tool_call` -/
  | toolCall (headers : Headers) (body : Body)
  /-- `POST /approvals/{id}/approve` and `.../reject` -/
  | decision (approvalId : String) (action : Decision) (body : Body)
  /-- `PUT /effects/{id}/commit` and `.../fail` -/
  | effect (effectId : String) (action : Report) (body : Body)

/-- The responses. -/
inductive Reply where
  | error (e : RequestError)
  | executed (effectId : Option String)
  | replayed (effectId : String) (result : Option Dict)
  | pendingApproval (approvalId : String)
  | committed (effectId : String)
  | failed (effectId : String)
  | approved (approvalId effectId : String) (result : Dict)
  | rejected (approvalId : String)

/-! ## The body of a tool call -/

/-- A tool call that passed the checks of its body. -/
structure ToolCall where
  sessionId : String
  toolName : String
  stepIndex : ℕ
  args : Dict

/-- `body.get(key)` -/
def Dict.get (body : Dict) (key : String) : Option PyValue := body.lookup key.toList

/-- A field that has to be a nonempty string. -/
def requiredText (body : Dict) (key : String) : Except RequestError String :=
  match body.get key with
  | some (.string (c :: s)) => .ok (String.ofList (c :: s))
  | _ => .error (invalidRequest "session_id and tool_name are required")

/-- The arguments, empty if there are none. -/
def argsField (body : Dict) : Except RequestError Dict :=
  match body.get "args" with
  | none => .ok []
  | some (.object fields) => .ok fields
  | some _ => .error (invalidRequest "args must be a JSON object")

/-- The step, zero if there is none. -/
def stepField (body : Dict) : Except RequestError ℕ :=
  match body.get "step_index" with
  | none => .ok 0
  | some (.number (.int (.ofNat n))) => .ok n
  | some _ => .error (invalidRequest "step_index must be a non-negative integer")

/-- The checks at the start of `_handle_tool_call`. -/
def toolCallOf (body : Dict) : Except RequestError ToolCall := do
  let sessionId ← requiredText body "session_id"
  let toolName ← requiredText body "tool_name"
  let args ← argsField body
  let stepIndex ← stepField body
  pure { sessionId, toolName, stepIndex, args }

/-! ## The server -/

/-- What `call_signature` raises. -/
inductive SignatureError where
  /-- `ValueError`: the session is not a UUID. -/
  | session (text : String)
  /-- What the encoder and the length fields raise. -/
  | raised (e : Python.Exception)

/-- What a running server fixes. -/
structure Server where
  irreversiblePatterns : List String
  autoApprove : Bool
  /-- `fnmatch.fnmatchcase` of a name and a pattern. -/
  fnmatchcase : String → String → Bool
  /-- `uuid.UUID` of a text. -/
  parseUuid : String → Option SessionId
  blake3 : List UInt8 → BitVec 256
  interpreter : Python.Interpreter
  floats : FloatLibrary
  /-- The texts of value errors. -/
  display : SignatureError → String

variable (V : Server)

/-- `_requires_approval` -/
def Server.requiresApproval (toolName : String) : Bool :=
  V.irreversiblePatterns.any fun pattern => V.fnmatchcase toolName pattern

/-- `call_signature`. The arguments are encoded before the step is packed. -/
def Server.callSignature (call : ToolCall) : Except SignatureError CallSignature :=
  match V.parseUuid call.sessionId with
  | none => .error (.session call.sessionId)
  | some session => Except.mapError SignatureError.raised do
    let args : PyValue := .object call.args
    let _ ← Python.canonicalJson V.interpreter V.floats args
    let step ← Python.pack call.stepIndex
    let bytes ← Python.preimage V.interpreter V.floats session step call.toolName args
    pure ⟨V.blake3 bytes⟩

/-- A program of the server. -/
abbrev Handler (α : Type) : Type := Program Step Step.Ret Exception α

/-- Run one step. -/
def journal (st : Step) : Handler st.Ret := Program.stmt st

/-- `_mock_tool_result` -/
def mockToolResult (toolName : String) (args : Dict) : Dict :=
  [("success".toList, .bool true),
    ("output".toList, .object [("mock".toList, .bool true),
      ("tool_name".toList, .string toolName.toList), ("args".toList, .object args)]),
    ("duration_ms".toList, .number (.int 0))]

/-! ## Tool calls -/

/-- `_respond_for_live_effect`, for an effect as it was read before. -/
def respondForLiveEffect (effect : EffectRow) : Handler Reply :=
  match effect.status with
  | .committed => do
    let _ ← journal (.recordReplay effect.id)
    pure (.replayed effect.id effect.result)
  | .awaitingApproval => do
    let approval ← journal (.findPendingApproval effect.id)
    match approval with
    | none => pure (.executed (some effect.id))
    | some approval =>
      if V.autoApprove then do
        let _ ← journal (.resolveApproval approval.id .approved)
        -- the payload of the event
        let _ ← journal (.getApproval approval.id)
        pure (.executed (some effect.id))
      else pure (.pendingApproval approval.id)
  | _ => pure (.executed (some effect.id))

/-- The arguments of `create_effect` for a call. -/
def newEffect (orgId : String) (call : ToolCall) (signature : CallSignature)
    (status : EffectStatus) (approvalId : Option String) : NewEffect where
  orgId
  sessionId := call.sessionId
  toolName := call.toolName
  stepIndex := call.stepIndex
  args := call.args
  signature
  status
  approvalId

/-- The last attempt to journal a new call, and the answer that follows it. -/
def claimSignature (new : NewEffect) : Handler Reply := do
  let effectId ← journal (.createEffect new)
  match effectId with
  | some effectId =>
    match new.approvalId with
    | some approvalId => pure (.pendingApproval approvalId)
    | none => pure (.executed (some effectId))
  | none => do
    -- another call has claimed the signature meanwhile
    let existing ← journal (.findLiveEffect new.signature)
    match existing, new.approvalId with
    | some effect, _ => respondForLiveEffect V effect
    | none, some approvalId => pure (.pendingApproval approvalId)
    | none, none => pure (.executed none)

/-- The part of `_handle_tool_call` for a signature without a live effect. -/
def handleNewCall (orgId : String) (call : ToolCall) (signature : CallSignature) : Handler Reply :=
  if V.requiresApproval call.toolName then do
    let approvalId ← journal .uuid4
    if V.autoApprove then do
      let new := newEffect orgId call signature .executing (some approvalId)
      let effectId ← journal (.createEffect new)
      match effectId with
      | some effectId => do
        let _ ← journal (.resolveApproval approvalId .approved)
        let _ ← journal (.getApproval approvalId)
        pure (.executed (some effectId))
      | none => claimSignature V new
    else claimSignature V (newEffect orgId call signature .awaitingApproval (some approvalId))
  else claimSignature V (newEffect orgId call signature .executing none)

/-- `_handle_tool_call` from the lookup on. -/
def handleCall (orgId : String) (call : ToolCall) (signature : CallSignature) : Handler Reply := do
  let existing ← journal (.findLiveEffect signature)
  match existing with
  | some effect => respondForLiveEffect V effect
  | none => handleNewCall V orgId call signature

/-- `_handle_tool_call` -/
def handleToolCall (headers : Headers) (body : Body) : Handler Reply :=
  match body.bind toolCallOf with
  | .error e => pure (.error e)
  | .ok call =>
    match V.callSignature call with
    -- only value errors are turned into a response
    | .error (.raised .packRange) => Program.fail .structError
    | .error e =>
      pure (.error (invalidRequest ("unable to canonicalize tool args: " ++ V.display e)))
    | .ok signature => handleCall V headers.organisation call signature

/-! ## Reports and decisions -/

/-- The result of a commit, empty if there is none. -/
def resultField (body : Dict) : Except RequestError Dict :=
  match body.get "result" with
  | none => .ok []
  | some (.object fields) => .ok fields
  | some _ => .error (invalidRequest "result must be a JSON object")

/-- The error of a failure, empty if there is none. -/
def errorField (body : Dict) : Except RequestError String :=
  match body.get "error" with
  | none => .ok ""
  | some (.string s) => .ok (String.ofList s)
  | some _ => .error (invalidRequest "error must be a string")

/-- A report that changes one effect. -/
def reportOn (st : Step) (found : st.Ret → Bool) (reply : Reply) : Handler Reply := do
  let updated ← journal st
  if found updated then pure reply else pure (.error ⟨404, "not_found", "effect not found"⟩)

/-- `_handle_effect_action` -/
def handleEffectAction (effectId : String) (action : Report) (body : Body) : Handler Reply :=
  match action with
  | .commit =>
    match body.bind resultField with
    | .error e => pure (.error e)
    | .ok result => reportOn (.recordCommit effectId result) (·) (.committed effectId)
  | .fail =>
    match body.bind errorField with
    | .error e => pure (.error e)
    | .ok error => reportOn (.recordFail effectId error) (·) (.failed effectId)

/-- The response to a decision on an approval that is no longer pending. -/
def alreadyResolved : Reply := .error ⟨409, "conflict", "approval already resolved"⟩

/-- The part of `_handle_approval_decision` that decides. -/
def decideApproval (approval : ApprovalRow) (approvalId : String) : Decision → Handler Reply
  | .reject => do
    let resolved ← journal (.resolveApproval approvalId .rejected)
    if resolved then do
      let _ ← journal (.markRejected approval.effectId)
      let _ ← journal (.getApproval approvalId)
      pure (.rejected approvalId)
    else pure alreadyResolved
  | .approve => do
    let resolved ← journal (.resolveApproval approvalId .approved)
    if resolved then do
      let result := mockToolResult approval.toolName approval.args
      let _ ← journal (.recordCommit approval.effectId result)
      let _ ← journal (.getApproval approvalId)
      pure (.approved approvalId approval.effectId result)
    else pure alreadyResolved

/-- `_handle_approval_decision` -/
def handleApprovalDecision (approvalId : String) (action : Decision) (body : Body) :
    Handler Reply := do
  let approval ← journal (.getApproval approvalId)
  match approval with
  | none => pure (.error ⟨404, "not_found", "approval not found"⟩)
  | some approval =>
    if approval.status ≠ .pending then pure alreadyResolved
    else
      -- the body is read only now, and only for its errors
      match body with
      | .error e => pure (.error e)
      | .ok _ => decideApproval approval approvalId action

/-! ## The machine -/

/-- `_dispatch` for the requests that reach the journal. -/
def dispatch : Request → Handler Reply
  | .toolCall headers body => handleToolCall V headers body
  | .decision approvalId action body => handleApprovalDecision approvalId action body
  | .effect effectId action body => handleEffectAction effectId action body

/-- The server as a machine. -/
def devServer : Machine where
  Stmt := Step
  Ret := Step.Ret
  Err := Exception
  Op := Request
  Result := Reply
  Env := Empty
  Oracle := Circumstance
  Store := Journal
  exec := fun _ o st j => some (st.run o j)
  program := dispatch V
  abort := fun _ j => j
  environment := fun _ _ => none

/-- A configuration of the server. -/
abbrev Moment : Type := Machine.Config (devServer V)

/-- A journal file that was just created. -/
def Blank (j : Journal) : Prop := j = ⟨[], []⟩

/-- Reached from a new journal by steps that meet a guard. -/
abbrev Arises (guard : Guard (devServer V)) (c : Moment V) : Prop :=
  Machine.Reachable (M := devServer V) Blank guard c

end UndoLog.Dev
