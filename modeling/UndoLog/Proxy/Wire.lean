import UndoLog.Proxy.Client

/-!
# Messages between the proxy and the engine

The proxy holds identifiers and JSON values as text. The RPCs of the engine parse them and
print their answers again. How identifiers and JSON values are read and written is left to
the libraries on both sides.
-/

namespace UndoLog.Proxy

/-- Raw JSON. -/
abbrev Bytes : Type := List UInt8

/-- The parsers and printers of the libraries. -/
structure Wire where
  parseUuid : String → Except String Uuid
  showUuid : Uuid → String
  /-- `serde_json::from_slice`. -/
  parseJson : Bytes → Except String Json
  /-- `serde_json::to_vec`. -/
  showJson : Json → Bytes
  /-- `json.Marshal` of a raw message. -/
  marshalRaw : Bytes → Bytes

namespace Protocol

/-- A tool invocation. -/
structure ToolCall where
  orgId : String
  sessionId : String
  toolId : String := ""
  toolName : String
  toolVersion : String
  stepIndex : UInt32 := 0
  args : Bytes
  signature : String := ""

/-- The answer of an upstream tool. -/
structure ToolResult where
  success : Bool
  output : Bytes
  error : String
  durationMs : UInt64

/-- How the proxy routes a call. The fields that an outcome does not have are empty. -/
inductive InterceptResponse where
  | execute (effectId : String)
  | replay (effectId : String) (cachedResult : Option ToolResult)
  | awaitingApproval (effectId approvalId : String)

/-- What the engine returns after an approval. -/
structure ApproveResponse where
  effectId : String
  sessionId : String
  toolName : String
  toolVersion : String
  args : Bytes

/-- An unresolved approval of the engine. -/
structure ApprovalRecord where
  approvalId : String
  orgId : String
  sessionId : String
  effectId : String
  toolName : String
  args : Bytes
  /-- Milliseconds since the Unix epoch. -/
  createdAtUnix : ℤ

end Protocol

/-- The requests of the engine client. -/
inductive Request where
  | intercept (call : Protocol.ToolCall)
  | commit (orgId sessionId effectId : String) (result : Protocol.ToolResult)
  | fail (orgId sessionId effectId error : String)
  | approve (orgId approvalId actor : String) (approvedArgs : Bytes)
  | reject (orgId approvalId actor : String)
  | listPendingApprovals (orgId : String)

/-- What the client returns for each request. -/
abbrev Request.Response : Request → Type
  | .intercept _ => Protocol.InterceptResponse
  | .commit _ _ _ _ | .fail _ _ _ _ => Unit
  | .approve _ _ _ _ => Protocol.ApproveResponse
  | .reject _ _ _ => Unit
  | .listPendingApprovals _ => List Protocol.ApprovalRecord

/-! ## From the proxy to the engine -/

/-- The status for a field that cannot be parsed. -/
def invalid {α : Type} (field : String) : Except String α → Except ClientError α
  | .ok a => .ok a
  | .error e => .error (.status .invalidArgument ("invalid " ++ field ++ ": " ++ e))

variable (w : Wire)

/-- A JSON field that may be empty. -/
def Wire.json (field : String) (raw : Bytes) : Except ClientError (Option Json) :=
  if raw.isEmpty then .ok none else (invalid field (w.parseJson raw)).map some

/-- An identifier that may be empty. -/
def Wire.optionalUuid (field text : String) : Except ClientError (Option Uuid) :=
  if text = "" then .ok none else (invalid field (w.parseUuid text)).map some

/-- `tool_call_from_proto` after `toolCallToProto`. -/
def Wire.toolCall (call : Protocol.ToolCall) : Except ClientError UndoLog.ToolCall := do
  let orgId ← invalid "org_id" (w.parseUuid call.orgId)
  let sessionId ← invalid "session_id" (w.parseUuid call.sessionId)
  let args ← w.json "args json" (w.marshalRaw call.args)
  let toolId ← w.optionalUuid "tool_id" call.toolId
  pure {
    orgId := ⟨orgId⟩
    sessionId := ⟨sessionId⟩
    toolId := toolId.map ToolId.mk
    toolName := call.toolName
    toolVersion := call.toolVersion
    stepIndex := call.stepIndex
    args := args.getD (.object []) }

/-- `tool_result_from_proto` after `toolResultToProto`. -/
def Wire.toolResult (result : Protocol.ToolResult) : Except ClientError UndoLog.ToolResult := do
  let output ← w.json "output json" result.output
  pure {
    success := result.success
    output := output.getD .null
    error := if result.error = "" then none else some result.error
    durationMs := result.durationMs }

/-- What the RPC of a request asks of the engine, or the status it ends with. -/
def Wire.op : Request → Except ClientError Op
  | .intercept call => do
    let call ← w.toolCall call
    pure (.intercept call)
  | .commit orgId _ effectId result => do
    let orgId ← invalid "org_id" (w.parseUuid orgId)
    let effectId ← invalid "effect_id" (w.parseUuid effectId)
    let result ← w.toolResult result
    pure (.commit ⟨orgId⟩ ⟨effectId⟩ result)
  | .fail orgId _ effectId error => do
    let orgId ← invalid "org_id" (w.parseUuid orgId)
    let effectId ← invalid "effect_id" (w.parseUuid effectId)
    pure (.fail ⟨orgId⟩ ⟨effectId⟩ error)
  | .approve orgId approvalId actor approvedArgs => do
    let orgId ← invalid "org_id" (w.parseUuid orgId)
    let approvalId ← invalid "approval_id" (w.parseUuid approvalId)
    let approvedArgs ← w.json "approved_args" approvedArgs
    pure (.approve ⟨orgId⟩ ⟨approvalId⟩ actor approvedArgs)
  | .reject orgId approvalId actor => do
    let orgId ← invalid "org_id" (w.parseUuid orgId)
    let approvalId ← invalid "approval_id" (w.parseUuid approvalId)
    pure (.reject ⟨orgId⟩ ⟨approvalId⟩ actor)
  | .listPendingApprovals orgId => do
    let orgId ← invalid "org_id" (w.parseUuid orgId)
    pure (.listPendingApprovals ⟨orgId⟩)

/-! ## From the engine to the proxy -/

/-- `toolResultFromProto` after `tool_result_to_proto`. -/
def Wire.showToolResult (result : UndoLog.ToolResult) : Protocol.ToolResult where
  success := result.success
  output := w.showJson result.output
  error := result.error.getD ""
  durationMs := result.durationMs

/-- `interceptResponseFromProto`, which leaves out the effect of a suspended call. -/
def Wire.interceptResponse : InterceptOutcome → Protocol.InterceptResponse
  | .execute effectId => .execute (w.showUuid effectId.uuid)
  | .replay effectId result => .replay (w.showUuid effectId.uuid) (result.map w.showToolResult)
  | .awaitingApproval _ approvalId => .awaitingApproval "" (w.showUuid approvalId.uuid)

/-- The answer of `approve`. -/
def Wire.approveResponse (result : ApprovalResult) : Protocol.ApproveResponse where
  effectId := w.showUuid result.effectId.uuid
  sessionId := w.showUuid result.sessionId.uuid
  toolName := result.toolName
  toolVersion := result.toolVersion
  args := w.showJson result.args

/-- `approval_record_to_proto`. -/
def Wire.approvalRecord (a : ApprovalRequest) : Protocol.ApprovalRecord where
  approvalId := w.showUuid a.approvalRequestId.uuid
  orgId := w.showUuid a.orgId.uuid
  sessionId := w.showUuid a.sessionId.uuid
  effectId := w.showUuid a.effectId.uuid
  toolName := a.toolName
  args := w.showJson a.proposedArgs
  createdAtUnix := a.createdAt * 1000

/-- The response to a request. An RPC returns the result of its own operation, so other
combinations do not occur. -/
def Wire.response : (req : Request) → OpResult → Option req.Response
  | .intercept _, .intercepted outcome => some (w.interceptResponse outcome)
  | .commit _ _ _ _, .done | .fail _ _ _ _, .done => some ()
  | .approve _ _ _ _, .approved result => some (w.approveResponse result)
  | .reject _ _ _, .done => some ()
  | .listPendingApprovals _, .pending approvals => some (approvals.map w.approvalRecord)
  | _, _ => none

/-! ## Approvals by name -/

variable {w}

/-- The approval that a text names. -/
def Wire.Names (w : Wire) (text : String) (id : ApprovalRequestId) : Prop :=
  w.parseUuid text = .ok id.uuid

theorem bind_eq_ok {ε α β : Type} {x : Except ε α} {f : α → Except ε β} {b : β} :
    x >>= f = .ok b ↔ ∃ a, x = .ok a ∧ f a = .ok b := by
  cases x with
  | error | ok => simp [bind, Except.bind]

theorem invalid_eq_ok {α : Type} {field : String} {x : Except String α} {a : α} :
    invalid field x = .ok a ↔ x = .ok a := by
  cases x with
  | error | ok => simp [invalid]

end UndoLog.Proxy
