import UndoLog.Canonical.Encoders
import UndoLog.Proxy.Wire

/-!
# Proxies in front of one engine

Any number of proxies share one engine. A request of a proxy runs operations on the proxy's
own approval view, sends requests to the engine, waits for their replies and calls the upstream
executor. A reply may be lost at any time, and the engine goes on with a call whose caller has
given up.
-/

namespace UndoLog.Proxy

open Concurrent Machine

/-! ## The approval view of a proxy

Each operation runs under the lock of the store, so it is one atomic statement. -/

/-- Milliseconds since the Unix epoch. -/
abbrev Instant : Type := ℤ

/-- Lifecycle of an approval in the view. -/
inductive Status where
  | pending
  | approved
  | rejected
deriving DecidableEq

/-- One approval and its resolution. `none` is Go's zero time. -/
structure Record where
  id : String
  orgId : String
  sessionId : String
  effectId : String
  toolName : String
  args : Bytes
  status : Status
  createdAt : Option Instant
  resolvedAt : Option Instant

/-- The records of a proxy, one for each identifier. -/
abbrev Records : Type := List Record

namespace Records

/-- `Get`. -/
def get (records : Records) (id : String) : Option Record := records.find? (·.id = id)

/-- Assignment to a key of the map. -/
def put (records : Records) (record : Record) : Records :=
  record :: records.filter (·.id ≠ record.id)

/-- A record that has no creation time was created now. -/
def stamped (now : Instant) (record : Record) : Record :=
  { record with createdAt := some (record.createdAt.getD now) }

/-- `Create`. -/
def create (now : Instant) (record : Record) (records : Records) : Record × Records :=
  (stamped now record, records.put (stamped now record))

/-- `CompareAndSwap`. -/
def compareAndSwap (now : Instant) (id : String) (old new : Status) (records : Records) :
    Option Record × Records :=
  match records.get id with
  | none => (none, records)
  | some record =>
    if record.status = old then
      let record := { record with status := new, resolvedAt := some now }
      (some record, records.put record)
    else (none, records)

/-- `RestorePending`. -/
def restorePending (id : String) (records : Records) : Records :=
  match records.get id with
  | none => records
  | some record =>
    if record.status = .pending then records
    else records.put { record with status := .pending, resolvedAt := none }

/-- `UpsertPending`. -/
def upsertPending (now : Instant) (record : Record) (records : Records) : Records :=
  match records.get record.id with
  | none => records.put (stamped now record)
  | some existing =>
    if existing.status = .pending then records.put (stamped now record) else records

/-- The time from which a record is aged. -/
def agedFrom (record : Record) : Option Instant :=
  if record.status ≠ .pending ∧ record.resolvedAt.isSome then record.resolvedAt
  else record.createdAt

/-- Whether a sweep removes a record. The zero time lies before every other one. -/
def expired (retainedBefore : Instant) (activeIds failedOrgs : List String) (record : Record) :
    Bool :=
  record.id ∉ activeIds && record.orgId ∉ failedOrgs &&
    match agedFrom record with
    | none => true
    | some cutoff => cutoff < retainedBefore

/-- `Sweep`. -/
def sweep (retainedBefore : Instant) (activeIds failedOrgs : List String) (records : Records) :
    ℕ × Records :=
  (records.countP (expired retainedBefore activeIds failedOrgs),
    records.filter fun record => !expired retainedBefore activeIds failedOrgs record)

end Records

/-- The operations of the store. -/
inductive RecordStmt where
  | create (record : Record)
  | get (id : String)
  | compareAndSwap (id : String) (old new : Status)
  | restorePending (id : String)
  | upsertPending (record : Record)
  | sweep (retention : ℤ) (activeIds failedOrgs : List String)

/-- What each operation returns. -/
abbrev RecordStmt.Ret : RecordStmt → Type
  | .create _ => Record
  | .get _ | .compareAndSwap _ _ _ => Option Record
  | .restorePending _ | .upsertPending _ => Unit
  | .sweep _ _ _ => ℕ

/-- One operation at a given time. -/
def RecordStmt.run (now : Instant) (records : Records) : (st : RecordStmt) → st.Ret × Records
  | .create record => records.create now record
  | .get id => (records.get id, records)
  | .compareAndSwap id old new => records.compareAndSwap now id old new
  | .restorePending id => ((), records.restorePending id)
  | .upsertPending record => ((), records.upsertPending now record)
  | .sweep retention activeIds failedOrgs => records.sweep (now - retention) activeIds failedOrgs

/-! ## Signatures -/

section

open Text Canonical

/-- What the libraries do with JSON: the value of a text, with the tokens of its numbers, and the
double of a token, unless it is out of range. -/
structure JsonLibrary where
  decode : Bytes → Option (Value (List Char) (List Char))
  float64 : List Char → Option FiniteF64
  floats : FloatLibrary

/-- What `json.Marshal` writes for a character of a string. -/
def marshalChar (c : Char) : List Char :=
  escapeCode (fun code => if code < 0x20 ∨ c ∈ ['<', '>', '&', '\u2028', '\u2029'] then
    unitEscape code else [c]) c.toNat

/-- `writeNumber`. The token of an integer is kept. -/
def writeNumber (L : JsonLibrary) (s : List Char) : Option (List Char) :=
  if s.any (· ∈ ['.', 'e', 'E']) then (L.float64 s).map (floatText Go.es6Float L.floats)
  else some (if s = ['0'] ∨ s = ['-', '0'] then ['0'] else s)

/-- `writeCanonicalJSON` of a value whose numbers can be written. -/
def signatureStyle (L : JsonLibrary) : Style (List Char) (List Char) where
  key := quote marshalChar
  string := quote marshalChar
  number s := (writeNumber L s).getD []
  le k l := !decide (utf8 l < utf8 k)

/-- `CanonicalSignature` -/
def canonicalSignature (L : JsonLibrary) (toolName : String) (args : Bytes) : Option String :=
  (L.decode args).bind fun parsed =>
    let body : Value (List Char) (List Char) :=
      .object [("tool_name".toList, .string toolName.toList), ("args".toList, parsed)]
    if body.All (fun _ => True) (fun _ => True) fun s => (writeNumber L s).isSome then
      some (String.ofList ((signatureStyle L).print body))
    else none

end

/-! ## Deployments -/

/-- What a deployment of proxies fixes. -/
structure Deployment where
  /-- The engine behind the proxies. -/
  engine : Setup
  wire : Wire
  retry : RetryConfig
  /-- The texts of the engine's errors. -/
  display : UndoLogError → String
  json : JsonLibrary

/-! ## Statements -/

/-- The atomic steps of the requests of a proxy. -/
inductive Step where
  /-- An operation on the approval view of one proxy. -/
  | view (proxy : ℕ) (st : RecordStmt)
  /-- A step of the client that only its surroundings decide: admission by the guard, the
  transport, and the wait between two attempts. -/
  | outside
  /-- A request leaves for the engine. The answer is the number of the engine's call. -/
  | send (req : Request)
  /-- The reply of a call arrives. -/
  | receive (req : Request) (call : ℕ)
  /-- The upstream executor runs a call. -/
  | execute (call : Protocol.ToolCall)

/-- What each step returns. -/
abbrev Step.Ret : Step → Type
  | .view _ st => st.Ret
  | .outside => Unit
  | .send _ => ℕ
  | .receive req _ => req.Response
  | .execute _ => Except String Protocol.ToolResult

/-- A program of a proxy. -/
abbrev Handler (α : Type) : Type := Program Step Step.Ret ClientError α

/-- Issue one step. -/
def issue (st : Step) : Handler st.Ret := Program.stmt st

/-! ## The engine client -/

/-- Send a request and wait for its reply. -/
def roundTrip (req : Request) : Handler req.Response := do
  let call ← issue (.send req)
  issue (.receive req call)

/-- `call` and `callVoid`. -/
def callOnce (req : Request) : Handler req.Response := do
  issue .outside
  let reply ← (roundTrip req).attempt
  match reply with
  | .ok response => pure response
  | .error e => Program.fail (explainAuthFailure e)

/-- `guarded`, with the answer of `enter`. -/
def guarded {α : Type} (fn : Handler α) : Handler α := do
  issue .outside
  fn

/-- The loop of `retryVoid` as a program, with the attempts that are left. -/
def attempts (req : Request) : ℕ → Handler Unit
  | 0 => pure ()
  | left + 1 => do
    let reply ← (roundTrip req).attempt
    match reply with
    | .ok _ => pure ()
    | .error last =>
      if !isRetryableRPCError last || left == 0 then Program.fail (explainAuthFailure last)
      else do
        issue .outside
        attempts req left

variable (D : Deployment)

/-- `Client.Commit` and `Client.Fail`. -/
def report (req : Request) : Handler Unit :=
  guarded do
    issue .outside
    attempts req D.retry.attempts

/-- `Client.Intercept`. -/
def clientIntercept (call : Protocol.ToolCall) : Handler Protocol.InterceptResponse :=
  guarded (callOnce (.intercept call))

/-- `Client.Approve`. -/
def clientApprove (orgId approvalId actor : String) (approvedArgs : Bytes) :
    Handler Protocol.ApproveResponse :=
  guarded (callOnce (.approve orgId approvalId actor approvedArgs))

/-- `Client.Reject`. -/
def clientReject (orgId approvalId actor : String) : Handler Unit :=
  guarded (callOnce (.reject orgId approvalId actor))

/-- `Client.ListPendingApprovals`, which is not guarded. -/
def clientListPendingApprovals (orgId : String) : Handler (List Protocol.ApprovalRecord) :=
  callOnce (.listPendingApprovals orgId)

/-! ## Decisions -/

/-- What the JSON decoder makes of a request body. -/
inductive Body (α : Type) where
  | decoded (body : α)
  | tooLarge
  | malformed

/-- The body of a decision. An empty body has empty fields. -/
structure DecisionBody where
  actor : String
  approvedArgs : Bytes

/-- A decision request as it reaches a proxy. -/
structure DecisionRequest where
  proxy : ℕ
  /-- The trimmed `X-Org-Id` header. -/
  orgId : String
  /-- `approvalIDFromPath`. -/
  approvalId : Option String
  body : Body DecisionBody

/-- The responses of a proxy. -/
inductive Reply where
  | error (status : ℕ) (message : String)
  | failed (status : ℕ) (code message : String)
  | engineFailed (status : ℕ) (code : String) (e : ClientError)
  | approved (approvalId effectId : String) (execution : Except String Protocol.ToolResult)
  | rejected (approvalId : String)
  | executed (effectId : String) (result : Protocol.ToolResult)
  | replayed (effectId : String) (result : Option Protocol.ToolResult)
  | pendingApproval (approvalId : String)
  | swept (removed : ℕ)

/-- `IsOverload`. -/
def isOverload : ClientError → Bool
  | .busy _ => true
  | .status .resourceExhausted _ => true
  | _ => false

/-- `failDecision`. -/
def failDecision (e : ClientError) : Reply :=
  if isOverload e then .error 503 "engine at capacity"
  else .error 502 "engine rejected the decision"

/-- The checks of `resolveDecision` before it changes anything. -/
def decisionChecks (r : DecisionRequest) : Handler (Except Reply (String × DecisionBody)) :=
  if r.orgId = "" then pure (.error (.error 401 "org_id required"))
  else
    match r.approvalId with
    | none => pure (.error (.error 400 "approval id required"))
    | some id => do
      let found ← issue (.view r.proxy (.get id))
      match found with
      | none => pure (.error (.error 404 "approval not found"))
      | some record =>
        if record.orgId ≠ r.orgId then pure (.error (.error 404 "approval not found"))
        else
          match r.body with
          | .tooLarge => pure (.error (.error 413 "request body too large"))
          | .malformed => pure (.error (.error 400 "malformed request body"))
          | .decoded body =>
            pure (.ok
              (id, { body with actor := if body.actor = "" then "unknown" else body.actor }))

/-- The approved branch of `resolveDecision`: the tool runs once the engine has approved. -/
def resolveApproved (r : DecisionRequest) (id : String) (body : DecisionBody) : Handler Reply := do
  let approval ← (clientApprove r.orgId id body.actor body.approvedArgs).attempt
  match approval with
  | .error e => do
    issue (.view r.proxy (.restorePending id))
    pure (failDecision e)
  | .ok resp => do
    let result ← issue (.execute {
      orgId := r.orgId
      sessionId := resp.sessionId
      toolName := resp.toolName
      toolVersion := resp.toolVersion
      args := resp.args })
    -- errors of the report are logged only
    let _ ← match result with
      | .error e => (report D (.fail r.orgId resp.sessionId resp.effectId e)).attempt
      | .ok output => (report D (.commit r.orgId resp.sessionId resp.effectId output)).attempt
    pure (.approved id resp.effectId result)

/-- The rejected branch of `resolveDecision`. -/
def resolveRejected (r : DecisionRequest) (id : String) (body : DecisionBody) : Handler Reply := do
  let rejection ← (clientReject r.orgId id body.actor).attempt
  match rejection with
  | .error e => do
    issue (.view r.proxy (.restorePending id))
    pure (failDecision e)
  | .ok _ => pure (.rejected id)

/-- `resolveDecision`. -/
def resolveDecision (target : Status) (r : DecisionRequest) : Handler Reply := do
  let checked ← decisionChecks r
  match checked with
  | .error reply => pure reply
  | .ok (id, body) => do
    let swapped ← issue (.view r.proxy (.compareAndSwap id .pending target))
    match swapped with
    | none => pure (.error 409 "approval already resolved")
    | some _ =>
      match target with
      | .approved => resolveApproved D r id body
      | .rejected => resolveRejected r id body
      | .pending => do
        issue (.view r.proxy (.restorePending id))
        pure (.error 400 "unsupported action")

/-! ## Tool calls -/

/-- The body of a tool call. -/
structure ToolCallRequest where
  sessionId : String
  toolName : String
  toolVersion : String
  stepIndex : UInt32
  args : Bytes

/-- The record of a suspended call. -/
def pendingRecord (orgId approvalId effectId : String) (req : ToolCallRequest) : Record where
  id := approvalId
  orgId := orgId
  sessionId := req.sessionId
  effectId := effectId
  toolName := req.toolName
  args := req.args
  status := .pending
  createdAt := none
  resolvedAt := none

/-- The response to an error of the engine client. -/
def engineError (code : String) (e : ClientError) : Reply :=
  .engineFailed (if isOverload e then 503 else 502) code e

/-- The execute branch of `ServeHTTP`. -/
def executeCall (call : Protocol.ToolCall) (effectId : String) : Handler Reply := do
  let result ← issue (.execute call)
  match result with
  | .error e => do
    let _ ← (report D (.fail call.orgId call.sessionId effectId e)).attempt
    pure (.failed 502 "tool_error" e)
  | .ok output => do
    let committed ← (report D (.commit call.orgId call.sessionId effectId output)).attempt
    match committed with
    | .error e => pure (engineError "commit_failed" e)
    | .ok _ => pure (.executed effectId output)

/-- `ServeHTTP` of the tool call handler, for the organisation of the authenticated key. -/
def serveToolCall (proxy : ℕ) (orgId : String) (body : Body ToolCallRequest) : Handler Reply :=
  if orgId = "" then pure (.failed 401 "auth_failed" "org id missing from request context")
  else
    match body with
    | .tooLarge =>
      pure (.failed 413 "body_too_large" "request body exceeds the configured limit")
    | .malformed => pure (.failed 400 "invalid_request" "invalid JSON body")
    | .decoded req =>
      if req.sessionId = "" ∨ req.toolName = "" then
        pure (.failed 400 "invalid_request" "session_id and tool_name are required")
      else
        match canonicalSignature D.json req.toolName req.args with
        | none => pure (.failed 400 "invalid_request" "unable to canonicalize tool args")
        | some signature => do
          let call : Protocol.ToolCall := {
            orgId
            sessionId := req.sessionId
            toolName := req.toolName
            toolVersion := req.toolVersion
            stepIndex := req.stepIndex
            args := req.args
            signature }
          let outcome ← (clientIntercept call).attempt
          match outcome with
          | .error e => pure (engineError "intercept_failed" e)
          | .ok (.execute effectId) => executeCall D call effectId
          | .ok (.replay effectId cached) => pure (.replayed effectId cached)
          | .ok (.awaitingApproval effectId approvalId) => do
            let record ← issue (.view proxy (.create (pendingRecord orgId approvalId effectId req)))
            pure (.pendingApproval record.id)

/-! ## Reconciliation -/

/-- The record of an approval that the engine still holds. -/
def reconciledRecord (record : Protocol.ApprovalRecord) : Record where
  id := record.approvalId
  orgId := record.orgId
  sessionId := record.sessionId
  effectId := record.effectId
  toolName := record.toolName
  args := record.args
  status := .pending
  createdAt := some record.createdAtUnix
  resolvedAt := none

/-- The loop of `ReconcileApprovals` over the records of one organisation. -/
def upsertAll (proxy : ℕ) : List Protocol.ApprovalRecord → Handler Unit
  | [] => pure ()
  | record :: rest => do
    issue (.view proxy (.upsertPending (reconciledRecord record)))
    upsertAll proxy rest

/-- `ReconcileApprovals`, with the identifiers confirmed and the organisations that failed
so far. -/
def reconcileApprovals (proxy : ℕ) : List String → List String → List String →
    Handler (List String × List String)
  | [], active, failedOrgs => pure (active, failedOrgs)
  | orgId :: rest, active, failedOrgs => do
    let listed ← (clientListPendingApprovals orgId).attempt
    match listed with
    | .error _ => reconcileApprovals proxy rest active (orgId :: failedOrgs)
    | .ok records => do
      upsertAll proxy records
      reconcileApprovals proxy rest (records.map (·.approvalId) ++ active) failedOrgs

/-- One round of `RunApprovalReconciler`. -/
def reconcileRound (proxy : ℕ) (orgIds : List String) (retention : ℤ) : Handler Reply := do
  let result ← reconcileApprovals proxy orgIds [] []
  let removed ← issue (.view proxy (.sweep retention result.1 result.2))
  pure (.swept removed)

/-! ## The machine -/

/-- What the proxies are asked to do. -/
inductive Task where
  | approve (r : DecisionRequest)
  | reject (r : DecisionRequest)
  | toolCall (proxy : ℕ) (orgId : String) (body : Body ToolCallRequest)
  | reconcile (proxy : ℕ) (orgIds : List String) (retention : ℤ)

/-- The program of each task. -/
def taskProgram : Task → Handler Reply
  | .approve r => resolveDecision D .approved r
  | .reject r => resolveDecision D .rejected r
  | .toolCall proxy orgId body => serveToolCall D proxy orgId body
  | .reconcile proxy orgIds retention => reconcileRound proxy orgIds retention

/-- What a step reads from outside. -/
structure Circumstance where
  /-- The clock of the proxy. -/
  now : Instant := 0
  /-- The client gives up, or the message is lost. -/
  failure : Option ClientError := none
  /-- The answer of the upstream executor. -/
  upstream : Except String Protocol.ToolResult := .error ""

/-- What happens around the proxies. -/
inductive Surrounding (S : Setup) where
  /-- The engine takes a step. -/
  | engine (choice : Choice (system S))
  /-- A proxy restarts with an empty view. -/
  | restart (proxy : ℕ)

/-- The engine and the approval views of the proxies. -/
structure Site (S : Setup) where
  engine : State S
  views : ℕ → Records

/-- The result of a call of the engine, once it has returned. -/
def resultOf {S : Setup} (call : ℕ) (c : State S) : Option (Except UndoLogError OpResult) :=
  c.trace.findSome? fun
    | .returned t r => if t = call then some r else none
    | _ => none

/-- A request reaches the engine, which starts a call, or is refused by its RPC. -/
def deliver (req : Request) (s : Site D.engine) : Option (Except ClientError ℕ × Site D.engine) :=
  match D.wire.op req with
  | .error e => some (.error e, s)
  | .ok op => (Machine.step s.engine (.start op)).map fun engine =>
      (.ok s.engine.next, { s with engine })

/-- The reply of a call of the engine. It cannot arrive before the call has returned. -/
def replyOf (req : Request) (call : ℕ) (s : Site D.engine) :
    Option (Except ClientError req.Response) :=
  match resultOf call s.engine, D.wire.op req with
  | some (.ok result), .ok _ => (D.wire.response req result).map .ok
  | some (.error e), .ok op => (rpcReply D.display op (.error e)).map .error
  | _, _ => none

/-- One step of a request of a proxy. -/
def Step.run (o : Circumstance) (s : Site D.engine) :
    (st : Step) → Option (Except ClientError st.Ret × Site D.engine)
  | .view proxy st =>
    let outcome := st.run o.now (s.views proxy)
    some (.ok outcome.1, { s with views := Function.update s.views proxy outcome.2 })
  | .outside =>
    match o.failure with
    | some e => some (.error e, s)
    | none => some (.ok (), s)
  | .send req =>
    match o.failure with
    | some e => some (.error e, s)
    | none => deliver D req s
  | .receive req call =>
    match o.failure with
    | some e => some (.error e, s)
    | none => (replyOf D req call s).map fun reply => (reply, s)
  | .execute _ => some (.ok o.upstream, s)

/-- A step of the surroundings. -/
def Surrounding.run {S : Setup} (s : Site S) : Surrounding S → Option (Site S)
  | .engine choice => (Machine.step s.engine choice).map fun engine => { s with engine }
  | .restart proxy => some { s with views := Function.update s.views proxy [] }

/-- Proxies and engine as a machine. -/
def gateway : Machine where
  Stmt := Step
  Ret := Step.Ret
  Err := ClientError
  Op := Task
  Result := Reply
  Env := Surrounding D.engine
  Oracle := Circumstance
  Store := Site D.engine
  exec := fun _ o st s => st.run D o s
  program := taskProgram D
  abort := fun _ s => s
  environment := fun e s => e.run s

/-- Before any request: a fresh engine and empty views. -/
def Idle (s : Site D.engine) : Prop :=
  ∃ w, Initial D.engine w ∧ s = { engine := Config.initial w, views := fun _ => [] }

/-- A configuration of proxies and engine. -/
abbrev Situation : Type := Machine.Config (gateway D)

/-- Reachable by any interleaving. -/
abbrev Occurs (c : Situation D) : Prop := Machine.Reachable (Idle D) unguarded c

end UndoLog.Proxy
