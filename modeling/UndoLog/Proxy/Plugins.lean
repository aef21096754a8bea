import Mathlib.Data.List.Basic

/-!
# The plugin chain of a proxy

A chain runs a list of plugins around one handler. The `Before` hooks run in order and may
reject the request. The handler then writes through a writer that runs the `After` hooks, in
reverse order, when the response is first committed. The writer underneath is the one of the
HTTP library and follows `ServerRules`.
-/

namespace UndoLog.Proxy

/-! ## The writer of the HTTP library -/

/-- Response headers, with the value of each name. -/
abbrev Headers : Type := List (String × String)

/-- `Header.Set`. -/
def Headers.set (name value : String) (headers : Headers) : Headers :=
  (name, value) :: headers.filter (·.1 ≠ name)

/-- What a handler does with its response writer. -/
inductive WriterOp where
  | writeHeader (status : ℕ)
  | write (data : List UInt8)
  | flush

/-- The documented behaviour of the library's writer. -/
structure ServerRules where
  /-- Statuses that are sent at once and do not end the head of the response. -/
  informational : ℕ → Bool
  /-- Whether a response with this status has a body. -/
  permitsBody : ℕ → Bool
  /-- The length that the headers declare for the body. -/
  declaredLength : Headers → Option ℕ

/-- A response as it goes out. -/
structure Response where
  /-- The header map, which can change until the head is written. -/
  headers : Headers
  /-- The informational responses so far. -/
  informed : List (ℕ × Headers)
  /-- The final status line and its headers. -/
  head : Option (ℕ × Headers)
  /-- The number of body bytes offered. -/
  offered : ℕ
  body : List UInt8

namespace Response

/-- A response before the handler runs. -/
def new (headers : Headers) : Response where
  headers := headers
  informed := []
  head := none
  offered := 0
  body := []

variable (rules : ServerRules)

/-- `WriteHeader`: informational statuses go out at once, the first other one is final. -/
def writeHeader (status : ℕ) (r : Response) : Response :=
  match r.head with
  | some _ => r
  | none =>
    if rules.informational status then { r with informed := r.informed ++ [(status, r.headers)] }
    else { r with head := some (status, r.headers) }

/-- Body bytes that fit the declared length are sent, the others are refused. -/
def send (data : List UInt8) (status : ℕ) (headers : Headers) (r : Response) : Response :=
  if rules.permitsBody status then
    let offered := r.offered + data.length
    if (rules.declaredLength headers).all (offered ≤ ·) then
      { r with offered, body := r.body ++ data }
    else { r with offered }
  else r

/-- `Write`, after a status of 200 if there is none yet. -/
def write (data : List UInt8) (r : Response) : Response :=
  let r := r.writeHeader rules 200
  match r.head with
  | some (status, headers) => r.send rules data status headers
  | none => r

/-- One operation on the bare writer. `Flush` sends a status of 200 if there is none yet. -/
def step (r : Response) : WriterOp → Response
  | .writeHeader status => r.writeHeader rules status
  | .write data => r.write rules data
  | .flush => r.writeHeader rules 200

/-- What a handler leaves behind. -/
def run (ops : List WriterOp) (r : Response) : Response := ops.foldl (step rules) r

/-- The server ends a response that has no status yet with 200. -/
def finish (r : Response) : Response := r.writeHeader rules 200

/-- The final status. -/
def status? (r : Response) : Option ℕ := r.head.map Prod.fst

end Response

/-! ## Plugins -/

/-- A plugin's verdict. An empty reason lets the request pass. -/
structure Decision where
  status : ℕ := 0
  reason : String := ""
  headers : Headers := []

/-- One interceptor. The `After` hook only sets response headers. -/
structure Plugin (ρ : Type) where
  name : String
  before : ρ → ρ × Decision
  after : ρ → Headers → Headers

/-- The list of plugins and how a rejection is written. -/
structure Chain (ρ : Type) where
  plugins : List (Plugin ρ)
  reject : ρ → ℕ → String → List WriterOp

/-- What reaches the client and what runs on the way. -/
inductive ChainEvent where
  /-- The `After` hook of a plugin. -/
  | after (name : String)
  /-- An operation on the writer underneath. -/
  | passed (op : WriterOp)

/-- `commitWriter` with what it has done so far. -/
structure CommitWriter (ρ : Type) where
  response : Response
  request : ρ
  after : List (Plugin ρ)
  committed : Bool
  log : List ChainEvent

namespace CommitWriter

variable {ρ : Type} (rules : ServerRules)

/-- An operation reaches the writer underneath. -/
def pass (op : WriterOp) (w : CommitWriter ρ) : CommitWriter ρ :=
  { w with response := w.response.step rules op, log := w.log ++ [.passed op] }

/-- One `After` hook. -/
def runAfter (w : CommitWriter ρ) (p : Plugin ρ) : CommitWriter ρ :=
  { w with
    response := { w.response with headers := p.after w.request w.response.headers }
    log := w.log ++ [.after p.name] }

/-- `commit`. -/
def commit (status : ℕ) (w : CommitWriter ρ) : CommitWriter ρ :=
  if w.committed then w
  else (w.after.foldl runAfter { w with committed := true }).pass rules (.writeHeader status)

/-- `WriteHeader`, `Write` and `Flush`. -/
def step (w : CommitWriter ρ) : WriterOp → CommitWriter ρ
  | .writeHeader status => w.commit rules status
  | .write data => (w.commit rules 200).pass rules (.write data)
  | .flush => (w.commit rules 200).pass rules .flush

/-- What a handler leaves behind. -/
def run (ops : List WriterOp) (w : CommitWriter ρ) : CommitWriter ρ := ops.foldl (step rules) w

end CommitWriter

/-- `maxHTTPStatus`. -/
def maxHTTPStatus : ℕ := 599

/-- The status of a rejection, 403 if the plugin gives none. -/
def Decision.rejection (d : Decision) : ℕ :=
  if d.status < 400 ∨ maxHTTPStatus < d.status then 403 else d.status

/-- The `Before` hooks in order: the request as they leave it, or the first rejection with the
request as it was rejected. -/
def runBefore {ρ : Type} : List (Plugin ρ) → ρ → Except (ρ × Decision) ρ
  | [], request => .ok request
  | p :: rest, request =>
    let (request, d) := p.before request
    if d.reason = "" then runBefore rest request else .error (request, d)

/-- `Then`: what a request leaves behind, for a handler with the given operations. -/
def Chain.thenServe {ρ : Type} (rules : ServerRules) (c : Chain ρ) (handler : ρ → List WriterOp)
    (request : ρ) (headers : Headers) : Response × List ChainEvent :=
  if c.plugins.isEmpty then
    let ops := handler request
    ((Response.new headers).run rules ops, ops.map .passed)
  else
    match runBefore c.plugins request with
    | .error (request, d) =>
      let headers := d.headers.foldl (fun headers h => headers.set h.1 h.2) headers
      let ops := c.reject request d.rejection d.reason
      ((Response.new headers).run rules ops, ops.map .passed)
    | .ok request =>
      let w : CommitWriter ρ := {
        response := .new headers
        request
        after := c.plugins.reverse
        committed := false
        log := [] }
      let w := w.run rules (handler request)
      (w.response, w.log)

end UndoLog.Proxy
