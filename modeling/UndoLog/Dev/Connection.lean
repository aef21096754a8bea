import Mathlib.Data.List.SplitOn
import UndoLog.Dev.Server
import UndoLog.Text.Stream

/-!
# Connections of the local development server

One handler object serves all requests of a connection that is kept alive, and its fields
live as long as the connection does. A request that is answered has to leave the stream at the
first byte of the next request, or the connection has to be closed.

The standard library parses the head of a request. What the handlers do with a body once it is
read does not matter here: they end with one response, or an exception ends the connection.
-/

namespace UndoLog.Dev.Connection

open Text Text.Stream Canonical

/-! ## Integers -/

/-- The most digits that `int` reads in base ten. -/
def maxStrDigits : ℕ := 4300

/-- Whether a number is negative, and its text without the sign. -/
def sign : Bytes → Bool × Bytes
  | [] => (false, [])
  | b :: s => if b = 45 then (true, s) else if b = 43 then (false, s) else (false, b :: s)

/-- The text of a number in base sixteen without `0x`. -/
def dropBase : Bytes → Bytes
  | b :: x :: s =>
    if b = 48 ∧ (x = 120 ∨ x = 88) then if s.head? = some 95 then s.tail else s
    else b :: x :: s
  | s => s

/-- `int` of a text, in base ten or sixteen. -/
def parseInt (base : ℕ) (raw : Bytes) : Option ℤ :=
  let (negative, unsigned) := sign (strip raw)
  let s := if base = 16 then dropBase unsigned else unsigned
  if base = 10 ∧ maxStrDigits < s.countP fun b => (digitIn 10 b).isSome then none
  else (digits base s).map fun n => if negative then -(n : ℤ) else n

/-! ## The state of a connection -/

/-- `_MAX_BODY_BYTES` -/
def maxBodyBytes : ℕ := 1024 * 1024

/-- `_MAX_CHUNK_LINE_BYTES` -/
def maxChunkLineBytes : ℕ := 8 * 1024

/-- The bytes that are discarded at a time. -/
def pieceBytes : ℕ := 64 * 1024

/-- What a handler reads of the head of a request. -/
structure Head where
  /-- The method. -/
  command : String
  /-- The path of the target. -/
  path : List Char
  contentLength : Option Bytes
  /-- Whether there is a `Transfer-Encoding`. -/
  transferEncoding : Bool
  /-- Whether the client asks for the connection to be closed. -/
  close : Bool

/-- What `json.loads` raises. -/
inductive LoadError where
  | jsonDecode
  /-- Another `ValueError`. -/
  | value (text : String)

/-- The standard library. -/
structure Library where
  /-- The head of a request and the bytes after it. A request that cannot be parsed is answered
  with an error that closes the connection. -/
  parseRequest : Bytes → Option (Head × Bytes)
  /-- `json.loads` -/
  loads : Bytes → Except LoadError PyValue

/-- The fields of the handler that live as long as its connection, and the bytes to come. -/
structure Conn where
  rfile : Bytes
  bodyRead : Bool
  closeConnection : Bool

/-- A new connection. -/
def accepted (stream : Bytes) : Conn where
  rfile := stream
  bodyRead := false
  closeConnection := false

/-- `int` of the `Content-Length`. -/
def Head.length (head : Head) : Option ℤ := parseInt 10 (head.contentLength.getD [48])

/-! ## Reading a body -/

def truncated : RequestError := invalidRequest "truncated request body"

/-- `_consume` -/
def consume (length : ℤ) (s : Bytes) : Except RequestError Unit × Bytes :=
  match drain pieceBytes length.toNat length.toNat s with
  | (0, s) => (.ok (), s)
  | (_ + 1, s) => (.error truncated, s)

/-- The trailer fields up to an empty line. There are fewer lines than bytes. -/
def readTrailers : ℕ → Bytes → Bytes
  | 0, s => s
  | lines + 1, s =>
    let (trailer, s) := readline maxChunkLineBytes s
    if trailer = [] ∨ trailer = [13, 10] ∨ trailer = [10] then s else readTrailers lines s

/-- The size in a chunk-size line, before its extensions. -/
def chunkSize (line : Bytes) : Option ℤ := parseInt 16 (strip (line.takeWhile (· ≠ 59)))

/-- What `_read_chunked` keeps of the chunks: their data, the number of its bytes and whether
that has passed the ceiling. -/
structure Chunks where
  parts : Bytes
  total : ℤ
  overflow : Bool

/-- The data of a chunk. Past the ceiling it is thrown away. -/
def readData (size : ℤ) (chunks : Chunks) (s : Bytes) : Except RequestError Chunks × Bytes :=
  if chunks.overflow ∨ chunks.total + size > maxBodyBytes then
    match consume size s with
    | (.ok (), s) => (.ok { chunks with overflow := true }, s)
    | (.error e, s) => (.error e, s)
  else
    let (data, s) := read size s
    if data.length < size then (.error truncated, s)
    else (.ok { chunks with parts := chunks.parts ++ data, total := chunks.total + size }, s)

/-- The loop of `_read_chunked`. There are fewer chunks than bytes. -/
def readChunks : ℕ → Chunks → Bytes → Except RequestError Chunks × Bytes
  | 0, _, s => (.error truncated, s)
  | lines + 1, chunks, s =>
    let (sizeLine, s) := readline maxChunkLineBytes s
    if sizeLine = [] then (.error truncated, s)
    else
      match chunkSize sizeLine with
      | none => (.error (invalidRequest "invalid chunk size"), s)
      | some size =>
        if size = 0 then (.ok chunks, readTrailers s.length s)
        else
          match readData size chunks s with
          | (.error e, s) => (.error e, s)
          | (.ok chunks, s) =>
            match consume 2 s with
            | (.error e, s) => (.error e, s)
            | (.ok (), s) => readChunks lines chunks s

/-- `_read_chunked` -/
def readChunked (s : Bytes) : Except RequestError Chunks × Bytes :=
  readChunks s.length { parts := [], total := 0, overflow := false } s

def bodyTooLarge : RequestError :=
  ⟨413, "body_too_large", "request body exceeds the configured limit"⟩

/-- The end of `_read_body`: a body has to be a JSON object. -/
def decode (loads : Bytes → Except LoadError PyValue) (raw : Bytes) : Body :=
  if raw = [] then .ok []
  else
    match loads raw with
    | .error .jsonDecode => .error (invalidRequest "invalid JSON body")
    | .error (.value text) => .error (invalidRequest text)
    | .ok (.object fields) => .ok fields
    | .ok _ => .error (invalidRequest "request body must be a JSON object")

/-- `_read_body` -/
def readBody (H : Library) (head : Head) (s : Conn) : Body × Conn :=
  if head.transferEncoding then
    match readChunked s.rfile with
    | (.error e, rest) => (.error e, { s with rfile := rest })
    | (.ok chunks, rest) =>
      (if chunks.overflow then .error bodyTooLarge else decode H.loads chunks.parts,
        { s with rfile := rest, bodyRead := true })
  else
    match head.length with
    | none => (.error (invalidRequest "invalid Content-Length header"), s)
    | some length =>
      if length = 0 then (decode H.loads [], { s with bodyRead := true })
      else if length ≤ maxBodyBytes then
        let (raw, rest) := read length s.rfile
        (decode H.loads raw, { s with rfile := rest, bodyRead := true })
      else (.error bodyTooLarge, s)

/-! ## Responses -/

/-- `_discard_unread_body` -/
def discardUnreadBody (head : Head) (s : Conn) : Conn :=
  if s.bodyRead then s
  else if head.transferEncoding then s
  else
    match head.length with
    | none => s
    | some length =>
      if length = 0 then { s with bodyRead := true }
      else
        let (_, rest) := drain pieceBytes length.toNat length.toNat s.rfile
        { s with rfile := rest, bodyRead := true }

/-- `_body_is_unread` -/
def bodyIsUnread (head : Head) (s : Conn) : Bool :=
  if s.bodyRead then false
  else if head.transferEncoding then true
  else
    match head.length with
    | none => true
    | some length => 0 < length

/-- `_send_json` -/
def sendJson (head : Head) (s : Conn) : Conn :=
  let s := discardUnreadBody head s
  if bodyIsUnread head s then { s with closeConnection := true } else s

/-- What a request is answered with. -/
inductive Sent where
  | error (e : RequestError)
  /-- The response of a handler. -/
  | reply
  /-- The stream of events. -/
  | stream
  /-- An error page of the library. -/
  | library
  /-- An exception has ended the connection. -/
  | nothing

/-- `_send_error` -/
def sendError (head : Head) (e : RequestError) (s : Conn) : Sent × Conn :=
  (.error e, sendJson head s)

/-- An exception that `_dispatch` does not catch. -/
def escape (s : Conn) : Sent × Conn := (.nothing, { s with closeConnection := true })

/-! ## Routes -/

/-- The routes of `_dispatch`. -/
inductive Route where
  | health
  | events
  | approvals
  | toolCall
  | decision (approvalId : List Char) (action : Decision)
  | effect (effectId : List Char) (action : Report)
  | unknown

/-- The route of a path. -/
def route (path : List Char) : Route :=
  if path = "/health".toList then .health
  else if path = "/events".toList then .events
  else if path = "/approvals".toList then .approvals
  else if path = "/mcp/tool_call".toList then .toolCall
  else
    match path.splitOn '/' with
    | [[], kind, id, action] =>
      if id = [] then .unknown
      else if kind = "approvals".toList ∧ action = "approve".toList then .decision id .approve
      else if kind = "approvals".toList ∧ action = "reject".toList then .decision id .reject
      else if kind = "effects".toList ∧ action = "commit".toList then .effect id .commit
      else if kind = "effects".toList ∧ action = "fail".toList then .effect id .fail
      else .unknown
    | _ => .unknown

/-- What `get_approval` tells a decision. -/
inductive Lookup where
  | raises
  | missing
  | resolved
  | pending
deriving DecidableEq

/-- What a request meets in the journal. -/
structure Circumstance where
  lookup : Lookup := .pending
  /-- An exception that `_dispatch` does not catch comes from the journal. -/
  escapes : Bool := false

/-- `_require_method` -/
def requireMethod (head : Head) (allowed : String) (s : Conn) (handled : Sent × Conn) :
    Sent × Conn :=
  if head.command = allowed then handled
  else sendError head ⟨405, "method_not_allowed", allowed ++ " required"⟩ s

/-- The end of a handler that reads or writes the journal. -/
def answer (head : Head) (o : Circumstance) (s : Conn) : Sent × Conn :=
  if o.escapes then escape s else (.reply, sendJson head s)

/-- A handler from `_read_body` on. -/
def withBody (H : Library) (head : Head) (o : Circumstance) (s : Conn) : Sent × Conn :=
  match readBody H head s with
  | (.error e, s) => sendError head e s
  | (.ok _, s) => answer head o s

/-- `_dispatch` -/
def dispatch (H : Library) (head : Head) (o : Circumstance) (s : Conn) : Sent × Conn :=
  match route head.path with
  | .health => requireMethod head "GET" s (.reply, sendJson head s)
  | .events => requireMethod head "GET" s (.stream, { s with closeConnection := true })
  | .approvals => requireMethod head "GET" s (answer head o s)
  | .toolCall => requireMethod head "POST" s (withBody H head o s)
  | .decision _ _ => requireMethod head "POST" s
      (match o.lookup with
        | .raises => escape s
        | .missing => sendError head ⟨404, "not_found", "approval not found"⟩ s
        | .resolved => sendError head ⟨409, "conflict", "approval already resolved"⟩ s
        | .pending => withBody H head o s)
  | .effect _ _ => requireMethod head "PUT" s (withBody H head o s)
  | .unknown => sendError head ⟨404, "not_found", "unknown path"⟩ s

/-- `handle_one_request`. A method without a handler is answered with an error that closes the
connection. -/
def handleOneRequest (H : Library) (o : Circumstance) (s : Conn) : Sent × Conn :=
  match H.parseRequest s.rfile with
  | none => (.library, { s with closeConnection := true })
  | some (head, rest) =>
    let s := { s with rfile := rest, closeConnection := head.close }
    if head.command = "GET" ∨ head.command = "POST" ∨ head.command = "PUT" then
      dispatch H head o s
    else (.library, { s with closeConnection := true })

/-- `handle`, for a number of requests. -/
def handle (H : Library) : List Circumstance → Conn → Conn
  | [], s => s
  | o :: rest, s =>
    if s.closeConnection then s else handle H rest (handleOneRequest H o s).2

end UndoLog.Dev.Connection
