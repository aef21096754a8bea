import UndoLog.Dev.Messages

/-!
# Requests on one connection

The handler remembers that it has read a body in a field of the connection and never clears
it: from the second request on, it takes every body for read. A body that no handler reads is
then left in the stream, and the connection is kept.
-/

namespace UndoLog.Dev.Connection

open Text Text.Stream Canonical

variable {H : Library}

/-- A request with what it meets in the journal. -/
abbrev Served (H : Library) : Type := Message H × Circumstance

/-- The bytes of requests that follow one another. -/
def stream (ms : List (Served H)) : Bytes := ms.flatMap fun m => m.1.bytes

/-! ## The property and its condition -/

/-- The connection once some requests were handled. -/
def after (ms : List (Served H)) (s : Conn) : Conn := handle H (ms.map Prod.snd) s

/-- Whenever some requests were handled, the connection is to be closed or the stream is at the
first byte of the next request. -/
def InStep (ms : List (Served H)) (tail : Bytes) : Prop :=
  ∀ done rest, ms = done ++ rest →
    (after done (accepted (stream ms ++ tail))).closeConnection = true ∨
    (after done (accepted (stream ms ++ tail))).rfile = stream rest ++ tail

/-- What becomes of the body of a request. -/
inductive Disposal where
  /-- The connection is closed anyway. -/
  | closes
  /-- The handler reads the body. -/
  | taken
  /-- The body is left to the response. -/
  | left

/-- A body that a handler reads, if it can. -/
def Head.taken (head : Head) : Disposal := if head.readable then .taken else .left

/-- What the route of a request does with its body. -/
def Head.routed (head : Head) (o : Circumstance) : Disposal :=
  match route head.path with
  | .events => if head.command = "GET" then .closes else .left
  | .approvals => if head.command = "GET" ∧ o.escapes then .closes else .left
  | .toolCall => if head.command = "POST" then head.taken else .left
  | .decision _ _ =>
    if head.command = "POST" then
      match o.lookup with
      | .raises => .closes
      | .pending => head.taken
      | .missing | .resolved => .left
    else .left
  | .effect _ _ => if head.command = "PUT" then head.taken else .left
  | .health | .unknown => .left

/-- A client may ask for the connection to be closed, and a method without a handler closes
it. -/
def Head.disposal (head : Head) (o : Circumstance) : Disposal :=
  if head.close then .closes
  else if head.command = "GET" ∨ head.command = "POST" ∨ head.command = "PUT" then head.routed o
  else .closes

/-- The condition on a request that is the first one of its connection or a later one. -/
def Safe (later : Bool) (m : Served H) : Prop :=
  match m.1.head.disposal m.2 with
  | .closes => True
  | .taken => m.1.payload.Fits
  | .left => later = false ∨ m.1.payload.bytes = []

/-- Every request that is handled meets the condition. -/
def AllSafe (ms : List (Served H)) (tail : Bytes) : Prop :=
  ∀ done m rest, ms = done ++ m :: rest →
    (after done (accepted (stream ms ++ tail))).closeConnection = false → Safe (!done.isEmpty) m

/-! ## One request -/

theorem readBody_closeConnection (H : Library) (head : Head) (s : Conn) :
    (readBody H head s).2.closeConnection = s.closeConnection := by
  unfold readBody
  split
  · split <;> rfl
  · split
    · rfl
    · split
      · rfl
      · split <;> rfl

variable {s : Conn} {head : Head} {o : Circumstance} {rest tail : Bytes} {ms done : List (Served H)}

theorem sendJson_closed (h : s.closeConnection = true) :
    (sendJson head s).closeConnection = true := by
  have hdiscard : (discardUnreadBody head s).closeConnection = true := by
    unfold discardUnreadBody
    split
    · exact h
    · split
      · exact h
      · split
        · exact h
        · split <;> exact h
  unfold sendJson
  dsimp only
  split
  · rfl
  · exact hdiscard

theorem withBody_closed
    (h : s.closeConnection = true) : (withBody H head o s).2.closeConnection = true := by
  have hread := readBody_closeConnection H head s
  rw [h] at hread
  unfold withBody
  split
  · next e s' heq =>
    rw [heq] at hread
    exact sendJson_closed hread
  · next body s' heq =>
    rw [heq] at hread
    unfold answer
    split
    · rfl
    · exact sendJson_closed hread

/-- What is left of the connection. -/
def Disposal.leaves (H : Library) (head : Head) (o : Circumstance) (s : Conn) : Disposal → Conn
  | .closes => { s with closeConnection := true }
  | .taken => (withBody H head o s).2
  | .left => sendJson head s

theorem withBody_bytes {payload : Payload} (hframes : payload.Frames head)
    (hreadable : head.readable = true) (hfits : payload.Fits) (o : Circumstance)
    (hrfile : s.rfile = payload.bytes ++ rest) :
    (withBody H head o s).2.rfile = rest ∧ (withBody H head o s).2.bodyRead = true := by
  obtain ⟨body, hread⟩ := readBody_bytes (H := H) hframes hreadable hfits hrfile
  rw [withBody, hread]
  cases body with
  | error e =>
    dsimp only
    rw [sendError, sendJson_read rfl]
    exact ⟨rfl, rfl⟩
  | ok fields =>
    dsimp only
    rw [answer]
    split
    · exact ⟨rfl, rfl⟩
    · rw [sendJson_read rfl]
      exact ⟨rfl, rfl⟩

theorem withBody_taken (H : Library) (head : Head) (o : Circumstance) (s : Conn) :
    (withBody H head o s).2 = head.taken.leaves H head o s := by
  unfold Head.taken
  cases hreadable : head.readable with
  | true => rfl
  | false =>
    obtain ⟨e, hread⟩ := readBody_unreadable H hreadable s
    rw [withBody, hread]
    rfl

theorem requireMethod_leaves {allowed : String}
    {handled : Sent × Conn} {d : Disposal} (h : handled.2 = d.leaves H head o s) :
    (requireMethod head allowed s handled).2 =
      (if head.command = allowed then d else .left).leaves H head o s := by
  unfold requireMethod
  split
  · exact h
  · rfl

theorem dispatch_leaves (head : Head) (o : Circumstance) (s : Conn) :
    (dispatch H head o s).2 = (head.routed o).leaves H head o s := by
  unfold dispatch Head.routed
  cases route head.path with
  | health => exact (requireMethod_leaves (d := .left) rfl).trans (by rw [ite_self])
  | events => exact requireMethod_leaves rfl
  | approvals =>
    have hanswer : (answer head o s).2 =
        (if o.escapes then Disposal.closes else .left).leaves H head o s := by
      unfold answer
      split <;> rfl
    rw [requireMethod_leaves hanswer]
    by_cases hget : head.command = "GET" <;> simp [hget]
  | toolCall | effect => exact requireMethod_leaves (withBody_taken H head o s)
  | decision id action =>
    refine requireMethod_leaves ?_
    cases o.lookup with
    | raises | missing | resolved => rfl
    | pending => exact withBody_taken H head o s
  | unknown => rfl

theorem Disposal.leaves_closed (h : s.closeConnection = true) (d : Disposal) :
    (d.leaves H head o s).closeConnection = true := by
  cases d with
  | closes => rfl
  | taken => exact withBody_closed h
  | left => exact sendJson_closed h

theorem handleOneRequest_leaves (m : Message H) (o : Circumstance)
    (hrfile : s.rfile = m.bytes ++ rest) :
    (m.head.disposal o = .closes ∧ (handleOneRequest H o s).2.closeConnection = true) ∨
    (handleOneRequest H o s).2 = (m.head.disposal o).leaves H m.head o
      { s with rfile := m.payload.bytes ++ rest, closeConnection := false } := by
  have hparse : H.parseRequest s.rfile = some (m.head, m.payload.bytes ++ rest) := by
    rw [hrfile, Message.bytes, List.append_assoc]
    exact m.parsed _
  rw [handleOneRequest, hparse]
  dsimp only
  by_cases hsupported :
      m.head.command = "GET" ∨ m.head.command = "POST" ∨ m.head.command = "PUT"
  · rw [if_pos hsupported, dispatch_leaves]
    cases hclose : m.head.close with
    | true => exact .inl ⟨by rw [Head.disposal, if_pos hclose], Disposal.leaves_closed rfl _⟩
    | false => exact .inr (by rw [Head.disposal, if_neg (by simp [hclose]), if_pos hsupported])
  · rw [if_neg hsupported]
    refine .inl ⟨?_, rfl⟩
    unfold Head.disposal
    rw [if_neg hsupported, ite_self]

theorem readable_of_disposal (h : head.disposal o = .taken) : head.readable = true := by
  by_contra hnot
  have hleft : head.taken = .left := by rw [Head.taken, if_neg hnot]
  unfold Head.disposal Head.routed at h
  rw [hleft] at h
  cases hroute : route head.path <;> simp only [hroute] at h <;> grind

theorem consumed_of_safe (m : Served H)
    (hrfile : s.rfile = m.1.bytes ++ rest) (hsafe : Safe s.bodyRead m) :
    (handleOneRequest H m.2 s).2.closeConnection = true ∨
      (handleOneRequest H m.2 s).2.rfile = rest ∧ (handleOneRequest H m.2 s).2.bodyRead = true := by
  rcases handleOneRequest_leaves m.1 m.2 hrfile with ⟨-, hclosed⟩ | hleaves
  · exact .inl hclosed
  · rw [hleaves]
    unfold Safe at hsafe
    cases hdisposal : m.1.head.disposal m.2 with
    | closes => exact .inl rfl
    | taken =>
      rw [hdisposal] at hsafe
      exact .inr (withBody_bytes m.1.framed (readable_of_disposal hdisposal) hsafe m.2 rfl)
    | left =>
      rw [hdisposal] at hsafe
      by_cases hread : s.bodyRead = true
      · have hsent : sendJson m.1.head
            { s with rfile := m.1.payload.bytes ++ rest, closeConnection := false } =
            { s with rfile := m.1.payload.bytes ++ rest, closeConnection := false } :=
          sendJson_read hread
        have hempty : m.1.payload.bytes = [] := by
          rcases hsafe with hfirst | hempty
          · rw [hread] at hfirst
            cases hfirst
          · exact hempty
        right
        rw [Disposal.leaves, hsent, hempty]
        exact ⟨rfl, hread⟩
      · exact sendJson_unread m.1.framed (by simpa using hread) rfl

/-- A request that does not meet the condition leaves its body in the stream of a connection
that is kept. -/
theorem left_of_unsafe (m : Served H)
    (hrfile : s.rfile = m.1.bytes ++ rest) (hfits : m.1.payload.Fits)
    (hcond : ¬ Safe s.bodyRead m) : (handleOneRequest H m.2 s).2.closeConnection = false ∧
      (handleOneRequest H m.2 s).2.rfile = m.1.payload.bytes ++ rest ∧ m.1.payload.bytes ≠ [] := by
  unfold Safe at hcond
  cases hdisposal : m.1.head.disposal m.2 with
  | closes =>
    rw [hdisposal] at hcond
    exact absurd trivial hcond
  | taken =>
    rw [hdisposal] at hcond
    exact absurd hfits hcond
  | left =>
    rw [hdisposal] at hcond
    have hread : s.bodyRead = true := by
      by_contra hread
      exact hcond (.inl (by simpa using hread))
    rcases handleOneRequest_leaves m.1 m.2 hrfile with ⟨hcloses, -⟩ | hleaves
    · rw [hdisposal] at hcloses
      cases hcloses
    · have hsent : sendJson m.1.head
          { s with rfile := m.1.payload.bytes ++ rest, closeConnection := false } =
          { s with rfile := m.1.payload.bytes ++ rest, closeConnection := false } :=
        sendJson_read hread
      rw [hleaves, hdisposal, Disposal.leaves, hsent]
      exact ⟨rfl, rfl, fun hempty => hcond (.inr hempty)⟩

/-! ## All requests -/

theorem handle_append (H : Library) (os os' : List Circumstance) (s : Conn) :
    handle H (os ++ os') s = handle H os' (handle H os s) := by
  induction os generalizing s with
  | nil => rfl
  | cons o os ih =>
    rw [List.cons_append, handle, handle]
    split
    · next hclosed =>
      cases os' with
      | nil => rfl
      | cons o' os' => rw [handle, if_pos hclosed]
    · exact ih _

theorem after_snoc (done : List (Served H)) (m : Served H) (s : Conn) :
    after (done ++ [m]) s =
      if (after done s).closeConnection then after done s
      else (handleOneRequest H m.2 (after done s)).2 := by
  unfold after
  rw [List.map_append, handle_append]
  rfl

/-- Where the connection is after some requests, if it is not to be closed: at the next request, and
after a first one a body is taken for read. -/
def At (ms : List (Served H)) (tail : Bytes) (done rest : List (Served H)) : Prop :=
  (after done (accepted (stream ms ++ tail))).closeConnection = true ∨
    (after done (accepted (stream ms ++ tail))).rfile = stream rest ++ tail ∧
    (after done (accepted (stream ms ++ tail))).bodyRead = !done.isEmpty

theorem stream_cons (m : Served H) (rest : List (Served H)) (tail : Bytes) :
    stream (m :: rest) ++ tail = m.1.bytes ++ (stream rest ++ tail) := by
  simp [stream]

theorem At.snoc {rest : List (Served H)} {m : Served H} (h : At ms tail done (m :: rest))
    (hsafe : (after done (accepted (stream ms ++ tail))).closeConnection = false →
      Safe (!done.isEmpty) m) : At ms tail (done ++ [m]) rest := by
  unfold At
  rw [after_snoc]
  cases hclosed : (after done (accepted (stream ms ++ tail))).closeConnection with
  | true => exact .inl hclosed
  | false =>
    obtain hclosed' | ⟨hrfile, hread⟩ := h
    · rw [hclosed] at hclosed'
      cases hclosed'
    · rw [stream_cons] at hrfile
      have hcond := hsafe hclosed
      rw [← hread] at hcond
      have hsome : (!(done ++ [m]).isEmpty) = true := by simp
      rw [if_neg (by simp), hsome]
      exact consumed_of_safe m hrfile hcond

theorem at_start (ms : List (Served H)) (tail : Bytes) : At ms tail [] ms := .inr ⟨rfl, rfl⟩

theorem at_of_allSafe (hsafe : AllSafe ms tail)
    {rest : List (Served H)} (hms : ms = done ++ rest) : At ms tail done rest := by
  induction done using List.reverseRecOn generalizing rest with
  | nil =>
    rw [List.nil_append] at hms
    rw [← hms]
    exact at_start ms tail
  | append_singleton done m ih =>
    rw [List.append_assoc, List.singleton_append] at hms
    exact (ih hms).snoc (hsafe done m rest hms)

theorem safe_of_at (hstep : InStep ms tail)
    (hfits : ∀ m ∈ ms, m.1.payload.Fits) {rest : List (Served H)} {m : Served H}
    (hms : ms = done ++ m :: rest) (hat : At ms tail done (m :: rest))
    (hopen : (after done (accepted (stream ms ++ tail))).closeConnection = false) :
    Safe (!done.isEmpty) m := by
  obtain hclosed | ⟨hrfile, hread⟩ := hat
  · rw [hopen] at hclosed
    cases hclosed
  · rw [stream_cons] at hrfile
    rw [← hread]
    by_contra hcond
    obtain ⟨hkept, hleft, hbody⟩ := left_of_unsafe m hrfile (hfits m (by simp [hms])) hcond
    have hnext := hstep (done ++ [m]) rest (by simp [hms])
    rw [after_snoc, if_neg (by simp [hopen])] at hnext
    rcases hnext with hclosed | hnext
    · rw [hkept] at hclosed
      cases hclosed
    · rw [hleft] at hnext
      exact hbody (by simpa using hnext)

theorem allSafe_of_inStep (hstep : InStep ms tail)
    (hfits : ∀ m ∈ ms, m.1.payload.Fits) : AllSafe ms tail := by
  have hat : ∀ done rest, ms = done ++ rest → At ms tail done rest := by
    intro done
    induction done using List.reverseRecOn with
    | nil =>
      intro rest hms
      rw [List.nil_append] at hms
      rw [← hms]
      exact at_start ms tail
    | append_singleton done m ih =>
      intro rest hms
      rw [List.append_assoc, List.singleton_append] at hms
      have hbefore := ih (m :: rest) hms
      exact hbefore.snoc (safe_of_at hstep hfits hms hbefore)
  intro done m rest hms hopen
  exact safe_of_at hstep hfits hms (hat done (m :: rest) hms) hopen

/-- A connection stays in step if every request that is handled meets the condition, and unless
a chunk-size or trailer line is too long it does so only then. -/
theorem keeps_in_step (ms : List (Served H)) (tail : Bytes) : (AllSafe ms tail → InStep ms tail) ∧
      ((∀ m ∈ ms, m.1.payload.Fits) → InStep ms tail → AllSafe ms tail) := by
  refine ⟨?_, fun hfits hstep => allSafe_of_inStep hstep hfits⟩
  intro hsafe done rest hms
  rcases at_of_allSafe hsafe hms with hclosed | ⟨hrfile, -⟩
  · exact .inl hclosed
  · exact .inr hrfile

/-! ## Runs of a connection -/

/-- The bytes of a text. -/
def ascii (text : String) : Bytes := text.toList.map fun c => UInt8.ofNat c.toNat

def healthBytes : Bytes := ascii "GET /health HTTP/1.1\r\n\r\n"

def healthHead : Head where
  command := "GET"
  path := "/health".toList
  contentLength := none
  transferEncoding := false
  close := false

def nowhereBytes : Bytes := ascii "POST /nowhere HTTP/1.1\r\nContent-Length: 24\r\n\r\n"

def nowhereHead : Head where
  command := "POST"
  path := "/nowhere".toList
  contentLength := some (ascii "24")
  transferEncoding := false
  close := false

/-- A library that parses these two heads. -/
def twoHeads : Library where
  parseRequest := fun s =>
    if healthBytes.isPrefixOf s then some (healthHead, s.drop healthBytes.length)
    else if nowhereBytes.isPrefixOf s then some (nowhereHead, s.drop nowhereBytes.length)
    else none
  loads := fun _ => .error .jsonDecode

def health : Served twoHeads where
  fst :=
    { headBytes := healthBytes
      head := healthHead
      payload := .absent
      parsed := fun _ => rfl
      framed := ⟨rfl, rfl⟩ }
  snd := {}

/-- A request to an unknown path whose body is itself the text of a request. -/
def nowhere : Served twoHeads where
  fst :=
    { headBytes := nowhereBytes
      head := nowhereHead
      payload := .sized (ascii "24") healthBytes ⟨by decide, List.all_eq_true.mp rfl⟩ (by decide)
      parsed := fun _ => rfl
      framed := ⟨rfl, rfl⟩ }
  snd := {}

/-- The body of the first request on a connection is discarded. -/
theorem first_body_discarded : AllSafe [nowhere, health] [] ∧ InStep [nowhere, health] [] := by
  have hsafe : AllSafe [nowhere, health] [] := by
    intro done m rest hms _
    match done, hms with
    | [], hms =>
      cases hms
      exact .inl rfl
    | [_], hms =>
      cases hms
      exact .inr rfl
    | _ :: _ :: _, hms => simp at hms
  exact ⟨hsafe, (keeps_in_step _ _).1 hsafe⟩

/-- The body of the second request is left in the stream and parsed as a request. -/
theorem second_body_parsed : ¬ InStep [health, nowhere] [] ∧
      twoHeads.parseRequest (after [health, nowhere] (accepted (stream [health, nowhere]))).rfile =
        some (healthHead, []) := by
  have hleft : (after [health, nowhere] (accepted (stream [health, nowhere]))).rfile =
      healthBytes ∧
      (after [health, nowhere] (accepted (stream [health, nowhere]))).closeConnection = false := by
    decide +kernel
  refine ⟨?_, ?_⟩
  · intro hstep
    rcases hstep [health, nowhere] [] rfl with hclosed | hrfile
    · cases hclosed.symm.trans hleft.2
    · cases hrfile.symm.trans hleft.1
  · rw [hleft.1]
    rfl

end UndoLog.Dev.Connection
