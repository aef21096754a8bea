import UndoLog.Properties.JournaledAnswers
import UndoLog.Properties.RoundTrip
import UndoLog.Properties.StableResults
import UndoLog.Sdk.Exchange

/-!
# Replays are transparent

The wrapper of a tool puts the result of the body into an envelope and commits it. A later call
with the same signature gets the envelope back through the journal and takes the result out of
it, whatever shape the result has.
-/

namespace UndoLog.Sdk

open Concurrent Machine Text Dev

variable {V : Server} {c : Moment V} {K : Codec} {call : Invocation} {stamp : Stamp}
  {reply : Reply} {response : Response}

/-! ## Decorated calls -/

variable {r json : PyValue} {t : ℕ} {entries : List Entry} {tool : Dev.ToolCall}
  {signature : CallSignature} {outcome : Except SdkError PyValue} {e : String} {headers : Headers}
  {d : Moment V} {row : Dev.EffectRow}

theorem executed_row (hc : Arises V unguarded c) {req : Request} {id : String}
    (hstart : Started c t req) (hcalls : Calls V req tool signature)
    (hreturned : Returned c t (.ok (.executed (some id)))) :
    ∃ e ∈ c.store.effects, e.id = id ∧ e.signature = signature := by
  cases answer_of_returned hc hstart hcalls hreturned with
  | resolved hfound | autoApproved hfound | running hfound =>
    exact found_named hc (mem_ranBy.mp hfound)
  | created hclaims hcreated hfree =>
    obtain ⟨⟨e, he, hid, hsignature⟩, -⟩ := created_named hc (mem_ranBy.mp hcreated)
    exact ⟨e, he, hid, hsignature.trans hclaims.signature⟩

/-- A decorated call sends its intercept and goes on with what it reads of the response. -/
theorem conducts_wrapper (h : Conducts K c (wrapper K .compensable call) entries outcome) :
    ∃ t reply response rest,
      entries = .exchanged t (.intercept call.headers call.json) reply :: rest ∧
      Exchange K c t (.intercept call.headers call.json) reply response ∧
      ((∃ decision, interceptResponse K response = .ok decision ∧
        Conducts K c (follow K call decision) rest outcome) ∨
      ∃ e, interceptResponse K response = .error e ∧ rest = [] ∧ outcome = .error e) := by
  obtain ⟨t, reply, response, rest, hentries, hexchange, hrest⟩ := h
  refine ⟨t, reply, response, rest, hentries, hexchange, ?_⟩
  change Conducts K c (Program.bind (.done (interceptResponse K response)) (follow K call)) rest
    outcome at hrest
  cases hdecision : interceptResponse K response with
  | ok decision =>
    rw [hdecision] at hrest
    exact .inl ⟨decision, rfl, hrest⟩
  | error e =>
    rw [hdecision] at hrest
    exact .inr ⟨e, rfl, hrest⟩

theorem conducts_execute {id : Option String}
    (h : Conducts K c (execute K call id) entries (.ok r)) :
    ∃ rest, entries = .ran (.ok r) :: rest ∧ ∀ x ∈ rest, ∃ t e reply response,
      id = some e ∧ x = .exchanged t (.commit e (call.commitJson r)) reply ∧
        Exchange K c t (.commit e (call.commitJson r)) reply response := by
  obtain ⟨outcome, rest, rfl, hrest⟩ := h
  change Conducts K c (settle K call id outcome) rest (.ok r) at hrest
  cases outcome with
  | error e =>
    cases hid : id.filter (· ≠ "") with
    | none =>
      simp only [settle, hid] at hrest
      cases hrest.2
    | some e =>
      simp only [settle, hid] at hrest
      obtain ⟨t, reply, response, rest', -, -, hfail⟩ := hrest
      cases hfail.2
  | ok value =>
    cases hid : id.filter (· ≠ "") with
    | none =>
      simp only [settle, hid] at hrest
      obtain ⟨rfl, hvalue⟩ := hrest
      cases hvalue
      exact ⟨[], rfl, by simp⟩
    | some e =>
      simp only [settle, hid] at hrest
      obtain ⟨t, reply, response, rest', rfl, hexchange, hcommit⟩ := hrest
      change Conducts K c (Program.bind (.done (reportResponse K response)) fun _ =>
        .done (.ok value)) rest' (.ok r) at hcommit
      cases hreport : reportResponse K response with
      | error e =>
        rw [hreport] at hcommit
        cases hcommit.2
      | ok u =>
        rw [hreport] at hcommit
        obtain ⟨rfl, hvalue⟩ := hcommit
        cases hvalue
        refine ⟨_, rfl, fun x hx => ?_⟩
        have hid' := (Option.filter_eq_some_iff.mp hid).1
        exact ⟨t, e, reply, response, hid', List.mem_singleton.mp hx, hexchange⟩

theorem first_call (h : Conducts K c (wrapper K .compensable call) entries (.ok r))
    (hcommit : .exchanged t (.commit e json) reply ∈ entries) :
    .ran (.ok r) ∈ entries ∧ ∃ t₁ reply₁ response₁ decision response,
      Exchange K c t₁ (.intercept call.headers call.json) reply₁ response₁ ∧
      interceptResponse K response₁ = .ok decision ∧ decision.outcome = .execute ∧
      decision.effectId = some e ∧
      Exchange K c t (.commit e (call.commitJson r)) reply response := by
  obtain ⟨t₁, reply₁, response₁, rest, rfl, hexchange₁, hnext⟩ := conducts_wrapper h
  obtain ⟨decision, hdecision, hfollow⟩ | ⟨e, -, -, hfailed⟩ := hnext
  · have hcommit' : .exchanged t (.commit e json) reply ∈ rest := by
      rcases List.mem_cons.mp hcommit with heq | hmem
      · cases heq
      · exact hmem
    rw [follow] at hfollow
    cases houtcome : decision.outcome with
    | replay =>
      rw [houtcome] at hfollow
      cases hfollow.1
      cases hcommit'
    | awaitingApproval =>
      rw [houtcome] at hfollow
      cases hfollow.2
    | execute =>
      rw [houtcome] at hfollow
      obtain ⟨rest', rfl, hrest⟩ := conducts_execute hfollow
      rcases List.mem_cons.mp hcommit' with heq | hmem
      · cases heq
      · obtain ⟨t', e', reply', response, hid, heq, hexchange⟩ := hrest _ hmem
        cases heq
        exact ⟨by simp, t₁, reply₁, response₁, decision, response, hexchange₁, hdecision,
          houtcome, hid, hexchange⟩
  · cases hfailed

theorem performed_commit (hK : K.Lawful) (hc : Arises V unguarded c) (hr : r.Distinct)
    (h : Exchange K c t (.commit e (call.commitJson r)) (.committed e) response) :
    Performed c t (.recordCommit e (envelopeFields r)) (.ok true) := by
  obtain ⟨req, stamp, hreq, hstart, hreturned, -⟩ := h
  obtain ⟨content, hsend, rfl⟩ := Option.map_eq_some_iff.mp hreq
  have hbody : (receive K content).bind resultField = .ok (envelopeFields r) ∨
      ∃ e, receive K content = .error e := by
    obtain ⟨fields, hjson, hresult⟩ : ∃ fields, call.commitJson r = .object fields ∧
        resultField fields = .ok (envelopeFields r) := by
      refine ⟨_, rfl, ?_⟩
      simp [resultField, Dict.get, envelope, dict, envelopeFields, List.lookup_cons]
    have hdistinct := distinct_commitJson call hr
    rw [hjson] at hsend hdistinct
    rw [receive_send hK hdistinct hsend]
    split
    · exact .inl hresult
    · exact .inr ⟨_, rfl⟩
  have hmem := hc.coherent.post_of_returned hstart hreturned (handleEffectAction_commit hbody) rfl
  exact mem_ranBy.mp hmem

theorem committed_row {o : Dev.Circumstance} {j j' : Journal} {id : String} {result : Dict}
    (h : Step.run o (.recordCommit id result) j = (.ok true, j')) :
    ∃ e ∈ j'.effects, e.id = id ∧ e.status = .committed ∧ e.result = some result := by
  have hupdate : j.updateEffect id .committed (some result) none = (.ok true, j') :=
    Step.run_of_ok h
  obtain ⟨-, heq⟩ | ⟨row, hrow, hid, ⟨-, heq⟩ | ⟨-, heq⟩⟩ :=
    j.updateEffect_cases id .committed (some result) none
  · cases hupdate.symm.trans heq
  · cases hupdate.symm.trans heq
  · obtain ⟨-, rfl⟩ := Prod.mk.inj (hupdate.symm.trans heq)
    exact ⟨_, Journal.mem_setEffect hrow hid .committed (some result) none, hid, rfl, rfl⟩

/-- What has happened since the commit `t` of an effect was written. -/
def SinceCommit (c : Moment V) (t : ℕ) (e : String) (after : List (Event (devServer V))) : Prop :=
  ∃ earlier d, c.trace = earlier ++ .ran t (.recordCommit e d) (.ok true) :: after

/-- The requests of a decorated call have started among some events. -/
def StartedIn (events : List (Event (devServer V))) (entries : List Entry) : Prop :=
  ∀ u q reply, .exchanged u q reply ∈ entries →
    ∃ req, Event.started (M := devServer V) u req ∈ events

/-- The effect of a decorated call that has committed its result. -/
structure Committed (K : Codec) (c d : Moment V) (json r : PyValue) (e : Dev.EffectRow) :
    Prop where
  arises : Arises V unguarded d
  rest : Run unguarded d c
  mem : e ∈ d.store.effects
  status : e.status = .committed
  result : e.result = some (envelopeFields r)
  /-- The intercept names the signature of the effect. -/
  calls : ∃ content, K.send json = some content ∧ ∀ headers, ∃ tool,
    Calls V (.toolCall headers (receive K content)) tool e.signature
  written : (K.dumps (envelope r)).isSome = true

theorem calls_of_execute (hK : K.Lawful) (hc : Arises V unguarded c) {decision : InterceptResponse}
    (hexchange : Exchange K c t (.intercept headers json) reply response)
    (hdecision : interceptResponse K response = .ok decision)
    (houtcome : decision.outcome = .execute) (hid : decision.effectId = some e) :
    ∃ content tool, K.send json = some content ∧ ∃ row ∈ c.store.effects, row.id = e ∧
      Calls V (.toolCall headers (receive K content)) tool row.signature := by
  obtain ⟨req, stamp, hreq, hstart, hreturned, hrespond⟩ := hexchange
  obtain ⟨content, hsend, rfl⟩ := Option.map_eq_some_iff.mp hreq
  refine ⟨content, ?_⟩
  rcases calls_of_reply hc (refuses_receive K content) hstart hreturned with
    ⟨tool, signature, hcalls⟩ | ⟨error, rfl, herror⟩
  · have hanswer := answer_of_returned hc hstart hcalls hreturned
    have hreply := executed_of_execute hK hanswer hrespond hdecision houtcome
    rw [hreply, hid] at hreturned
    obtain ⟨row, hrow, hrowid, rfl⟩ := executed_row hc hstart hcalls hreturned
    exact ⟨tool, hsend, row, hrow, hrowid, hcalls⟩
  · have hstatus : 400 ≤ response.status := by
      obtain ⟨body, content, -, -, rfl⟩ := respond_some hrespond
      exact herror
    obtain ⟨e', hrefused⟩ := interceptResponse_refused hstatus (K := K)
    cases hdecision.symm.trans hrefused

/-- A decorated call that has committed its result leaves a committed effect, and the commit
was written at one moment of the run. -/
theorem exists_committed (hK : K.Lawful) (hc : Arises V unguarded c) (hr : r.Distinct)
    {first : List Entry} (hfirst : Conducts K c (wrapper K .compensable call) first (.ok r))
    (hcommit : .exchanged t (.commit e json) (.committed e) ∈ first) :
    ∃ after d row, SinceCommit c t e after ∧ c.trace = d.trace ++ after ∧ row.id = e ∧
      Committed K c d call.json r row := by
  obtain ⟨-, t₁, reply₁, response₁, decision, response, hintercept, hdecision, houtcome, hid,
    hreport⟩ := first_call hfirst hcommit
  obtain ⟨content, tool, hsend, row, hrow, hrowid, hcalls⟩ :=
    calls_of_execute hK hc hintercept hdecision houtcome hid
  obtain ⟨earlier, after, htrace⟩ := List.append_of_mem (performed_commit hK hc hr hreport)
  obtain ⟨d, choice, d', hrec⟩ := hc.recorded htrace
  obtain ⟨o, next, -, -, hrun⟩ := run_of_ran hrec.step hrec.trace'
  obtain ⟨row', hrow', hrowid', hstatus, hresult⟩ := committed_row hrun
  -- the row that was written and the row of the intercept are one
  obtain ⟨row'', hrow'', hsame⟩ := effect_run hrec.reachable' hrec.rest hrow'
  have hrows : row = row'' :=
    (journal_sound hc).ids.eq hrow hrow'' (hrowid.trans (hrowid'.symm.trans hsame.id.symm))
  have hsignature : row.signature = row'.signature := by rw [hrows, hsame.signature]
  have hafter : c.trace = d'.trace ++ after := by
    rw [htrace, hrec.trace', hrec.trace, List.append_assoc]
    rfl
  have hwritten : (K.dumps (envelope r)).isSome = true := by
    obtain ⟨req, stamp, hreq, -⟩ := hreport
    obtain ⟨report, hreport, -⟩ := Option.map_eq_some_iff.mp hreq
    have hdumps := hK.dumps_of_send (call.commitJson r) (by rw [hreport]; rfl)
    exact (hK.dumps_object _).mp hdumps ("result".toList, envelope r) (by simp)
  refine ⟨after, d', row', ⟨earlier, _, htrace⟩, hafter, hrowid', hrec.reachable', hrec.rest, hrow',
    hstatus, hresult, ⟨content, hsend, fun headers => ⟨tool, ?_⟩⟩, hwritten⟩
  rw [← hsignature]
  obtain ⟨⟨_, _, heq, hbody⟩, htool⟩ := hcalls
  cases heq
  exact ⟨⟨headers, _, rfl, hbody⟩, htool⟩

theorem decision_envelope (hK : K.Lawful) (hr : r.Distinct) {id : String}
    (h : respond K stamp (.replayed id (some (envelopeFields r))) = some response) :
    interceptResponse K response = .ok ⟨.replay, some id, none, .object (envelopeFields r)⟩ := by
  obtain ⟨v, hdecision, hv⟩ := decision_replayed hK h
  obtain ⟨stored, hstored, hloads⟩ := Option.bind_eq_some_iff.mp (hv _ rfl)
  rw [hK.loads_dumps _ stored (distinct_envelope hr) hstored] at hloads
  cases hloads
  exact hdecision

theorem unwrapReplayResult_envelope (r : PyValue) :
    unwrapReplayResult (.object (envelopeFields r)) = r := by
  simp [unwrapReplayResult, Dict.get, envelopeFields, List.lookup_cons]

theorem later_call (hK : K.Lawful) (hc : Arises V unguarded c) (hr : r.Distinct)
    (hrow : Committed K c d call.json r row) {later : List Entry}
    (hlater : Conducts K c (wrapper K .compensable call) later outcome)
    (htold : ∀ u q reply, .exchanged u q reply ∈ later → Told row u c) :
    outcome = .ok r ∧ ∀ x, .ran x ∉ later := by
  obtain ⟨t, reply, response, rest, rfl, hexchange, hnext⟩ := conducts_wrapper hlater
  obtain ⟨req, stamp, hreq, hstart, hreturned, hrespond⟩ := hexchange
  obtain ⟨content, hsend, rfl⟩ := Option.map_eq_some_iff.mp hreq
  obtain ⟨content', hsend', hcalls⟩ := hrow.calls
  obtain rfl := Option.some.inj (hsend.symm.trans hsend')
  obtain ⟨tool, hcalls⟩ := hcalls call.headers
  have hreply := (htold t _ reply List.mem_cons_self).reply hc hcalls hstart hreturned
  rw [hreply, hrow.result] at hrespond
  have hreplay := decision_envelope hK hr hrespond
  obtain ⟨decision, hdecision, hfollow⟩ | ⟨e, hrefused, -⟩ := hnext
  · cases hdecision.symm.trans hreplay
    obtain ⟨rfl, rfl⟩ := hfollow
    rw [unwrapReplayResult_envelope]
    refine ⟨rfl, fun x hx => ?_⟩
    cases List.mem_singleton.mp hx
  · cases hrefused.symm.trans hreplay

theorem exists_respond (hK : K.Lawful) (hr : r.Distinct) (id : String)
    (hwritten : (K.dumps (envelope r)).isSome = true) (stamp : Stamp) :
    ∃ response, respond K stamp (.replayed id (some (envelopeFields r))) = some response := by
  obtain ⟨stored, hstored⟩ := Option.isSome_iff_exists.mp hwritten
  have hjournaled : journaled K (envelopeFields r) = some (.object (envelopeFields r)) := by
    have hloads := hK.loads_dumps _ stored (distinct_envelope hr) hstored
    refine Option.bind_eq_some_iff.mpr ⟨stored, hstored, ?_⟩
    rw [hloads]
    rfl
  have hdumps : (K.dumps (dict [("status", text "replayed"), ("effect_id", text id),
      ("result", envelope r)])).isSome = true := by
    refine (hK.dumps_object _).mpr ?_
    simp only [List.map_cons, List.map_nil, List.forall_mem_cons]
    exact ⟨hK.dumps_string _, hK.dumps_string _, hwritten, by simp⟩
  obtain ⟨content, hcontent⟩ := Option.isSome_iff_exists.mp hdumps
  refine ⟨⟨200, content⟩, Option.bind_eq_some_iff.mpr ⟨_, ?_,
    Option.bind_eq_some_iff.mpr ⟨content, hcontent, rfl⟩⟩⟩
  exact Option.map_eq_some_iff.mpr ⟨_, hjournaled, rfl⟩

theorem exists_later_call (hK : K.Lawful) (hc : Arises V unguarded c) (hr : r.Distinct)
    (hrow : Committed K c d call.json r row) (hkeeps : Keeps row c.store) :
    ∃ c' later, Run unguarded c c' ∧
      Conducts K c' (wrapper K .compensable call) later (.ok r) ∧ ∀ x, .ran x ∉ later := by
  obtain ⟨content, hsend, hcalls⟩ := hrow.calls
  obtain ⟨tool, hcalls⟩ := hcalls call.headers
  obtain ⟨row', hlookup, hid, hstatus, hresult⟩ := hkeeps.found (journal_sound hc)
  obtain ⟨j, hsolo⟩ : ∃ j, solo (M := devServer V) c.next [{}, {}]
      ((devServer V).program (.toolCall call.headers (receive K content))) c.store =
        some (.ok (.replayed row'.id row'.result), j) :=
    solo_replayed hcalls hlookup hstatus c.next rfl rfl
  obtain ⟨c', hrun, -, hreturned⟩ := exists_run_of_solo hsolo
  have hstart := started_of_runGuarded hrun
  obtain ⟨response, hrespond⟩ := exists_respond hK hr row'.id hrow.written ⟨"", ""⟩
  rw [hresult, hrow.result] at hreturned
  have hexchange : Exchange K c' c.next (.intercept call.headers call.json)
      (.replayed row'.id (some (envelopeFields r))) response :=
    ⟨_, _, Option.map_eq_some_iff.mpr ⟨content, hsend, rfl⟩, hstart, hreturned, hrespond⟩
  refine ⟨c', [.exchanged c.next _ _], Run.of_runGuarded hrun,
    ⟨c.next, _, response, [], rfl, hexchange, ?_⟩, by simp⟩
  change Conducts K c' (Program.bind (.done (interceptResponse K response)) (follow K call)) [] _
  rw [decision_envelope hK hr hrespond]
  exact ⟨rfl, by rw [unwrapReplayResult_envelope]⟩

/-- A decorated call whose commit has succeeded has run the body. As long as nothing has set its
effect since the commit was written, every later call with the same session, step, tool and
arguments returns the same result without running the body, and a call that runs alone on a free
database does return. -/
theorem replay_transparent (hK : K.Lawful) (hc : Arises V unguarded c) {r json : PyValue}
    (hr : r.Distinct) {first : List Entry}
    (hfirst : Conducts K c (wrapper K .compensable call) first (.ok r)) {t : ℕ} {e : String}
    (hcommit : .exchanged t (.commit e json) (.committed e) ∈ first) (orgId : String) :
    .ran (.ok r) ∈ first ∧ ∃ after, SinceCommit c t e after ∧ (Quiet e after →
      (∀ later outcome, Conducts K c (wrapper K .compensable { call with orgId }) later outcome →
        StartedIn after later → outcome = .ok r ∧ ∀ x, .ran x ∉ later) ∧
      ∃ c' later, Run unguarded c c' ∧
        Conducts K c' (wrapper K .compensable { call with orgId }) later (.ok r) ∧
        ∀ x, .ran x ∉ later) := by
  refine ⟨(first_call hfirst hcommit).1, ?_⟩
  obtain ⟨after, d, row, hsince, hafter, rfl, hrow⟩ := exists_committed hK hc hr hfirst hcommit
  refine ⟨after, hsince, fun hquiet => ?_⟩
  have hrow' : Committed K c d ({ call with orgId } : Invocation).json r row := hrow
  have hkept : ∀ {u : ℕ}, d.next ≤ u → Keeps row c.store ∧ Told row u c :=
    kept_told_quiet hrow.arises hrow.rest hafter hquiet hrow.mem hrow.status
  constructor
  · intro later outcome hlater hstarted
    refine later_call hK hc hr hrow' hlater fun u q reply hmem => ?_
    obtain ⟨req, hstart⟩ := hstarted u q reply hmem
    obtain ⟨-, after', hafter', hnew⟩ := hrow.rest.started
    rw [List.append_cancel_left (hafter.symm.trans hafter')] at hstart
    exact (hkept (hnew u req hstart)).2
  · exact exists_later_call hK hc hr hrow' (hkept (Nat.le_refl d.next)).1

/-! ## A codec for values without floats -/

open Canonical Canonical.Python

/-- A number is an integer. -/
def IsInt : Python.Number → Prop
  | .int _ => True
  | .float _ => False

instance : DecidablePred IsInt
  | .int _ => isTrue trivial
  | .float _ => isFalse id

/-- A value without floats. -/
abbrev Floatless (v : PyValue) : Prop := v.All (fun _ => True) (fun _ => True) IsInt

/-- The literals of JSON, with every number read as an integer. -/
def integerReader : Reader (List Char) Python.Number where
  key := readString
  string := readString
  number := fun text => (readNumber text).map fun x => (.int ⌊x.1⌋, x.2)

theorem integerReader_reads (L : FloatLibrary) :
    integerReader.Reads (style L).unordered id (fun _ => True) (fun _ => True) IsInt where
  key := (reads L).key
  string := (reads L).string
  number n hn rest hrest := by
    cases n with
    | int i =>
      have hread : readNumber (integer i ++ rest) = some ((i : ℚ), rest) :=
        readNumber_integer i hrest
      change (readNumber (integer i ++ rest)).map _ = _
      rw [hread]
      simp
    | float x => exact hn.elim
  key_start := (reads L).key_start
  string_start := (reads L).string_start
  number_start := (reads L).number_start

/-- The text of a value without floats, one byte for each character. -/
noncomputable def writeText (v : PyValue) : Option Stream.Bytes :=
  if Floatless v then
    some (((style FloatLibrary.standard).unordered.print v).map fun c => UInt8.ofNat c.toNat)
  else none

/-- The value of a text. -/
def readText (content : Stream.Bytes) : Except Connection.LoadError PyValue :=
  match integerReader.parse (content.map fun b => Char.ofNat b.toNat) with
  | some v => if v.Distinct then .ok v else .error .jsonDecode
  | none => .error .jsonDecode

noncomputable def sampleCodec : Codec := ⟨writeText, writeText, readText, fun _ => ""⟩

theorem readText_writeText {v : PyValue} {content : Stream.Bytes} (hv : v.Distinct)
    (h : writeText v = some content) : readText content = .ok v := by
  rw [writeText] at h
  split at h
  · next hfloatless =>
    cases h
    have hchars : (((style FloatLibrary.standard).unordered.print v).map fun c =>
        UInt8.ofNat c.toNat).map (fun b => Char.ofNat b.toNat) =
          (style FloatLibrary.standard).unordered.print v := by
      rw [List.map_map]
      refine (List.map_congr_left fun c hc => ?_).trans (List.map_id _)
      have hascii : c.toNat < 0x80 := (style FloatLibrary.standard).unordered.forall_mem_print
        ascii_punctuation ascii_escapeJsonString ascii_escapeJsonString
        (ascii_numberText FloatLibrary.standard) v c hc
      simp [toNat_ofNat_ascii hascii]
    have hparse := Reader.parse_print (integerReader_reads FloatLibrary.standard) v
      (hfloatless.imp (fun _ _ _ _ => trivial) (fun _ h => h) fun _ h => h)
    rw [Value.sorted_unordered, Value.map_id] at hparse
    rw [readText, hchars, hparse]
    exact if_pos hv
  · cases h

theorem sampleCodec_lawful : sampleCodec.Lawful where
  loads_send v content := readText_writeText
  loads_dumps v content := readText_writeText
  distinct_loads content v h := by
    change readText content = .ok v at h
    rw [readText] at h
    split at h
    · split at h
      · next hdistinct =>
        cases h
        exact hdistinct
      · cases h
    · cases h
  loads_nil := rfl
  dumps_of_send v h := h
  dumps_object fields := by
    change (writeText _).isSome = true ↔ ∀ f ∈ fields, (writeText f.2).isSome = true
    simp [writeText, Value.All]
  dumps_string s := by
    change (writeText (.string s)).isSome = true
    simp [writeText, Value.All]

/-! ## A log entry that is replayed -/

/-- A call of a tool that is not gated. -/
def logCall : Invocation := ⟨"o", sessionText, 0, "log", []⟩

/-- A result that has an output of its own. -/
def logResult : PyValue := .object [("output".toList, .number (.int 1))]

/-- The fields of an object. -/
def fieldsOf : PyValue → Dict
  | .object fields => fields
  | _ => []

def logIntercept : Request := .toolCall logCall.headers (.ok (fieldsOf logCall.json))

def logCommit : Request := .effect "e" .commit (.ok (fieldsOf (logCall.commitJson logResult)))

/-- Whether a step sets an effect. -/
def setsTest (id : String) : Event (devServer V) → Bool
  | .ran _ st _ => (Step.sets st).map Prod.fst = some id
  | _ => false

/-- Whether a commit was answered. -/
def committedReply (t : ℕ) (id : String) (c : Moment V) : Bool :=
  c.trace.any fun
    | .returned u (.ok (.committed effectId)) => u = t && effectId = id
    | _ => false

theorem exists_sent {fields : Dict} (hfloatless : Floatless (.object fields))
    (hdistinct : (Value.object fields : PyValue).Distinct)
    (hlength : ((style FloatLibrary.standard).unordered.print (.object fields)).length ≤
      Connection.maxBodyBytes) : ∃ content, sampleCodec.send (.object fields) = some content ∧
      receive sampleCodec content = .ok fields := by
  have hsend : sampleCodec.send (.object fields) = some _ := if_pos hfloatless
  refine ⟨_, hsend, ?_⟩
  rw [receive_send sampleCodec_lawful hdistinct hsend, if_pos]
  rwa [List.length_map]

theorem exists_written {body : PyValue} (stamp : Stamp)
    (hpayload : payload sampleCodec stamp reply = some body) (hfloatless : Floatless body) :
    ∃ response, respond sampleCodec stamp reply = some response := by
  have hdumps : sampleCodec.dumps body = some _ := if_pos hfloatless
  exact ⟨_, Option.bind_eq_some_iff.mpr ⟨body, hpayload,
    Option.bind_eq_some_iff.mpr ⟨_, hdumps, rfl⟩⟩⟩

theorem log_run : ∃ c : Moment sampleServer, Arises sampleServer unguarded c ∧
    Started c 0 logIntercept ∧ Returned c 0 (.ok (.executed (some "e"))) ∧
    Started c 1 logCommit ∧ Returned c 1 (.ok (.committed "e")) ∧
    c.trace.countP (setsTest "e") = 1 := by
  have hrun : (runGuarded unguarded emptyServer
      [.start logIntercept, .run 0 {}, .run 0 ⟨"e", 0, false⟩, .finish 0]).any (fun d =>
        d.next = 1 && executedTest 0 "e" d && (runGuarded unguarded d
          [.start logCommit, .run 1 {}, .finish 1]).any fun c =>
            committedReply 1 "e" c && (c.trace.countP (setsTest "e") = 1)) = true := by
    decide +kernel
  obtain ⟨d, hd, htest⟩ := (Option.any_eq_true _ _).mp hrun
  simp only [Bool.and_eq_true, Option.any_eq_true, decide_eq_true_eq] at htest
  obtain ⟨⟨hnext, hexecuted⟩, c, hc, hcommitted, hcount⟩ := htest
  have hrest := Run.of_runGuarded hc
  have hstart := started_of_runGuarded hd
  have hstart' := started_of_runGuarded hc
  rw [hnext] at hstart'
  refine ⟨c, (Reachable.initial blank_empty).run ((Run.of_runGuarded hd).trans hrest),
    hrest.trace.subset hstart, hrest.trace.subset (returned_of_executedTest hexecuted), hstart',
    ?_, hcount⟩
  obtain ⟨event, hmem, hevent⟩ := List.any_eq_true.mp hcommitted
  split at hevent
  · next u effectId =>
    obtain ⟨rfl, rfl⟩ : u = 1 ∧ effectId = "e" := by simpa using hevent
    exact hmem
  · cases hevent

theorem quiet_of_countP {id : String} {after : List (Event (devServer V))}
    (hcount : c.trace.countP (setsTest id) = 1) (hsince : SinceCommit c t id after) :
    Quiet id after := by
  obtain ⟨earlier, result, htrace⟩ := hsince
  rw [htrace, List.countP_append, List.countP_cons_of_pos (by simp [setsTest, Step.sets])] at hcount
  have hnone : after.countP (setsTest id) = 0 := by omega
  intro u st reply hmem hsets
  exact List.countP_eq_zero.mp hnone _ hmem (by simpa [setsTest] using hsets)

/-- What the first call of the log entry does. -/
def logEntries : List Entry :=
  [.exchanged 0 (.intercept logCall.headers logCall.json) (.executed (some "e")),
    .ran (.ok logResult),
    .exchanged 1 (.commit "e" (logCall.commitJson logResult)) (.committed "e")]

theorem log_conducts {c : Moment sampleServer} (hintercept : Started c 0 logIntercept)
    (hexecuted : Returned c 0 (.ok (.executed (some "e")))) (hcommit : Started c 1 logCommit)
    (hcommitted : Returned c 1 (.ok (.committed "e"))) :
    Conducts sampleCodec c (wrapper sampleCodec .compensable logCall) logEntries
      (.ok logResult) := by
  obtain ⟨content, hsend, hreceive⟩ : ∃ content, sampleCodec.send logCall.json = some content ∧
      receive sampleCodec content = .ok (fieldsOf logCall.json) :=
    exists_sent (by decide +kernel) (by decide +kernel) (by decide +kernel)
  obtain ⟨content', hsend', hreceive'⟩ : ∃ content,
      sampleCodec.send (logCall.commitJson logResult) = some content ∧
        receive sampleCodec content = .ok (fieldsOf (logCall.commitJson logResult)) :=
    exists_sent (by decide +kernel) (by decide +kernel) (by decide +kernel)
  obtain ⟨response, hrespond⟩ :
      ∃ response, respond sampleCodec ⟨"", ""⟩ (.executed (some "e")) = some response :=
    exists_written _ rfl (by decide +kernel)
  obtain ⟨response', hrespond'⟩ :
      ∃ response, respond sampleCodec ⟨"", ""⟩ (.committed "e") = some response :=
    exists_written _ rfl (by decide +kernel)
  have hfirst : Exchange sampleCodec c 0 (.intercept logCall.headers logCall.json)
      (.executed (some "e")) response := by
    refine ⟨logIntercept, _, ?_, hintercept, hexecuted, hrespond⟩
    rw [HttpRequest.request, hsend, Option.map_some, hreceive]
    rfl
  have hsecond : Exchange sampleCodec c 1 (.commit "e" (logCall.commitJson logResult))
      (.committed "e") response' := by
    refine ⟨logCommit, _, ?_, hcommit, hcommitted, hrespond'⟩
    rw [HttpRequest.request, hsend', Option.map_some, hreceive']
    rfl
  refine ⟨0, _, response, _, rfl, hfirst, ?_⟩
  change Conducts sampleCodec c (Program.bind (.done (interceptResponse sampleCodec response))
    (follow sampleCodec logCall)) _ _
  rw [decision_executed sampleCodec_lawful hrespond]
  refine ⟨.ok logResult, _, rfl, 1, _, response', [], rfl, hsecond, ?_⟩
  have hreport : reportResponse sampleCodec response' = .ok () := by
    obtain ⟨hstatus, hloads⟩ := loads_respond sampleCodec_lawful rfl (by decide +kernel) hrespond'
    rw [reportResponse, checkStatus, hstatus, hloads]
    rfl
  change Conducts sampleCodec c (Program.bind (.done (reportResponse sampleCodec response'))
    fun _ => .done (.ok logResult)) [] _
  rw [hreport]
  exact ⟨rfl, rfl⟩

/-- A second call of the log entry gets its result without running the body. -/
theorem log_replayed : ∃ c c' : Moment sampleServer, ∃ later, Arises sampleServer unguarded c ∧
    Run unguarded c c' ∧
    Conducts sampleCodec c' (wrapper sampleCodec .compensable logCall) later (.ok logResult) ∧
    ∀ x, .ran x ∉ later := by
  obtain ⟨c, hc, hintercept, hexecuted, hcommit, hcommitted, hcount⟩ := log_run
  have hfirst := log_conducts hintercept hexecuted hcommit hcommitted
  have hmem : .exchanged 1 (.commit "e" (logCall.commitJson logResult)) (.committed "e") ∈
      logEntries := by
    simp [logEntries]
  obtain ⟨-, after, hsince, hreplay⟩ := replay_transparent sampleCodec_lawful hc
    (show logResult.Distinct by decide +kernel) hfirst hmem "o"
  obtain ⟨-, c', later, hrun, hlater, hbody⟩ := hreplay (quiet_of_countP hcount hsince)
  exact ⟨c, c', later, hc, hrun, hlater, hbody⟩

end UndoLog.Sdk
