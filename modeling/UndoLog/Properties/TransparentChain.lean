import UndoLog.Proxy.Plugins

/-!
# Plugins do not change responses

The chain is transparent if each `After` hook runs once, in reverse order and before the final
status reaches the writer underneath, and if the client gets the status and the body that the
handler would have produced without the chain. A handler that writes nothing never commits. One
that starts with an informational status commits with it, and its final status is dropped.
-/

namespace UndoLog.Proxy

variable {ρ : Type} {rules : ServerRules}

/-! ## What a handler sends -/

/-- Whether an operation only sets the status. -/
def WriterOp.isHeader : WriterOp → Bool
  | .writeHeader _ => true
  | _ => false

/-- The status with which an operation commits a response. -/
def WriterOp.commitStatus : WriterOp → ℕ
  | .writeHeader status => status
  | _ => 200

/-- The final status of a handler on the bare writer: the first one that is not informational,
or 200 once a body or a flush comes first. -/
def finalStatus (rules : ServerRules) : List WriterOp → ℕ
  | .writeHeader status :: rest =>
    if rules.informational status then finalStatus rules rest else status
  | _ => 200

/-- The data that a handler writes. -/
def writesOf : List WriterOp → List (List UInt8)
  | [] => []
  | .write data :: rest => data :: writesOf rest
  | _ :: rest => writesOf rest

/-- The data that fits a declared length, when some bytes have been offered before. -/
def fitting (limit : Option ℕ) : ℕ → List (List UInt8) → List UInt8
  | _, [] => []
  | offered, data :: rest =>
    (if limit.all (offered + data.length ≤ ·) then data else []) ++
      fitting limit (offered + data.length) rest

/-- The body of a response with the given status and headers. -/
def bodySent (rules : ServerRules) (status : ℕ) (headers : Headers) (offered : ℕ)
    (data : List (List UInt8)) : List UInt8 :=
  if rules.permitsBody status then fitting (rules.declaredLength headers) offered data else []

theorem finalStatus_of_not_header {op : WriterOp} (hop : op.isHeader = false)
    (rest : List WriterOp) : finalStatus rules (op :: rest) = 200 := by
  cases op with
  | writeHeader status => cases hop
  | write | flush => rfl

@[simp] theorem writesOf_filter (ops : List WriterOp) :
    writesOf (ops.filter (!·.isHeader)) = writesOf ops := by
  induction ops with
  | nil => rfl
  | cons op rest ih => cases op <;> simpa [writesOf, WriterOp.isHeader] using ih

@[simp] theorem finalStatus_filter (ops : List WriterOp) :
    finalStatus rules (ops.filter (!·.isHeader)) = 200 := by
  induction ops with
  | nil => rfl
  | cons op rest ih =>
    cases op with
    | writeHeader status => simpa [WriterOp.isHeader] using ih
    | write | flush => rfl

namespace Response

variable {r : Response} {status : ℕ} {headers : Headers}

theorem run_cons (r : Response) (op : WriterOp) (rest : List WriterOp) :
    r.run rules (op :: rest) = (r.step rules op).run rules rest := rfl

theorem writeHeader_of_head (h : r.head = some (status, headers)) (code : ℕ) :
    r.writeHeader rules code = r := by
  simp only [writeHeader, h]

theorem writeHeader_informational (h : r.head = none) (hinfo : rules.informational status = true) :
    r.writeHeader rules status = { r with informed := r.informed ++ [(status, r.headers)] } := by
  simp only [writeHeader, h, hinfo, if_true]

theorem writeHeader_final (h : r.head = none) (hinfo : rules.informational status = false) :
    r.writeHeader rules status = { r with head := some (status, r.headers) } := by
  simp only [writeHeader, h, hinfo]
  rfl

theorem send_head (data : List UInt8) : (r.send rules data status headers).head = r.head := by
  unfold send
  split
  · dsimp only
    split <;> rfl
  · rfl

/-- What the client gets of a response with a head: only the body grows. -/
theorem finish_run_of_head (h : r.head = some (status, headers)) (ops : List WriterOp) :
    ((r.run rules ops).finish rules).head = some (status, headers) ∧
      ((r.run rules ops).finish rules).body =
        r.body ++ bodySent rules status headers r.offered (writesOf ops) := by
  induction ops generalizing r with
  | nil =>
    have hfinish : (r.run rules []).finish rules = r := writeHeader_of_head h 200
    rw [hfinish]
    refine ⟨h, ?_⟩
    simp [bodySent, writesOf, fitting]
  | cons op rest ih =>
    rw [run_cons]
    cases op with
    | writeHeader | flush =>
      rw [step, writeHeader_of_head h]
      exact ih h
    | write data =>
      simp only [step, write, writeHeader_of_head h, h]
      obtain ⟨hfinal, hbody⟩ := ih ((send_head data).trans h)
      refine ⟨hfinal, hbody.trans ?_⟩
      change _ = r.body ++ bodySent rules status headers r.offered (data :: writesOf rest)
      unfold send bodySent
      by_cases hpermits : rules.permitsBody status = true
      · simp only [hpermits, if_true, fitting]
        split <;> simp
      · simp [hpermits]

theorem run_cons_of_not_header {op : WriterOp} (hop : op.isHeader = false)
    (h200 : rules.informational 200 = false) (h : r.head = none) (rest : List WriterOp) :
    r.run rules (op :: rest) = (r.writeHeader rules 200).run rules (op :: rest) := by
  have hhead : (r.writeHeader rules 200).head = some (200, r.headers) := by
    rw [writeHeader_final h h200]
  have hagain : (r.writeHeader rules 200).writeHeader rules 200 = r.writeHeader rules 200 :=
    writeHeader_of_head hhead 200
  rw [run_cons, run_cons]
  cases op with
  | writeHeader status => cases hop
  | write data => simp only [step, write, hagain]
  | flush => rw [step, step, hagain]

theorem finish_run_of_none (h200 : rules.informational 200 = false) (h : r.head = none)
    (ops : List WriterOp) :
    ((r.run rules ops).finish rules).head = some (finalStatus rules ops, r.headers) ∧
      ((r.run rules ops).finish rules).body =
        r.body ++ bodySent rules (finalStatus rules ops) r.headers r.offered (writesOf ops) := by
  induction ops generalizing r with
  | nil =>
    change (r.writeHeader rules 200).head = _ ∧ (r.writeHeader rules 200).body = _
    rw [writeHeader_final h h200]
    refine ⟨rfl, ?_⟩
    simp [bodySent, writesOf, fitting]
  | cons op rest ih =>
    by_cases hop : op.isHeader = true
    · cases op with
      | write | flush => cases hop
      | writeHeader status =>
        rw [run_cons, step, finalStatus]
        by_cases hinfo : rules.informational status = true
        · rw [writeHeader_informational h hinfo, if_pos hinfo]
          exact ih h
        · rw [writeHeader_final h (by simpa using hinfo), if_neg hinfo]
          exact finish_run_of_head rfl rest
    · have hdata : op.isHeader = false := by simpa using hop
      rw [run_cons_of_not_header hdata h200 h, finalStatus_of_not_header hdata,
        writeHeader_final h h200]
      exact finish_run_of_head rfl (op :: rest)

/-- What the client gets if the first operation sets the status: an informational one at the
beginning takes the place of the final one. -/
theorem finish_run_filter (h200 : rules.informational 200 = false) (h : r.head = none)
    (op : WriterOp) (rest : List WriterOp) {status : ℕ}
    (hstatus : status =
      if rules.informational op.commitStatus then 200 else finalStatus rules (op :: rest)) :
    (((r.writeHeader rules op.commitStatus).run rules
        ((op :: rest).filter (!·.isHeader))).finish rules).head = some (status, r.headers) ∧
      (((r.writeHeader rules op.commitStatus).run rules
          ((op :: rest).filter (!·.isHeader))).finish rules).body =
        r.body ++ bodySent rules status r.headers r.offered (writesOf (op :: rest)) := by
  rw [← writesOf_filter (op :: rest)]
  by_cases hinfo : rules.informational op.commitStatus = true
  · rw [if_pos hinfo] at hstatus
    rw [writeHeader_informational h hinfo, hstatus]
    have hnone : ({ r with informed := r.informed ++ [(op.commitStatus, r.headers)] } :
        Response).head = none := h
    have hrun := finish_run_of_none h200 hnone ((op :: rest).filter (!·.isHeader))
    rw [finalStatus_filter] at hrun
    exact hrun
  · have hcommitted : finalStatus rules (op :: rest) = op.commitStatus := by
      cases op with
      | writeHeader code =>
        rw [finalStatus]
        exact if_neg hinfo
      | write | flush => rfl
    rw [if_neg hinfo, hcommitted] at hstatus
    rw [writeHeader_final h (by simpa using hinfo), hstatus]
    exact finish_run_of_head rfl _

end Response

/-! ## What the chain makes of it -/

namespace CommitWriter

variable {w : CommitWriter ρ}

/-- The header map after the hooks. -/
def hooked (w : CommitWriter ρ) : Headers :=
  w.after.foldl (fun headers p => p.after w.request headers) w.response.headers

theorem run_cons (w : CommitWriter ρ) (op : WriterOp) (rest : List WriterOp) :
    w.run rules (op :: rest) = (w.step rules op).run rules rest := rfl

theorem foldl_runAfter (after : List (Plugin ρ)) (w : CommitWriter ρ) :
    after.foldl runAfter w = { w with
      response := { w.response with
        headers := after.foldl (fun headers p => p.after w.request headers) w.response.headers }
      log := w.log ++ after.map (ChainEvent.after ·.name) } := by
  induction after generalizing w with
  | nil => simp
  | cons p rest ih =>
    rw [List.foldl_cons, ih]
    simp [runAfter]

theorem commit_of_committed (h : w.committed = true) (status : ℕ) : w.commit rules status = w := by
  rw [commit, if_pos h]

theorem commit_first (h : w.committed = false) (status : ℕ) : w.commit rules status = { w with
      committed := true
      response := ({ w.response with headers := w.hooked }).writeHeader rules status
      log := w.log ++ w.after.map (ChainEvent.after ·.name) ++
        [.passed (.writeHeader status)] } := by
  rw [commit, if_neg (by simp [h]), foldl_runAfter]
  rfl

theorem run_committed (h : w.committed = true) (ops : List WriterOp) : w.run rules ops = { w with
      response := w.response.run rules (ops.filter (!·.isHeader))
      log := w.log ++ (ops.filter (!·.isHeader)).map .passed } := by
  induction ops generalizing w with
  | nil => simp [run, Response.run]
  | cons op rest ih =>
    rw [run_cons]
    cases op with
    | writeHeader status =>
      rw [step, commit_of_committed h, ih h]
      simp [WriterOp.isHeader]
    | write | flush =>
      rw [step, commit_of_committed h, ih (by exact h)]
      simp [pass, Response.run, WriterOp.isHeader]

theorem run_first (h : w.committed = false) (op : WriterOp) (rest : List WriterOp) :
    w.run rules (op :: rest) = (w.commit rules op.commitStatus).run rules (op :: rest) := by
  have hcommitted : ∀ status, (w.commit rules status).committed = true := by
    intro status
    rw [commit_first h]
  rw [run_cons, run_cons]
  cases op with
  | writeHeader | write | flush =>
    simp only [step, WriterOp.commitStatus, commit_of_committed (hcommitted _)]

end CommitWriter

/-! ## Transparency -/

/-- The hook that an event is the run of. -/
def ChainEvent.hook? : ChainEvent → Option String
  | .after name => some name
  | .passed _ => none

/-- Whether an event sends the final status line, if it is not out yet. -/
def ChainEvent.isFinal (rules : ServerRules) : ChainEvent → Bool
  | .after _ => false
  | .passed (.writeHeader status) => !rules.informational status
  | .passed _ => true

/-- What a request leaves behind the chain is what it leaves on the bare writer, and the hooks
of the plugins run as they should. -/
structure Transparent (rules : ServerRules) (plugins : List (Plugin ρ))
    (served : Response × List ChainEvent) (bare : Response) : Prop where
  hooks_once : served.2.filterMap ChainEvent.hook? = (plugins.map (·.name)).reverse
  hooks_early : ∃ early late, served.2 = early ++ late ∧
    (∀ e ∈ early, e.isFinal rules = false) ∧ ∀ e ∈ late, e.hook? = none
  status_eq : (served.1.finish rules).status? = (bare.finish rules).status?
  body_eq : (served.1.finish rules).body = (bare.finish rules).body

/-- The headers after the hooks of all plugins. -/
def hookedHeaders (plugins : List (Plugin ρ)) (request : ρ) (headers : Headers) : Headers :=
  plugins.reverse.foldl (fun headers p => p.after request headers) headers

/-- The handler does something, does not begin with an informational status that a final one
other than 200 follows, and writes a body of which the lengths declared with and without the
hooks let the same through. -/
structure CommitsFinally (rules : ServerRules) (plugins : List (Plugin ρ)) (request : ρ)
    (headers : Headers) (ops : List WriterOp) : Prop where
  acts : ops ≠ []
  begins : ∀ status, ops.head? = some (.writeHeader status) →
    rules.informational status = true → finalStatus rules ops = 200
  fits : rules.permitsBody (finalStatus rules ops) = true →
    fitting (rules.declaredLength (hookedHeaders plugins request headers)) 0 (writesOf ops) =
      fitting (rules.declaredLength headers) 0 (writesOf ops)

variable {c : Chain ρ} {request request' : ρ}

/-- What the chain leaves of a handler that does something. -/
theorem thenServe_cons (hplugins : c.plugins ≠ [])
    (hbefore : runBefore c.plugins request = .ok request') (headers : Headers) (op : WriterOp)
    (rest : List WriterOp) : c.thenServe rules (fun _ => op :: rest) request headers =
      (((Response.new (hookedHeaders c.plugins request' headers)).writeHeader rules
          op.commitStatus).run rules ((op :: rest).filter (!·.isHeader)),
        c.plugins.reverse.map (ChainEvent.after ·.name) ++ .passed (.writeHeader op.commitStatus) ::
            ((op :: rest).filter (!·.isHeader)).map .passed) := by
  unfold Chain.thenServe
  rw [if_neg (by simpa using hplugins), hbefore]
  dsimp only
  rw [CommitWriter.run_first rfl,
    CommitWriter.run_committed (by rw [CommitWriter.commit_first rfl]),
    CommitWriter.commit_first rfl]
  simp [CommitWriter.hooked, hookedHeaders, Response.new]

theorem begins_iff (op : WriterOp) (rest : List WriterOp) :
    (∀ status, (op :: rest).head? = some (.writeHeader status) →
      rules.informational status = true → finalStatus rules (op :: rest) = 200) ↔
    (if rules.informational op.commitStatus then 200 else finalStatus rules (op :: rest)) =
      finalStatus rules (op :: rest) := by
  by_cases hinfo : rules.informational op.commitStatus = true
  · rw [if_pos hinfo]
    constructor
    · intro h
      cases op with
      | writeHeader status => exact (h status rfl hinfo).symm
      | write | flush => exact (finalStatus_of_not_header rfl rest).symm
    · intro h _ _ _
      exact h.symm
  · rw [if_neg hinfo]
    refine ⟨fun _ => rfl, fun _ status hhead hstatus => ?_⟩
    obtain rfl : op = .writeHeader status := Option.some.inj hhead
    exact absurd hstatus hinfo

theorem bodySent_eq_iff {status : ℕ} {headers headers' : Headers} {data : List (List UInt8)} :
    bodySent rules status headers 0 data = bodySent rules status headers' 0 data ↔
      (rules.permitsBody status = true → fitting (rules.declaredLength headers) 0 data =
          fitting (rules.declaredLength headers') 0 data) := by
  unfold bodySent
  by_cases hpermits : rules.permitsBody status = true
  · simp [hpermits]
  · simp [hpermits]

/-- A chain whose plugins let the request pass is transparent if and only if the handler's first
operation commits the response for good. -/
theorem transparent_iff (h200 : rules.informational 200 = false) (c : Chain ρ)
    (hplugins : c.plugins ≠ []) (request request' : ρ)
    (hbefore : runBefore c.plugins request = .ok request') (headers : Headers)
    (ops : List WriterOp) :
    Transparent rules c.plugins (c.thenServe rules (fun _ => ops) request headers)
        ((Response.new headers).run rules ops) ↔
      CommitsFinally rules c.plugins request' headers ops := by
  cases ops with
  | nil =>
    refine iff_of_false (fun h => ?_) fun h => h.acts rfl
    have hlog := h.hooks_once
    rw [Chain.thenServe, if_neg (by simpa using hplugins), hbefore] at hlog
    simp [CommitWriter.run, hplugins] at hlog
  | cons op rest =>
    obtain ⟨hbareHead, hbareBody⟩ :=
      Response.finish_run_of_none (r := Response.new headers) h200 rfl (op :: rest)
    obtain ⟨hhead, hbody⟩ := Response.finish_run_filter
      (r := Response.new (hookedHeaders c.plugins request' headers)) h200 rfl op rest rfl
    rw [thenServe_cons hplugins hbefore]
    constructor
    · intro h
      have hstatus := h.status_eq
      rw [Response.status?, Response.status?, hhead, hbareHead] at hstatus
      have heq : (if rules.informational op.commitStatus then 200
          else finalStatus rules (op :: rest)) = finalStatus rules (op :: rest) :=
        Option.some.inj hstatus
      refine ⟨by simp, (begins_iff op rest).mpr heq, bodySent_eq_iff.mp ?_⟩
      have hsame := h.body_eq
      rw [hbody, hbareBody, heq] at hsame
      exact hsame
    · intro h
      have heq := (begins_iff op rest).mp h.begins
      refine ⟨?_, ⟨_, _, rfl, ?_, ?_⟩, ?_, ?_⟩
      · simp only [List.filterMap_append, List.filterMap_cons, List.filterMap_map]
        simp [ChainEvent.hook?, Function.comp_def]
      · exact List.forall_mem_map.mpr fun _ _ => rfl
      · exact List.forall_mem_cons.mpr ⟨rfl, List.forall_mem_map.mpr fun _ _ => rfl⟩
      · rw [Response.status?, Response.status?, hhead, hbareHead]
        exact congrArg some heq
      · rw [hbody, hbareBody, heq]
        exact bodySent_eq_iff.mpr h.fits

/-! ## A handler with early hints -/

/-- The rules of Go's `net/http`, where 101 is final and headers declare no length here. -/
def netHttp : ServerRules where
  informational := fun status => 100 ≤ status ∧ status ≤ 199 ∧ status ≠ 101
  permitsBody := fun status => ¬(100 ≤ status ∧ status ≤ 199) ∧ status ≠ 204 ∧ status ≠ 304
  declaredLength := fun _ => none

/-- A chain with the built-in header plugin, which sets a header of the request. -/
def headerChain : Chain Headers where
  plugins := [{
    name := "header"
    before := fun headers => (headers.set "X-Custom-Header" "undolog", {})
    after := fun _ headers => headers }]
  reject := fun _ status _ => [.writeHeader status]

/-- A handler that answers at once is served as it would be without the chain. -/
theorem transparent_of_notFound :
    CommitsFinally netHttp headerChain.plugins [("X-Custom-Header", "undolog")] []
      [.writeHeader 404, .write [110, 111]] ∧ Transparent netHttp headerChain.plugins
      (headerChain.thenServe netHttp (fun _ => [.writeHeader 404, .write [110, 111]]) [] [])
      ((Response.new []).run netHttp [.writeHeader 404, .write [110, 111]]) := by
  have hcommits : CommitsFinally netHttp headerChain.plugins [("X-Custom-Header", "undolog")] []
      [.writeHeader 404, .write [110, 111]] := by
    refine ⟨by decide, ?_, fun _ => rfl⟩
    intro status hhead hinfo
    obtain rfl : 404 = status := WriterOp.writeHeader.inj (Option.some.inj hhead)
    exact absurd hinfo (by decide)
  exact ⟨hcommits, (transparent_iff (by decide) headerChain (by decide) [] _ rfl [] _).mpr
    hcommits⟩

/-- Early hints before a 404 turn it into a 200, and a handler that writes nothing runs no
hook. -/
theorem not_transparent_of_earlyHints : ¬Transparent netHttp headerChain.plugins
      (headerChain.thenServe netHttp
        (fun _ => [.writeHeader 103, .writeHeader 404, .write [110, 111]]) [] [])
      ((Response.new []).run netHttp [.writeHeader 103, .writeHeader 404, .write [110, 111]]) ∧
    ((headerChain.thenServe netHttp
        (fun _ => [.writeHeader 103, .writeHeader 404, .write [110, 111]]) [] []).1.finish
      netHttp).status? = some 200 ∧ (((Response.new []).run netHttp
        [.writeHeader 103, .writeHeader 404, .write [110, 111]]).finish netHttp).status? =
      some 404 ∧ ¬Transparent netHttp headerChain.plugins
      (headerChain.thenServe netHttp (fun _ => []) [] []) ((Response.new []).run netHttp []) := by
  refine ⟨fun h => ?_, by decide, by decide, fun h => ?_⟩
  · exact absurd h.status_eq (by decide)
  · exact absurd h.hooks_once (by decide)

end UndoLog.Proxy
