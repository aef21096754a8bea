import UndoLog.Properties.ApprovalGate

/-!
# Committed results are replayed

Every later call with the signature of a committed effect is answered with its result, as long
as nothing updates the effect again. The updates of the journal do not look at the status they
replace: a late failure or rejection frees the signature, and a second commit replaces the
result.
-/

namespace UndoLog.Dev

open Concurrent Machine Relational

variable {V : Server} {guard : Guard (devServer V)} {c d : Moment V}

/-- A step does not change the status or the result of a committed effect. -/
def Step.KeepsCommitted (j : Journal) (st : Step) : Prop :=
  ∀ id status result error, st.sets = some (id, status, result, error) →
    ∀ e ∈ j.effects, e.id = id → e.status = .committed → status = .committed ∧ result = e.result

/-- No transaction changes the status or the result of a committed effect. -/
def CommittedKept (V : Server) : Guard (devServer V) :=
  onStatements fun c _ st => Step.KeepsCommitted c.store st

/-- The journal holds the committed effect `e` with its result. -/
def Keeps (e : EffectRow) (j : Journal) : Prop :=
  ∃ e' ∈ j.effects, e.SameCall e' ∧ e'.status = .committed ∧ e'.result = e.result

variable {t : ℕ} {st : Step} {e : EffectRow} {j : Journal} {j' : Journal}
  {choice : Choice (devServer V)} {req : Request} {call : ToolCall}

theorem Change.keeps_of_sets (h : Change j st j')
    (hsets : ∀ status result error, st.sets = some (e.id, status, result, error) →
      status = .committed ∧ result = e.result) (he : Keeps e j) : Keeps e j' := by
  obtain ⟨e', he', hsame, hstatus, hresult⟩ := he
  obtain ⟨e'', he'', hevolves⟩ := h.effect_persists he'
  refine ⟨e'', he'', hsame.trans hevolves.call, ?_⟩
  rcases hevolves.outcome with ⟨hstatus', hresult'⟩ | ⟨error, hset⟩
  · exact ⟨hstatus'.trans hstatus, hresult'.trans hresult⟩
  · rw [hevolves.call.id, hsame.id] at hset
    exact hsets _ _ _ hset

theorem Change.keeps (h : Change j st j') (hkeeps : st.KeepsCommitted j) (he : Keeps e j) :
    Keeps e j' := by
  refine h.keeps_of_sets (fun status result error hset => ?_) he
  obtain ⟨e', he', hsame, hstatus, hresult⟩ := he
  rw [← hresult]
  exact hkeeps _ _ _ _ hset e' he' hsame.id hstatus

theorem Journal.Sound.findLiveEffect_eq (hj : j.Sound) (he : e ∈ j.effects)
    (hlive : e.status.live = true) : j.findLiveEffect e.signature = some e := by
  have hsome : (j.findLiveEffect e.signature).isSome = true := by
    rw [Journal.findLiveEffect, List.find?_isSome]
    exact ⟨e, he, by simp [hlive]⟩
  obtain ⟨e', hfound⟩ := Option.isSome_iff_exists.mp hsome
  obtain ⟨he', hsignature, hlive'⟩ := Journal.findLiveEffect_some hfound
  have hid : e'.id = e.id :=
    hj.oneLive e' he' e he (EffectRow.clashes_iff.mpr ⟨hlive', hlive, hsignature⟩)
  rw [hfound, hj.ids.eq he' he hid]

/-- A lookup of the signature of a committed effect finds it. -/
theorem Keeps.found (h : Keeps e j) (hj : j.Sound) :
    ∃ e', j.findLiveEffect e.signature = some e' ∧ e'.id = e.id ∧ e'.status = .committed ∧
      e'.result = e.result := by
  obtain ⟨e', he', hsame, hstatus, hresult⟩ := h
  refine ⟨e', ?_, hsame.id, hstatus, hresult⟩
  rw [← hsame.signature]
  exact hj.findLiveEffect_eq he' (by rw [hstatus]; rfl)

/-- While a committed effect is kept, what a call with its signature is told by the journal. -/
structure Told (e : EffectRow) (t : ℕ) (c : Moment V) : Prop where
  found : ∀ found, Performed c t (.findLiveEffect e.signature) (.ok found) →
    ∃ e', found = some e' ∧ e'.id = e.id ∧ e'.status = .committed ∧ e'.result = e.result
  refused : ∀ new id, new.signature = e.signature → new.status.live = true →
    ¬ Performed c t (.createEffect new) (.ok (some id))

theorem Told.transition {c c' : Moment V} (h : Told e t c) (hj : Journal.Sound c.store)
    (hkeeps : Keeps e c.store) (htrans : Transition c choice c') : Told e t c' := by
  constructor
  · intro found hperformed
    rcases performed_cases htrans hperformed with hold | ⟨-, o, hrun⟩
    · exact h.found found hold
    · obtain ⟨e', hfound, hfacts⟩ := hkeeps.found hj
      have hlookup : Journal.findLiveEffect e.signature c.store = found :=
        Except.ok.inj (congrArg Prod.fst (Step.run_of_ok hrun))
      exact ⟨e', hlookup.symm.trans hfound, hfacts⟩
  · intro new id hsignature hlive hperformed
    rcases performed_cases htrans hperformed with hold | ⟨-, o, hrun⟩
    · exact h.refused new id hsignature hlive hold
    · have hcreate : Journal.createEffect new o.uuid o.now c.store = (.ok (some id), c'.store) :=
        Step.run_of_ok hrun
      obtain ⟨e', he', hsame, hstatus, -⟩ := hkeeps
      obtain ⟨-, heq⟩ | ⟨-, heq⟩ | ⟨-, hfree, -, -⟩ :=
        Journal.createEffect_cases new o.uuid o.now c.store
      · cases hcreate.symm.trans heq
      · cases hcreate.symm.trans heq
      · have hclash : e'.clashes (new.row o.uuid) = true :=
          EffectRow.clashes_iff.mpr ⟨by rw [hstatus]; rfl, hlive,
            hsame.signature.trans hsignature.symm⟩
        simp [hfree e' he'] at hclash

theorem told_start (hd : Arises V guard d) (e : EffectRow) (hlater : d.next ≤ t) : Told e t d := by
  have hfresh : ∀ {st : Step} {reply : Except Exception st.Ret}, ¬ Performed d t st reply := by
    intro st reply hperformed
    have hlt := hd.coherent.fresh _ hperformed t rfl
    omega
  exact ⟨fun found h => absurd h hfresh, fun new id _ _ => hfresh⟩

theorem kept_told_step {c c' : Moment V} (hc : Arises V guard c) (h : Keeps e c.store ∧ Told e t c)
    (htrans : Transition c choice c')
    (hkeep : ∀ u o st next, choice = .run u o → c.calls u = some (.call st next) →
      Change c.store st c'.store → Keeps e c'.store) : Keeps e c'.store ∧ Told e t c' := by
  obtain ⟨hkeeps, htold⟩ := h
  refine ⟨?_, htold.transition (journal_sound hc) hkeeps htrans⟩
  rcases store_cases htrans with heq | ⟨u, o, st, next, hchoice, hcall, heq⟩
  · rwa [heq]
  · exact hkeep u o st next hchoice hcall (by rw [heq]; exact Step.run_change o st c.store)

theorem kept_told (hd : Arises V (CommittedKept V) d) (hrun : Run (CommittedKept V) d c)
    (he : e ∈ d.store.effects) (hcommitted : e.status = .committed)
    (hlater : d.next ≤ t) : Keeps e c.store ∧ Told e t c := by
  refine hrun.invariant (P := fun c => Keeps e c.store ∧ Told e t c) hd
    ⟨⟨e, he, .refl e, hcommitted, rfl⟩, told_start hd e hlater⟩ ?_
  intro c choice c' hc hkept hguard htrans
  refine kept_told_step hc hkept htrans ?_
  rintro u o st next rfl hcall hchange
  exact hchange.keeps (onStatements_run hguard hcall) hkept.1

/-- Nothing has set an effect. -/
def Quiet (id : String) (events : List (Event (devServer V))) : Prop :=
  ∀ u st reply, Event.ran (M := devServer V) u st reply ∈ events → st.sets.map Prod.fst ≠ some id

theorem kept_told_quiet (hd : Arises V guard d) (hrun : Run guard d c)
    {after : List (Event (devServer V))} (hafter : c.trace = d.trace ++ after)
    (hquiet : Quiet e.id after) (he : e ∈ d.store.effects) (hcommitted : e.status = .committed)
    (hlater : d.next ≤ t) : Keeps e c.store ∧ Told e t c := by
  have hkept := hrun.invariant (P := fun x => d.trace <+: x.trace ∧
      (x.trace <+: c.trace → Keeps e x.store ∧ Told e t x)) hd
    ⟨List.prefix_rfl, fun _ => ⟨⟨e, he, .refl e, hcommitted, rfl⟩, told_start hd e hlater⟩⟩ ?_
  · exact hkept.2 List.prefix_rfl
  · rintro x choice x' hx ⟨⟨past, hpast⟩, hkept⟩ _ htrans
    obtain ⟨event, htrace⟩ := htrans.trace
    refine ⟨⟨past ++ [event], by rw [← List.append_assoc, hpast, htrace]⟩, fun hprefix => ?_⟩
    obtain ⟨rest, hrest⟩ := hprefix
    have hbefore : Keeps e x.store ∧ Told e t x := by
      refine hkept ⟨event :: rest, ?_⟩
      rw [← hrest, htrace, List.append_assoc]
      rfl
    refine kept_told_step hx hbefore htrans ?_
    rintro u o st next rfl hcall hchange
    have hevent : event = .ran u st (Step.run o st x.store).1 :=
      List.singleton_inj.mp (List.append_cancel_left (htrace.symm.trans (trace_run htrans hcall)))
    have hmem : event ∈ after := by
      have hall : d.trace ++ (past ++ event :: rest) = d.trace ++ after := by
        rw [← hafter, ← hrest, htrace, ← hpast]
        simp
      rw [← List.append_cancel_left hall]
      simp
    rw [hevent] at hmem
    refine hchange.keeps_of_sets (fun status result error hset => ?_) hbefore.1
    exact absurd (by rw [hset]; rfl) (hquiet u st _ hmem)

theorem Told.reply (hc : Arises V guard c) (htold : Told e t c)
    (hcalls : Calls V req call e.signature) (hstart : Started c t req) {reply : Reply}
    (hreturned : Returned c t (.ok reply)) : reply = .replayed e.id e.result := by
  -- whatever was found is the committed effect
  have hfound : ∀ {e' : EffectRow},
      ⟨.findLiveEffect e.signature, .ok (some e')⟩ ∈ ranBy t c.trace →
      e'.id = e.id ∧ e'.status = .committed ∧ e'.result = e.result := by
    intro e' hmem
    obtain ⟨e'', heq, hfacts⟩ := htold.found _ (mem_ranBy.mp hmem)
    cases heq
    exact hfacts
  have hlive : ∀ {new : NewEffect}, Claims V call e.signature new → new.status.live = true := by
    intro new hclaims
    cases hgated : V.requiresApproval call.toolName with
    | false => rw [(hclaims.free hgated).1]; rfl
    | true =>
      rw [(hclaims.gated hgated).2]
      split <;> rfl
  have hlost : ∀ {before : Past},
      ¬ before ++ [⟨.findLiveEffect e.signature, .ok none⟩] <+: ranBy t c.trace := by
    intro before hprefix
    have hmem := hprefix.subset List.mem_concat_self
    obtain ⟨e', heq, -⟩ := htold.found _ (mem_ranBy.mp hmem)
    cases heq
  cases answer_of_returned hc hstart hcalls hreturned with
  | replayed hmem hstatus =>
    obtain ⟨hid, -, hresult⟩ := hfound hmem
    rw [hid, hresult]
  | held hmem hstatus | resolved hmem hstatus | autoApproved hmem hstatus =>
    cases hstatus.symm.trans (hfound hmem).2.1
  | running hmem hnot hawaiting => exact absurd (hfound hmem).2.1 hnot
  | created hclaims hcreated | suspended hclaims hcreated =>
    exact absurd (mem_ranBy.mp hcreated) (htold.refused _ _ hclaims.signature (hlive hclaims))
  | lostPending hclaims hrefused hlookup | lostExecuted hclaims hrefused hlookup =>
    exact absurd hlookup hlost

/-- A tool call that runs alone on a free database and finds a committed effect replays it. -/
theorem solo_replayed {signature : CallSignature} (hcalls : Calls V req call signature)
    (hfound : j.findLiveEffect signature = some e) (hcommitted : e.status = .committed) (t : ℕ)
    {o o' : Circumstance} (hfree : o.locked = false) (hfree' : o'.locked = false) :
    ∃ j', solo (M := devServer V) t [o, o'] (dispatch V req) j =
      some (.ok (.replayed e.id e.result), j') := by
  obtain ⟨⟨headers, body, rfl, hbody⟩, hsignature⟩ := hcalls
  have hprogram : dispatch V (.toolCall headers body) =
      handleCall V headers.organisation call signature := by
    simp only [dispatch, handleToolCall, hbody, hsignature]
  have hrespond : respondForLiveEffect V e = (do
      let _ ← journal (.recordReplay e.id)
      pure (.replayed e.id e.result)) := by
    simp only [respondForLiveEffect, hcommitted]
  have hlookup : Step.run o (.findLiveEffect signature) j = (.ok (some e), j) := by
    rw [Step.run_free hfree, Step.perform, hfound]
  refine ⟨(j.recordReplay e.id).2, ?_⟩
  rw [hprogram]
  change (some (Step.run o (.findLiveEffect signature) j)).bind _ = _
  rw [hlookup]
  change solo (M := devServer V) t [o'] (respondForLiveEffect V e) j = _
  rw [hrespond]
  change (some (Step.run o' (.recordReplay e.id) j)).bind (fun reply => solo (M := devServer V) t []
    (Program.bind (.done reply.1) fun _ => .done (.ok (.replayed e.id e.result))) reply.2) = _
  rw [Step.run_free hfree']
  rfl

/-- While no transaction changes a committed effect, every later tool call with its signature
that is answered is answered with its result, and a call that runs alone on a free database
is answered. -/
theorem committed_replayed (hd : Arises V (CommittedKept V) d) (hrun : Run (CommittedKept V) d c)
    {e : EffectRow} (he : e ∈ d.store.effects) (hcommitted : e.status = .committed)
    {req : Request} {call : ToolCall} (hcalls : Calls V req call e.signature) :
    (∀ t reply, d.next ≤ t → Started c t req → Returned c t (.ok reply) →
      reply = .replayed e.id e.result) ∧
    ∀ (t : ℕ) (o o' : Circumstance), o.locked = false → o'.locked = false →
      ∃ j, solo (M := devServer V) t [o, o'] (dispatch V req) c.store =
        some (.ok (.replayed e.id e.result), j) := by
  have hc : Arises V (CommittedKept V) c := hd.run hrun
  constructor
  · intro t reply hlater hstart hreturned
    obtain ⟨-, htold⟩ := kept_told hd hrun he hcommitted hlater
    exact htold.reply hc hcalls hstart hreturned
  · intro t o o' hfree hfree'
    obtain ⟨hkeeps, -⟩ := kept_told hd hrun he hcommitted (Nat.le_refl d.next)
    obtain ⟨e', hlookup, hid, hstatus, hresult⟩ := hkeeps.found (journal_sound hc)
    rw [← hid, ← hresult]
    exact solo_replayed hcalls hlookup hstatus t hfree hfree'

/-! ## A committed entry of a log -/

/-- A call of a tool that is not gated. -/
def logBody : Dict :=
  [("session_id".toList, .string sessionText.toList), ("tool_name".toList, .string "log".toList)]

def logRequest : Request := .toolCall ⟨none, none⟩ (.ok logBody)

theorem log_calls : Calls sampleServer logRequest ⟨sessionText, "log", 0, []⟩ ⟨0⟩ where
  body := ⟨⟨none, none⟩, .ok logBody, rfl, by rfl⟩
  signature := by
    unfold Server.callSignature
    rfl

/-- The call runs, and its result is reported. -/
def committedLog : List (Choice (devServer V)) :=
  [.start logRequest, .run 0 {}, .run 0 ⟨"e", 0, false⟩, .finish 0,
    .start (.effect "e" .commit (.ok [("result".toList, .object [("output".toList, .null)])])),
    .run 1 {}, .finish 1]

/-- The same call once more. -/
def logAgain (t : ℕ) : List (Choice (devServer V)) :=
  [.run t {}, .run t ⟨"f", 0, false⟩, .finish t]

/-- A failure that is reported late. -/
def lateFailure : List (Choice (devServer V)) :=
  [.start (.effect "e" .fail (.ok [])), .run 2 {}, .finish 2]

/-- Whether an effect with the signature is committed. -/
def committedTest (c : Moment V) : Bool :=
  (Journal.effects c.store).any fun e => e.status = .committed && e.signature = ⟨0⟩

theorem exists_of_committedTest (h : committedTest c = true) :
    ∃ e ∈ Journal.effects c.store, e.status = .committed ∧ e.signature = ⟨0⟩ := by
  simpa [committedTest] using h

/-- A failure that is reported after the commit frees the signature, and the call runs again. -/
theorem committed_executed_again :
    ∃ d c : Moment sampleServer, Arises sampleServer unguarded d ∧ Run unguarded d c ∧
      (∃ e ∈ Journal.effects d.store, e.status = .committed ∧ e.signature = ⟨0⟩) ∧
      Calls sampleServer logRequest ⟨sessionText, "log", 0, []⟩ ⟨0⟩ ∧ d.next ≤ 3 ∧
      Started c 3 logRequest ∧ Returned c 3 (.ok (.executed (some "f"))) := by
  have hrun : (runGuarded unguarded emptyServer committedLog).any
      (fun d => d.next = 2 && committedTest d && (runGuarded unguarded d
        lateFailure).any fun d' => d'.next = 3 && (runGuarded unguarded d'
          (.start logRequest :: logAgain 3)).any (executedTest 3 "f")) = true := by
    decide +kernel
  obtain ⟨d, hd, htest⟩ := exists_reachable_of_any blank_empty hrun
  simp only [Bool.and_eq_true, Option.any_eq_true, decide_eq_true_eq] at htest
  obtain ⟨⟨hnext, hcommitted⟩, d', hfail, hnext', c, hagain, hexecuted⟩ := htest
  have hstart := started_of_runGuarded hagain
  rw [hnext'] at hstart
  exact ⟨d, c, hd, (Run.of_runGuarded hfail).trans (Run.of_runGuarded hagain),
    exists_of_committedTest hcommitted, log_calls, by omega, hstart,
    returned_of_executedTest hexecuted⟩

/-- A step sets no committed effect. -/
def Step.SparesCommitted (j : Journal) (st : Step) : Prop :=
  ∀ e ∈ j.effects, e.status = .committed → st.sets.map Prod.fst ≠ some e.id

instance decidableSparesCommitted (j : Journal) (st : Step) : Decidable (st.SparesCommitted j) := by
  unfold Step.SparesCommitted
  infer_instance

/-- The condition at a step of a run. -/
def SetsUncommitted (c : Moment V) (_ : ℕ) (st : (devServer V).Stmt) : Prop :=
  Step.SparesCommitted c.store st

instance (c : Moment V) (t : ℕ) (st : (devServer V).Stmt) : Decidable (SetsUncommitted c t st) :=
  decidableSparesCommitted c.store st

theorem Step.SparesCommitted.keeps (h : st.SparesCommitted j) : st.KeepsCommitted j := by
  intro id status result error hsets e he hid hcommitted
  exact absurd (by rw [hsets, hid]; rfl) (h e he hcommitted)

theorem committedKept_of_setsUncommitted (c : Moment V) (choice : Choice (devServer V))
    (h : onStatements SetsUncommitted c choice) : CommittedKept V c choice :=
  onStatements_mono (fun _ _ _ hspares => Step.SparesCommitted.keeps hspares) c choice h

/-- Whether a call has returned an answer. -/
def answeredTest (t : ℕ) (c : Moment V) : Bool :=
  c.trace.any fun
    | .returned u (.ok _) => u = t
    | _ => false

theorem returned_of_answeredTest {t : ℕ} (h : answeredTest t c = true) :
    ∃ reply, Returned c t (.ok reply) := by
  obtain ⟨event, hmem, hevent⟩ := List.any_eq_true.mp h
  split at hevent
  · next reply =>
    rw [of_decide_eq_true hevent] at hmem
    exact ⟨reply, hmem⟩
  · cases hevent

/-- A later call with the signature of the committed entry is answered with its result. -/
theorem committedLog_replayed :
    ∃ d c : Moment sampleServer, Arises sampleServer (CommittedKept sampleServer) d ∧
      Run (CommittedKept sampleServer) d c ∧ ∃ e ∈ Journal.effects d.store,
        e.status = .committed ∧ Started c 2 logRequest ∧
          Returned c 2 (.ok (.replayed e.id e.result)) := by
  have hrun : (runGuarded (onStatements SetsUncommitted) emptyServer committedLog).any (fun d =>
        d.next = 2 && committedTest d && (runGuarded (onStatements SetsUncommitted) d
          (.start logRequest :: logAgain 2)).any (answeredTest 2)) = true := by
    decide +kernel
  obtain ⟨d, hd, htest⟩ := exists_reachable_of_any blank_empty hrun
  simp only [Bool.and_eq_true, Option.any_eq_true, decide_eq_true_eq] at htest
  obtain ⟨⟨hnext, hcommitted⟩, c, hlater, hanswered⟩ := htest
  obtain ⟨reply, hmem⟩ := returned_of_answeredTest hanswered
  have hkept : Run (CommittedKept sampleServer) d c :=
    (Run.of_runGuarded hlater).mono committedKept_of_setsUncommitted
  have hd' := hd.mono committedKept_of_setsUncommitted
  have hstart := started_of_runGuarded hlater
  rw [hnext] at hstart
  obtain ⟨e, he, hstatus, hsignature⟩ := exists_of_committedTest hcommitted
  have hcalls : Calls sampleServer logRequest ⟨sessionText, "log", 0, []⟩ e.signature := by
    rw [hsignature]
    exact log_calls
  have hreply := (committed_replayed hd' hkept he hstatus hcalls).1 2 reply (by omega) hstart hmem
  rw [hreply] at hmem
  exact ⟨d, c, hd', hkept, e, he, hstatus, hstart, hmem⟩

end UndoLog.Dev
