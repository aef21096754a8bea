import UndoLog.Dev.Contract

/-!
# The journal along a run

What holds of the rows in every interleaving of requests: where an effect comes from, which
effects have an approval, and what a lookup has seen.
-/

namespace UndoLog.Dev

open Concurrent Machine

variable {V : Server} {guard : Guard (devServer V)} {c c' : Moment V}

/-! ## Steps of the server -/

/-- A request was started. -/
def Started (c : Moment V) (t : ℕ) (req : Request) : Prop :=
  Event.started (M := devServer V) t req ∈ c.trace

/-- A request has run a step with a reply. -/
def Performed (c : Moment V) (t : ℕ) (st : Step) (reply : Except Exception st.Ret) : Prop :=
  Event.ran (M := devServer V) t st reply ∈ c.trace

/-- A request was answered, or ended by an exception. -/
def Returned (c : Moment V) (t : ℕ) (r : Except Exception Reply) : Prop :=
  Event.returned (M := devServer V) t r ∈ c.trace

variable {t : ℕ} {st : Step} {choice : Choice (devServer V)}

/-- Only a step of a request changes the journal. -/
theorem store_cases (h : Transition c choice c') :
    c'.store = c.store ∨ ∃ t o st next, choice = .run t o ∧ c.calls t = some (.call st next) ∧
      c'.store = (Step.run o st c.store).2 := by
  cases h with
  | start | finish | crash => exact .inl rfl
  | @run t o st next reply store hcall hexec =>
    refine .inr ⟨t, o, st, next, rfl, hcall, ?_⟩
    exact (congrArg Prod.snd (Option.some.inj hexec)).symm
  | environment henv => cases henv

variable {reply : Except Exception st.Ret} {o : Circumstance}
  {next : Except Exception st.Ret → Handler Reply} {req : Request} {past : Past} {new : NewEffect}
  {id : String} {d : Moment V} {e : EffectRow} {signature : CallSignature}

/-- The step that an event of a request records. -/
theorem run_of_ran (h : Transition c choice c') (htrace : c'.trace = c.trace ++ [.ran t st reply]) :
    ∃ o next, choice = .run t o ∧ c.calls t = some (.call st next) ∧
      Step.run o st c.store = (reply, c'.store) := by
  obtain ⟨o, next, hchoice, hcall, hexec⟩ := h.of_ran htrace
  exact ⟨o, next, hchoice, hcall, Option.some.inj hexec⟩

/-- The event of the next step of a request. -/
theorem trace_run (h : Transition c (.run t o) c') (hcall : c.calls t = some (.call st next)) :
    c'.trace = c.trace ++ [.ran t st (Step.run o st c.store).1] := by
  cases h with
  | @run _ _ st' next' reply store hcall' hexec =>
    cases hcall.symm.trans hcall'
    have hreply : (Step.run o st c.store).1 = reply := congrArg Prod.fst (Option.some.inj hexec)
    rw [hreply]

/-- The history of a request after its next step. -/
theorem ranBy_run (h : Transition c (.run t o) c') (hcall : c.calls t = some (.call st next)) :
    ranBy t c'.trace = ranBy t c.trace ++ [⟨st, (Step.run o st c.store).1⟩] :=
  (congrArg (ranBy t) (trace_run h hcall)).trans (ranBy_ran_self t c.trace st _)

theorem claims_of_pre (h : requestPre V req past (.createEffect new)) :
    ∃ call signature, Calls V req call signature ∧ Claims V call signature new := by
  cases req with
  | toolCall headers body => exact h
  | decision approvalId action body => cases action <;> cases h
  | effect effectId action body =>
    cases action <;>
    · obtain ⟨_, heq⟩ := h
      cases heq

/-- What a step of the server does to the journal. A new effect is made for a tool call. -/
theorem change_step (hc : Arises V guard c) (h : Transition c choice c') :
    ∃ st, Change c.store st c'.store ∧ ∀ new, st = .createEffect new → ∃ t req call signature,
      Started c t req ∧ Calls V req call signature ∧ Claims V call signature new := by
  rcases store_cases h with heq | ⟨t, o, st, next, -, hcall, heq⟩
  · rw [heq]
    exact ⟨.uuid4, .keep _, by rintro new ⟨⟩⟩
  · obtain ⟨req, hstart, hpre⟩ := (serverContract V).pre_of_call hc.coherent hcall
    rw [heq]
    refine ⟨st, Step.run_change o st c.store, ?_⟩
    rintro new rfl
    obtain ⟨call, signature, hcalls, hclaims⟩ := claims_of_pre hpre
    exact ⟨t, req, call, signature, hstart, hcalls, hclaims⟩

/-- Journals are well formed. -/
theorem journal_sound (hc : Arises V guard c) : Journal.Sound c.store := by
  refine hc.invariant ?_ ?_
  · rintro j rfl
    exact Journal.sound_blank
  · intro c choice c' hc ih _ htrans
    obtain ⟨st, hchange, -⟩ := change_step hc htrans
    exact hchange.sound ih

theorem found_of_pre (h : requestPre V req past (.findPendingApproval id)) :
    ∃ signature, ∃ e : EffectRow, ⟨.findLiveEffect signature, .ok (some e)⟩ ∈ past ∧
      e.status = .awaitingApproval ∧ e.id = id := by
  cases req with
  | toolCall headers body =>
    obtain ⟨call, signature, -, hfound⟩ := h
    exact ⟨signature, hfound⟩
  | decision approvalId action body => cases action <;> cases h
  | effect effectId action body =>
    cases action <;>
    · obtain ⟨_, heq⟩ := h
      cases heq

/-! ## Where effects come from -/

theorem effect_called (hc : Arises V guard c) :
    ∀ e ∈ c.store.effects, ∃ t req call, Started c t req ∧ Calls V req call e.signature ∧
      e.toolName = call.toolName := by
  refine hc.invariant ?_ ?_
  · rintro j rfl e he
    cases he
  · intro c choice c' hc ih _ htrans e' he
    obtain ⟨st, hchange, hclaimed⟩ := change_step hc htrans
    obtain ⟨e, hmem, hevolves⟩ | ⟨new, id, now, rfl, rfl, hnew⟩ := hchange.effect_origin he
    · obtain ⟨t, req, call, hstart, hcalls, hname⟩ := ih e hmem
      rw [hevolves.call.signature, hevolves.call.toolName]
      exact ⟨t, req, call, htrans.subset hstart, hcalls, hname⟩
    · obtain ⟨t, req, call, signature, hstart, hcalls, hclaims⟩ := hclaimed new rfl
      refine ⟨t, req, call, htrans.subset hstart, ?_, hclaims.toolName⟩
      change Calls V req call new.signature
      rw [hclaims.signature]
      exact hcalls

theorem executing_free (hauto : V.autoApprove = false) (hc : Arises V guard c) :
    ∀ e ∈ c.store.effects, e.status = .executing → V.requiresApproval e.toolName = false := by
  refine hc.invariant ?_ ?_
  · rintro j rfl e he
    cases he
  · intro c choice c' hc ih _ htrans e' he hstatus
    obtain ⟨st, hchange, hclaimed⟩ := change_step hc htrans
    obtain ⟨e, hmem, hevolves⟩ | ⟨new, id, now, rfl, rfl, hnew⟩ := hchange.effect_origin he
    · rw [hevolves.call.toolName]
      rcases hevolves.outcome with ⟨hsame, -⟩ | ⟨error, hsets⟩
      · exact ih e hmem (hsame.symm.trans hstatus)
      · -- no step sets an effect executing
        rw [hstatus] at hsets
        cases st <;> cases hsets
    · obtain ⟨t, req, call, signature, -, -, hclaims⟩ := hclaimed new rfl
      by_contra hgated
      have hname : V.requiresApproval call.toolName = true := by
        rw [← hclaims.toolName]
        exact eq_true_of_ne_false hgated
      have hawaiting := (hclaims.gated hname).2
      rw [hauto] at hawaiting
      cases hawaiting.symm.trans hstatus

theorem awaiting_owner (hc : Arises V guard c) :
    ∀ e ∈ c.store.effects, e.status = .awaitingApproval →
      ∃ a ∈ c.store.approvals, a.effectId = e.id := by
  refine hc.invariant ?_ ?_
  · rintro j rfl e he
    cases he
  · intro c choice c' hc ih _ htrans e' he hstatus
    obtain ⟨st, hchange, hclaimed⟩ := change_step hc htrans
    obtain ⟨e, hmem, hevolves⟩ | ⟨new, id, now, rfl, rfl, hnew⟩ := hchange.effect_origin he
    · rcases hevolves.outcome with ⟨hsame, -⟩ | ⟨error, hsets⟩
      · obtain ⟨a, ha, hid⟩ := ih e hmem (hsame.symm.trans hstatus)
        obtain ⟨a', ha', hkept⟩ := hchange.approval_persists ha
        exact ⟨a', ha', hkept.effectId.trans (hid.trans hevolves.call.id.symm)⟩
      · rw [hstatus] at hsets
        cases st <;> cases hsets
    · obtain ⟨t, req, call, signature, -, -, hclaims⟩ := hclaimed new rfl
      -- a call that waits brings an approval with it
      have hgated : V.requiresApproval call.toolName = true := by
        by_contra hfree
        cases (hclaims.free (eq_false_of_ne_true hfree)).1.symm.trans hstatus
      obtain ⟨approvalId, happroval⟩ := Option.isSome_iff_exists.mp (hclaims.gated hgated).1
      refine ⟨new.approval approvalId id now, ?_, rfl⟩
      simp [hnew, Journal.insert, happroval]

/-! ## What lookups have seen -/

/-- Effects stay in the journal, each for its call. -/
theorem effect_run (hd : Arises V guard d) (hrun : Run guard d c) (he : e ∈ d.store.effects) :
    ∃ e' ∈ c.store.effects, e.SameCall e' := by
  refine hrun.invariant hd ⟨e, he, .refl e⟩ ?_
  rintro c choice c' hc ⟨e', he', hsame⟩ _ htrans
  obtain ⟨st, hchange, -⟩ := change_step hc htrans
  obtain ⟨e'', he'', hevolves⟩ := hchange.effect_persists he'
  exact ⟨e'', he'', hsame.trans hevolves.call⟩

/-- An approval and its row at a later time. -/
structure ApprovalRow.Later (a a' : ApprovalRow) : Prop where
  id : a'.id = a.id
  effectId : a'.effectId = a.effectId
  toolName : a'.toolName = a.toolName
  args : a'.args = a.args
  status : a.status ≠ .pending → a'.status = a.status

/-- Approvals stay in the journal, each for its effect, and a decision is final. -/
theorem approval_run (hd : Arises V guard d) (hrun : Run guard d c) {a : ApprovalRow}
    (ha : a ∈ d.store.approvals) : ∃ a' ∈ c.store.approvals, a.Later a' := by
  refine hrun.invariant hd ⟨a, ha, rfl, rfl, rfl, rfl, fun _ => rfl⟩ ?_
  rintro c choice c' hc ⟨a', ha', hlater⟩ _ htrans
  obtain ⟨st, hchange, -⟩ := change_step hc htrans
  obtain ⟨a'', ha'', hevolves⟩ := hchange.approval_persists ha'
  refine ⟨a'', ha'', hevolves.id.trans hlater.id, hevolves.effectId.trans hlater.effectId,
    hevolves.toolName.trans hlater.toolName, hevolves.args.trans hlater.args, fun hdecided => ?_⟩
  have hstatus := hlater.status hdecided
  rcases hevolves.outcome with hkept | ⟨hpending, -⟩
  · exact hkept.trans hstatus
  · exact absurd (hstatus.symm.trans hpending) hdecided

/-- The step that a request has performed. -/
theorem performed_at (hc : Arises V guard c) (h : Performed c t st reply) :
    ∃ (d d' : Moment V) (o : Circumstance), Arises V guard d ∧ Arises V guard d' ∧
      guard d (.run t o) ∧ (∃ next, d.calls t = some (.call st next)) ∧
      Step.run o st d.store = (reply, d'.store) ∧ Run guard d d' ∧ Run guard d' c := by
  obtain ⟨before, after, htrace⟩ := List.append_of_mem h
  obtain ⟨d, choice, d', hrec⟩ := hc.recorded htrace
  obtain ⟨o, next, rfl, hcall, hrun⟩ := run_of_ran hrec.step hrec.trace'
  exact ⟨d, d', o, hrec.reachable, hrec.reachable', hrec.allowed, ⟨next, hcall⟩, hrun,
    .single ⟨_, hrec.allowed, hrec.step.to_step⟩, hrec.rest⟩

theorem performed_cases (htrans : Transition c choice c') (h : Performed c' t st reply) :
    Performed c t st reply ∨
      c'.trace = c.trace ++ [.ran t st reply] ∧ ∃ o, st.run o c.store = (reply, c'.store) := by
  obtain ⟨event, htrace⟩ := htrans.trace
  rw [Performed, htrace] at h
  rcases List.mem_snoc.mp h with hold | rfl
  · exact .inl hold
  · obtain ⟨o, next, -, -, hrun⟩ := run_of_ran htrans htrace
    exact .inr ⟨htrace, o, hrun⟩

/-- How the response to a tool call has come about. -/
theorem answer_of_returned (hc : Arises V guard c) {call : ToolCall} {reply : Reply}
    (hstart : Started c t req) (hcalls : Calls V req call signature)
    (hreturned : Returned c t (.ok reply)) : Answer V call signature (ranBy t c.trace) reply := by
  obtain ⟨headers, body, rfl, -⟩ := hcalls.body
  exact (serverContract V).post_of_returned hc.coherent hstart hreturned call signature hcalls

/-- The journal at the time of a lookup. -/
theorem found_at (hc : Arises V guard c) {found : Option EffectRow}
    (h : Performed c t (.findLiveEffect signature) (.ok found)) :
    ∃ d : Moment V, Arises V guard d ∧ Run guard d c ∧
      d.store.findLiveEffect signature = found := by
  obtain ⟨d, d', o, hd, -, -, -, hrun, hstep, hrest⟩ := performed_at hc h
  refine ⟨d, hd, hstep.trans hrest, ?_⟩
  exact Except.ok.inj (congrArg Prod.fst (Step.run_of_ok hrun))

theorem created_at (hc : Arises V guard c) (h : Performed c t (.createEffect new) (.ok (some id))) :
    ∃ (d d' : Moment V) (now : ℕ), Arises V guard d ∧ Arises V guard d' ∧ Run guard d d' ∧
      Run guard d' c ∧ (∀ e ∈ Journal.effects d.store, e.clashes (new.row id) = false) ∧
      d'.store = Journal.insert new id now d.store := by
  obtain ⟨d, d', o, hd, hd', -, -, hrun, hstep, hrest⟩ := performed_at hc h
  have hcreate : Journal.createEffect new o.uuid o.now d.store = (.ok (some id), d'.store) :=
    Step.run_of_ok hrun
  obtain ⟨-, heq⟩ | ⟨-, heq⟩ | ⟨-, hsignature, -, heq⟩ :=
    Journal.createEffect_cases new o.uuid o.now d.store
  · cases hcreate.symm.trans heq
  · cases hcreate.symm.trans heq
  · obtain ⟨hid, hstore⟩ := Prod.mk.inj (hcreate.symm.trans heq)
    cases hid
    exact ⟨d, d', o.now, hd, hd', hstep, hrest, hsignature, hstore⟩

/-- What was found is live and has the signature. -/
theorem Journal.findLiveEffect_some {j : Journal} (h : j.findLiveEffect signature = some e) :
    e ∈ j.effects ∧ e.signature = signature ∧ e.status.live = true := by
  have hprop : e.signature = signature ∧ e.status.live = true := by
    simpa using List.find?_some h
  exact ⟨List.mem_of_find?_eq_some h, hprop⟩

end UndoLog.Dev
