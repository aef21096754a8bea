import UndoLog.Canonical.Doubles
import UndoLog.Dev.History

/-!
# The approval gate of the local server

The server reads the held effect and its pending approval in two transactions and takes a
missing pending approval for a granted one. A rejection in between, or the one whose effect is
not yet marked, lets the call run.
-/

namespace UndoLog.Dev

open Concurrent Machine

variable {V : Server} {guard : Guard (devServer V)} {c c' : Moment V}

/-- Tool calls of a run that share a signature are for one tool. -/
def SignaturesSeparate (c : Moment V) : Prop :=
  ∀ t t' req req' call call' signature, Started c t req → Started c t' req' →
    Calls V req call signature → Calls V req' call' signature → call.toolName = call'.toolName

/-- A step does not look for the pending approval of an effect whose approval was rejected. -/
def SparesRejected (j : Journal) : Step → Prop
  | .findPendingApproval effectId =>
    ∀ a ∈ j.approvals, a.effectId = effectId → a.status ≠ .rejected
  | _ => True

instance decidableSparesRejected (j : Journal) : ∀ st, Decidable (SparesRejected j st)
  | .findPendingApproval _ =>
    inferInstanceAs (Decidable (∀ a ∈ j.approvals, a.effectId = _ → a.status ≠ _))
  | .uuid4 | .createEffect _ | .findLiveEffect _ | .recordCommit _ _ | .recordReplay _
  | .recordFail _ _ | .markRejected _ | .getApproval _ | .resolveApproval _ _ => .isTrue trivial

/-- The condition at a step of a run. -/
def LooksUpUnrejected (c : Moment V) (_ : ℕ) (st : (devServer V).Stmt) : Prop :=
  SparesRejected c.store st

instance (c : Moment V) (t : ℕ) (st : (devServer V).Stmt) : Decidable (LooksUpUnrejected c t st) :=
  decidableSparesRejected c.store st

/-- No tool call looks for the pending approval of an effect whose approval was rejected. -/
abbrev NoRejectedLookup (V : Server) : Guard (devServer V) := onStatements LooksUpUnrejected

/-- An effect has an approval, and it was approved. -/
def Granted (j : Journal) (effectId : String) : Prop :=
  (∃ a ∈ j.approvals, a.effectId = effectId) ∧
    ∀ a ∈ j.approvals, a.effectId = effectId → a.status = .approved

variable {effectId : String} {t : ℕ}

theorem Change.granted {j j' : Journal} {st : Step} (h : Change j st j')
    (hj : j.Sound) (hgranted : Granted j effectId) : Granted j' effectId := by
  obtain ⟨⟨a, ha, hid⟩, hall⟩ := hgranted
  obtain ⟨a', ha', hkept⟩ := h.approval_persists ha
  refine ⟨⟨a', ha', hkept.effectId.trans hid⟩, ?_⟩
  intro b' hb' heffect
  obtain ⟨f, happrovals, hf⟩ | ⟨new, approvalId, id, now, -, -, -, hfresh, -, happrovals⟩ :=
    h.approvals
  · rw [happrovals] at hb'
    obtain ⟨b, hb, rfl⟩ := List.mem_map.mp hb'
    have hstatus := hall b hb ((hf b).effectId.symm.trans heffect)
    rcases (hf b).outcome with hsame | ⟨hpending, -⟩
    · exact hsame.trans hstatus
    · cases hpending.symm.trans hstatus
  · rw [happrovals] at hb'
    rcases List.mem_snoc.mp hb' with hold | rfl
    · exact hall b' hold heffect
    · -- a new approval belongs to a new effect
      obtain ⟨e, he, heid, -⟩ := hj.owned a ha
      exact absurd (heid.trans (hid.trans heffect.symm)) (hfresh e he)

theorem granted_run {d : Moment V} (hd : Arises V guard d) (hrun : Run guard d c)
    (h : Granted d.store effectId) : Granted c.store effectId := by
  refine hrun.invariant hd h ?_
  intro c choice c' hc ih _ htrans
  obtain ⟨st, hchange, -⟩ := change_step hc htrans
  exact hchange.granted (journal_sound hc) ih

theorem granted_of_lookup (hc : Arises V (NoRejectedLookup V) c)
    (hpending : Performed c t (.findPendingApproval effectId) (.ok none)) :
    Granted c.store effectId := by
  obtain ⟨d, d', o, hd, -, hguard, ⟨next, hcall⟩, hrun, hstep, hrest⟩ := performed_at hc hpending
  have hrejected : ∀ a ∈ Journal.approvals d.store, a.effectId = effectId → a.status ≠ .rejected :=
    onStatements_run hguard hcall
  have hnone : Journal.findPendingApproval effectId d.store = none :=
    Except.ok.inj (congrArg Prod.fst (Step.run_of_ok hrun))
  have hall : ∀ a ∈ Journal.approvals d.store, a.effectId = effectId → a.status = .approved := by
    intro a ha heffect
    have hnotPending := Journal.findPendingApproval_eq_none_iff.mp hnone a ha heffect
    have hnotRejected := hrejected a ha heffect
    cases h : a.status with
    | pending => exact absurd h hnotPending
    | approved => rfl
    | rejected => exact absurd h hnotRejected
  -- the held effect has had an approval since it was found
  obtain ⟨req, -, hpre⟩ := (serverContract V).pre_of_call hd.coherent hcall
  obtain ⟨signature, e, hfound, hstatus, rfl⟩ := found_of_pre hpre
  obtain ⟨d₀, hd₀, hrun₀, hlookup⟩ := found_at hd (mem_ranBy.mp hfound)
  obtain ⟨hmem, -, -⟩ := Journal.findLiveEffect_some hlookup
  obtain ⟨a, ha, heffect⟩ := awaiting_owner hd₀ e hmem hstatus
  obtain ⟨a', ha', hlater⟩ := approval_run hd₀ hrun₀ ha
  exact granted_run hd (hstep.trans hrest) ⟨⟨a', ha', hlater.effectId.trans heffect⟩, hall⟩

theorem not_executing_of_gated (hauto : V.autoApprove = false) (hc : Arises V guard c)
    (hseparate : SignaturesSeparate c) {t' : ℕ} {req : Request} {call : ToolCall}
    {signature : CallSignature} {e : EffectRow} (hstart : Started c t req)
    (hcalls : Calls V req call signature) (hgated : V.requiresApproval call.toolName = true)
    (hfound : Performed c t' (.findLiveEffect signature) (.ok (some e))) :
    e.status ≠ .executing := by
  intro hstatus
  obtain ⟨d, hd, hrun, hlookup⟩ := found_at hc hfound
  obtain ⟨hmem, hsignature, -⟩ := Journal.findLiveEffect_some hlookup
  have hfree := executing_free hauto hd e hmem hstatus
  obtain ⟨t₀, req₀, call₀, hstart₀, hcalls₀, hname⟩ := effect_called hd e hmem
  rw [hsignature] at hcalls₀
  have hsame : call.toolName = call₀.toolName :=
    hseparate t t₀ req req₀ call call₀ signature hstart (hrun.trace.subset hstart₀) hcalls hcalls₀
  rw [hname, ← hsame, hgated] at hfree
  cases hfree

/-- While no tool call looks for the pending approval of a rejected effect, a gated call is
answered executed only for an effect whose approval was approved. -/
theorem executed_only_if_approved (hauto : V.autoApprove = false)
    (hc : Arises V (NoRejectedLookup V) c) (hseparate : SignaturesSeparate c) {t : ℕ}
    {req : Request} {call : ToolCall} {signature : CallSignature} {effectId : Option String}
    (hstart : Started c t req) (hcalls : Calls V req call signature)
    (hgated : V.requiresApproval call.toolName = true)
    (hreturned : Returned c t (.ok (.executed effectId))) :
    ∃ id, effectId = some id ∧ Granted c.store id := by
  cases answer_of_returned hc hstart hcalls hreturned with
  | resolved hfound hstatus hpending =>
    exact ⟨_, rfl, granted_of_lookup hc (mem_ranBy.mp hpending)⟩
  | autoApproved hfound hstatus hauto' => cases hauto.symm.trans hauto'
  | running hfound hcommitted hawaiting =>
    have hfound := mem_ranBy.mp hfound
    obtain ⟨d, -, -, hlookup⟩ := found_at hc hfound
    obtain ⟨-, -, hlive⟩ := Journal.findLiveEffect_some hlookup
    have hexecuting := not_executing_of_gated hauto hc hseparate hstart hcalls hgated hfound
    -- a live effect has one of three statuses
    cases hstatus : EffectRow.status _ with
    | executing => exact absurd hstatus hexecuting
    | awaitingApproval => exact absurd hstatus hawaiting
    | committed => exact absurd hstatus hcommitted
    | failed | rejected => simp [hstatus, EffectStatus.live] at hlive
  | created hclaims hcreated hfree =>
    rcases hfree with hfree | hauto'
    · cases hgated.symm.trans hfree
    · cases hauto.symm.trans hauto'
  | lostExecuted hclaims hrefused hlookup happroval =>
    have hsome := (hclaims.gated hgated).1
    simp [happroval] at hsome

/-! ## Runs of a sample server -/

theorem blank_empty : Blank ⟨[], []⟩ := rfl

/-- A server that holds calls of the tool `pay`. -/
noncomputable def sampleServer : Server where
  irreversiblePatterns := ["pay"]
  autoApprove := false
  fnmatchcase := fun name pattern => name = pattern
  parseUuid := fun text => (Text.readUuid text).map SessionId.mk
  blake3 := fun _ => 0
  interpreter := .initial
  floats := .standard
  display := fun _ => ""

/-- The sample server before its first request. -/
noncomputable abbrev emptyServer : Moment sampleServer := Config.initial ⟨[], []⟩

/-- The session of the calls. -/
def sessionText : String := "00000000-0000-0000-0000-000000000002"

/-- A call of the tool. -/
def paymentBody : Dict :=
  [("session_id".toList, .string sessionText.toList), ("tool_name".toList, .string "pay".toList)]

/-- The request for a payment. -/
def payment : Request := .toolCall ⟨none, none⟩ (.ok paymentBody)

/-- The payment as a tool call. -/
def paymentCall : ToolCall := ⟨sessionText, "pay", 0, []⟩

theorem payment_calls : Calls sampleServer payment paymentCall ⟨0⟩ where
  body := ⟨⟨none, none⟩, .ok paymentBody, rfl, by rfl⟩
  signature := by
    unfold Server.callSignature
    rfl

/-- Several steps of one request. -/
def steps (t n : ℕ) : List (Choice (devServer V)) := List.replicate n (.run t {})

/-- A payment that is held. -/
def heldPayment : List (Choice (devServer V)) :=
  [.start payment, .run 0 {}, .run 0 ⟨"a", 0, false⟩, .run 0 ⟨"e", 0, false⟩, .finish 0]

/-- A second request has found the held effect. The approval is resolved before the request
looks for it. -/
def resolvedMeanwhile (action : Decision) : List (Choice (devServer V)) :=
  [.run 1 {}, .start (.decision "a" action (.ok []))] ++ steps 2 4 ++
    [.finish 2, .run 1 {}, .finish 1]

/-- Whether a request was answered executed for an effect. -/
def executedTest (t : ℕ) (id : String) (c : Moment V) : Bool :=
  c.trace.any fun
    | .returned u (.ok (.executed (some effectId))) => u = t && effectId = id
    | _ => false

theorem returned_of_executedTest {id : String} (h : executedTest t id c = true) :
    Returned c t (.ok (.executed (some id))) := by
  obtain ⟨event, hmem, hevent⟩ := List.any_eq_true.mp h
  split at hevent
  · next u effectId =>
    obtain ⟨rfl, rfl⟩ : u = t ∧ effectId = id := by simpa using hevent
    exact hmem
  · cases hevent

/-- Whether an effect has an approval with a status. -/
def approvalTest (effectId : String) (status : ApprovalStatus) (c : Moment V) : Bool :=
  (Journal.approvals c.store).any fun a => a.effectId = effectId && a.status = status

theorem exists_of_approvalTest {status : ApprovalStatus}
    (h : approvalTest effectId status c = true) :
    ∃ a ∈ Journal.approvals c.store, a.effectId = effectId ∧ a.status = status := by
  simpa [approvalTest] using h

/-- A gated call is answered executed for an effect whose approval was rejected. -/
theorem executed_after_rejection :
    ∃ c : Moment sampleServer, Arises sampleServer unguarded c ∧ Started c 1 payment ∧
      Calls sampleServer payment paymentCall ⟨0⟩ ∧
      sampleServer.requiresApproval paymentCall.toolName = true ∧
      Returned c 1 (.ok (.executed (some "e"))) ∧
      ∃ a ∈ Journal.approvals c.store, a.effectId = "e" ∧ a.status = .rejected := by
  have hrun : (runGuarded unguarded emptyServer heldPayment).any
      (fun d => d.next = 1 && (runGuarded unguarded d
        (.start payment :: resolvedMeanwhile .reject)).any fun c =>
          executedTest 1 "e" c && approvalTest "e" .rejected c) = true := by
    decide +kernel
  obtain ⟨c, hc, hstart, htest⟩ := exists_started_of_any blank_empty hrun
  obtain ⟨hexecuted, hrejected⟩ := Bool.and_eq_true_iff.mp htest
  exact ⟨c, hc, hstart, payment_calls, by decide, returned_of_executedTest hexecuted,
    exists_of_approvalTest hrejected⟩

/-- Whether all tool calls of a run are payments. -/
def paymentsTest (c : Moment V) : Bool :=
  c.trace.all fun
    | .started _ (.toolCall _ body) =>
      ((body.bind toolCallOf).map (·.toolName)).toOption = some "pay"
    | _ => true

theorem separate_of_paymentsTest (h : paymentsTest c = true) : SignaturesSeparate c := by
  have hname : ∀ t req call signature, Started c t req → Calls V req call signature →
      call.toolName = "pay" := by
    rintro t req call signature hstart ⟨⟨headers, body, rfl, hcall⟩, -⟩
    have htest := List.all_eq_true.mp h _ hstart
    simpa [hcall, Except.map, Except.toOption] using htest
  intro t t' req req' call call' signature hstart hstart' hcalls hcalls'
  rw [hname t req call signature hstart hcalls, hname t' req' call' signature hstart' hcalls']

/-- The approval of the payment is approved meanwhile, and the second request runs it. -/
theorem payment_executed_approved :
    ∃ c : Moment sampleServer, Arises sampleServer (NoRejectedLookup sampleServer) c ∧
      SignaturesSeparate c ∧ Started c 1 payment ∧ Returned c 1 (.ok (.executed (some "e"))) ∧
      ∃ id, some "e" = some id ∧ Granted c.store id := by
  have hrun : (runGuarded (NoRejectedLookup sampleServer) emptyServer heldPayment).any (fun d =>
        d.next = 1 && (runGuarded (NoRejectedLookup sampleServer) d
          (.start payment :: resolvedMeanwhile .approve)).any fun c =>
            executedTest 1 "e" c && paymentsTest c) = true := by
    decide +kernel
  obtain ⟨c, hc, hstart, htest⟩ := exists_started_of_any blank_empty hrun
  obtain ⟨hexecuted, hpayments⟩ := Bool.and_eq_true_iff.mp htest
  have hseparate := separate_of_paymentsTest hpayments
  have hreturned := returned_of_executedTest hexecuted
  exact ⟨c, hc, hseparate, hstart, hreturned, executed_only_if_approved rfl hc hseparate hstart
    payment_calls (by decide) hreturned⟩

end UndoLog.Dev
