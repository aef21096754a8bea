import UndoLog.Dev.Rows

/-!
# What the requests of the server do

The contract of each request: what it has run before each of its transactions, and how its
response follows from the replies. It is read off the programs alone and holds in every
interleaving.
-/

namespace UndoLog.Dev

open Concurrent Machine

variable {V : Server}

/-- What a request has run. -/
abbrev Past : Type := List (Ran Step Step.Ret Exception)

/-! ## Tool calls -/

/-- A request is the tool call `call`, which has a signature. -/
structure Calls (V : Server) (req : Request) (call : ToolCall) (signature : CallSignature) :
    Prop where
  body : ∃ headers body, req = .toolCall headers body ∧ body.bind toolCallOf = .ok call
  signature : V.callSignature call = .ok signature

/-- What a tool call journals for itself. -/
structure Claims (V : Server) (call : ToolCall) (signature : CallSignature) (new : NewEffect) :
    Prop where
  toolName : new.toolName = call.toolName
  args : new.args = call.args
  signature : new.signature = signature
  free : V.requiresApproval call.toolName = false →
    new.status = .executing ∧ new.approvalId = none
  gated : V.requiresApproval call.toolName = true →
    new.approvalId.isSome = true ∧
      new.status = if V.autoApprove then .executing else .awaitingApproval

/-- How the response to a tool call comes about. -/
inductive Answer (V : Server) (call : ToolCall) (signature : CallSignature) (past : Past) :
    Reply → Prop
  /-- A committed effect was found. -/
  | replayed {e : EffectRow} (hfound : ⟨.findLiveEffect signature, .ok (some e)⟩ ∈ past)
      (hstatus : e.status = .committed) : Answer V call signature past (.replayed e.id e.result)
  /-- A held effect was found, and its approval is pending. -/
  | held {e : EffectRow} {approval : ApprovalRow}
      (hfound : ⟨.findLiveEffect signature, .ok (some e)⟩ ∈ past)
      (hstatus : e.status = .awaitingApproval)
      (hpending : ⟨.findPendingApproval e.id, .ok (some approval)⟩ ∈ past)
      (hauto : V.autoApprove = false) : Answer V call signature past (.pendingApproval approval.id)
  /-- A held effect was found, but no pending approval. -/
  | resolved {e : EffectRow} (hfound : ⟨.findLiveEffect signature, .ok (some e)⟩ ∈ past)
      (hstatus : e.status = .awaitingApproval)
      (hpending : ⟨.findPendingApproval e.id, .ok none⟩ ∈ past) :
      Answer V call signature past (.executed (some e.id))
  /-- A held effect was found and approved by the server itself. -/
  | autoApproved {e : EffectRow} (hfound : ⟨.findLiveEffect signature, .ok (some e)⟩ ∈ past)
      (hstatus : e.status = .awaitingApproval) (hauto : V.autoApprove = true) :
      Answer V call signature past (.executed (some e.id))
  /-- An effect in another status was found. -/
  | running {e : EffectRow} (hfound : ⟨.findLiveEffect signature, .ok (some e)⟩ ∈ past)
      (hcommitted : e.status ≠ .committed) (hawaiting : e.status ≠ .awaitingApproval) :
      Answer V call signature past (.executed (some e.id))
  /-- A new effect was journaled and may run. -/
  | created {new : NewEffect} {id : String} (hclaims : Claims V call signature new)
      (hcreated : ⟨.createEffect new, .ok (some id)⟩ ∈ past)
      (hfree : V.requiresApproval call.toolName = false ∨ V.autoApprove = true) :
      Answer V call signature past (.executed (some id))
  /-- A new effect was journaled and waits. -/
  | suspended {new : NewEffect} {id approvalId : String} (hclaims : Claims V call signature new)
      (hcreated : ⟨.createEffect new, .ok (some id)⟩ ∈ past)
      (happroval : new.approvalId = some approvalId) :
      Answer V call signature past (.pendingApproval approvalId)
  /-- The new effect was refused, and then no live effect was found. -/
  | lostPending {new : NewEffect} {approvalId : String} {before : Past}
      (hclaims : Claims V call signature new) (hrefused : ⟨.createEffect new, .ok none⟩ ∈ before)
      (hlookup : before ++ [⟨.findLiveEffect signature, .ok none⟩] <+: past)
      (happroval : new.approvalId = some approvalId) :
      Answer V call signature past (.pendingApproval approvalId)
  | lostExecuted {new : NewEffect} {before : Past}
      (hclaims : Claims V call signature new) (hrefused : ⟨.createEffect new, .ok none⟩ ∈ before)
      (hlookup : before ++ [⟨.findLiveEffect signature, .ok none⟩] <+: past)
      (happroval : new.approvalId = none) : Answer V call signature past (.executed none)

/-- A transaction has raised an exception. -/
def Raised (past : Past) (e : Exception) : Prop := ∃ st, ⟨st, .error e⟩ ∈ past

/-- The postcondition of the handlers of a tool call. -/
def Answers (V : Server) (call : ToolCall) (signature : CallSignature) (past : Past) :
    Except Exception Reply → Prop
  | .ok reply => Answer V call signature past reply
  | .error e => Raised past e

/-- What the transactions of a tool call come after. -/
def callPre (V : Server) (call : ToolCall) (signature : CallSignature) (past : Past) : Step → Prop
  | .createEffect new => Claims V call signature new
  | .findLiveEffect s => s = signature
  | .findPendingApproval id => ∃ e : EffectRow,
      ⟨.findLiveEffect signature, .ok (some e)⟩ ∈ past ∧ e.status = .awaitingApproval ∧ e.id = id
  | .recordReplay id => ∃ e : EffectRow,
      ⟨.findLiveEffect signature, .ok (some e)⟩ ∈ past ∧ e.status = .committed ∧ e.id = id
  | .resolveApproval _ status => V.autoApprove = true ∧ status = .approved
  | .uuid4 | .getApproval _ => True
  | .recordCommit _ _ | .recordFail _ _ | .markRejected _ => False

variable {call : ToolCall} {signature : CallSignature}

theorem ran_last (past : Past) (x : Ran Step Step.Ret Exception) : x ∈ past ++ [x] :=
  List.mem_append_right _ (List.mem_singleton_self x)

theorem raised_last (past : Past) (st : Step) (e : Exception) :
    Raised (past ++ [⟨st, .error e⟩]) e :=
  ⟨st, ran_last past _⟩

theorem respondForLiveEffect_answers {e : EffectRow} {past : Past}
    (hfound : ⟨.findLiveEffect signature, .ok (some e)⟩ ∈ past) :
    Program.Satisfies (callPre V call signature) (Answers V call signature) past
      (respondForLiveEffect V e) := by
  unfold respondForLiveEffect
  cases hstatus : e.status with
  | committed =>
    refine Program.satisfies_stmt_bind ⟨e, hfound, hstatus, rfl⟩ (raised_last past _) fun _ => ?_
    exact .replayed (List.mem_append_left _ hfound) hstatus
  | awaitingApproval =>
    refine Program.satisfies_stmt_bind ⟨e, hfound, hstatus, rfl⟩ (raised_last past _)
      fun found => ?_
    have hfound' := List.mem_append_left [(⟨.findPendingApproval e.id, .ok found⟩ :
      Ran Step Step.Ret Exception)] hfound
    cases found with
    | none => exact .resolved hfound' hstatus (ran_last _ _)
    | some approval =>
      dsimp only
      split
      · next hauto =>
        refine Program.satisfies_stmt_bind ⟨hauto, rfl⟩ (raised_last _ _) fun _ => ?_
        refine Program.satisfies_stmt_bind trivial (raised_last _ _) fun _ => ?_
        exact .autoApproved (by simp [hfound]) hstatus hauto
      · next hauto => exact .held hfound' hstatus (ran_last _ _) (by simpa using hauto)
  | executing | failed | rejected => exact .running hfound (by simp [hstatus]) (by simp [hstatus])

theorem claimSignature_answers {new : NewEffect} (hclaims : Claims V call signature new)
    (past : Past) : Program.Satisfies (callPre V call signature) (Answers V call signature) past
      (claimSignature V new) := by
  refine Program.satisfies_stmt_bind hclaims (raised_last past _) fun created => ?_
  cases created with
  | some id =>
    dsimp only
    cases happroval : new.approvalId with
    | some approvalId => exact .suspended hclaims (ran_last _ _) happroval
    | none =>
      have hfree : V.requiresApproval call.toolName = false := by
        by_contra hrequires
        have hsome := (hclaims.gated (by simpa using hrequires)).1
        simp [happroval] at hsome
      exact .created hclaims (ran_last _ _) (.inl hfree)
  | none =>
    refine Program.satisfies_stmt_bind hclaims.signature (raised_last _ _) fun existing => ?_
    rw [hclaims.signature]
    cases existing with
    | some e => exact respondForLiveEffect_answers (ran_last _ _)
    | none =>
      cases happroval : new.approvalId with
      | some approvalId => exact .lostPending hclaims (ran_last _ _) List.prefix_rfl happroval
      | none => exact .lostExecuted hclaims (ran_last _ _) List.prefix_rfl happroval

theorem handleNewCall_answers (orgId : String) (call : ToolCall) (signature : CallSignature)
    (past : Past) : Program.Satisfies (callPre V call signature) (Answers V call signature) past
      (handleNewCall V orgId call signature) := by
  unfold handleNewCall
  split
  · next hgated =>
    refine Program.satisfies_stmt_bind trivial (raised_last past _) fun approvalId => ?_
    split
    · next hauto =>
      have hclaims : Claims V call signature
          (newEffect orgId call signature .executing (some approvalId)) :=
        ⟨rfl, rfl, rfl, by simp [hgated], by simp [newEffect, hauto]⟩
      refine Program.satisfies_stmt_bind hclaims (raised_last _ _) fun created => ?_
      cases created with
      | some id =>
        refine Program.satisfies_stmt_bind ⟨hauto, rfl⟩ (raised_last _ _) fun _ => ?_
        refine Program.satisfies_stmt_bind trivial (raised_last _ _) fun _ => ?_
        exact .created hclaims (List.mem_append_left _ (List.mem_append_left _ (ran_last _ _)))
          (.inr hauto)
      | none => exact claimSignature_answers hclaims _
    · next hauto =>
      refine claimSignature_answers ?_ _
      exact ⟨rfl, rfl, rfl, by simp [hgated], by simp [newEffect, hauto]⟩
  · next hgated =>
    refine claimSignature_answers ?_ _
    exact ⟨rfl, rfl, rfl, fun _ => ⟨rfl, rfl⟩, by simp [hgated]⟩

theorem handleCall_answers (orgId : String) (call : ToolCall) (signature : CallSignature)
    (past : Past) : Program.Satisfies (callPre V call signature) (Answers V call signature) past
      (handleCall V orgId call signature) := by
  refine Program.satisfies_stmt_bind rfl (raised_last past _) fun existing => ?_
  cases existing with
  | some e => exact respondForLiveEffect_answers (ran_last _ _)
  | none => exact handleNewCall_answers orgId call signature _

/-! ## Decisions and reports -/

/-- The status that a decision gives to an approval. -/
def Decision.status : Decision → ApprovalStatus
  | .approve => .approved
  | .reject => .rejected

/-- What a decision does to the effect of the approval. -/
def Decision.update (approval : ApprovalRow) : Decision → Step
  | .approve => .recordCommit approval.effectId (mockToolResult approval.toolName approval.args)
  | .reject => .markRejected approval.effectId

/-- A decision has read its approval. -/
def readStep (approvalId : String) (approval : ApprovalRow) : Ran Step Step.Ret Exception :=
  ⟨.getApproval approvalId, .ok (some approval)⟩

/-- A decision has resolved its approval. -/
def resolveStep (approvalId : String) (action : Decision) : Ran Step Step.Ret Exception :=
  ⟨.resolveApproval approvalId action.status, .ok true⟩

/-- What the transactions of a decision come after. -/
inductive DecisionPre (approvalId : String) (action : Decision) : Past → Step → Prop
  | read : DecisionPre approvalId action [] (.getApproval approvalId)
  | resolve (approval : ApprovalRow) : DecisionPre approvalId action [readStep approvalId approval]
      (.resolveApproval approvalId action.status)
  | update (approval : ApprovalRow) : DecisionPre approvalId action
      [readStep approvalId approval, resolveStep approvalId action] (action.update approval)
  | payload (approval : ApprovalRow) (found : (action.update approval).Ret) :
      DecisionPre approvalId action [readStep approvalId approval, resolveStep approvalId action,
        ⟨action.update approval, .ok found⟩] (.getApproval approvalId)

/-- The result of a decision that has resolved its approval: it has updated the effect, or an
exception was raised afterwards. -/
def decisionPost (approvalId : String) (action : Decision) (past : Past)
    (r : Except Exception Reply) : Prop :=
  resolveStep approvalId action ∈ past →
    match r with
    | .ok _ => ∃ approval, ∃ found : (action.update approval).Ret, ∃ payload,
        past = [readStep approvalId approval, resolveStep approvalId action,
          ⟨action.update approval, .ok found⟩, ⟨.getApproval approvalId, .ok payload⟩]
    | .error e => ∃ before st, past = before ++ [⟨st, .error e⟩] ∧
        resolveStep approvalId action ∈ before

/-- The transaction of a report. -/
def reportPre (effectId : String) : Report → Step → Prop
  | .commit, st => ∃ result, st = .recordCommit effectId result
  | .fail, st => ∃ error, st = .recordFail effectId error

theorem decideApproval_eq (approval : ApprovalRow) (approvalId : String) (action : Decision) :
    ∃ reply : Reply, decideApproval approval approvalId action = (do
      let resolved ← journal (.resolveApproval approvalId action.status)
      if resolved then do
        let _ ← journal (action.update approval)
        let _ ← journal (.getApproval approvalId)
        pure reply
      else pure alreadyResolved) := by
  cases action with
  | approve => exact ⟨.approved approvalId approval.effectId
      (mockToolResult approval.toolName approval.args), rfl⟩
  | reject => exact ⟨.rejected approvalId, rfl⟩

theorem decisionPost_error {approvalId : String} {action : Decision} {past : Past} {st : Step}
    {e : Exception} (h : resolveStep approvalId action ∈ past) :
    decisionPost approvalId action (past ++ [⟨st, .error e⟩]) (.error e) :=
  fun _ => ⟨past, st, rfl, h⟩

theorem decideApproval_satisfies (approvalId : String) (action : Decision)
    (approval : ApprovalRow) :
    Program.Satisfies (DecisionPre approvalId action) (decisionPost approvalId action)
      [readStep approvalId approval] (decideApproval approval approvalId action) := by
  obtain ⟨reply, heq⟩ := decideApproval_eq approval approvalId action
  rw [heq]
  refine Program.satisfies_stmt_bind (.resolve approval) ?_ fun resolved => ?_
  · intro e hmem
    simp [resolveStep, readStep] at hmem
  · cases resolved with
    | false =>
      intro hmem
      simp [resolveStep, readStep] at hmem
    | true =>
      refine Program.satisfies_stmt_bind (.update approval) ?_ fun updated => ?_
      · exact fun e => decisionPost_error (ran_last _ _)
      · refine Program.satisfies_stmt_bind (.payload approval updated) ?_ fun payload => ?_
        · exact fun e => decisionPost_error (List.mem_append_left _ (ran_last _ _))
        · exact fun _ => ⟨approval, updated, payload, rfl⟩

theorem handleApprovalDecision_satisfies (approvalId : String) (action : Decision) (body : Body) :
    Program.Satisfies (DecisionPre approvalId action) (decisionPost approvalId action) []
      (handleApprovalDecision approvalId action body) := by
  -- nothing was resolved by the lookup
  have hnone : ∀ reply, resolveStep approvalId action ∉
      ([] ++ [⟨.getApproval approvalId, reply⟩] : Past) := by
    simp [resolveStep]
  refine Program.satisfies_stmt_bind .read ?_ fun found => ?_
  · intro e hmem
    exact absurd hmem (hnone _)
  · cases found with
    | none => exact fun hmem => absurd hmem (hnone _)
    | some approval =>
      dsimp only
      split
      · exact fun hmem => absurd hmem (hnone _)
      · cases body with
        | error e => exact fun hmem => absurd hmem (hnone _)
        | ok body => exact decideApproval_satisfies approvalId action approval

theorem handleEffectAction_satisfies (effectId : String) (action : Report) (body : Body) :
    Program.Satisfies (fun _ => reportPre effectId action) (fun _ _ => True) []
      (handleEffectAction effectId action body) := by
  have hreport : ∀ (st : Step) (found : st.Ret → Bool) (reply : Reply),
      reportPre effectId action st →
      Program.Satisfies (fun _ => reportPre effectId action) (fun _ _ => True) []
        (reportOn st found reply) := by
    intro st found reply hpre
    refine Program.satisfies_stmt_bind hpre (fun _ => trivial) fun updated => ?_
    split <;> trivial
  unfold handleEffectAction
  cases action with
  | commit | fail =>
    dsimp only
    split
    · trivial
    · exact hreport _ _ _ ⟨_, rfl⟩

/-! ## The contract -/

/-- What each request has run before a transaction. -/
def requestPre (V : Server) (req : Request) (past : Past) (st : Step) : Prop :=
  match req with
  | .toolCall _ _ => ∃ call signature, Calls V req call signature ∧ callPre V call signature past st
  | .decision approvalId action _ => DecisionPre approvalId action past st
  | .effect effectId action _ => reportPre effectId action st

/-- How the result of each request follows from what it has run. -/
def requestPost (V : Server) (req : Request) (past : Past) (r : Except Exception Reply) : Prop :=
  match req with
  | .toolCall _ _ => ∀ call signature, Calls V req call signature → Answers V call signature past r
  | .decision approvalId action _ => decisionPost approvalId action past r
  | .effect _ _ _ => True

theorem Calls.unique {req : Request} {call call' : ToolCall} {s s' : CallSignature}
    (h : Calls V req call s) (h' : Calls V req call' s') : call = call' ∧ s = s' := by
  obtain ⟨⟨headers, body, rfl, hcall⟩, hs⟩ := h
  obtain ⟨⟨headers', body', heq, hcall'⟩, hs'⟩ := h'
  cases heq
  obtain rfl := Except.ok.inj (hcall.symm.trans hcall')
  exact ⟨rfl, Except.ok.inj (hs.symm.trans hs')⟩

theorem handleToolCall_satisfies (headers : Headers) (body : Body) :
    Program.Satisfies (requestPre V (.toolCall headers body))
      (requestPost V (.toolCall headers body)) [] (handleToolCall V headers body) := by
  -- a request that is refused before the journal is reached is no call with a signature
  have hrefused : ∀ r, (∀ call signature, ¬ Calls V (.toolCall headers body) call signature) →
      requestPost V (.toolCall headers body) [] r := fun r hnot call signature hcalls =>
    absurd hcalls (hnot call signature)
  unfold handleToolCall
  cases hbody : body.bind toolCallOf with
  | error e =>
    refine hrefused _ ?_
    rintro call signature ⟨⟨headers', body', heq, hcall⟩, -⟩
    cases heq
    cases hbody.symm.trans hcall
  | ok call =>
    dsimp only
    have hnot : ∀ e, V.callSignature call = .error e →
        ∀ call' signature, ¬ Calls V (.toolCall headers body) call' signature := by
      rintro e he call' signature ⟨⟨headers', body', heq, hcall⟩, hs⟩
      cases heq
      obtain rfl := Except.ok.inj (hbody.symm.trans hcall)
      cases he.symm.trans hs
    split
    · next he => exact hrefused _ (hnot _ he)
    · next e he => exact hrefused _ (hnot _ he)
    · next signature hs =>
      have hcalls : Calls V (.toolCall headers body) call signature :=
        ⟨⟨headers, body, rfl, hbody⟩, hs⟩
      refine (handleCall_answers headers.organisation call signature []).mono ?_ ?_
      · exact fun past st hpre => ⟨call, signature, hcalls, hpre⟩
      · intro past r hanswers call' signature' hcalls'
        obtain ⟨rfl, rfl⟩ := hcalls.unique hcalls'
        exact hanswers

/-- The contract of the server. -/
def serverContract (V : Server) : Contract (devServer V) where
  pre := requestPre V
  post := requestPost V
  satisfied := by
    intro req
    cases req with
    | toolCall headers body => exact handleToolCall_satisfies headers body
    | decision approvalId action body =>
      exact handleApprovalDecision_satisfies approvalId action body
    | effect effectId action body => exact handleEffectAction_satisfies effectId action body

end UndoLog.Dev
