import UndoLog.Dev.History

/-!
# Decisions on approvals

A decision reads the approval, resolves it, updates the effect and reads the approval again.
Without automatic approval each approval is resolved by at most one decision, and from the
replies to its transactions it is known how far it has come.
-/

namespace UndoLog.Dev

open Concurrent Machine Relational

variable {V : Server} {guard : Guard (devServer V)} {c c' : Moment V}

/-! ## Resolutions -/

/-- A request has resolved an approval. -/
def Resolved (c : Moment V) (t : ℕ) (id : String) (status : ApprovalStatus) : Prop :=
  Performed c t (.resolveApproval id status) (.ok true)

variable {t : ℕ} {status : ApprovalStatus} {action : Decision} {st : Step} {id : String}
  {o : Circumstance} {past : Past} {approval : ApprovalRow} {body : Body}
  {next : Except Exception st.Ret → Handler Reply}

theorem resolveApproval_true {j j' : Journal}
    (h : Step.run o (.resolveApproval id status) j = (.ok true, j')) :
    (∃ a ∈ j.approvals, a.id = id ∧ a.status = .pending) ∧ j' = j.resolve id status o.now := by
  have hperform := Step.run_of_ok h
  have hany : (j.resolveApproval id status o.now).1 = true :=
    Except.ok.inj (congrArg Prod.fst hperform)
  have hstore : j.resolve id status o.now = j' := congrArg Prod.snd hperform
  refine ⟨?_, hstore.symm⟩
  simpa [Journal.resolveApproval] using hany

/-- An approval that a request has resolved has the status it was given. -/
theorem resolved_status (hc : Arises V guard c) (hstatus : status ≠ .pending)
    (h : Resolved c t id status) : ∃ a ∈ c.store.approvals, a.id = id ∧ a.status = status := by
  obtain ⟨d, d', o, -, hd', -, -, hrun, -, hrest⟩ := performed_at hc h
  obtain ⟨⟨a, ha, hid, hpending⟩, hstore⟩ := resolveApproval_true hrun
  obtain ⟨b, hb, hbid, rfl⟩ : ∃ b ∈ Journal.approvals d'.store, b.id = id ∧ b.status = status := by
    rw [hstore]
    refine ⟨_, mem_updateWhere.mpr ⟨a, ha, rfl⟩, ?_⟩
    rw [updateRow_of_pos (by simp [hid, hpending])]
    exact ⟨hid, rfl⟩
  obtain ⟨b', hb', hlater⟩ := approval_run hd' hrest hb
  exact ⟨b', hb', hlater.id.trans hbid, hlater.status hstatus⟩

theorem resolved_once (hc : Arises V guard c) {t' : ℕ}
    {status' : ApprovalStatus} (hstatus : status ≠ .pending) (hstatus' : status' ≠ .pending)
    (h : Resolved c t id status) (h' : Resolved c t' id status') : t = t' := by
  refine hc.invariant (P := fun c => Resolved c t id status → Resolved c t' id status' → t = t')
    ?_ ?_ h h'
  · intro j _ hresolved
    cases hresolved
  · intro c choice c' hc ih _ htrans hresolved hresolved'
    -- an approval that was resolved before is not pending any more
    have hfresh : ∀ {u : ℕ} {o : Circumstance} {s s' : ApprovalStatus}, s ≠ .pending →
        Resolved c u id s → Step.run o (.resolveApproval id s') c.store ≠ (.ok true, c'.store) := by
      intro u o s s' hs hold hrun
      obtain ⟨a, ha, hid, hsame⟩ := resolved_status hc hs hold
      obtain ⟨⟨b, hb, hbid, hpending⟩, -⟩ := resolveApproval_true hrun
      obtain rfl := (journal_sound hc).approvalIds.eq ha hb (hid.trans hbid.symm)
      exact hs (hsame.symm.trans hpending)
    rcases performed_cases htrans hresolved with hold | ⟨hnew, o, hrun⟩ <;>
      rcases performed_cases htrans hresolved' with hold' | ⟨hnew', o', hrun'⟩
    · exact ih hold hold'
    · exact absurd hrun' (hfresh hstatus hold)
    · exact absurd hrun (hfresh hstatus' hold')
    · cases List.append_cancel_left (hnew.symm.trans hnew')
      rfl

theorem reply_of_resolution {j : Journal} {a a' : ApprovalRow} (hj : j.Sound) (ha : a ∈ j.approvals)
    (hpending : a.status = .pending) (hid : a'.id = a.id)
    (ha' : a' ∈ (Step.run o (.resolveApproval a.id a'.status) j).2.approvals)
    (hstatus : a'.status ≠ .pending) :
    (Step.run o (.resolveApproval a.id a'.status) j).1 = .ok true := by
  unfold Step.run at ha' ⊢
  split at ha'
  · -- nothing was written
    obtain rfl := hj.approvalIds.eq ha' ha hid
    exact absurd hpending hstatus
  · next hfree =>
    rw [if_neg hfree]
    have hany : (j.resolveApproval a.id a'.status o.now).1 = true :=
      List.any_eq_true.mpr ⟨a, ha, by simp [hpending]⟩
    exact congrArg Except.ok hany

theorem resolver_of_approval (hc : Arises V guard c) :
    ∀ a ∈ c.store.approvals, a.status ≠ .pending → ∃ t, Resolved c t a.id a.status := by
  refine hc.invariant ?_ ?_
  · rintro j rfl a ha
    cases ha
  · intro c choice c' hc ih _ htrans a' ha' hstatus
    have hkeep : ∀ a ∈ c.store.approvals, a.id = a'.id → a.status = a'.status →
        ∃ t, Resolved c' t a'.id a'.status := by
      intro a ha hid hsame
      obtain ⟨t, hresolved⟩ := ih a ha (hsame ▸ hstatus)
      rw [hid, hsame] at hresolved
      exact ⟨t, htrans.subset hresolved⟩
    rcases store_cases htrans with heq | ⟨t, o, st, next, rfl, hcall, heq⟩
    · exact hkeep a' (heq ▸ ha') rfl rfl
    · have hchange := Step.run_change o st c.store
      rw [← heq] at hchange
      obtain ⟨f, happrovals, hf⟩ | ⟨new, approvalId, id, now, -, -, -, -, -, happrovals⟩ :=
        hchange.approvals
      · have hmap := ha'
        rw [happrovals] at hmap
        obtain ⟨a, ha, rfl⟩ := List.mem_map.mp hmap
        rcases (hf a).outcome with hsame | ⟨hpending, hst⟩
        · exact hkeep a ha (hf a).id.symm hsame.symm
        · -- the step has resolved it
          subst hst
          rw [heq] at ha'
          have hreply := reply_of_resolution (journal_sound hc) ha hpending (hf a).id ha' hstatus
          refine ⟨t, mem_ranBy.mp ?_⟩
          rw [(hf a).id, ranBy_run htrans hcall]
          exact List.mem_append_right _ (List.mem_singleton.mpr (by rw [← hreply]))
      · rw [happrovals] at ha'
        rcases List.mem_snoc.mp ha' with hold | rfl
        · exact hkeep a' hold rfl rfl
        · exact absurd rfl hstatus

theorem Decision.status_ne_pending (action : Decision) : action.status ≠ .pending := by
  cases action <;> simp [Decision.status]

/-- Without automatic approval only a decision resolves an approval, right after it has read
it. -/
theorem decision_of_pre (hauto : V.autoApprove = false) {req : Request}
    (h : requestPre V req past (.resolveApproval id status)) :
    ∃ action body approval, req = .decision id action body ∧ status = action.status ∧
      past = [readStep id approval] := by
  cases req with
  | toolCall headers body =>
    obtain ⟨call, signature, -, htrue, -⟩ := h
    cases hauto.symm.trans htrue
  | effect effectId action body =>
    cases action <;>
    · obtain ⟨_, heq⟩ := h
      cases heq
  | decision approvalId action body =>
    generalize hst : Step.resolveApproval id status = st at h
    cases h with
    | resolve approval =>
      cases hst
      exact ⟨action, body, approval, rfl, rfl, rfl⟩
    | read | payload => cases hst
    | update approval => cases action <;> cases hst

/-- The decision that resolved an approval. -/
theorem decision_of_resolved (hauto : V.autoApprove = false) (hc : Arises V guard c)
    (h : Resolved c t id status) :
    ∃ action body, Started c t (.decision id action body) ∧ status = action.status := by
  obtain ⟨req, hstart⟩ := hc.coherent.ran_started t _ _ h
  obtain ⟨before, -, -, hpre⟩ := (serverContract V).pre_of_ran hc.coherent hstart h
  obtain ⟨action, body, approval, rfl, hstatus, -⟩ := decision_of_pre hauto hpre
  exact ⟨action, body, hstart, hstatus⟩

theorem read_persists (hc : Arises V guard c)
    (h : Performed c t (.getApproval id) (.ok (some approval))) :
    ∃ a ∈ c.store.approvals, a.id = id ∧ a.effectId = approval.effectId ∧
      a.toolName = approval.toolName ∧ a.args = approval.args := by
  obtain ⟨d, d', o, hd, -, -, -, hrun, hstep, hrest⟩ := performed_at hc h
  have hfind : Journal.getApproval id d.store = some approval :=
    Except.ok.inj (congrArg Prod.fst (Step.run_of_ok hrun))
  have hid : approval.id = id := by simpa using List.find?_some hfind
  obtain ⟨a, ha, hlater⟩ :=
    approval_run hd (hstep.trans hrest) (List.mem_of_find?_eq_some hfind)
  exact ⟨a, ha, hlater.id.trans hid, hlater.effectId, hlater.toolName, hlater.args⟩

/-! ## The phases of a decision -/

theorem decision_pre (hc : Arises V guard c) (hstart : Started c t (.decision id action body))
    (hcall : c.calls t = some (.call st next)) : DecisionPre id action (ranBy t c.trace) st := by
  obtain ⟨req, hstart', hpre⟩ := (serverContract V).pre_of_call hc.coherent hcall
  obtain rfl := hc.coherent.started_unique t _ _ hstart hstart'
  exact hpre

theorem DecisionPre.update_of_resolved
    (h : DecisionPre id action [readStep id approval, resolveStep id action] st) :
    st = action.update approval := by
  generalize hpast : [readStep id approval, resolveStep id action] = past at h
  cases h with
  | read | resolve | payload => cases hpast
  | update approval' =>
    cases hpast
    rfl

theorem DecisionPre.not_create (h : DecisionPre id action past st) (new : NewEffect) :
    st ≠ .createEffect new := by
  rintro rfl
  generalize hst : Step.createEffect new = st at h
  cases h with
  | update approval => cases action <;> cases hst
  | _ => cases hst

/-- Only the decision that resolved the approval of an effect updates the effect, right after
the resolution. -/
theorem update_by_resolver (hc : Arises V guard c) {a : ApprovalRow}
    (ha : a ∈ Journal.approvals c.store) (hresolved : Resolved c t a.id action.status) {u : ℕ}
    {action' : Decision} (hstart : Started c u (.decision id action' body))
    (hcall : c.calls u = some (.call st next))
    {outcome : EffectStatus × Option Dict × Option String}
    (hsets : st.sets = some (a.effectId, outcome)) : u = t ∧ (ranBy u c.trace).length = 2 := by
  have hpre := decision_pre hc hstart hcall
  generalize hpast : ranBy u c.trace = past at hpre
  cases hpre with
  | read | resolve | payload => cases hsets
  | update approval =>
    have hread : Performed c u (.getApproval id) (.ok (some approval)) :=
      mem_ranBy.mp (by rw [hpast]; exact List.mem_cons_self)
    have hother : Resolved c u id action'.status :=
      mem_ranBy.mp (by rw [hpast]; exact List.mem_cons_of_mem _ List.mem_cons_self)
    have heffect : approval.effectId = a.effectId := by
      cases action' <;> exact congrArg Prod.fst (Option.some.inj hsets)
    -- an effect has one approval
    obtain ⟨b, hb, hbid, hbeffect, -, -⟩ := read_persists hc hread
    obtain rfl := (journal_sound hc).owners.eq ha hb (hbeffect.trans heffect).symm
    subst hbid
    exact ⟨resolved_once hc action'.status_ne_pending action.status_ne_pending hother hresolved,
      rfl⟩

end UndoLog.Dev
