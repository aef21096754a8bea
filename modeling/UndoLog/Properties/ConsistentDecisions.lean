import UndoLog.Dev.Decisions
import UndoLog.Properties.LiveEffects

/-!
# Decisions and the effects they are about

A decision resolves its approval in one transaction and updates the effect in the next. The
two rows agree at the end unless the request disappears or raises in between, or a report
changes the effect afterwards.
-/

namespace UndoLog.Dev

open Concurrent Machine Relational

variable {V : Server} {c c' : Moment V} {t : ℕ}

/-! ## The condition -/

/-- Whether a request has resolved an approval. -/
def resolves (t : ℕ) (c : Moment V) : Bool :=
  c.trace.any fun
    | .ran u (.resolveApproval _ _) (.ok true) => u = t
    | _ => false

/-- Whether a request that has resolved an approval is about to update an effect. -/
def updating (effectId : String) (c : Moment V) : Bool :=
  (List.range c.next).any fun u => resolves u c &&
    match c.calls u with
    | some (.call st _) => (Step.sets st).any (·.1 = effectId)
    | _ => false

/-- A report fits the decisions so far: the approvals of its effect are pending, or approved while
the report is a commit, or the decision has still to update the effect. -/
def ReportFits (c : Moment V) (st : Step) : Prop :=
  match st.sets with
  | some (id, status, _) => ∀ a ∈ Journal.approvals c.store, a.effectId = id →
      a.status = .pending ∨ a.status = .approved ∧ status = .committed ∨ updating id c = true
  | none => True

/-- The condition at a step: the transactions that follow a resolution do not raise, and
reports fit the decisions. -/
def Undisturbing (c : Moment V) (t : ℕ) (o : Circumstance) (st : Step) : Prop :=
  if resolves t c then o.locked = false ∧ st.Unhindered c.store else ReportFits c st

/-- Every step meets the condition, and no request disappears after it has resolved an
approval. -/
def Undisturbed (V : Server) : Guard (devServer V)
  | c, .crash t => resolves t c = false
  | c, .run t o =>
    match c.calls t with
    | some (.call st _) => Undisturbing c t o st
    | _ => True
  | _, _ => True

instance decidableReportFits (c : Moment V) (st : Step) : Decidable (ReportFits c st) :=
  decidable_of_iff (∀ x ∈ st.sets, ∀ a ∈ Journal.approvals c.store, a.effectId = x.1 →
      a.status = .pending ∨ a.status = .approved ∧ x.2.1 = .committed ∨ updating x.1 c = true) (by
    unfold ReportFits
    cases st.sets <;> simp)

instance decidableUndisturbing (c : Moment V) (t : ℕ) (o : Circumstance) (st : Step) :
    Decidable (Undisturbing c t o st) := by
  have := decidableUnhindered c.store st
  unfold Undisturbing
  infer_instance

instance decidableUndisturbed :
    ∀ (c : Moment V) (choice : Choice (devServer V)), Decidable (Undisturbed V c choice)
  | c, .crash t => inferInstanceAs (Decidable (resolves t c = false))
  | c, .run t o =>
    match hcall : c.calls t with
    | some (.call st _) =>
      @decidable_of_iff _ (Undisturbing c t o st) (by simp [Undisturbed, hcall])
        (decidableUndisturbing c t o st)
    | some (.done _) | none => .isTrue (by simp [Undisturbed, hcall])
  | _, .start _ | _, .finish _ | _, .environment _ => .isTrue trivial

theorem resolves_iff : resolves t c = true ↔ ∃ id status, Resolved c t id status := by
  constructor
  · intro h
    obtain ⟨event, hmem, hevent⟩ := List.any_eq_true.mp h
    split at hevent
    · next u id status =>
      obtain rfl : u = t := by simpa using hevent
      exact ⟨id, status, hmem⟩
    · cases hevent
  · rintro ⟨id, status, h⟩
    exact List.any_eq_true.mpr ⟨_, h, by simp⟩

variable {o : Circumstance} {st : Step} {next : Except Exception st.Ret → Handler Reply}
    {status : ApprovalStatus} {action : Decision} {id : String} {body : Body}

theorem unhindered_of_guard (hguard : Undisturbed V c (.run t o))
    (hcall : c.calls t = some (.call st next))
    (h : Resolved c t id status) : o.locked = false ∧ Step.Unhindered c.store st := by
  simp only [Undisturbed, hcall, Undisturbing] at hguard
  rwa [if_pos (resolves_iff.mpr ⟨id, status, h⟩)] at hguard

theorem reportFits_of_guard (hauto : V.autoApprove = false) (hc : Arises V (Undisturbed V) c)
    (hguard : Undisturbed V c (.run t o)) (hcall : c.calls t = some (.call st next))
    {action : Report} (hstart : Started c t (.effect id action body)) : ReportFits c st := by
  simp only [Undisturbed, hcall, Undisturbing] at hguard
  split at hguard
  · next h =>
    -- only decisions resolve approvals
    obtain ⟨approvalId, status, hresolved⟩ := resolves_iff.mp h
    obtain ⟨action', body', hstart', -⟩ := decision_of_resolved hauto hc hresolved
    cases hc.coherent.started_unique t _ _ hstart hstart'
  · exact hguard

/-! ## Every decision that resolves its approval gets a response -/

theorem not_raised_after_resolution (hc : Arises V (Undisturbed V) c)
    (hstart : Started c t (.decision id action body))
    {before : Past} {e : Exception} (hresolved : resolveStep id action ∈ before) :
    ¬ before ++ [⟨st, .error e⟩] <+: ranBy t c.trace := by
  intro hprefix
  obtain ⟨earlier, later, htrace, hran⟩ := ranBy_split hprefix
  obtain ⟨d, choice, d', hrec⟩ := hc.recorded htrace
  obtain ⟨o, next, rfl, hcall, hrun⟩ := run_of_ran hrec.step hrec.trace'
  have hpast : ranBy t d.trace = before := by rw [hrec.trace, hran]
  have hresolved : Resolved d t id action.status := mem_ranBy.mp (by rw [hpast]; exact hresolved)
  obtain ⟨hfree, hunhindered⟩ := unhindered_of_guard hrec.allowed hcall hresolved
  obtain ⟨req, hstart', hpre⟩ := (serverContract V).pre_of_call hrec.reachable.coherent hcall
  obtain rfl := hc.coherent.started_unique t _ _ hstart (hrec.run.trace.subset hstart')
  obtain ⟨r, hreply⟩ := Step.run_ok hfree hunhindered (DecisionPre.not_create hpre)
  rw [hrun] at hreply
  cases hreply

variable {choice : Choice (devServer V)} {result : Dict} {e : EffectRow}
  {guard : Guard (devServer V)} {approval : ApprovalRow}

/-- A decision that has resolved its approval goes on or ends with a response. -/
theorem resolved_goes_on (hc : Arises V (Undisturbed V) c) (hguard : Undisturbed V c choice)
    (htrans : Transition c choice c') (hstart : Started c t (.decision id action body))
    (hresolved : Resolved c t id action.status) (hrunning : (c.calls t).isSome = true) :
    (c'.calls t).isSome = true ∨ ∃ reply, Returned c' t (.ok reply) ∧
      decisionPost id action (ranBy t c.trace) (.ok reply) := by
  rcases htrans.ended hrunning with hrunning' | ⟨r, rfl, hdone⟩ | rfl
  · exact .inl hrunning'
  · obtain ⟨req, hstart', hpost⟩ := (serverContract V).post_of_done hc.coherent hdone
    obtain rfl := hc.coherent.started_unique t _ _ hstart hstart'
    cases r with
    | ok reply =>
      refine .inr ⟨reply, ?_, hpost⟩
      cases htrans with
      | finish hcall =>
        cases hdone.symm.trans hcall
        exact List.mem_concat_self
    | error e =>
      obtain ⟨before, st, hran, hbefore⟩ := hpost (mem_ranBy.mpr hresolved)
      have hprefix : before ++ [⟨st, .error e⟩] <+: ranBy t c.trace :=
        ⟨[], (List.append_nil _).trans hran.symm⟩
      exact absurd hprefix (not_raised_after_resolution hc hstart hbefore)
  · have hcrash : resolves t c = false := hguard
    rw [resolves_iff.mpr ⟨id, _, hresolved⟩] at hcrash
    cases hcrash

theorem resolved_answered (hauto : V.autoApprove = false) (hc : Arises V (Undisturbed V) c)
    (h : Resolved c t id status) :
    (c.calls t).isSome = true ∨ ∃ reply, Returned c t (.ok reply) := by
  suffices hboth : Resolved c t id status ∧
      ((c.calls t).isSome = true ∨ ∃ reply, Returned c t (.ok reply)) from hboth.2
  refine hc.since h ?_ ?_
  · intro c choice c' _ _ htrans htrace
    refine ⟨?_, .inl ?_⟩
    · rw [Resolved, Performed, htrace]
      exact List.mem_concat_self
    · obtain ⟨o, next, rfl, hcall, -⟩ := run_of_ran htrans htrace
      cases htrans with
      | run hcall' hexec => simp
  · rintro c choice c' hc hguard htrans ⟨hresolved, hrunning | ⟨reply, hreturned⟩⟩
    · obtain ⟨action, body, hstart, rfl⟩ := decision_of_resolved hauto hc hresolved
      exact ⟨htrans.subset hresolved, (resolved_goes_on hc hguard htrans hstart hresolved
        hrunning).imp_right (Exists.imp fun _ h => h.1)⟩
    · exact ⟨htrans.subset hresolved, .inr ⟨reply, htrans.subset hreturned⟩⟩

/-! ## What a decision leaves behind -/

/-- A result was reported for the effect of an approval after a decision had committed it. -/
def ReportedSince (c : Moment V) (t : ℕ) (approval : ApprovalRow) (result : Dict) : Prop :=
  ∃ earlier later, ∃ found : (Decision.update approval .approve).Ret,
    c.trace = earlier ++ .ran t (Decision.update approval .approve) (.ok found) :: later ∧
    ∃ u body, Started c u (.effect approval.effectId .commit body) ∧
      .ran u (.recordCommit approval.effectId result) (.ok true) ∈ later

/-- What a decision says of an effect. -/
def Agrees (c : Moment V) (t : ℕ) (approval : ApprovalRow) (e : EffectRow) : Decision → Prop
  | .approve => e.status = .committed ∧
      (e.result = some (mockToolResult approval.toolName approval.args) ∨
        ∃ result, e.result = some result ∧ ReportedSince c t approval result)
  | .reject => e.status = .rejected

/-- The effect of an approval is as its decision says. -/
def Settled (c : Moment V) (t : ℕ) (action : Decision) (approval : ApprovalRow) : Prop :=
  ∃ e ∈ Journal.effects c.store, e.id = approval.effectId ∧ Agrees c t approval e action

/-- How far a decision that has resolved its approval has come. -/
inductive Progress (c : Moment V) (t : ℕ) (id : String) (action : Decision)
    (approval : ApprovalRow) : Prop
  | resolving (hran : ranBy t c.trace = [readStep id approval, resolveStep id action])
      (hrunning : (c.calls t).isSome = true)
  | updated (found : (action.update approval).Ret)
      (hran : [readStep id approval, resolveStep id action, ⟨action.update approval, .ok found⟩] <+:
        ranBy t c.trace)
      (hsettled : Settled c t action approval)

theorem ReportedSince.mono (h : ReportedSince c t approval result) (htrace : c.trace <+: c'.trace) :
    ReportedSince c' t approval result := by
  obtain ⟨earlier, later, found, heq, u, body, hstart, hreport⟩ := h
  obtain ⟨rest, hrest⟩ := htrace
  refine ⟨earlier, later ++ rest, found, ?_, u, body, ?_, List.mem_append_left _ hreport⟩
  · rw [← hrest, heq, List.append_assoc, List.cons_append]
  · rw [Started, ← hrest]
    exact List.mem_append_left _ hstart

theorem Agrees.mono {e' : EffectRow} (h : Agrees c t approval e action)
    (htrace : c.trace <+: c'.trace) (hstatus : e'.status = e.status)
    (hresult : e'.result = e.result) : Agrees c' t approval e' action := by
  cases action with
  | reject => exact hstatus.trans h
  | approve =>
    obtain ⟨hcommitted, hmock | ⟨result, hsome, hreported⟩⟩ := h
    · exact ⟨hstatus.trans hcommitted, .inl (hresult.trans hmock)⟩
    · exact ⟨hstatus.trans hcommitted, .inr ⟨result, hresult.trans hsome, hreported.mono htrace⟩⟩

theorem Decision.run_update {j : Journal}
    (ho : o.locked = false) (hfree : (action.update approval).Unhindered j) (he : e ∈ j.effects)
    (hid : e.id = approval.effectId) (c' : Moment V) (t : ℕ)
    (hstore : c'.store = (Step.run o (action.update approval) j).2) :
    (∃ found, (Step.run o (action.update approval) j).1 = .ok found) ∧
      Settled c' t action approval := by
  rw [Step.run_free ho] at hstore ⊢
  cases action with
  | approve =>
    let result := mockToolResult approval.toolName approval.args
    have hset := Journal.updateEffect_set (some result) none hfree he hid
    have hafter : c'.store = j.setEffect approval.effectId .committed (some result) none :=
      hstore.trans (congrArg Prod.snd hset)
    have hrow := Journal.mem_setEffect he hid .committed (some result) none
    rw [← hafter] at hrow
    exact ⟨⟨true, congrArg Prod.fst hset⟩, _, hrow, hid, rfl, .inl rfl⟩
  | reject =>
    have hset := Journal.updateEffect_set none none hfree he hid
    have hafter : c'.store = j.setEffect approval.effectId .rejected none none :=
      hstore.trans (congrArg Prod.snd hset)
    have hrow := Journal.mem_setEffect he hid .rejected none none
    rw [← hafter] at hrow
    exact ⟨⟨true, congrArg Prod.fst hset⟩, _, hrow, hid, rfl⟩

/-- A request that has resolved an approval and is about to update its effect is the decision
that resolved it. -/
theorem not_updating (hauto : V.autoApprove = false) (hc : Arises V (Undisturbed V) c)
    {a : ApprovalRow} (ha : a ∈ Journal.approvals c.store)
    (hresolved : Resolved c t a.id action.status) (hlong : 2 < (ranBy t c.trace).length) :
    updating a.effectId c = false := by
  refine eq_false_of_ne_true fun h => ?_
  obtain ⟨u, -, hu⟩ := List.any_eq_true.mp h
  obtain ⟨hresolves, hnext⟩ := Bool.and_eq_true_iff.mp hu
  obtain ⟨id, status, hother⟩ := resolves_iff.mp hresolves
  obtain ⟨action', body, hstart, -⟩ := decision_of_resolved hauto hc hother
  split at hnext
  · next st next hcall =>
    obtain ⟨⟨effectId, outcome⟩, hsets, hid⟩ := (Option.any_eq_true _ _).mp hnext
    obtain rfl : effectId = a.effectId := by simpa using hid
    obtain ⟨rfl, hshort⟩ := update_by_resolver hc ha hresolved hstart hcall hsets
    omega
  · cases hnext

/-- The journal row of an approval that a decision has resolved. -/
structure Resolution (c : Moment V) (t : ℕ) (action : Decision) (approval a : ApprovalRow) :
    Prop where
  mem : a ∈ Journal.approvals c.store
  status : a.status = action.status
  effectId : a.effectId = approval.effectId
  resolved : Resolved c t a.id action.status

theorem reportedSince_of_report {t u : ℕ} {found : (Decision.update approval .approve).Ret}
    (hupdated : Performed c t (Decision.update approval .approve) (.ok found))
    (hstart : Started c u (.effect approval.effectId .commit body))
    {next : Except Exception Bool → Handler Reply}
    (hcall : c.calls u = some (.call (.recordCommit approval.effectId result) next))
    (htrans : Transition c (.run u o) c')
    (hreply : (Step.run o (.recordCommit approval.effectId result) c.store).1 = .ok true) :
    ReportedSince c' t approval result := by
  obtain ⟨earlier, later, htrace⟩ := List.append_of_mem hupdated
  have hlast := trace_run htrans hcall
  rw [hreply] at hlast
  refine ⟨earlier, later ++ [.ran u (.recordCommit approval.effectId result) (.ok true)], found,
    ?_, u, body, htrans.subset hstart, List.mem_concat_self⟩
  rw [htrace] at hlast
  exact hlast.trans (List.append_assoc ..)

theorem Settled.step (hauto : V.autoApprove = false) (hc : Arises V (Undisturbed V) c)
    (hguard : Undisturbed V c choice) (htrans : Transition c choice c') {approval a : ApprovalRow}
    (hres : Resolution c t action approval a) {found : (action.update approval).Ret}
    (hupdated : Performed c t (action.update approval) (.ok found))
    (hlong : 2 < (ranBy t c.trace).length) (h : Settled c t action approval) :
    Settled c' t action approval := by
  obtain ⟨e, he, hid, hagrees⟩ := h
  have hprefix : c.trace <+: c'.trace := by
    obtain ⟨event, htrace⟩ := htrans.trace
    exact ⟨[event], htrace.symm⟩
  rcases store_cases htrans with heq | ⟨u, o, st, next, rfl, hcall, heq⟩
  · exact ⟨e, heq ▸ he, hid, hagrees.mono hprefix rfl rfl⟩
  · obtain ⟨req, hstart, hpre⟩ := (serverContract V).pre_of_call hc.coherent hcall
    have hchange : Change c.store st c'.store := heq ▸ Step.run_change o st c.store
    obtain ⟨e', he', hevolves⟩ := hchange.effect_persists he
    have hid' : e'.id = approval.effectId := hevolves.call.id.trans hid
    refine ⟨e', he', hid', ?_⟩
    rcases hevolves.outcome with ⟨hsame, hresult⟩ | ⟨error, hsets⟩
    · exact hagrees.mono hprefix hsame hresult
    · -- the step sets the effect, so it is a report
      rw [hid'] at hsets
      cases req with
      | toolCall headers body =>
        obtain ⟨call, signature, -, hpre⟩ := hpre
        cases st <;> first | cases hsets | exact hpre.elim
      | decision id action' body =>
        rw [← hres.effectId] at hsets
        obtain ⟨rfl, hshort⟩ := update_by_resolver hc hres.mem hres.resolved hstart hcall hsets
        omega
      | effect id report body =>
        have hfits := reportFits_of_guard hauto hc hguard hcall hstart
        simp only [ReportFits, hsets] at hfits
        rcases hfits a hres.mem hres.effectId with hpending | ⟨happroved, hcommitted⟩ | hupdating
        · exact absurd (hres.status.symm.trans hpending) action.status_ne_pending
        · cases action with
          | reject => cases hres.status.symm.trans happroved
          | approve =>
            cases report with
            | fail =>
              obtain ⟨_, rfl⟩ := hpre
              rw [hcommitted] at hsets
              cases hsets
            | commit =>
              obtain ⟨result, rfl⟩ := hpre
              simp only [Step.sets, Option.some.injEq, Prod.mk.injEq] at hsets
              obtain ⟨rfl, -, hresult, -⟩ := hsets
              rcases Step.run_recordCommit o approval.effectId result c.store with hkept | hreply
              · rw [heq, hkept] at he'
                obtain rfl := (journal_sound hc).ids.eq he' he (hid'.trans hid.symm)
                exact hagrees.mono hprefix rfl rfl
              · exact ⟨hcommitted, .inr ⟨result, hresult.symm,
                  reportedSince_of_report hupdated hstart hcall htrans hreply⟩⟩
        · rw [← hres.effectId, not_updating hauto hc hres.mem hres.resolved hlong] at hupdating
          cases hupdating

section Progress

variable {t : ℕ} {id : String} {action : Decision} {body : Body} {approval : ApprovalRow}

theorem Progress.history (h : Progress c t id action approval) :
    [readStep id approval, resolveStep id action] <+: ranBy t c.trace := by
  cases h with
  | resolving hran hrunning => exact ⟨[], (List.append_nil _).trans hran.symm⟩
  | updated found hran hsettled => exact .trans ⟨[⟨_, .ok found⟩], rfl⟩ hran

theorem Progress.resolved (h : Progress c t id action approval) : Resolved c t id action.status :=
  mem_ranBy.mp (h.history.subset (List.mem_cons_of_mem _ List.mem_cons_self))

/-- The row of the approval that a decision has resolved. -/
theorem Progress.resolution (hc : Arises V guard c) (h : Progress c t id action approval) :
    ∃ a, Resolution c t action approval a ∧ a.id = id ∧ a.toolName = approval.toolName ∧
      a.args = approval.args := by
  have hread : Performed c t (.getApproval id) (.ok (some approval)) :=
    mem_ranBy.mp (h.history.subset List.mem_cons_self)
  obtain ⟨a, ha, rfl, heffect, hname, hargs⟩ := read_persists hc hread
  obtain ⟨b, hb, hbid, hstatus⟩ := resolved_status hc action.status_ne_pending h.resolved
  obtain rfl := (journal_sound hc).approvalIds.eq hb ha hbid
  exact ⟨b, ⟨ha, hstatus, heffect, h.resolved⟩, rfl, hname, hargs⟩

theorem updated_of_run (hc : Arises V (Undisturbed V) c)
    (hguard : Undisturbed V c (.run t o)) (htrans : Transition c (.run t o) c')
    (hstart : Started c t (.decision id action body)) (h : Progress c t id action approval)
    (hran : ranBy t c.trace = [readStep id approval, resolveStep id action])
    (hcall : c.calls t = some (.call st next)) : Progress c' t id action approval := by
  obtain ⟨hfree, hunhindered⟩ := unhindered_of_guard hguard hcall h.resolved
  have hpre := decision_pre hc hstart hcall
  rw [hran] at hpre
  obtain rfl := hpre.update_of_resolved
  obtain ⟨a, hres, -, -, -⟩ := h.resolution hc
  obtain ⟨e, he, hid, -⟩ := (journal_sound hc).owned a hres.mem
  have hstore : c'.store = (Step.run o (action.update approval) c.store).2 := by
    cases htrans with
    | run hcall' hexec =>
      cases hcall.symm.trans hcall'
      exact (congrArg Prod.snd (Option.some.inj hexec)).symm
  obtain ⟨⟨found, hreply⟩, hsettled⟩ :=
    Decision.run_update hfree hunhindered he (hid.trans hres.effectId) c' t hstore
  refine .updated found ?_ hsettled
  have hafter := ranBy_run htrans hcall
  rw [hran, hreply] at hafter
  exact ⟨[], (List.append_nil _).trans hafter.symm⟩

variable (hauto : V.autoApprove = false) (hc : Arises V (Undisturbed V) c)
include hauto hc

/-- A decision that has resolved its approval does not stop before it has updated the
effect, and the effect stays so. -/
theorem Progress.step (hguard : Undisturbed V c choice) (htrans : Transition c choice c')
    (hstart : Started c t (.decision id action body)) (h : Progress c t id action approval) :
    Progress c' t id action approval := by
  have hprogress := h
  cases h with
  | resolving hran hrunning =>
    rcases htrans.ranBy_cases t with hsame | ⟨o, st, next, reply, rfl, hcall, -, -⟩
    · refine .resolving (hsame.trans hran) ?_
      refine (resolved_goes_on hc hguard htrans hstart hprogress.resolved hrunning).elim (·) ?_
      -- it cannot return before it has updated the effect
      rintro ⟨reply, -, hpost⟩
      obtain ⟨_, _, _, heq⟩ := hpost (mem_ranBy.mpr hprogress.resolved)
      have hlength := congrArg List.length (hran.symm.trans heq)
      simp at hlength
    · exact updated_of_run hc hguard htrans hstart hprogress hran hcall
  | updated found hran hsettled =>
    obtain ⟨a, hres, -, -, -⟩ := hprogress.resolution hc
    have hupdated : Performed c t (action.update approval) (.ok found) :=
      mem_ranBy.mp (hran.subset
        (List.mem_cons_of_mem _ (List.mem_cons_of_mem _ List.mem_cons_self)))
    have hlong := hran.length_le
    refine .updated found ?_ (hsettled.step hauto hc hguard htrans hres hupdated hlong)
    rcases htrans.ranBy_cases t with hsame | ⟨o, st, next, reply, rfl, hcall, -, hmore⟩
    · rw [hsame]
      exact hran
    · rw [hmore]
      exact hran.trans (List.prefix_append _ _)

theorem progress_of_resolved (h : Resolved c t id status) :
    ∃ action body approval, Started c t (.decision id action body) ∧ status = action.status ∧
      Progress c t id action approval := by
  refine hc.since h ?_ ?_
  · intro c choice c' hc _ htrans htrace
    obtain ⟨o, next, rfl, hcall, hrun⟩ := run_of_ran htrans htrace
    obtain ⟨req, hstart, hpre⟩ := (serverContract V).pre_of_call hc.coherent hcall
    obtain ⟨action, body, approval, rfl, rfl, hpast⟩ := decision_of_pre hauto hpre
    have hafter := ranBy_run htrans hcall
    rw [hpast, hrun] at hafter
    refine ⟨action, body, approval, htrans.subset hstart, rfl, .resolving hafter ?_⟩
    cases htrans with
    | run hcall' hexec => simp
  · rintro c choice c' hc hguard htrans ⟨action, body, approval, hstart, hstatus, hprogress⟩
    exact ⟨action, body, approval, htrans.subset hstart, hstatus,
      hprogress.step hauto hc hguard htrans hstart⟩

end Progress

theorem Agrees.congr {approval a : ApprovalRow} (h : Agrees c t approval e action)
    (heffect : a.effectId = approval.effectId) (hname : a.toolName = approval.toolName)
    (hargs : a.args = approval.args) : Agrees c t a e action := by
  cases a
  cases approval
  dsimp only at heffect hname hargs
  subst heffect hname hargs
  exact h

/-- While nothing disturbs a decision, an approval and its effect agree whenever no decision
is in progress, and every decision that resolves an approval is answered. -/
theorem decisions_consistent (hauto : V.autoApprove = false) (hc : Arises V (Undisturbed V) c) :
    ((∀ t id action body, Started c t (.decision id action body) → c.calls t = none) →
      ∀ a ∈ Journal.approvals c.store, ∀ action : Decision, a.status = action.status →
        ∃ e ∈ Journal.effects c.store, e.id = a.effectId ∧
          ∃ t body, Started c t (.decision a.id action body) ∧ Agrees c t a e action) ∧
    ∀ t id action body, Started c t (.decision id action body) → Resolved c t id action.status →
        (c.calls t).isSome = true ∨ ∃ reply, Returned c t (.ok reply) := by
  refine ⟨?_, fun t id action body _ hresolved => resolved_answered hauto hc hresolved⟩
  intro hidle a ha action hstatus
  have hdecided : a.status ≠ .pending := by
    rw [hstatus]
    exact action.status_ne_pending
  obtain ⟨t, hresolved⟩ := resolver_of_approval hc a ha hdecided
  obtain ⟨action', body, approval, hstart, hsame, hprogress⟩ :=
    progress_of_resolved hauto hc hresolved
  obtain rfl : action = action' := by
    have heq := hstatus.symm.trans hsame
    cases action <;> cases action' <;> first | rfl | cases heq
  obtain ⟨b, hres, hbid, hname, hargs⟩ := hprogress.resolution hc
  obtain rfl := (journal_sound hc).approvalIds.eq hres.mem ha hbid
  cases hprogress with
  | resolving hran hrunning =>
    rw [hidle t _ _ _ hstart] at hrunning
    cases hrunning
  | updated found hran hsettled =>
    obtain ⟨e, he, hid, hagrees⟩ := hsettled
    exact ⟨e, he, hid.trans hres.effectId.symm, t, body, hstart,
      hagrees.congr hres.effectId hname hargs⟩

/-- No call is running. -/
def idleTest (c : Moment V) : Bool := (List.range c.next).all fun t => (c.calls t).isNone

theorem idle_of_idleTest (hc : Arises V guard c) (h : idleTest c = true) {req : Request}
    (hstart : Started c t req) : c.calls t = none := by
  have hlt : t < c.next := hc.coherent.fresh _ hstart _ rfl
  simpa using List.all_eq_true.mp h t (List.mem_range.mpr hlt)

/-- The held payment is approved by a request that runs to its end. -/
def approvePayment (t n : ℕ) : List (Choice (devServer V)) :=
  .start (.decision "a" .approve (.ok [])) :: (steps t n ++ [.finish t])

/-- An approved payment is committed. -/
theorem payment_consistent :
    ∃ c : Moment sampleServer, Arises sampleServer (Undisturbed sampleServer) c ∧
      (∀ t id action body, Started c t (.decision id action body) → c.calls t = none) ∧
      ∃ a ∈ Journal.approvals c.store, a.effectId = "e" ∧ a.status = .approved ∧
        ∃ e ∈ Journal.effects c.store, e.id = "e" ∧ e.status = .committed := by
  have hrun : (runGuarded (Undisturbed sampleServer) emptyServer
      (heldPayment ++ approvePayment 1 4)).any (fun c =>
        idleTest c && approvalTest "e" .approved c) = true := by
    decide +kernel
  obtain ⟨c, hc, htest⟩ := exists_reachable_of_any blank_empty hrun
  obtain ⟨hidle, happroved⟩ := Bool.and_eq_true_iff.mp htest
  have hidle := fun t id action body (h : Started c t (.decision id action body)) =>
    idle_of_idleTest hc hidle h
  obtain ⟨a, ha, heffect, hstatus⟩ := exists_of_approvalTest happroved
  obtain ⟨e, he, hid, t, body, -, hagrees⟩ :=
    (decisions_consistent rfl hc).1 hidle a ha .approve hstatus
  exact ⟨c, hc, hidle, a, ha, heffect, hstatus, e, he, hid.trans heffect, hagrees.1⟩

/-- Whether a request has resolved the approval of the payment and has ended by the exception
that the index raises. -/
def unansweredTest (t : ℕ) (c : Moment V) : Bool :=
  c.trace.any fun
    | .returned u (.error .integrity) => u = t && resolves t c
    | _ => false

/-- A payment is approved after it has failed and another one has taken over its signature:
the request ends without a response, and the approved payment stays failed. -/
theorem approved_but_failed : ∃ c : Moment sampleServer, Arises sampleServer unguarded c ∧
      Started c 3 (.decision "a" .approve (.ok [])) ∧ (∃ id status, Resolved c 3 id status) ∧
      Returned c 3 (.error .integrity) ∧ (∀ t req, Started c t req → c.calls t = none) ∧
      ∃ a ∈ Journal.approvals c.store, a.effectId = "e" ∧ a.status = .approved ∧
        ∀ e ∈ Journal.effects c.store, e.id = "e" → e.status = .failed := by
  have hrun : (runGuarded unguarded emptyServer takenOver).any
      (fun d => d.next = 3 && (runGuarded unguarded d
        (approvePayment 3 3)).any fun c => idleTest c && unansweredTest 3 c &&
          approvalTest "e" .approved c &&
          (Journal.effects c.store).all fun e => e.id ≠ "e" || e.status = .failed) = true := by
    decide +kernel
  obtain ⟨c, hc, hstart, htest⟩ := exists_started_of_any blank_empty hrun
  simp only [Bool.and_eq_true] at htest
  obtain ⟨⟨⟨hidle, hunanswered⟩, happroved⟩, hfailed⟩ := htest
  obtain ⟨event, hmem, hevent⟩ := List.any_eq_true.mp hunanswered
  split at hevent
  · next u =>
    obtain ⟨rfl, hresolves⟩ : u = 3 ∧ resolves 3 c = true := by simpa using hevent
    obtain ⟨a, ha, heffect, hstatus⟩ := exists_of_approvalTest happroved
    refine ⟨c, hc, hstart, resolves_iff.mp hresolves, hmem,
      fun t req h => idle_of_idleTest hc hidle h, a, ha, heffect, hstatus, ?_⟩
    intro e he hid
    simpa [hid] using List.all_eq_true.mp hfailed e he
  · cases hevent

end UndoLog.Dev
