import UndoLog.Engine.Answers

/-!
# What a call knows about its session and its organisation

A session that a call has found or created is still in the store, and a tool that the
registry calls irreversible or compensable belongs to an organisation of the store. So
nothing but the connection can stop a call from asking for a decision once its row is
inserted.
-/

namespace UndoLog

open Concurrent Machine Relational

variable {S : Setup} {guard : Guard (system S)} {c c' : State S}

/-! ## Sessions -/

/-- The store has a session of an organisation. -/
def HasSession (db : Db) (orgId : OrgId) (sessionId : SessionId) : Prop :=
  ∃ s ∈ db.sessions, s.sessionId = sessionId ∧ s.orgId = orgId

variable {t : ℕ} {orgId : OrgId} {sessionId : SessionId} {choice : Choice (system S)}
    {record : SessionRecord} {call : ToolCall}

theorem HasSession.step (h : HasSession (dbOf c) orgId sessionId)
    (htrans : Transition c choice c') : HasSession (dbOf c') orgId sessionId := by
  obtain ⟨s, hs, hid, horg⟩ := h
  obtain ⟨s', hs', hstep⟩ := session_step htrans hs
  exact ⟨s', hs', hstep.sessionId.trans hid, hstep.orgId.trans horg⟩

/-- A session that a call has read is in the store. -/
theorem session_read (hc : Reaches S guard c)
    (h : Succeeded c t (.getSession orgId sessionId) (some record)) :
    record.sessionId = sessionId ∧ record.orgId = orgId ∧ HasSession (dbOf c) orgId sessionId := by
  refine h.since hc ?_ ?_
  · intro c c' o _ _ htrans hquery
    obtain ⟨hfound, -⟩ := getSession_ok.mp hquery.tx
    obtain ⟨hid, horg⟩ := ofSession_iff.mp (List.find?_some hfound.symm)
    have hhas : HasSession (dbOf c) orgId sessionId :=
      ⟨record, List.mem_of_find?_eq_some hfound.symm, hid, horg⟩
    exact ⟨hid, horg, hhas.step htrans⟩
  · rintro c choice c' _ _ htrans ⟨hid, horg, hhas⟩
    exact ⟨hid, horg, hhas.step htrans⟩

variable {b : Backend} {o : Oracle} {step : AppStep} {tier : ToolTier} {req : ApprovalRequest}

theorem Outcome.session {db db' : Db} {u : Unit}
    (h : Outcome b t db (.createSession orgId sessionId) u db') :
    ∃ s ∈ db'.sessions, s.sessionId = sessionId := by
  cases h with
  | sessionKept _ _ hold => exact hold
  | sessionCreated => exact ⟨_, List.mem_concat_self, rfl⟩
  | read hread => cases hread
  | inserted hins | ignored hins => cases hins

/-! ## The cache -/

theorem AppStep.run_cache {w w' : World} {reply : Except UndoLogError step.Ret}
    (h : step.run o w = some (reply, w')) :
    ∀ s ∈ w'.cache, s ∈ w.cache ∨ step = .cacheInsert s := by
  intro s hs
  cases step with
  | rateLimit =>
    simp only [AppStep.run] at h
    split at h <;> cases h <;> exact .inl hs
  | cacheGet orgId sessionId =>
    simp only [AppStep.run] at h
    split at h
    · cases h
      exact .inl (List.mem_filter.mp hs).1
    · cases h
      exact .inl hs
  | cacheInsert record =>
    cases h
    rcases List.mem_cons.mp hs with rfl | hold
    · exact .inr rfl
    · exact .inl (List.mem_filter.mp hold).1
  | cacheInvalidate orgId sessionId =>
    cases h
    exact .inl (List.mem_filter.mp hs).1
  | newUuid =>
    simp only [AppStep.run] at h
    split at h <;> cases h
    exact .inl hs
  | _ =>
    cases h
    exact .inl hs

section

variable (hc : Reaches S guard c)
include hc

/-- What a step does to the cache: it keeps some entries, or adds one that a call has
read from the store. -/
theorem cache_cases (htrans : Transition c choice c') :
    ∀ s ∈ World.cache c'.store, s ∈ World.cache c.store ∨
      ∃ t orgId sessionId, Succeeded c t (.getSession orgId sessionId) (some s) := by
  cases htrans with
  | start | finish | crash => exact fun s hs => .inl hs
  | @environment e store henv =>
    change e.run S.backend c.store = some store at henv
    intro s hs
    cases e with
    | clock | refresh =>
      simp only [Env.run] at henv
      split at henv <;> cases henv
      exact .inl hs
    | restart =>
      cases henv
      cases hs
  | @run t o st next reply store hcall hexec =>
    intro s hs
    cases st with
    | db q =>
      rcases Query.run_cases hexec with ⟨e, -, rfl⟩ | ⟨a, db, -, -, -, rfl⟩
      · exact .inl hs
      · exact .inl hs
    | app step =>
      rcases AppStep.run_cache hexec s hs with hold | rfl
      · exact .inl hold
      · obtain ⟨op, -, hpre⟩ := (contract S).pre_of_call hc.coherent hcall
        cases op with
        | intercept call => exact .inr ⟨t, call.orgId, call.sessionId, succeeded_iff_done.mpr hpre⟩
        | processTimeouts | processPendingTimeouts => cases hpre.1
        | _ => cases hpre

theorem cached_session : ∀ s ∈ World.cache c.store, HasSession (dbOf c) s.orgId s.sessionId := by
  refine hc.invariant ?_ ?_
  · rintro w ⟨now, partitions, orgs, -, -, hcache, -⟩ s hs
    change s ∈ w.cache at hs
    rw [hcache] at hs
    cases hs
  · intro c choice c' hc ih _ htrans s hs
    rcases cache_cases hc htrans s hs with hold | ⟨t, orgId, sessionId, hread⟩
    · exact (ih s hold).step htrans
    · obtain ⟨rfl, rfl, hhas⟩ := session_read hc hread
      exact hhas.step htrans

theorem session_cached (h : ⟨.app (.cacheGet orgId sessionId), .ok (some record)⟩ ∈ pastOf t c) :
    HasSession (dbOf c) orgId sessionId := by
  refine hc.since (mem_pastOf.mp h) ?_ ?_
  · intro c choice c' hc _ htrans htrace
    obtain ⟨o, next, -, -, hexec⟩ := htrans.of_ran htrace
    change AppStep.run o c.store (.cacheGet orgId sessionId) = some (.ok (some record), _) at hexec
    simp only [AppStep.run] at hexec
    split at hexec
    · cases hexec
    · have hfound : (World.cache c.store).find? (ofSession orgId sessionId) = some record :=
        Except.ok.inj (congrArg Prod.fst (Option.some.inj hexec))
      obtain ⟨rfl, rfl⟩ := ofSession_iff.mp (List.find?_some hfound)
      exact (cached_session hc record (List.mem_of_find?_eq_some hfound)).step htrans
  · intro c choice c' _ _ htrans hhas
    exact hhas.step htrans

theorem session_of_known (h : SessionKnown call (pastOf t c)) :
    ∃ s ∈ (dbOf c).sessions, s.sessionId = call.sessionId := by
  rcases h with ⟨record, hcached⟩ | ⟨record, hread⟩ | hcreated
  · obtain ⟨s, hs, hid, -⟩ := session_cached hc hcached
    exact ⟨s, hs, hid⟩
  · obtain ⟨-, -, s, hs, hid, -⟩ := session_read hc (succeeded_iff_done.mpr hread)
    exact ⟨s, hs, hid⟩
  · refine (succeeded_iff_done.mpr hcreated).since hc ?_ ?_
    · intro c c' o _ _ htrans hquery
      exact (Outcome.of_tx hquery.tx).session
    · rintro c choice c' _ _ htrans ⟨s, hs, hid⟩
      have hhas : HasSession (dbOf c) s.orgId call.sessionId := ⟨s, hs, hid, rfl⟩
      obtain ⟨s', hs', hid', -⟩ := hhas.step htrans
      exact ⟨s', hs', hid'⟩

end

/-! ## Organisations -/

theorem AppStep.run_registry {w w' : World} {reply : Except UndoLogError step.Ret}
    (h : step.run o w = some (reply, w')) : w'.registry = w.registry := by
  cases step with
  | rateLimit | cacheGet =>
    simp only [AppStep.run] at h
    split at h <;> cases h <;> rfl
  | newUuid =>
    simp only [AppStep.run] at h
    split at h <;> cases h
    rfl
  | _ =>
    cases h
    rfl

/-- Only a refresh changes the registry, and on PostgreSQL it brings tools of organisations
of the store. -/
theorem registry_step (htrans : Transition c choice c') :
    World.registry c'.store = World.registry c.store ∨
      choice = .environment (.refresh (World.registry c'.store)) ∧
        (S.backend = .postgres → ∀ r ∈ World.registry c'.store, r.1 ∈ (dbOf c).orgs) := by
  cases htrans with
  | start | finish | crash => exact .inl rfl
  | @run t o st next reply store hcall hexec =>
    cases st with
    | db q =>
      rcases Query.run_cases hexec with ⟨e, -, rfl⟩ | ⟨a, db, -, -, -, rfl⟩
      · exact .inl rfl
      · exact .inl rfl
    | app step => exact .inl (AppStep.run_registry hexec)
  | @environment e store henv =>
    change e.run S.backend c.store = some store at henv
    cases e with
    | clock now =>
      simp only [Env.run] at henv
      split at henv <;> cases henv
      exact .inl rfl
    | refresh registry =>
      simp only [Env.run] at henv
      split at henv
      · cases henv
      · next hknown =>
        cases henv
        refine .inr ⟨rfl, fun hb r hr => ?_⟩
        by_contra horg
        exact hknown ⟨hb, r, hr, horg⟩
    | restart =>
      cases henv
      exact .inl rfl

theorem registry_orgs (hb : S.backend = .postgres) (hc : Reaches S guard c) :
    ∀ r ∈ World.registry c.store, r.1 ∈ (dbOf c).orgs := by
  refine hc.invariant ?_ ?_
  · rintro w ⟨now, partitions, orgs, hdb, -, -, hregistry⟩ r hr
    change r.1 ∈ w.db.orgs
    rw [hdb]
    exact hregistry hb r hr
  · intro c choice c' _ ih _ htrans
    rw [orgs_step htrans]
    rcases registry_step htrans with hsame | ⟨-, horgs⟩
    · rw [hsame]
      exact ih
    · exact horgs hb

/-- A tier other than safe comes from a registration of the organisation. -/
theorem resolveTier_registered {registry : List (OrgId × ToolRegistration)} {pick : ℕ}
    {toolName toolVersion : String}
    (h : resolveTier registry pick orgId toolName toolVersion = tier) (htier : tier ≠ .safe) :
    ∃ r ∈ registry, r.1 = orgId ∧ r.2.toolName = toolName ∧ r.2.tier = tier := by
  have hnamed : ∀ r ∈ registry.filter (fun r => r.1 = orgId ∧ r.2.toolName = toolName),
      r ∈ registry ∧ r.1 = orgId ∧ r.2.toolName = toolName := by
    intro r hr
    obtain ⟨hmem, htest⟩ := List.mem_filter.mp hr
    obtain ⟨horg, hname⟩ := of_decide_eq_true htest
    exact ⟨hmem, horg, hname⟩
  simp only [resolveTier] at h
  split at h
  · next r hfound =>
    obtain ⟨hmem, horg, hname⟩ := hnamed r (List.mem_of_find?_eq_some hfound)
    exact ⟨r, hmem, horg, hname, h⟩
  · split at h
    · split at h
      · next r hlimit =>
        obtain ⟨hmem, horg, hname⟩ := hnamed r (limitOne_mem hlimit)
        exact ⟨r, hmem, horg, hname, h⟩
      · exact absurd h.symm htier
    · exact absurd h.symm htier

/-- A call whose tool has a tier other than safe is of an organisation of the store. -/
theorem org_of_resolved (hb : S.backend = .postgres) (hc : Reaches S guard c)
    (h : Resolved call tier (pastOf t c)) (htier : tier ≠ .safe) : call.orgId ∈ (dbOf c).orgs := by
  refine hc.since (mem_pastOf.mp h) ?_ ?_
  · intro c choice c' hc _ htrans htrace
    obtain ⟨o, next, -, -, hexec⟩ := htrans.of_ran htrace
    rw [orgs_step htrans]
    have hreply : UndoLog.resolveTier (World.registry c.store) (Oracle.pick o) call.orgId
        call.toolName call.toolVersion = tier :=
      Except.ok.inj (congrArg Prod.fst (Option.some.inj hexec))
    obtain ⟨r, hr, horg, -, -⟩ := resolveTier_registered hreply htier
    rw [← horg]
    exact registry_orgs hb hc r hr
  · intro c choice c' _ _ htrans horg
    rw [orgs_step htrans]
    exact horg

/-! ## Asking for a decision -/

theorem createApproval_ok (hc : Reaches S guard c)
    (hpre : interceptPre S call (pastOf t c) (.db (.createApproval req))) :
    ∃ db', createApproval S.backend req (dbOf c) = .ok ((), db') := by
  obtain ⟨effectId, reason, id, now, rfl, hdrew, hfree, hknown, htier, -⟩ := hpre
  have hnew : ∀ a ∈ (dbOf c).approvals, a.approvalRequestId ≠ id := by
    intro a ha hid
    -- the approval with the identifier would be one of this call
    obtain ⟨t', req, hreq, hof⟩ := creation_of_approval hc ha
    obtain ⟨call', inserted, hcreated⟩ := creation_createdBy hc hreq
    have hdrawn := hcreated.drawn
    rw [← hof.approvalRequestId, hid] at hdrawn
    obtain rfl := draw_unique hc hdrawn (draw_of_drew hdrew)
    have hkind := hfree _ (succeeded_iff_done.mp (creation_event hreq))
    cases hkind
  have hkeys : foreignKeys S.backend call.orgId call.sessionId (dbOf c) = true := by
    cases hb : S.backend with
    | sqlite => rfl
    | postgres =>
      obtain ⟨s, hs, hid⟩ := session_of_known hc hknown
      have horg := org_of_resolved hb hc htier (by rintro ⟨⟩)
      exact decide_eq_true ⟨horg, List.any_eq_true.mpr ⟨s, hs, decide_eq_true hid⟩⟩
  have hfree : ¬ (dbOf c).approvals.any (fun a => a.approvalRequestId = id) = true := by
    simpa using hnew
  exact ⟨_, (if_neg hfree).trans (if_pos hkeys)⟩

end UndoLog
