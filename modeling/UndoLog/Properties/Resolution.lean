import Mathlib.Data.List.Flatten
import Mathlib.Data.List.Pairwise
import UndoLog.Engine.Decisions
import UndoLog.Engine.Schedule

/-!
# Approvals are resolved once

`approve` and `reject` update an approval only while it is pending. The timeout job reads the
pending approvals first and then updates them by their identifier alone, so on PostgreSQL a
decision that falls between the two is overwritten.
-/

namespace UndoLog

open Concurrent Machine Relational

variable {S : Setup} {guard : Guard (system S)} {c c' : State S} {t : ℕ} {o : Oracle}

/-- Between two databases no resolved approval has changed its state, and in the second
one no approval has more than one audit event. -/
def ResolvedOnce (db db' : Db) : Prop :=
  (∀ a ∈ db.approvals, a.state ≠ .pending →
    ∃ a' ∈ db'.approvals, a'.approvalRequestId = a.approvalRequestId ∧ a'.state = a.state) ∧
  ∀ a ∈ db'.approvals,
    db'.events.countP (fun e => e.approvalRequestId = a.approvalRequestId) ≤ 1

instance (db db' : Db) : Decidable (ResolvedOnce db db') :=
  inferInstanceAs (Decidable (_ ∧ _))

/-- The timeout transaction of call `t` sees an approval as pending: it is pending in
the table, and the transaction has not updated it itself. -/
def SeenPending (db : Db) (t : ℕ) (key : OrgId × ApprovalRequestId) : Prop :=
  (∃ a ∈ db.approvals, ofPendingApproval key.1 key.2 a = true) ∧
  ∀ tx ∈ db.timeouts, tx.owner = t → ∀ write ∈ tx.writes, write.approvalRequestId ≠ key.2

instance (db : Db) (t : ℕ) (key : OrgId × ApprovalRequestId) : Decidable (SeenPending db t key) :=
  inferInstanceAs (Decidable (_ ∧ _))

/-- Every update of the timeout job still finds its approval pending. -/
def StillPending (c : State S) (t : ℕ) (st : (system S).Stmt) : Prop :=
  ∀ key ∈ Stmt.timesOut st, SeenPending (dbOf c) t key

instance (c : State S) (t : ℕ) (st : (system S).Stmt) : Decidable (StillPending c t st) := by
  unfold StillPending
  infer_instance

/-! ## Open updates -/

/-- The approvals that an open transaction has locked. -/
def TimeoutTx.locked (tx : TimeoutTx) : List ApprovalRequestId :=
  tx.writes.map (·.approvalRequestId)

/-- No approval is locked twice, what is locked is pending, no approval has two audit
events, and what has one is resolved. -/
structure Orderly (db : Db) : Prop where
  distinct : (db.timeouts.flatMap TimeoutTx.locked).Nodup
  pending : ∀ tx ∈ db.timeouts, ∀ write ∈ tx.writes,
    ∃ a ∈ db.approvals, ofPendingApproval write.orgId write.approvalRequestId a = true
  once : Keyed ApprovalEvent.approvalRequestId db.events
  resolved : ∀ e ∈ db.events,
    ∃ a ∈ db.approvals, a.approvalRequestId = e.approvalRequestId ∧ a.state ≠ .pending

/-- A lock is exclusive: an approval that a statement may update is locked by no other
call. -/
theorem not_locked_of_unblocked {id : ApprovalRequestId} {db : Db}
    (h : lockedFor t id db = false) : ∀ tx ∈ db.timeouts, tx.owner ≠ t → id ∉ tx.locked := by
  intro tx htx hne hmem
  obtain ⟨write, hwrite, rfl⟩ := List.mem_map.mp hmem
  have hlocked : lockedFor t write.approvalRequestId db = true := by
    refine List.any_eq_true.mpr ⟨tx, htx, decide_eq_true ⟨hne, ?_⟩⟩
    exact List.any_eq_true.mpr ⟨write, hwrite, decide_eq_true rfl⟩
  rw [h] at hlocked
  cases hlocked

theorem not_postgres (hc : Reaches S guard c) {orgId : OrgId} {count : ℕ}
    (hquery : QueryStep c c' t o (.processTimeouts orgId) count) : S.backend ≠ .postgres := by
  intro hb
  obtain ⟨op, -, hpre⟩ := hquery.pre hc
  have hsqlite : S.backend = .sqlite := by
    cases op with
    | processTimeouts | processPendingTimeouts => exact hpre.2.2 orgId rfl
    | _ => cases hpre
  rw [hb] at hsqlite
  cases hsqlite

/-- The locks after a statement: still exclusive, and on approvals that were pending
before and that the statement does not resolve. -/
structure LocksAfter (S : Setup) (t : ℕ) (db : Db) (q : Query) (db' : Db) : Prop where
  distinct : (db'.timeouts.flatMap TimeoutTx.locked).Nodup
  pending : ∀ tx ∈ db'.timeouts, ∀ write ∈ tx.writes,
    (∃ a ∈ db.approvals, ofPendingApproval write.orgId write.approvalRequestId a = true) ∧
    write.approvalRequestId ∉ (q.resolves S.backend t db).map Prod.snd

/-- An open transaction after an update of call `t`. -/
def TimeoutTx.after (t : ℕ) (write : TimeoutWrite) (tx : TimeoutTx) : TimeoutTx :=
  updateRow (fun tx => tx.owner = t) (fun tx => { tx with writes := tx.writes ++ [write] }) tx

theorem TimeoutTx.after_writes (t : ℕ) (write : TimeoutWrite) (tx : TimeoutTx) :
    (tx.after t write).writes = if tx.owner = t then tx.writes ++ [write] else tx.writes := by
  by_cases howner : tx.owner = t <;> simp [TimeoutTx.after, updateRow, howner]

theorem TimeoutTx.after_locked (t : ℕ) (write : TimeoutWrite) (tx : TimeoutTx) :
    (tx.after t write).locked =
      if tx.owner = t then tx.locked ++ [write.approvalRequestId] else tx.locked := by
  rw [TimeoutTx.locked, TimeoutTx.after_writes]
  split
  · exact List.map_append
  · rfl

theorem Orderly.update (h : Orderly (dbOf c)) (hc : Reaches S guard c)
    {write : TimeoutWrite} (hnew : ∀ tx ∈ (dbOf c).timeouts, write.approvalRequestId ∉ tx.locked) :
    (((dbOf c).timeouts.map (TimeoutTx.after t write)).flatMap TimeoutTx.locked).Nodup := by
  have howners : (dbOf c).timeouts.Pairwise fun tx tx' => tx.owner ≠ tx'.owner :=
    List.pairwise_map.mp (timeouts_keyed hc)
  obtain ⟨heach, hpair⟩ := List.nodup_flatMap.mp h.distinct
  refine List.nodup_flatMap.mpr ⟨?_, List.pairwise_map.mpr ?_⟩
  · intro tx' htx'
    obtain ⟨tx, htx, rfl⟩ := List.mem_map.mp htx'
    rw [TimeoutTx.after_locked]
    split
    · exact (heach tx htx).append (List.nodup_singleton _) (by simpa using hnew tx htx)
    · exact heach tx htx
  · refine (hpair.and howners).imp_of_mem ?_
    rintro tx tx' htx htx' ⟨hdisjoint, hne⟩
    -- only one of the two transactions can be the one of the call
    have hdisjoint : tx.locked.Disjoint tx'.locked := hdisjoint
    change List.Disjoint _ _
    rw [TimeoutTx.after_locked, TimeoutTx.after_locked]
    split
    · next howner =>
      rw [if_neg (fun howner' => hne (howner.trans howner'.symm))]
      exact List.disjoint_append_left.mpr ⟨hdisjoint, by simpa using hnew tx' htx'⟩
    · split
      · exact List.disjoint_append_right.mpr ⟨hdisjoint, by simpa using hnew tx htx⟩
      · exact hdisjoint

theorem Orderly.locksAfter (h : Orderly (dbOf c)) (hb : S.backend = .postgres)
    (hc : Reaches S guard c) {q : Query} {a : q.Ret} (hcond : StillPending c t (.db q))
    (hquery : QueryStep c c' t o q a) : LocksAfter S t (dbOf c) q (dbOf c') := by
  have htimeouts := (Outcome.of_tx hquery.tx).timeouts
  have hsame (htxs : (dbOf c').timeouts = (dbOf c).timeouts)
      (hfree : ∀ tx ∈ (dbOf c).timeouts, ∀ id ∈ (q.resolves S.backend t (dbOf c)).map Prod.snd,
        id ∉ tx.locked) : LocksAfter S t (dbOf c) q (dbOf c') := by
    constructor
    · rw [htxs]
      exact h.distinct
    · rw [htxs]
      intro tx htx write hwrite
      refine ⟨h.pending tx htx write hwrite, fun hmem => ?_⟩
      exact hfree tx htx _ hmem (List.mem_map_of_mem hwrite)
  cases q with
  | approve | reject =>
    refine hsame htimeouts fun tx htx id' hid => ?_
    obtain rfl := List.mem_singleton.mp hid
    obtain ⟨op, hstart, hpre⟩ := hquery.pre hc
    refine not_locked_of_unblocked hquery.unblocked tx htx (not_opened_by hc hstart ?_ tx htx)
    cases op with
    | processTimeouts | processPendingTimeouts => cases hpre.1
    | _ => rfl
  | timeoutSelect orgId =>
    constructor
    · rw [htimeouts]
      simpa [Query.timeoutsAfter, TimeoutTx.locked] using h.distinct
    · rw [htimeouts]
      intro tx htx write hwrite
      rcases List.mem_snoc.mp htx with hold | rfl
      · exact ⟨h.pending tx hold write hwrite, List.not_mem_nil⟩
      · cases hwrite
  | timeoutUpdate orgId id autoApprove =>
    obtain ⟨hpending, hown⟩ := hcond _ rfl
    have hnew : ∀ tx ∈ (dbOf c).timeouts, id ∉ tx.locked := by
      intro tx htx
      by_cases howner : tx.owner = t
      · intro hmem
        obtain ⟨write, hwrite, heq⟩ := List.mem_map.mp hmem
        exact hown tx htx howner write hwrite heq
      · exact not_locked_of_unblocked hquery.unblocked tx htx howner
    constructor
    · rw [htimeouts]
      exact h.update hc hnew
    · rw [htimeouts]
      intro tx' htx' write hwrite
      refine ⟨?_, List.not_mem_nil⟩
      obtain ⟨tx, htx, rfl⟩ := List.mem_map.mp htx'
      change write ∈ (tx.after t ⟨orgId, id, autoApprove⟩).writes at hwrite
      rw [TimeoutTx.after_writes] at hwrite
      split at hwrite
      · rcases List.mem_snoc.mp hwrite with hold | rfl
        · exact h.pending tx htx write hold
        · exact hpending
      · exact h.pending tx htx write hwrite
  | timeoutCommit orgId =>
    obtain ⟨-, hpair⟩ := List.nodup_flatMap.mp h.distinct
    constructor
    · rw [htimeouts]
      exact h.distinct.sublist (List.filter_sublist.flatMap _)
    · rw [htimeouts]
      intro tx htx write hwrite
      obtain ⟨hold, hne⟩ := List.mem_filter.mp htx
      refine ⟨h.pending tx hold write hwrite, fun hmem => ?_⟩
      obtain ⟨tx', hold', howner, hlocked⟩ : ∃ tx' ∈ (dbOf c).timeouts, tx'.owner = t ∧
          write.approvalRequestId ∈ tx'.locked := by
        obtain ⟨key, hkey, hid⟩ := List.mem_map.mp hmem
        obtain ⟨write', hwrite', rfl⟩ := List.mem_map.mp hkey
        obtain ⟨tx', htx', hwrite'⟩ := List.mem_flatMap.mp hwrite'
        obtain ⟨hold', howner⟩ := List.mem_filter.mp htx'
        refine ⟨tx', hold', by simpa using howner, ?_⟩
        rw [← hid]
        exact List.mem_map_of_mem hwrite'
      have hdiff : tx ≠ tx' := by
        rintro rfl
        exact absurd howner (by simpa using hne)
      have hsymm : Std.Symm (Function.onFun List.Disjoint TimeoutTx.locked) :=
        ⟨fun _ _ hdisjoint => List.Disjoint.symm hdisjoint⟩
      exact hpair.forall hold hold' hdiff (List.mem_map_of_mem hwrite) hlocked
  | processTimeouts orgId =>
    exact absurd hb (not_postgres hc hquery)
  | _ => exact hsame htimeouts fun _ _ _ hid => absurd hid List.not_mem_nil

/-- What a statement resolves is pending before, and it resolves nothing twice. -/
theorem Orderly.resolves (h : Orderly (dbOf c)) (hb : S.backend = .postgres)
    (hc : Reaches S guard c) {q : Query} {a : q.Ret}
    (hquery : QueryStep c c' t o q a) : ((q.resolves S.backend t (dbOf c)).map Prod.snd).Nodup ∧
      ∀ key ∈ q.resolves S.backend t (dbOf c),
        ∃ a ∈ (dbOf c).approvals, ofPendingApproval key.1 key.2 a = true := by
  cases q with
  | approve | reject =>
    refine ⟨List.nodup_singleton _, fun key hkey => ?_⟩
    obtain rfl := List.mem_singleton.mp hkey
    exact (hquery.decides_rows rfl).1
  | timeoutCommit orgId =>
    constructor
    · have hids : ((Query.timeoutCommit orgId).resolves S.backend t (dbOf c)).map Prod.snd =
          (openedBy t (dbOf c)).flatMap TimeoutTx.locked := by
        change (((openedBy t (dbOf c)).flatMap (·.writes)).map fun write =>
          (write.orgId, write.approvalRequestId)).map Prod.snd = _
        rw [List.map_map, List.map_flatMap]
        rfl
      rw [hids]
      exact h.distinct.sublist (List.filter_sublist.flatMap _)
    · intro key hkey
      obtain ⟨write, hwrite, rfl⟩ := List.mem_map.mp hkey
      obtain ⟨tx, htx, hwrite⟩ := List.mem_flatMap.mp hwrite
      exact h.pending tx (List.mem_filter.mp htx).1 write hwrite
  | processTimeouts orgId =>
    exact absurd hb (not_postgres hc hquery)
  | _ => exact ⟨List.nodup_nil, fun _ hkey => absurd hkey List.not_mem_nil⟩

/-! ## The step and the run -/

section Step

variable {t : ℕ} {o : Oracle} {q : Query} {r : q.Ret} (h : Orderly (dbOf c))
  (hb : S.backend = .postgres) (hc : Reaches S guard c)
include h hb hc

theorem Orderly.not_resolves (hquery : QueryStep c c' t o q r) {a : ApprovalRequest}
    (ha : a ∈ (dbOf c).approvals) (hstate : a.state ≠ .pending) (orgId : OrgId) :
    (orgId, a.approvalRequestId) ∉ q.resolves S.backend t (dbOf c) := by
  intro hmem
  obtain ⟨a', ha', hrow⟩ := (h.resolves hb hc hquery).2 _ hmem
  obtain ⟨⟨hid, -⟩, hpending⟩ := ofPendingApproval_iff.mp hrow
  obtain rfl := (approvals_keyed hc).eq ha' ha hid
  exact hstate hpending

theorem Orderly.query (hcond : StillPending c t (.db q)) (hquery : QueryStep c c' t o q r) :
    Orderly (dbOf c') := by
  obtain ⟨hnodup, hpending⟩ := h.resolves hb hc hquery
  obtain ⟨hdistinct, hlocked⟩ := h.locksAfter hb hc hcond hquery
  obtain ⟨new, hevents, hkeys⟩ := (Outcome.of_tx hquery.tx).events
  have hids : new.map ApprovalEvent.approvalRequestId =
      (q.resolves S.backend t (dbOf c)).map Prod.snd := by
    rw [← hkeys, List.map_map]
    rfl
  refine ⟨hdistinct, ?_, ?_, ?_⟩
  · intro tx htx write hwrite
    obtain ⟨⟨a, ha, hrow⟩, hnot⟩ := hlocked tx htx write hwrite
    obtain ⟨⟨hid, -⟩, -⟩ := ofPendingApproval_iff.mp hrow
    refine ⟨a, hquery.approval_kept ha fun hmem => hnot ?_, hrow⟩
    rw [← hid]
    exact List.mem_map_of_mem hmem
  · rw [hevents, Keyed, List.map_append, List.nodup_append, hids]
    refine ⟨h.once, hnodup, ?_⟩
    rintro id hold _ hnew rfl
    obtain ⟨e, he, rfl⟩ := List.mem_map.mp hold
    obtain ⟨⟨orgId, id⟩, hkey, heq⟩ := List.mem_map.mp hnew
    obtain ⟨a, ha, hid, hstate⟩ := h.resolved e he
    refine h.not_resolves hb hc hquery ha hstate orgId ?_
    rw [hid, ← heq]
    exact hkey
  · intro e he
    rw [hevents] at he
    rcases List.mem_append.mp he with hold | hnew
    · obtain ⟨a, ha, hid, hstate⟩ := h.resolved e hold
      exact ⟨a, hquery.approval_kept ha (h.not_resolves hb hc hquery ha hstate _), hid, hstate⟩
    · have hkey := List.mem_map_of_mem (f := fun e : ApprovalEvent =>
        (e.orgId, e.approvalRequestId)) hnew
      rw [hkeys] at hkey
      obtain ⟨a, ha, hrow⟩ := hpending _ hkey
      obtain ⟨⟨hid, horg⟩, -⟩ := ofPendingApproval_iff.mp hrow
      obtain ⟨a', ha', hcore, hstate⟩ := hquery.approval_resolved ha (by rwa [hid, horg])
      exact ⟨a', ha', (core_approval hcore).1.trans hid, hstate⟩

end Step

section

variable (hb : S.backend = .postgres) (hc : Reaches S (onStatements StillPending) c)
include hb hc

/-- In every run of a PostgreSQL deployment in which the updates of the timeout job
find their approvals pending, the order is kept. -/
theorem orderly : Orderly (dbOf c) := by
  refine hc.invariant ?_ ?_
  · rintro w ⟨now, partitions, orgs, hdb, -⟩
    change Orderly w.db
    rw [hdb]
    exact ⟨List.nodup_nil, by rintro _ ⟨⟩, List.nodup_nil, by rintro _ ⟨⟩⟩
  · intro c choice c' hc ih hguard htrans
    rcases step_cases htrans with ⟨event, hquiet⟩ | ⟨t, o, q, r, rfl, hquery⟩
    · refine ⟨ih.distinct.sublist (hquiet.tables.timeouts.flatMap _), ?_, ?_, ?_⟩
      · intro tx htx write hwrite
        rw [hquiet.tables.approvals]
        exact ih.pending tx (hquiet.tables.timeouts.subset htx) write hwrite
      · rw [hquiet.tables.events]
        exact ih.once
      · rw [hquiet.tables.events, hquiet.tables.approvals]
        exact ih.resolved
    · exact ih.query hb hc (hquery.guarded hguard) hquery

end

/-- The run: on PostgreSQL, when every update of the timeout job still finds its
approval pending, a resolved approval keeps its state for ever and no approval has
more than one audit event. -/
theorem resolvedOnce_of_stillPending (hb : S.backend = .postgres)
    (hc : Reaches S (onStatements StillPending) c) (hrun : Run (onStatements StillPending) c c') :
    ResolvedOnce (dbOf c) (dbOf c') := by
  constructor
  · intro a ha hstate
    have hkept : a ∈ (dbOf c').approvals := by
      refine hrun.invariant hc ha ?_
      intro d choice d' hd hmem _ htrans
      rcases step_cases htrans with ⟨event, hquiet⟩ | ⟨t, o, q, r, -, hquery⟩
      · rw [hquiet.tables.approvals]
        exact hmem
      · exact hquery.approval_kept hmem ((orderly hb hd).not_resolves hb hd hquery hmem hstate _)
    exact ⟨a, hkept, rfl, rfl⟩
  · intro a _
    exact (orderly hb (hc.run hrun)).once.countP_le_one a.approvalRequestId

/-- Somebody tries to approve afterwards. -/
def lateApproval : Schedule :=
  [.start (.approve sampleOrg ⟨11⟩ "human" none)] ++ runs 2 2 ++ [.finish 2]

/-- A late approval leaves a timed-out approval alone. -/
theorem timedOut_kept_by_late_approval :
    ∃ c c', Reaches (sample .postgres) (onStatements StillPending) c ∧
      Run (onStatements StillPending) c c' ∧
      (∃ a ∈ (dbOf c).approvals, a.state = .timedOut) ∧ ResolvedOnce (dbOf c) (dbOf c') := by
  obtain ⟨c, c', hc, hrest, htest⟩ := exists_run (onStatements StillPending) 1780271999
    (.irreversible "") timedOutCall lateApproval
    (fun c _ => ∃ a ∈ (dbOf c).approvals, a.state = .timedOut) (by decide +kernel)
  exact ⟨c, c', hc, hrest, htest, resolvedOnce_of_stillPending rfl hc hrest⟩

/-- The timeout job has selected an approval, then somebody approves it. -/
def approvedAfterSelect : Schedule :=
  awaitingCall ++ [.start (.processTimeouts sampleOrg)] ++ runs 1 1 ++
    [.start (.approve sampleOrg ⟨11⟩ "human" none)] ++ runs 2 3 ++ [.finish 2]

/-- The timeout job goes on. -/
def timeoutContinues : Schedule := runs 1 2 ++ [.finish 1]

/-- An approval between the read and the update of the timeout job is overwritten and
recorded twice. -/
theorem resolvedOnce_fails_after_select :
    ∃ c c', Reaches (sample .postgres) unguarded c ∧ Run unguarded c c' ∧
      ¬ ResolvedOnce (dbOf c) (dbOf c') := by
  obtain ⟨c, c', hc, hrest, htest⟩ := exists_run unguarded 1780271999 (.irreversible "")
    approvedAfterSelect timeoutContinues (fun c c' => ¬ ResolvedOnce (dbOf c) (dbOf c'))
    (by decide +kernel)
  exact ⟨c, c', hc, hrest, htest⟩

end UndoLog
