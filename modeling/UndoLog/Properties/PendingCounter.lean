import UndoLog.Store.Approvals

/-!
# The counter of pending approvals

A trigger of the PostgreSQL schema counts the pending approvals of a session as their rows
come and leave. The foreign key of an approval makes a new session start with none.
-/

namespace UndoLog

open Relational

/-- A pending approval of a session. -/
def pendingIn (sessionId : SessionId) (a : ApprovalRequest) : Bool :=
  a.sessionId = sessionId ∧ a.state = .pending

/-- The columns of a session that the counter is about. -/
def SessionRecord.counter (s : SessionRecord) : SessionId × ℕ := (s.sessionId, s.approvalsPending)

/-- The statements on approvals and sessions. A timeout names its row only, whatever state the
row is in. -/
inductive CounterStep : Db → Db → Prop
  | session {db db' : Db} (orgId : OrgId) (sessionId : SessionId)
      (h : createSession .postgres orgId sessionId db = .ok ((), db')) : CounterStep db db'
  | create {db db' : Db} (req : ApprovalRequest)
      (h : createApproval .postgres req db = .ok ((), db')) : CounterStep db db'
  | resolve {db db' : Db} {rows : ℕ} (orgId : OrgId) (id : ApprovalRequestId)
      (action : ApprovalAction) (actor : String) (args : Option Json)
      (h : resolvePending .postgres orgId id (approvalActionToState action) actor args db =
        .ok (rows, db')) : CounterStep db db'
  | timeout (db : Db) (at_ : Time) (write : TimeoutWrite) :
      CounterStep db (resolveTimeout .postgres at_ db write)
  | other {db db' : Db} (happrovals : db'.approvals = db.approvals)
      (hsessions : db'.sessions.map SessionRecord.counter =
        db.sessions.map SessionRecord.counter) : CounterStep db db'

/-- The counters are exact, and every approval has its session. -/
structure Counted (db : Db) : Prop where
  exact : ∀ c ∈ db.sessions.map SessionRecord.counter, c.2 = db.approvals.countP (pendingIn c.1)
  session : ∀ a ∈ db.approvals, ∃ c ∈ db.sessions.map SessionRecord.counter, c.1 = a.sessionId

/-- What a session is discounted, and that it had as much. -/
theorem discount_counter (resolved : List ApprovalRequest) (sessions : List SessionRecord) :
    (discountPendingApprovals resolved sessions).map SessionRecord.counter =
      sessions.map fun s =>
        (s.sessionId, s.approvalsPending - resolved.countP (·.sessionId = s.sessionId)) := by
  induction resolved generalizing sessions with
  | nil => rfl
  | cons a rest ih =>
    change (discountPendingApprovals rest (updateWhere _ _ sessions)).map _ = _
    rw [ih, updateWhere, List.map_map]
    refine List.map_congr_left fun s _ => ?_
    by_cases hs : s.sessionId = a.sessionId
    · simp [updateRow, hs, Nat.sub_sub, Nat.add_comm]
    · simp [updateRow, hs, Ne.symm hs]

variable {db db' : Db}

section

variable {p pending : ApprovalRequest → Bool} {f : ApprovalRequest → ApprovalRequest}
  (hsession : ∀ a, (f a).sessionId = a.sessionId) (hstate : ∀ a, (f a).state ≠ .pending)
  (hpending : ∀ a, pending a = (p a && decide (a.state = .pending)))

include hsession hstate hpending

/-- Rows that leave the pending state are as many as the pending rows that were met. -/
theorem countP_pendingIn (sessionId : SessionId) (rows : List ApprovalRequest) :
    (updateWhere p f rows).countP (pendingIn sessionId) +
      (rows.filter pending).countP (·.sessionId = sessionId) =
        rows.countP (pendingIn sessionId) := by
  induction rows with
  | nil => rfl
  | cons a rest ih =>
    have hf := hsession a
    have hne := hstate a
    cases hp : p a <;> by_cases hs : a.sessionId = sessionId <;>
      by_cases hpend : a.state = .pending <;>
      simp_all [updateWhere, updateRow, pendingIn] <;> omega

/-- Rows that leave the pending state are discounted. -/
theorem Counted.discount (h : Counted db)
    (happrovals : db'.approvals = updateWhere p f db.approvals)
    (hsessions : db'.sessions =
      discountPendingApprovals (db.approvals.filter pending) db.sessions) : Counted db' := by
  constructor
  · intro c hc
    rw [hsessions, discount_counter] at hc
    obtain ⟨s, hs, rfl⟩ := List.mem_map.mp hc
    have hcount := countP_pendingIn hsession hstate hpending s.sessionId db.approvals
    have hexact : s.approvalsPending = db.approvals.countP (pendingIn s.sessionId) :=
      h.exact _ (List.mem_map_of_mem hs)
    rw [happrovals, hexact, ← hcount]
    exact Nat.add_sub_cancel _ _
  · intro a ha
    rw [happrovals] at ha
    obtain ⟨old, hold, rfl⟩ := mem_updateWhere.mp ha
    obtain ⟨c, hc, hid⟩ := h.session old hold
    obtain ⟨s, hs, rfl⟩ := List.mem_map.mp hc
    rw [hsessions, discount_counter]
    exact ⟨_, List.mem_map_of_mem hs, hid.trans (updateRow_column hsession old).symm⟩

end

theorem CounterStep.counted (hstep : CounterStep db db') (h : Counted db) : Counted db' := by
  cases hstep with
  | session orgId sessionId hrun =>
    unfold createSession at hrun
    split at hrun
    · cases hrun
      exact h
    · next hfree =>
      split at hrun
      · cases hrun
      · cases hrun
        simp only [List.any_eq_true, decide_eq_true_eq, not_exists, not_and] at hfree
        constructor
        · intro c hc
          rw [List.map_append, List.mem_append, List.map_singleton, List.mem_singleton] at hc
          rcases hc with hold | rfl
          · exact h.exact c hold
          · refine (List.countP_eq_zero.mpr fun a ha hpending => ?_).symm
            obtain ⟨c, hc, hid⟩ := h.session a ha
            obtain ⟨s, hs, rfl⟩ := List.mem_map.mp hc
            exact hfree s hs (hid.trans (of_decide_eq_true hpending).1)
        · intro a ha
          obtain ⟨c, hc, hid⟩ := h.session a ha
          rw [List.map_append]
          exact ⟨c, List.mem_append_left _ hc, hid⟩
  | create req hrun =>
    unfold createApproval at hrun
    split at hrun
    · cases hrun
    · split at hrun
      · next hkeys =>
        cases hrun
        have hids : ∀ id, (∃ c ∈ db.sessions.map SessionRecord.counter, c.1 = id) →
            ∃ c ∈ (countPendingApproval req.sessionId db.sessions).map SessionRecord.counter,
              c.1 = id := by
          rintro id ⟨c, hc, rfl⟩
          obtain ⟨s, hs, rfl⟩ := List.mem_map.mp hc
          refine ⟨_, List.mem_map_of_mem (List.mem_map_of_mem hs), ?_⟩
          change (updateRow _ _ s).sessionId = s.sessionId
          exact updateRow_column (by intro; rfl) s
        constructor
        · intro c hc
          obtain ⟨s', hs', rfl⟩ := List.mem_map.mp hc
          obtain ⟨s, hs, rfl⟩ := mem_updateWhere.mp hs'
          have hexact : s.approvalsPending = db.approvals.countP (pendingIn s.sessionId) :=
            h.exact _ (List.mem_map_of_mem hs)
          by_cases hid : s.sessionId = req.sessionId
          · simp [updateRow, hid, SessionRecord.counter, pendingIn, newApprovalRow, hexact]
          · simp [updateRow, hid, SessionRecord.counter, pendingIn, newApprovalRow, hexact,
              Ne.symm hid]
        · intro a ha
          rcases List.mem_append.mp ha with hold | hnew
          · exact hids _ (h.session a hold)
          · obtain rfl := List.mem_singleton.mp hnew
            obtain ⟨s, hs, hid⟩ := List.any_eq_true.mp (of_decide_eq_true hkeys).2
            exact hids _ ⟨_, List.mem_map_of_mem hs, of_decide_eq_true hid⟩
      · cases hrun
  | resolve orgId id action actor args hrun =>
    cases hrun
    refine Counted.discount (fun _ => ?_) (fun _ => ?_) (fun a => ?_) h rfl rfl
    · rfl
    · cases action <;> rintro ⟨⟩
    · simp [ofPendingApproval]
  | timeout at_ write =>
    refine Counted.discount (fun _ => ?_) (fun _ => ?_) (fun a => ?_) h rfl rfl
    · rfl
    · change timeoutState write.autoApprove ≠ .pending
      cases write.autoApprove <;> rintro ⟨⟩
    · simp [ofPendingApproval]
  | other happrovals hsessions =>
    constructor
    · rw [happrovals, hsessions]
      exact h.exact
    · rw [happrovals, hsessions]
      exact h.session

/-- After any statements on a new database, the counter of every session is the number of its
pending approvals, and no update of an approval would discount more than the counter holds. -/
theorem pending_counter_exact (happrovals : db.approvals = []) (hsessions : db.sessions = [])
    (hrun : Relation.ReflTransGen CounterStep db db') : ∀ s ∈ db'.sessions,
      s.approvalsPending = db'.approvals.countP (pendingIn s.sessionId) ∧
      ∀ orgId id, (db'.approvals.filter (ofPendingApproval orgId id)).countP
        (·.sessionId = s.sessionId) ≤ s.approvalsPending := by
  have hcounted : Counted db' := by
    induction hrun with
    | refl => constructor <;> simp [happrovals, hsessions]
    | tail _ hstep ih => exact hstep.counted ih
  intro s hs
  have hexact : s.approvalsPending = db'.approvals.countP (pendingIn s.sessionId) :=
    hcounted.exact _ (List.mem_map_of_mem hs)
  refine ⟨hexact, fun orgId id => ?_⟩
  rw [hexact, List.countP_filter]
  refine List.countP_mono_left fun a _ ha => ?_
  simp_all [pendingIn, ofPendingApproval]

/-- A request of a session for a decision. -/
def pendingRequest (id : Uuid) : ApprovalRequest where
  approvalRequestId := ⟨id⟩
  orgId := ⟨1⟩
  sessionId := ⟨2⟩
  effectId := ⟨id⟩
  toolName := "refund"
  irreversibilityReason := ""
  riskTags := []
  estimatedImpact := none
  proposedArgs := .null
  agentContext := .null
  state := .pending
  timeoutAt := 0
  autoApproveOnTimeout := false
  resolvedAt := none
  resolvedBy := none
  approvedArgs := none
  createdAt := 0

/-- Of two requests the first one is approved and timed out twice after that: one is pending, and
the counter says so. -/
theorem pending_counter_after_timeouts : ∃ db s,
    Relation.ReflTransGen CounterStep (.empty 0 [] [⟨1⟩]) db ∧
      db.approvals.map (·.state) = [.timedOut, .pending] ∧ s ∈ db.sessions ∧
      s.approvalsPending = 1 := by
  let write : TimeoutWrite := ⟨⟨1⟩, ⟨11⟩, false⟩
  have hrun : Relation.ReflTransGen CounterStep (.empty 0 [] [⟨1⟩]) _ :=
    (((((Relation.ReflTransGen.single (.session ⟨1⟩ ⟨2⟩ rfl)).tail
      (.create (pendingRequest 11) rfl)).tail (.create (pendingRequest 12) rfl)).tail
      (.resolve ⟨1⟩ ⟨11⟩ .approve "human" none rfl)).tail (.timeout _ 5 write)).tail
      (.timeout _ 6 write)
  refine ⟨_, _, hrun, rfl, List.mem_cons_self, ?_⟩
  exact (pending_counter_exact rfl rfl hrun _ List.mem_cons_self).1

end UndoLog
