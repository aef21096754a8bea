import Mathlib.Data.List.Induction
import UndoLog.Engine.Answers

/-!
# Open timeout transactions

A transaction of `process_timeouts` is open only while the call that opened it
runs: the call ends it before it returns, and a failure or a crash rolls it back.
A call has at most one of them, and calls of other kinds have none.
-/

namespace UndoLog

open Concurrent Machine Relational

variable {S : Setup} {guard : Guard (system S)} {c c' : State S}

/-- The calls that process timeouts. -/
def Op.runsTimeouts : Op → Bool
  | .processTimeouts _ | .processPendingTimeouts => true
  | _ => false

theorem done_select_of_open {past : History} (h : timeoutsOpen past = true) :
    ∃ orgId rows, Done past (.timeoutSelect orgId) rows := by
  induction past using List.reverseRecOn with
  | nil => cases h
  | append_singleton past r ih =>
    rw [timeoutsOpen_snoc] at h
    have hkeep : timeoutsOpen past = true →
        ∃ orgId rows, Done (past ++ [r]) (.timeoutSelect orgId) rows := by
      intro hopen
      obtain ⟨orgId, rows, hdone⟩ := ih hopen
      exact ⟨orgId, rows, hdone.append _⟩
    obtain ⟨st, reply⟩ := r
    cases st with
    | app step => exact hkeep h
    | db q =>
      cases reply with
      | error e => cases q <;> cases h
      | ok a =>
        cases q with
        | timeoutSelect orgId => exact ⟨orgId, a, done_snoc _ _⟩
        | timeoutCommit => cases h
        | _ => exact hkeep h

variable {t : ℕ} {tx : TimeoutTx}

theorem runsTimeouts_of_open (hc : Reaches S guard c) {op : Op}
    (hstart : Started c t op) (h : timeoutsOpen (pastOf t c) = true) : op.runsTimeouts = true := by
  obtain ⟨orgId, rows, hdone⟩ := done_select_of_open h
  obtain ⟨before, -, -, hpre⟩ :=
    (contract S).pre_of_ran hc.coherent hstart (succeeded_iff_done.mpr hdone)
  cases op with
  | processTimeouts | processPendingTimeouts => rfl
  | _ => cases hpre

theorem closed_of_done (hc : Reaches S guard c) {r : Except UndoLogError OpResult}
    (hcall : c.calls t = some (.done r)) : timeoutsOpen (pastOf t c) = false := by
  obtain ⟨op, hstart, hpost⟩ := (contract S).post_of_done hc.coherent hcall
  by_contra hopen
  have hop := runsTimeouts_of_open hc hstart (Bool.not_eq_false _ ▸ hopen)
  cases op with
  | processTimeouts | processPendingTimeouts =>
    obtain ⟨r', hclosed, -⟩ := hpost
    exact hopen hclosed
  | _ => cases hop

/-- An open transaction is on record: the history of its owner shows it, and its owner
runs. -/
def OnRecord (c : State S) (tx : TimeoutTx) : Prop :=
  timeoutsOpen (pastOf tx.owner c) = true ∧ ∃ p, c.calls tx.owner = some p

theorem OnRecord.keep {event : SystemEvent S} (h : OnRecord c tx)
    (htrace : c'.trace = c.trace ++ [event]) (hevent : ∀ st reply, event ≠ .ran tx.owner st reply)
    (hcalls : c'.calls tx.owner = c.calls tx.owner) : OnRecord c' tx := by
  obtain ⟨hopen, p, hp⟩ := h
  refine ⟨?_, p, hcalls.trans hp⟩
  rw [pastOf_other htrace hevent]
  exact hopen

theorem OnRecord.own {st : Stmt} {reply : Except UndoLogError st.Ret}
    {p : (system S).Prog} (htrace : c'.trace = c.trace ++ [.ran t st reply])
    (hcalls : c'.calls t = some p) (howner : tx.owner = t)
    (hopen : opensTimeouts (timeoutsOpen (pastOf t c)) ⟨st, reply⟩ = true) : OnRecord c' tx := by
  subst howner
  refine ⟨?_, p, hcalls⟩
  rw [pastOf_ran htrace, timeoutsOpen_snoc]
  exact hopen

/-- After a statement of call `t`, a transaction of another call was open before, and one of its own
is open as the history of the call says. -/
theorem mem_timeoutsAfter {now : Time} {q : Query} {a : q.Ret} {txs : List TimeoutTx}
    {before : Bool} (h : tx ∈ q.timeoutsAfter t now txs)
    (hbefore : ∀ tx ∈ txs, tx.owner = t → before = true) : (tx.owner ≠ t ∧ tx ∈ txs) ∨
      (tx.owner = t ∧ opensTimeouts before ⟨.db q, .ok a⟩ = true) := by
  have hsame : tx ∈ txs → (tx.owner ≠ t ∧ tx ∈ txs) ∨ (tx.owner = t ∧ before = true) := by
    intro hmem
    by_cases howner : tx.owner = t
    · exact .inr ⟨howner, hbefore tx hmem howner⟩
    · exact .inl ⟨howner, hmem⟩
  cases q with
  | timeoutSelect orgId =>
    rcases List.mem_snoc.mp h with hold | rfl
    · exact (hsame hold).imp_right fun hown => ⟨hown.1, rfl⟩
    · exact .inr ⟨rfl, rfl⟩
  | timeoutUpdate orgId id autoApprove =>
    obtain ⟨old, hold, rfl⟩ := mem_updateWhere.mp h
    cases howner : decide (old.owner = t) with
    | true =>
      rw [updateRow_of_pos (p := fun tx : TimeoutTx => decide (tx.owner = t)) howner]
      exact .inr ⟨of_decide_eq_true howner, hbefore old hold (of_decide_eq_true howner)⟩
    | false =>
      rw [updateRow_of_neg (p := fun tx : TimeoutTx => decide (tx.owner = t)) howner]
      exact .inl ⟨of_decide_eq_false howner, hold⟩
  | timeoutCommit orgId =>
    obtain ⟨hold, hne⟩ := List.mem_filter.mp h
    exact .inl ⟨by simpa using hne, hold⟩
  | _ => exact hsame h

/-- What is open is on record. -/
theorem opened (hc : Reaches S guard c) : ∀ tx ∈ (dbOf c).timeouts, OnRecord c tx := by
  refine rows_invariant hc (fun c h tx htx => absurd htx (h.timeouts tx)) ?_
  intro c choice c' hc ih _ htrans
  cases htrans with
  | start op =>
    intro tx htx
    obtain ⟨-, p, hp⟩ := ih tx htx
    have hne : tx.owner ≠ c.next := (hc.coherent.running _ p hp).1.ne
    exact (ih tx htx).keep rfl (by simp) (Function.update_of_ne hne _ _)
  | @finish t r hcall =>
    intro tx htx
    have hne : tx.owner ≠ t := by
      rintro rfl
      have hopen := (ih tx htx).1
      rw [closed_of_done hc hcall] at hopen
      cases hopen
    exact (ih tx htx).keep rfl (by simp) (Function.update_of_ne hne _ _)
  | @crash t p hcall =>
    intro tx htx
    obtain ⟨htx, hne⟩ := List.mem_filter.mp htx
    exact (ih tx htx).keep rfl (by simp) (Function.update_of_ne (by simpa using hne) _ _)
  | environment henv =>
    intro tx htx
    have hold := (Env.run_tables henv).timeouts.subset htx
    exact (ih tx hold).keep rfl (by simp) rfl
  | @run t o st next reply store hcall hexec =>
    intro tx htx
    have hbefore : ∀ tx ∈ (dbOf c).timeouts, tx.owner = t →
        timeoutsOpen (pastOf t c) = true := by
      rintro tx hold rfl
      exact (ih tx hold).1
    have hcases : (tx.owner ≠ t ∧ tx ∈ (dbOf c).timeouts) ∨ (tx.owner = t ∧
        opensTimeouts (timeoutsOpen (pastOf t c)) ⟨st, reply⟩ = true) := by
      cases st with
      | app step =>
        have hold : tx ∈ (World.db store).timeouts := htx
        rw [AppStep.run_db hexec] at hold
        by_cases howner : tx.owner = t
        · exact .inr ⟨howner, hbefore tx hold howner⟩
        · exact .inl ⟨howner, hold⟩
      | db q =>
        rcases Query.run_cases hexec with ⟨e, rfl, rfl⟩ | ⟨a, db, rfl, -, hquery, rfl⟩
        · obtain ⟨hold, hne⟩ := List.mem_filter.mp htx
          exact .inl ⟨by simpa using hne, hold⟩
        · have hafter : db.timeouts = q.timeoutsAfter t (dbOf c).now (dbOf c).timeouts :=
            (Outcome.of_tx hquery).timeouts
          change tx ∈ db.timeouts at htx
          rw [hafter] at htx
          exact mem_timeoutsAfter htx hbefore
    rcases hcases with ⟨hne, hold⟩ | ⟨howner, hopen⟩
    · refine (ih tx hold).keep rfl ?_ (Function.update_of_ne hne _ _)
      rintro st' reply' heq
      cases heq
      exact hne rfl
    · exact .own rfl (Function.update_self ..) howner hopen

theorem not_opened_by (hc : Reaches S guard c) {op : Op} (hstart : Started c t op)
    (hop : op.runsTimeouts = false) : ∀ tx ∈ (dbOf c).timeouts, tx.owner ≠ t := by
  rintro tx htx rfl
  have htrue := runsTimeouts_of_open hc hstart (opened hc tx htx).1
  rw [hop] at htrue
  cases htrue

theorem timeouts_keyed (hc : Reaches S guard c) : Keyed TimeoutTx.owner (dbOf c).timeouts := by
  refine hc.invariant ?_ ?_
  · rintro w ⟨now, partitions, orgs, hdb, -⟩
    change Keyed _ w.db.timeouts
    rw [hdb]
    exact List.nodup_nil
  · intro c choice c' hc ih _ htrans
    rcases step_cases htrans with ⟨event, hquiet⟩ | ⟨t, o, q, a, -, hquery⟩
    · exact ih.sublist (hquiet.tables.timeouts.map _)
    · rw [(Outcome.of_tx hquery.tx).timeouts]
      cases q with
      | timeoutSelect orgId =>
        refine ih.append ?_
        intro tx htx howner
        have howner : tx.owner = t := howner
        obtain ⟨op, -, hpre⟩ := hquery.pre hc
        have hclosed : timeoutsOpen (pastOf t c) = false := by
          cases op with
          | processTimeouts | processPendingTimeouts => exact hpre.2.1 orgId rfl
          | _ => cases hpre
        have hopen := (opened hc tx htx).1
        rw [howner, hclosed] at hopen
        cases hopen
      | timeoutUpdate => exact ih.updateWhere fun _ => rfl
      | timeoutCommit => exact ih.sublist (List.filter_sublist.map _)
      | _ => exact ih

end UndoLog
