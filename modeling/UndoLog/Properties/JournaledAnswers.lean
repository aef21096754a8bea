import UndoLog.Properties.ApprovalGate

/-!
# Answers name journaled rows

An answer of the local server names an effect or an approval of the journal, as long as the
row that refused an insert is still live when the tool call looks it up. Otherwise the call
answers with an approval that was never journaled, or with no effect at all.
-/

namespace UndoLog.Dev

open Concurrent Machine

variable {V : Server} {guard : Guard (devServer V)} {c : Moment V}

/-- What an answer to a call with a signature names is in the journal. -/
def Names (j : Journal) (signature : CallSignature) : Reply → Prop
  | .pendingApproval approvalId => ∃ a ∈ j.approvals, a.id = approvalId ∧
      ∃ e ∈ j.effects, e.id = a.effectId ∧ e.signature = signature
  | .executed effectId => ∃ e ∈ j.effects, effectId = some e.id ∧ e.signature = signature
  | .replayed effectId _ => ∃ e ∈ j.effects, e.id = effectId ∧ e.signature = signature
  | _ => True

/-- The insert of a tool call was refused. -/
def refused (t : ℕ) (c : Moment V) : Bool :=
  c.trace.any fun
    | .ran u (.createEffect _) (.ok none) => u = t
    | _ => false

variable {t : ℕ} {new : NewEffect} {signature : CallSignature}

theorem refused_of_performed
    (h : Performed c t (.createEffect new) (.ok none)) : refused t c = true :=
  List.any_eq_true.mpr ⟨_, h, by simp⟩

/-- A lookup that is a repeated one finds a live effect. -/
def Step.Finds (j : Journal) (again : Bool) : Step → Prop
  | .findLiveEffect signature => again = true → (j.findLiveEffect signature).isSome = true
  | _ => True

instance decidableFinds (j : Journal) (again : Bool) : ∀ st : Step, Decidable (st.Finds j again)
  | .findLiveEffect _ => inferInstanceAs (Decidable (_ = true → _ = true))
  | .uuid4 | .createEffect _ | .recordCommit _ _ | .recordReplay _ | .recordFail _ _
  | .markRejected _ | .findPendingApproval _ | .getApproval _ | .resolveApproval _ _ =>
    .isTrue trivial

/-- The condition at a step of a run. -/
def FindsAgain (c : Moment V) (t : ℕ) (st : (devServer V).Stmt) : Prop :=
  Step.Finds c.store (refused t c) st

instance (c : Moment V) (t : ℕ) (st : (devServer V).Stmt) : Decidable (FindsAgain c t st) :=
  decidableFinds c.store (refused t c) st

/-- Whenever a tool call repeats its lookup after a refused insert, a live effect has the
signature. -/
abbrev RepeatedLookupFinds (V : Server) : Guard (devServer V) := onStatements FindsAgain

theorem found_named (hc : Arises V guard c) {e : EffectRow}
    (h : Performed c t (.findLiveEffect signature) (.ok (some e))) :
    ∃ e' ∈ c.store.effects, e'.id = e.id ∧ e'.signature = signature := by
  obtain ⟨d, hd, hrun, hlookup⟩ := found_at hc h
  obtain ⟨hmem, hsignature, -⟩ := Journal.findLiveEffect_some hlookup
  obtain ⟨e', he', hsame⟩ := effect_run hd hrun hmem
  exact ⟨e', he', hsame.id, hsame.signature.trans hsignature⟩

theorem created_named (hc : Arises V guard c) {id : String}
    (h : Performed c t (.createEffect new) (.ok (some id))) :
    (∃ e ∈ c.store.effects, e.id = id ∧ e.signature = new.signature) ∧
      ∀ approvalId, new.approvalId = some approvalId →
        ∃ a ∈ c.store.approvals, a.id = approvalId ∧ a.effectId = id := by
  obtain ⟨d, d', now, -, hd', -, hrest, -, hstore⟩ := created_at hc h
  have heffect : new.row id ∈ Journal.effects d'.store := by
    rw [hstore]
    exact List.mem_concat_self
  obtain ⟨e, he, hsame⟩ := effect_run hd' hrest heffect
  refine ⟨⟨e, he, hsame.id, hsame.signature⟩, ?_⟩
  intro approvalId happroval
  have hrow : new.approval approvalId id now ∈ Journal.approvals d'.store := by
    rw [hstore]
    simp [Journal.insert, happroval]
  obtain ⟨a, ha, hlater⟩ := approval_run hd' hrest hrow
  exact ⟨a, ha, hlater.id, hlater.effectId⟩

theorem pending_named (hc : Arises V guard c) {effectId : String} {approval : ApprovalRow}
    (h : Performed c t (.findPendingApproval effectId) (.ok (some approval))) :
    ∃ a ∈ c.store.approvals, a.id = approval.id ∧ a.effectId = effectId := by
  obtain ⟨d, d', o, hd, -, -, -, hrun, hstep, hrest⟩ := performed_at hc h
  have hfound : Journal.findPendingApproval effectId d.store = some approval :=
    Except.ok.inj (congrArg Prod.fst (Step.run_of_ok hrun))
  obtain ⟨hmem, heffect, -⟩ := Journal.findPendingApproval_some hfound
  obtain ⟨a, ha, hlater⟩ := approval_run hd (hstep.trans hrest) hmem
  exact ⟨a, ha, hlater.id, hlater.effectId.trans heffect⟩

theorem not_lost (hc : Arises V (RepeatedLookupFinds V) c)
    {before : Past} (hrefused : ⟨.createEffect new, .ok none⟩ ∈ before)
    (hlookup : before ++ [⟨.findLiveEffect signature, .ok none⟩] <+: ranBy t c.trace) : False := by
  obtain ⟨earlier, later, htrace, hbefore⟩ := ranBy_split hlookup
  obtain ⟨d, choice, d', hrec⟩ := hc.recorded htrace
  obtain ⟨o, next, rfl, hcall, hrun⟩ := run_of_ran hrec.step hrec.trace'
  have hfinds : refused t d = true → (Journal.findLiveEffect signature d.store).isSome = true :=
    onStatements_run hrec.allowed hcall
  have hran : Performed d t (.createEffect new) (.ok none) := by
    rw [Performed, hrec.trace]
    rw [← hbefore] at hrefused
    exact mem_ranBy.mp hrefused
  have hsome := hfinds (refused_of_performed hran)
  have hnone : Journal.findLiveEffect signature d.store = none :=
    Except.ok.inj (congrArg Prod.fst (Step.run_of_ok hrun))
  simp [hnone] at hsome

/-- While every lookup after a refused insert finds a live effect, the answer to a tool call
names rows of the journal that belong to its signature. -/
theorem answers_journaled (hc : Arises V (RepeatedLookupFinds V) c) {t : ℕ} {req : Request}
    {call : ToolCall} {reply : Reply} (hstart : Started c t req)
    (hcalls : Calls V req call signature) (hreturned : Returned c t (.ok reply)) :
    Names c.store signature reply := by
  cases answer_of_returned hc hstart hcalls hreturned with
  | replayed hfound hstatus => exact found_named hc (mem_ranBy.mp hfound)
  | held hfound hstatus hpending hauto =>
    obtain ⟨e', he', hid, hsignature⟩ := found_named hc (mem_ranBy.mp hfound)
    obtain ⟨a, ha, haid, heffect⟩ := pending_named hc (mem_ranBy.mp hpending)
    exact ⟨a, ha, haid, e', he', hid.trans heffect.symm, hsignature⟩
  | resolved hfound | autoApproved hfound | running hfound =>
    obtain ⟨e', he', hid, hsignature⟩ := found_named hc (mem_ranBy.mp hfound)
    exact ⟨e', he', by rw [hid], hsignature⟩
  | created hclaims hcreated hfree =>
    obtain ⟨⟨e, he, hid, hsignature⟩, -⟩ := created_named hc (mem_ranBy.mp hcreated)
    exact ⟨e, he, by rw [hid], hsignature.trans hclaims.signature⟩
  | suspended hclaims hcreated happroval =>
    obtain ⟨⟨e, he, hid, hsignature⟩, howner⟩ := created_named hc (mem_ranBy.mp hcreated)
    obtain ⟨a, ha, haid, heffect⟩ := howner _ happroval
    exact ⟨a, ha, haid, e, he, hid.trans heffect.symm, hsignature.trans hclaims.signature⟩
  | lostPending hclaims hrefused hlookup | lostExecuted hclaims hrefused hlookup =>
    exact (not_lost hc hrefused hlookup).elim

/-! ## A refused insert -/

/-- A payment that has found no live effect is overtaken by another request for it, and its
own insert is refused. -/
def overtaken : List (Choice (devServer V)) :=
  [.run 0 {}, .start payment, .run 1 {}, .run 1 ⟨"a", 0, false⟩, .run 1 ⟨"e", 0, false⟩, .finish 1,
    .run 0 ⟨"x", 0, false⟩, .run 0 ⟨"f", 0, false⟩]

/-- Whether a request was answered with a pending approval. -/
def pendingTest (t : ℕ) (id : String) (c : Moment V) : Bool :=
  c.trace.any fun
    | .returned u (.ok (.pendingApproval approvalId)) => u = t && approvalId = id
    | _ => false

theorem returned_of_pendingTest {id : String} (h : pendingTest t id c = true) :
    Returned c t (.ok (.pendingApproval id)) := by
  obtain ⟨event, hmem, hevent⟩ := List.any_eq_true.mp h
  split at hevent
  · next u approvalId =>
    obtain ⟨rfl, rfl⟩ : u = t ∧ approvalId = id := by simpa using hevent
    exact hmem
  · cases hevent

/-- The other request's approval is rejected before the lookup is repeated: the answer carries
an approval that was never journaled. -/
theorem pending_unjournaled :
    ∃ c : Moment sampleServer, Arises sampleServer unguarded c ∧ Started c 0 payment ∧
      Calls sampleServer payment paymentCall ⟨0⟩ ∧ Returned c 0 (.ok (.pendingApproval "x")) ∧
      ¬ Names c.store ⟨0⟩ (.pendingApproval "x") := by
  have hrun : (runGuarded unguarded emptyServer []).any
      (fun d => d.next = 0 && (runGuarded unguarded d (.start payment :: (overtaken ++
        [.start (.decision "a" .reject (.ok []))] ++ steps 2 4 ++
          [.finish 2, .run 0 {}, .finish 0]))).any fun c =>
            pendingTest 0 "x" c && (Journal.approvals c.store).all fun a => a.id ≠ "x") = true := by
    decide +kernel
  obtain ⟨c, hc, hstart, htest⟩ := exists_started_of_any blank_empty hrun
  obtain ⟨hpending, hnone⟩ := Bool.and_eq_true_iff.mp htest
  refine ⟨c, hc, hstart, payment_calls, returned_of_pendingTest hpending, ?_⟩
  rintro ⟨a, ha, hid, -⟩
  have hne := List.all_eq_true.mp hnone a ha
  exact of_decide_eq_true hne hid

/-- The other request's effect is still held when the lookup is repeated. -/
theorem overtaken_journaled :
    ∃ c : Moment sampleServer, Arises sampleServer (RepeatedLookupFinds sampleServer) c ∧
      Started c 0 payment ∧ Returned c 0 (.ok (.pendingApproval "a")) ∧
      Names c.store ⟨0⟩ (.pendingApproval "a") := by
  have hrun : (runGuarded (RepeatedLookupFinds sampleServer) emptyServer []).any (fun d =>
        d.next = 0 && (runGuarded (RepeatedLookupFinds sampleServer) d (.start payment ::
          (overtaken ++ [.run 0 {}, .run 0 {}, .finish 0]))).any (pendingTest 0 "a")) = true := by
    decide +kernel
  obtain ⟨c, hc, hstart, htest⟩ := exists_started_of_any blank_empty hrun
  have hreturned := returned_of_pendingTest htest
  exact ⟨c, hc, hstart, hreturned, answers_journaled hc hstart payment_calls hreturned⟩

end UndoLog.Dev
