import UndoLog.Properties.ApprovalGate

/-!
# One live effect for a signature

The index on live signatures admits one row for each signature, whatever requests do in
between. A statement that would add or revive a second one is refused and changes nothing.
-/

namespace UndoLog.Dev

open Concurrent Machine Relational

variable {V : Server} {c : Moment V}

/-- The live effects with a signature. -/
def Journal.liveEffects (j : Journal) (signature : CallSignature) : List EffectRow :=
  j.effects.filter fun e => e.signature = signature && e.status.live

/-- Every signature has at most one live effect. -/
def Journal.OneLive (j : Journal) : Prop := ∀ signature, (j.liveEffects signature).length ≤ 1

theorem Journal.Sound.oneLive_all {j : Journal} (hj : j.Sound) : j.OneLive := by
  intro signature
  refine hj.ids.length_filter_le_one ?_
  intro a ha b hb hpa hpb
  obtain ⟨hsa, hla⟩ : a.signature = signature ∧ a.status.live = true := by simpa using hpa
  obtain ⟨hsb, hlb⟩ : b.signature = signature ∧ b.status.live = true := by simpa using hpb
  exact hj.oneLive a ha b hb (EffectRow.clashes_iff.mpr ⟨hla, hlb, hsa.trans hsb.symm⟩)

/-- What a step would do to the journal if there were no index. -/
def Step.unchecked (o : Circumstance) (j : Journal) (st : Step) : Journal :=
  match st with
  | .createEffect new => j.insert new o.uuid o.now
  | .recordCommit id result => j.setEffect id .committed (some result) none
  | .recordFail id error => j.setEffect id .failed none (some error)
  | .markRejected id => j.setEffect id .rejected none none
  | st => (st.perform o j).2

theorem Step.run_unchecked (o : Circumstance) (st : Step) (j : Journal) :
    (st.run o j).2 = st.unchecked o j ∨ (st.run o j).2 = j := by
  have hset : ∀ id status result error,
      (j.updateEffect id status result error).2 = j.setEffect id status result error ∨
        (j.updateEffect id status result error).2 = j := by
    intro id status result error
    obtain ⟨-, heq⟩ | ⟨-, -, -, ⟨-, heq⟩ | ⟨-, heq⟩⟩ := j.updateEffect_cases id status result error
    · exact .inr (by rw [heq])
    · exact .inr (by rw [heq])
    · exact .inl (by rw [heq])
  unfold Step.run
  split
  · exact .inr rfl
  · cases st with
    | createEffect new =>
      change (j.createEffect new o.uuid o.now).2 = _ ∨ (j.createEffect new o.uuid o.now).2 = _
      obtain ⟨-, heq⟩ | ⟨-, heq⟩ | ⟨-, -, -, heq⟩ := j.createEffect_cases new o.uuid o.now
      · exact .inr (by rw [heq])
      · exact .inr (by rw [heq])
      · exact .inl (by rw [heq]; rfl)
    | recordCommit id result => exact hset id .committed (some result) none
    | recordFail id error => exact hset id .failed none (some error)
    | markRejected id => exact hset id .rejected none none
    | uuid4 | findLiveEffect | recordReplay | findPendingApproval | getApproval | resolveApproval =>
      exact .inl rfl

/-- In every interleaving a signature has at most one live effect, and a transaction that
would give it a second one leaves the journal unchanged. -/
theorem one_live_effect (hc : Arises V unguarded c) : Journal.OneLive c.store ∧
      ∀ (o : Circumstance) (st : Step), ¬ (st.unchecked o c.store).OneLive →
        (st.run o c.store).2 = c.store := by
  have hsound := journal_sound hc
  refine ⟨hsound.oneLive_all, ?_⟩
  intro o st hbroken
  rcases st.run_unchecked o c.store with heq | heq
  · have hafter := ((Step.run_change o st c.store).sound hsound).oneLive_all
    rw [heq] at hafter
    exact absurd hafter hbroken
  · exact heq

/-- A held payment fails, and a new request takes over its signature. -/
def takenOver : List (Choice (devServer V)) :=
  heldPayment ++ [.start (.effect "e" .fail (.ok [])), .run 1 {}, .finish 1,
    .start payment, .run 2 {}, .run 2 ⟨"b", 0, false⟩, .run 2 ⟨"f", 0, false⟩, .finish 2]

/-- Committing the failed payment would revive it beside the new one. -/
def recommit : Step := .recordCommit "e" []

/-- The journal refuses that commit. -/
theorem takenOver_one_live :
    ∃ c : Moment sampleServer, Arises sampleServer unguarded c ∧ Journal.OneLive c.store ∧
      ¬ (recommit.unchecked {} c.store).OneLive ∧ (recommit.run {} c.store).2 = c.store := by
  have hrun : (runGuarded unguarded emptyServer takenOver).any (fun c =>
        1 < ((recommit.unchecked {} c.store).liveEffects ⟨0⟩).length) = true := by
    decide +kernel
  obtain ⟨c, hc, htest⟩ := exists_reachable_of_any blank_empty hrun
  have hbroken : ¬ (recommit.unchecked {} c.store).OneLive := fun hlive =>
    absurd (of_decide_eq_true htest) (Nat.not_lt.mpr (hlive ⟨0⟩))
  obtain ⟨hlive, hrefused⟩ := one_live_effect hc
  exact ⟨c, hc, hlive, hbroken, hrefused {} recommit hbroken⟩

end UndoLog.Dev
