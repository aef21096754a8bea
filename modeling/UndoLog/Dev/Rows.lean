import UndoLog.Dev.Server

/-!
# What a transaction does to the journal

A transaction leaves the journal alone, adds one effect with its approval, sets the status
and outcome of one effect, counts a replay or resolves one approval. Rows are never removed,
and the call that an effect was made for never changes.
-/

namespace UndoLog.Dev

open Concurrent Machine Relational

/-! ## The changes of one step -/

/-- The effect whose status and outcome a step sets. -/
def Step.sets : Step → Option (String × EffectStatus × Option Dict × Option String)
  | .recordCommit id result => some (id, .committed, some result, none)
  | .recordFail id error => some (id, .failed, none, some error)
  | .markRejected id => some (id, .rejected, none, none)
  | _ => none

/-- What a step may do to the journal. -/
inductive Change (j : Journal) : Step → Journal → Prop
  | keep (st : Step) : Change j st j
  | insert {new : NewEffect} {id : String} (now : ℕ)
      (hid : ∀ e ∈ j.effects, e.id ≠ id)
      (hsignature : ∀ e ∈ j.effects, e.clashes (new.row id) = false)
      (happroval : ∀ a ∈ j.approvals, some a.id ≠ new.approvalId) :
      Change j (.createEffect new) (j.insert new id now)
  | set {st : Step} {id : String} {status : EffectStatus} {result : Option Dict}
      {error : Option String} (hsets : st.sets = some (id, status, result, error))
      (row : EffectRow) (hrow : row ∈ j.effects) (hid : row.id = id)
      (hclash : ∀ e ∈ j.effects, e.id ≠ id → e.clashes { row with status } = false) :
      Change j st (j.setEffect id status result error)
  | replay (id : String) : Change j (.recordReplay id) (j.recordReplay id).2
  | resolve (id : String) (status : ApprovalStatus) (now : ℕ) :
      Change j (.resolveApproval id status) (j.resolve id status now)

namespace Journal

variable {j j' : Journal}

/-- A created effect is a new row, and a refused one leaves the journal as it is. -/
theorem createEffect_cases (new : NewEffect) (id : String) (now : ℕ) (j : Journal) :
    ((∃ e ∈ j.effects, e.id = id ∨ e.clashes (new.row id) = true) ∧
      j.createEffect new id now = (.ok none, j)) ∨ (∃ a ∈ j.approvals, some a.id = new.approvalId) ∧
      j.createEffect new id now = (.error .integrity, j) ∨
    (∀ e ∈ j.effects, e.id ≠ id) ∧ (∀ e ∈ j.effects, e.clashes (new.row id) = false) ∧
      (∀ a ∈ j.approvals, some a.id ≠ new.approvalId) ∧
      j.createEffect new id now = (.ok (some id), j.insert new id now) := by
  unfold createEffect
  by_cases hconflict : ∃ e ∈ j.effects, e.id = id ∨ e.clashes (new.row id) = true
  · left
    refine ⟨hconflict, if_pos ?_⟩
    simpa using hconflict
  · right
    rw [if_neg (by simpa using hconflict)]
    by_cases hused : ∃ a ∈ j.approvals, some a.id = new.approvalId
    · left
      refine ⟨hused, if_pos ?_⟩
      simpa using hused
    · right
      rw [if_neg (by simpa using hused)]
      push Not at hconflict hused
      refine ⟨fun e he => (hconflict e he).1, fun e he => ?_, hused, rfl⟩
      simpa using (hconflict e he).2

/-- An update reaches a row, is refused by the index, or finds no row. -/
theorem updateEffect_cases (id : String) (status : EffectStatus) (result : Option Dict)
    (error : Option String) (j : Journal) : ((∀ e ∈ j.effects, e.id ≠ id) ∧
      j.updateEffect id status result error = (.ok false, j)) ∨ ∃ row ∈ j.effects, row.id = id ∧
      (((∃ e ∈ j.effects, e.id ≠ id ∧ e.clashes { row with status } = true) ∧
        j.updateEffect id status result error = (.error .integrity, j)) ∨
      ((∀ e ∈ j.effects, e.id ≠ id → e.clashes { row with status } = false) ∧
        j.updateEffect id status result error =
          (.ok true, j.setEffect id status result error))) := by
  unfold updateEffect
  cases hfind : j.effects.find? (·.id = id) with
  | none =>
    left
    exact ⟨by simpa using hfind, rfl⟩
  | some row =>
    right
    have hid : row.id = id := by simpa using List.find?_some hfind
    refine ⟨row, List.mem_of_find?_eq_some hfind, hid, ?_⟩
    dsimp only
    by_cases hclash : ∃ e ∈ j.effects, e.id ≠ id ∧ e.clashes { row with status } = true
    · left
      refine ⟨hclash, if_pos ?_⟩
      simpa using hclash
    · right
      rw [if_neg (by simpa using hclash)]
      push Not at hclash
      refine ⟨fun e he hne => ?_, rfl⟩
      simpa using hclash e he hne

end Journal

variable {status : EffectStatus} {o : Circumstance} {e' : EffectRow} {e : EffectRow} {id : String}
  {j : Journal} {st : Step}

theorem Change.of_updateEffect {result : Option Dict} {error : Option String}
    (hsets : st.sets = some (id, status, result, error)) :
    Change j st (j.updateEffect id status result error).2 := by
  obtain ⟨-, heq⟩ | ⟨row, hrow, hid, ⟨-, heq⟩ | ⟨hclash, heq⟩⟩ :=
    j.updateEffect_cases id status result error
  · rw [heq]
    exact .keep st
  · rw [heq]
    exact .keep st
  · rw [heq]
    exact .set hsets row hrow hid hclash

/-- Every step makes one of the changes. -/
theorem Step.run_change (o : Circumstance) (st : Step) (j : Journal) :
    Change j st (st.run o j).2 := by
  unfold Step.run
  split
  · exact .keep st
  · cases st with
    | createEffect new =>
      change Change j _ (j.createEffect new o.uuid o.now).2
      obtain ⟨-, heq⟩ | ⟨-, heq⟩ | ⟨hid, hsignature, happroval, heq⟩ :=
        j.createEffect_cases new o.uuid o.now
      · rw [heq]
        exact .keep _
      · rw [heq]
        exact .keep _
      · rw [heq]
        exact .insert o.now hid hsignature happroval
    | recordCommit | recordFail | markRejected => exact .of_updateEffect rfl
    | recordReplay id => exact .replay id
    | resolveApproval id status => exact .resolve id status o.now
    | uuid4 | findLiveEffect | findPendingApproval | getApproval => exact .keep _

theorem Step.run_free (ho : o.locked = false) (st : Step) (j : Journal) :
    st.run o j = st.perform o j := by
  simp [Step.run, ho]

/-- A step that succeeds does what its transaction does. -/
theorem Step.run_of_ok {j j' : Journal} {a : st.Ret}
    (h : st.run o j = (.ok a, j')) : st.perform o j = (.ok a, j') := by
  unfold Step.run at h
  split at h
  · cases h
  · exact h

/-- No other effect clashes with the status that a step gives to one. -/
def Step.Unhindered (j : Journal) (st : Step) : Prop :=
  match st.sets with
  | some (id, status, _) => ∀ row ∈ j.effects, row.id = id → ∀ e ∈ j.effects, e.id ≠ id →
      e.clashes { row with status } = false
  | none => True

instance decidableUnhindered (j : Journal) (st : Step) : Decidable (st.Unhindered j) := by
  cases st <;> (unfold Step.Unhindered Step.sets; infer_instance)

theorem Journal.updateEffect_free (result : Option Dict) (error : Option String)
    (h : ∀ row ∈ j.effects, row.id = id → ∀ e ∈ j.effects, e.id ≠ id →
      e.clashes { row with status } = false) :
    (∀ e ∈ j.effects, e.id ≠ id) ∧ j.updateEffect id status result error = (.ok false, j) ∨
      j.updateEffect id status result error = (.ok true, j.setEffect id status result error) := by
  obtain hnone | ⟨row, hrow, hid, ⟨⟨e, he, hne, hclash⟩, -⟩ | ⟨-, heq⟩⟩ :=
    j.updateEffect_cases id status result error
  · exact .inl hnone
  · exact absurd hclash (by simp [h row hrow hid e he hne])
  · exact .inr heq

theorem Journal.updateEffect_set (result : Option Dict) (error : Option String)
    (h : ∀ row ∈ j.effects, row.id = id → ∀ e ∈ j.effects, e.id ≠ id →
      e.clashes { row with status } = false) (he : e ∈ j.effects) (hid : e.id = id) :
    j.updateEffect id status result error = (.ok true, j.setEffect id status result error) :=
  (updateEffect_free result error h).resolve_left fun hnone => hnone.1 e he hid

theorem Journal.mem_setEffect (he : e ∈ j.effects)
    (hid : e.id = id) (status : EffectStatus) (result : Option Dict) (error : Option String) :
    { e with status, result, error } ∈ (j.setEffect id status result error).effects := by
  refine mem_updateWhere.mpr ⟨e, he, ?_⟩
  rw [updateRow_of_pos (by simpa using hid)]

theorem Step.run_recordCommit (o : Circumstance) (id : String) (result : Dict) (j : Journal) :
    (Step.run o (.recordCommit id result) j).2 = j ∨
      (Step.run o (.recordCommit id result) j).1 = .ok true := by
  unfold Step.run
  split
  · exact .inl rfl
  · obtain ⟨-, heq⟩ | ⟨row, -, -, ⟨-, heq⟩ | ⟨-, heq⟩⟩ :=
      j.updateEffect_cases id .committed (some result) none
    · exact .inl (congrArg Prod.snd heq)
    · exact .inl (congrArg Prod.snd heq)
    · exact .inr (congrArg Prod.fst heq)

theorem Step.run_ok (ho : o.locked = false) (hfree : st.Unhindered j)
    (hnew : ∀ new, st ≠ .createEffect new) : ∃ r, (st.run o j).1 = .ok r := by
  rw [Step.run_free ho]
  cases st with
  | createEffect new => exact absurd rfl (hnew new)
  | recordCommit | recordFail | markRejected =>
    rcases Journal.updateEffect_free _ _ hfree with ⟨-, heq⟩ | heq <;>
      exact ⟨_, congrArg Prod.fst heq⟩
  | _ => exact ⟨_, rfl⟩

/-! ## Rows persist -/

/-- Two rows for one call. -/
structure EffectRow.SameCall (e e' : EffectRow) : Prop where
  id : e'.id = e.id
  toolName : e'.toolName = e.toolName
  signature : e'.signature = e.signature
  approvalId : e'.approvalId = e.approvalId

theorem EffectRow.SameCall.refl (e : EffectRow) : e.SameCall e := ⟨rfl, rfl, rfl, rfl⟩

theorem EffectRow.SameCall.trans {e'' : EffectRow} (h : e.SameCall e') (h' : e'.SameCall e'') :
    e.SameCall e'' :=
  ⟨h'.id.trans h.id, h'.toolName.trans h.toolName, h'.signature.trans h.signature,
    h'.approvalId.trans h.approvalId⟩

/-- What a step may do to a row: it stays as it is up to its number of replays, or the step
sets its status and outcome. -/
structure EffectRow.Evolves (st : Step) (e e' : EffectRow) : Prop where
  call : e.SameCall e'
  outcome : e'.status = e.status ∧ e'.result = e.result ∨
    ∃ error, st.sets = some (e'.id, e'.status, e'.result, error)

theorem EffectRow.Evolves.refl (st : Step) (e : EffectRow) : e.Evolves st e :=
  ⟨.refl e, .inl ⟨rfl, rfl⟩⟩

theorem EffectRow.evolves_updateRow {p : EffectRow → Bool} {f : EffectRow → EffectRow}
    (e : EffectRow) (hf : p e = true → e.Evolves st (f e)) : e.Evolves st (updateRow p f e) := by
  unfold updateRow
  split
  · next hp => exact hf hp
  · exact .refl st e

variable {j j' : Journal} {st : Step}

/-- The effects after a step: the old ones, one by one, and at most one new one. -/
theorem Change.effects (h : Change j st j') :
    (∃ f : EffectRow → EffectRow, j'.effects = j.effects.map f ∧
      ∀ e : EffectRow, e.Evolves st (f e)) ∨
    ∃ new id now, st = .createEffect new ∧ j' = j.insert new id now := by
  cases h with
  | keep st => exact .inl ⟨fun e => e, by simp, .refl st⟩
  | @insert new id now hid hsignature happroval => exact .inr ⟨new, id, now, rfl, rfl⟩
  | @set _ id status result error hsets row hrow hid hclash =>
    refine .inl ⟨_, rfl, fun e => EffectRow.evolves_updateRow e fun heq => ?_⟩
    have hid : e.id = id := by simpa using heq
    exact ⟨⟨rfl, rfl, rfl, rfl⟩, .inr ⟨error, by rw [hsets, hid]⟩⟩
  | replay id =>
    refine .inl ⟨_, rfl, fun e => EffectRow.evolves_updateRow e fun _ => ?_⟩
    exact ⟨⟨rfl, rfl, rfl, rfl⟩, .inl ⟨rfl, rfl⟩⟩
  | resolve id status now => exact .inl ⟨fun e => e, by simp [Journal.resolve], .refl _⟩

/-- Where an effect of the journal comes from. -/
theorem Change.effect_origin (h : Change j st j') (he : e' ∈ j'.effects) :
    (∃ e ∈ j.effects, e.Evolves st e') ∨
    ∃ new id now, st = .createEffect new ∧ e' = new.row id ∧ j' = j.insert new id now := by
  obtain ⟨f, heffects, hf⟩ | ⟨new, id, now, hst, rfl⟩ := h.effects
  · rw [heffects] at he
    obtain ⟨e, hmem, rfl⟩ := List.mem_map.mp he
    exact .inl ⟨e, hmem, hf e⟩
  · rcases List.mem_append.mp he with hold | hnew
    · exact .inl ⟨e', hold, .refl st e'⟩
    · exact .inr ⟨new, id, now, hst, List.mem_singleton.mp hnew, rfl⟩

/-- Effects are never removed. -/
theorem Change.effect_persists (h : Change j st j') (he : e ∈ j.effects) :
    ∃ e' ∈ j'.effects, e.Evolves st e' := by
  obtain ⟨f, heffects, hf⟩ | ⟨new, id, now, hst, rfl⟩ := h.effects
  · exact ⟨f e, by rw [heffects]; exact List.mem_map_of_mem he, hf e⟩
  · exact ⟨e, List.mem_append_left _ he, .refl st e⟩

/-- What a step may do to an approval: only a pending one is resolved. -/
structure ApprovalRow.Evolves (st : Step) (a a' : ApprovalRow) : Prop where
  id : a'.id = a.id
  effectId : a'.effectId = a.effectId
  toolName : a'.toolName = a.toolName
  args : a'.args = a.args
  outcome : a'.status = a.status ∨ a.status = .pending ∧ st = .resolveApproval a.id a'.status

theorem ApprovalRow.Evolves.refl (st : Step) (a : ApprovalRow) : a.Evolves st a :=
  ⟨rfl, rfl, rfl, rfl, .inl rfl⟩

/-- The approvals after a step: the old ones, one by one, and at most one new one. -/
theorem Change.approvals (h : Change j st j') :
    (∃ f : ApprovalRow → ApprovalRow, j'.approvals = j.approvals.map f ∧
      ∀ a : ApprovalRow, a.Evolves st (f a)) ∨
    ∃ new approvalId id now, st = .createEffect new ∧ new.approvalId = some approvalId ∧
      (∀ a ∈ j.approvals, a.id ≠ approvalId) ∧ (∀ e ∈ j.effects, e.id ≠ id) ∧
      j'.effects = j.effects ++ [new.row id] ∧
      j'.approvals = j.approvals ++ [new.approval approvalId id now] := by
  cases h with
  | keep st => exact .inl ⟨fun a => a, by simp, .refl st⟩
  | @insert new id now hid hsignature happroval =>
    cases hnew : new.approvalId with
    | none =>
      refine .inl ⟨fun a => a, ?_, .refl _⟩
      simp [Journal.insert, hnew]
    | some approvalId =>
      refine .inr ⟨new, approvalId, id, now, rfl, hnew, fun a ha heq => ?_, hid, rfl, ?_⟩
      · exact happroval a ha (by rw [hnew, heq])
      · simp [Journal.insert, hnew]
  | set hsets row hrow hid hclash => exact .inl ⟨fun a => a, by simp [Journal.setEffect], .refl _⟩
  | replay id => exact .inl ⟨fun a => a, by simp [Journal.recordReplay], .refl _⟩
  | resolve id status now =>
    refine .inl ⟨_, rfl, fun a => ?_⟩
    unfold updateRow
    split
    · next hp =>
      obtain ⟨hid, hpending⟩ : a.id = id ∧ a.status = .pending := by simpa using hp
      exact ⟨rfl, rfl, rfl, rfl, .inr ⟨hpending, by rw [hid]⟩⟩
    · exact .refl _ a

/-- Approvals are never removed. -/
theorem Change.approval_persists (h : Change j st j') {a : ApprovalRow} (ha : a ∈ j.approvals) :
    ∃ a' ∈ j'.approvals, a.Evolves st a' := by
  obtain ⟨f, happrovals, hf⟩ | ⟨new, approvalId, id, now, -, -, -, -, -, happrovals⟩ := h.approvals
  · exact ⟨f a, by rw [happrovals]; exact List.mem_map_of_mem ha, hf a⟩
  · exact ⟨a, by rw [happrovals]; exact List.mem_append_left _ ha, .refl st a⟩

/-! ## Well-formed journals -/

/-- What the keys, the index and the paired inserts guarantee of a journal. -/
structure Journal.Sound (j : Journal) : Prop where
  /-- The primary key of effects. -/
  ids : Keyed EffectRow.id j.effects
  /-- `effects_live_signature_idx` -/
  oneLive : ∀ e ∈ j.effects, ∀ e' ∈ j.effects, e.clashes e' = true → e.id = e'.id
  /-- The primary key of approvals. -/
  approvalIds : Keyed ApprovalRow.id j.approvals
  /-- An effect has at most one approval. -/
  owners : Keyed ApprovalRow.effectId j.approvals
  /-- Every approval belongs to an effect. -/
  owned : ∀ a ∈ j.approvals, ∃ e ∈ j.effects, e.id = a.effectId ∧ e.approvalId = some a.id

theorem Journal.sound_blank : Journal.Sound ⟨[], []⟩ where
  ids := by simp [Keyed]
  oneLive := by simp
  approvalIds := by simp [Keyed]
  owners := by simp [Keyed]
  owned := by simp

theorem EffectRow.clashes_comm (e e' : EffectRow) : e.clashes e' = e'.clashes e := by
  unfold clashes
  rw [Bool.and_comm e.status.live]
  congr 1
  exact decide_eq_decide.mpr eq_comm

theorem EffectRow.clashes_iff : e.clashes e' = true ↔
      e.status.live = true ∧ e'.status.live = true ∧ e.signature = e'.signature := by
  simp [clashes, and_assoc]

theorem EffectRow.Evolves.clashes {e₁ e₁' e₂ e₂' : EffectRow} (h₁ : e₁.Evolves st e₁')
    (h₂ : e₂.Evolves st e₂') (hst : st.sets = none) : e₁'.clashes e₂' = e₁.clashes e₂ := by
  have hstatus : ∀ {e e' : EffectRow}, e.Evolves st e' → e'.status = e.status := by
    intro e e' h
    rcases h.outcome with ⟨hstatus, -⟩ | ⟨error, hsets⟩
    · exact hstatus
    · rw [hst] at hsets
      cases hsets
  unfold EffectRow.clashes
  rw [hstatus h₁, hstatus h₂, h₁.call.signature, h₂.call.signature]

theorem Change.ids (h : Change j st j') (hj : Keyed EffectRow.id j.effects) :
    Keyed EffectRow.id j'.effects := by
  cases h with
  | keep | resolve => exact hj
  | insert now hid hsignature happroval => exact hj.append hid
  | set | replay => exact hj.updateWhere fun _ => rfl

theorem Change.oneLive (h : Change j st j') (hj : j.Sound) :
    ∀ e ∈ j'.effects, ∀ e' ∈ j'.effects, e.clashes e' = true → e.id = e'.id := by
  cases h with
  | keep | resolve => exact hj.oneLive
  | @insert new id now hid hsignature happroval =>
    intro e he e' he' hclash
    rcases List.mem_append.mp he with hold | hnew <;>
      rcases List.mem_append.mp he' with hold' | hnew'
    · exact hj.oneLive e hold e' hold' hclash
    · obtain rfl := List.mem_singleton.mp hnew'
      exact absurd hclash (by simp [hsignature e hold])
    · obtain rfl := List.mem_singleton.mp hnew
      rw [EffectRow.clashes_comm] at hclash
      exact absurd hclash (by simp [hsignature e' hold'])
    · rw [List.mem_singleton.mp hnew, List.mem_singleton.mp hnew']
  | @set _ id status result error hsets row hrow hid hclash =>
    intro e₁ he₁ e₂ he₂ h
    obtain ⟨x, hx, rfl⟩ := mem_updateWhere.mp he₁
    obtain ⟨y, hy, rfl⟩ := mem_updateWhere.mp he₂
    by_cases hxid : x.id = id <;> by_cases hyid : y.id = id
    · rw [updateRow_of_pos (by simpa using hxid), updateRow_of_pos (by simpa using hyid)]
      exact hxid.trans hyid.symm
    · -- the row that is set and another one
      rw [updateRow_of_pos (by simpa using hxid), updateRow_of_neg (by simpa using hyid),
        EffectRow.clashes_comm] at h
      obtain rfl := hj.ids.eq hx hrow (hxid.trans hid.symm)
      exact absurd h (Bool.eq_false_iff.mp (hclash y hy hyid))
    · rw [updateRow_of_neg (by simpa using hxid), updateRow_of_pos (by simpa using hyid)] at h
      obtain rfl := hj.ids.eq hy hrow (hyid.trans hid.symm)
      exact absurd h (Bool.eq_false_iff.mp (hclash x hx hxid))
    · rw [updateRow_of_neg (by simpa using hxid), updateRow_of_neg (by simpa using hyid)] at h ⊢
      exact hj.oneLive x hx y hy h
  | replay id =>
    intro e₁ he₁ e₂ he₂ h
    obtain ⟨x, hx, rfl⟩ := mem_updateWhere.mp he₁
    obtain ⟨y, hy, rfl⟩ := mem_updateWhere.mp he₂
    have hrow : ∀ e : EffectRow, e.Evolves (.recordReplay id) (updateRow (·.id = id)
        (fun e => { e with replayCount := e.replayCount + 1 }) e) := fun e =>
      EffectRow.evolves_updateRow e fun _ => ⟨⟨rfl, rfl, rfl, rfl⟩, .inl ⟨rfl, rfl⟩⟩
    rw [(hrow x).clashes (hrow y) rfl] at h
    rw [(hrow x).call.id, (hrow y).call.id]
    exact hj.oneLive x hx y hy h

theorem Change.sound (h : Change j st j') (hj : j.Sound) : j'.Sound := by
  have hkeep : ∀ f : ApprovalRow → ApprovalRow, j'.approvals = j.approvals.map f →
      (∀ a : ApprovalRow, a.Evolves st (f a)) →
      j'.approvals.map ApprovalRow.id = j.approvals.map ApprovalRow.id ∧
        j'.approvals.map ApprovalRow.effectId = j.approvals.map ApprovalRow.effectId := by
    intro f happrovals hf
    rw [happrovals, List.map_map, List.map_map]
    exact ⟨List.map_congr_left fun a _ => (hf a).id, List.map_congr_left fun a _ => (hf a).effectId⟩
  have howned : ∀ a ∈ j.approvals,
      ∃ e ∈ j'.effects, e.id = a.effectId ∧ e.approvalId = some a.id := by
    intro a ha
    obtain ⟨e, he, hid, happroval⟩ := hj.owned a ha
    obtain ⟨e', he', hevolves⟩ := h.effect_persists he
    exact ⟨e', he', hevolves.call.id.trans hid, hevolves.call.approvalId.trans happroval⟩
  obtain ⟨f, happrovals, hf⟩ |
    ⟨new, approvalId, id, now, -, hnew, hfresh, hid, heffects, happrovals⟩ := h.approvals
  · obtain ⟨hids, howners⟩ := hkeep f happrovals hf
    refine ⟨h.ids hj.ids, h.oneLive hj, ?_, ?_, ?_⟩
    · rw [Keyed, hids]
      exact hj.approvalIds
    · rw [Keyed, howners]
      exact hj.owners
    · intro a ha
      rw [happrovals] at ha
      obtain ⟨b, hb, rfl⟩ := List.mem_map.mp ha
      rw [(hf b).effectId, (hf b).id]
      exact howned b hb
  · refine ⟨h.ids hj.ids, h.oneLive hj, ?_, ?_, ?_⟩
    · rw [happrovals]
      exact hj.approvalIds.append hfresh
    · rw [happrovals]
      refine hj.owners.append fun a ha heq => ?_
      -- the approvals so far belong to effects with other identifiers
      obtain ⟨e, he, heid, -⟩ := hj.owned a ha
      exact hid e he (heid.trans heq)
    · intro a ha
      rw [happrovals] at ha
      rcases List.mem_snoc.mp ha with hold | rfl
      · exact howned a hold
      · exact ⟨new.row id, by rw [heffects]; simp, rfl, hnew⟩

end UndoLog.Dev
