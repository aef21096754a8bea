import UndoLog.Engine.Replays
import UndoLog.Engine.Schedule

/-!
# How often a committed call can be replayed

A committed call is made again and again, each time after the previous answer, while others
leave its effect alone. The counter of replays is a `smallint` that is incremented before the
answer is given, so the answers end with the counter.
-/

namespace UndoLog

open Concurrent Machine Relational

variable {S : Setup} {c d : State S} {orgId : OrgId} {signature : CallSignature}

/-! ## Consecutive retries -/

/-- The calls of an organisation under a signature that have started since call `first`. -/
def retries (first : ℕ) (orgId : OrgId) (signature : CallSignature)
    (trace : List (SystemEvent S)) : List ℕ :=
  trace.filterMap fun
    | .started v (.intercept call) =>
      if first ≤ v ∧ call.orgId = orgId ∧ call.signature S.hash = signature then some v else none
    | _ => none

/-- Retries one after the other: a retry starts when the previous one has returned, nothing
outside fails while it runs, and other calls do not touch the rows under the signature. -/
def Retrying (first : ℕ) (orgId : OrgId) (signature : CallSignature) : Guard (system S) :=
  fun c choice =>
    match choice with
    | .start op => (∃ call, op = .intercept call ∧ call.orgId = orgId ∧
        call.signature S.hash = signature) →
        ∀ v ∈ retries first orgId signature c.trace, c.calls v = none
    | .run t o => if t ∈ retries first orgId signature c.trace then Oracle.calm o = true
        else ∀ c', step c choice = some c' →
          underSignature orgId signature c'.store = underSignature orgId signature c.store
    | .crash t => t ∉ retries first orgId signature c.trace
    | .finish _ | .environment _ => True

/-- Whatever happens, the `n`-th retry from here on is answered with the result `r`, and there
may be one. -/
structure NthAnswer (c : State S) (orgId : OrgId) (signature : CallSignature) (n : ℕ)
    (r : Except UndoLogError OpResult) : Prop where
  returns : ∃ d v r', Run (Retrying c.next orgId signature) c d ∧
    (retries c.next orgId signature d.trace)[n - 1]? = some v ∧ Returned d v r'
  answer : ∀ d v r', Run (Retrying c.next orgId signature) c d →
    (retries c.next orgId signature d.trace)[n - 1]? = some v → Returned d v r' → r' = r

/-! ## Retries in a trace -/

theorem retries_append (first : ℕ) (trace trace' : List (SystemEvent S)) :
    retries first orgId signature (trace ++ trace') =
      retries first orgId signature trace ++ retries first orgId signature trace' :=
  List.filterMap_append

variable {v : ℕ} {w w' : World} {trace : List (SystemEvent S)} {allowed : Oracle → Prop}
    {call : ToolCall} {first : ℕ}

theorem retries_eq_nil (h : ∀ event ∈ trace, ∀ t op, event ≠ .started t op) :
    retries first orgId signature trace = [] := by
  refine List.filterMap_eq_nil_iff.mpr fun event hmem => ?_
  cases event with
  | started t op => exact absurd rfl (h _ hmem t op)
  | _ => rfl

theorem mem_retries : v ∈ retries first orgId signature trace ↔ first ≤ v ∧
      ∃ call, .started v (.intercept call) ∈ trace ∧ call.orgId = orgId ∧
        call.signature S.hash = signature := by
  simp only [retries, List.mem_filterMap]
  constructor
  · rintro ⟨event, hmem, hsome⟩
    split at hsome
    · next u call =>
      split at hsome
      · next hkey =>
        cases hsome
        exact ⟨hkey.1, call, hmem, hkey.2⟩
      · cases hsome
    · cases hsome
  · rintro ⟨hle, call, hmem, horg, hsig⟩
    exact ⟨_, hmem, by simp [hle, horg, hsig]⟩

theorem retries_next (hc : Reaches S unguarded c) :
    retries c.next orgId signature c.trace = [] := by
  refine List.eq_nil_iff_forall_not_mem.mpr fun v hv => ?_
  obtain ⟨hle, call, hstart, -⟩ := mem_retries.mp hv
  have hlt := hc.coherent.fresh _ hstart v rfl
  omega

/-- What a retrying run does besides its retries keeps the rows under the signature. -/
theorem elsewhere_of_step {choice : Choice (system S)} {d' : State S} (hd : Reaches S unguarded d)
    (hguard : Retrying first orgId signature d choice) (htrans : Transition d choice d')
    (hother : ∀ t o, choice = .run t o → t ∉ retries first orgId signature d.trace) :
    Elsewhere orgId signature d.store d'.store := by
  refine ⟨?_, orgs_step htrans, fun _ => effects_keyed (hd.transition trivial htrans)⟩
  rcases step_cases htrans with ⟨event, hquiet⟩ | ⟨t, o, q, a, rfl, hquery⟩
  · exact congrArg (List.filter _) hquiet.tables.effects
  · simp only [Retrying, if_neg (hother t o rfl)] at hguard
    exact hguard d' htrans.to_step

/-! ## The counter -/

/-- The counter after a number of attempts to increment it. -/
def tally (count : ℕ) : ℕ → ℕ
  | 0 => count
  | n + 1 => if tally count n < smallintMax then tally count n + 1 else tally count n

/-- Each attempt increments the counter until it is full. -/
theorem tally_lt_iff (count n : ℕ) : tally count n < smallintMax ↔ count + n < smallintMax := by
  have hboth : (count + n ≤ smallintMax → tally count n = count + n) ∧
      (smallintMax ≤ count + n → smallintMax ≤ tally count n) := by
    induction n with
    | zero => exact ⟨fun _ => rfl, fun h => h⟩
    | succ n ih =>
      rw [tally]
      split <;> omega
  omega

/-- The answer while the counter has a value. -/
def answerAt (effectId : EffectId) (result : ToolResult) (count : ℕ) :
    Except UndoLogError OpResult :=
  if count < smallintMax then .ok (.intercepted (.replay effectId (some result)))
  else .error .database

/-- The only row under the signature is that of a committed effect. -/
structure OnlyRow (orgId : OrgId) (signature : CallSignature) (effectId : EffectId)
    (result : ToolResult) (count : ℕ) (w : World) : Prop where
  row : ∃ row, underSignature orgId signature w = [row] ∧ row.effectId = effectId ∧
    row.resultSnapshot = some result.toValue ∧ row.replayCount = count
  known : orgId ∈ w.db.orgs
  keyed : Keyed EffectRow.effectId w.db.effects

variable {effectId : EffectId} {result : ToolResult} {count : ℕ}
  {r : Except UndoLogError InterceptOutcome}

section

variable (h : OnlyRow orgId signature effectId result count w)
include h

theorem OnlyRow.amid (hrely : Elsewhere orgId signature w w') :
    OnlyRow orgId signature effectId result count w' := by
  refine ⟨?_, ?_, hrely.keyed h.keyed⟩
  · rw [hrely.rows]
    exact h.row
  · rw [hrely.orgs]
    exact h.known

theorem OnlyRow.answered (hanswered : Answered allowed orgId signature w r w') :
    r.map OpResult.intercepted = answerAt effectId result count ∧
      OnlyRow orgId signature effectId result (tally count 1) w' := by
  obtain ⟨row, hrows, rfl, hresult, rfl⟩ := h.row
  obtain ⟨o, row', -, hpick, rfl, hcounted⟩ := hanswered.row
  rw [hrows] at hpick hcounted
  obtain rfl : row' = row := List.mem_singleton.mp (limitOne_mem hpick)
  have horg : row'.orgId = orgId := by
    have hmem : row' ∈ underSignature orgId signature w := by
      rw [hrows]
      exact List.mem_singleton_self _
    exact (of_decide_eq_true (List.mem_filter.mp hmem).2).2
  have hkept : ∀ count, (∃ row, underSignature orgId signature w' = [row] ∧
      row.effectId = row'.effectId ∧ row.resultSnapshot = some result.toValue ∧
      row.replayCount = count) → OnlyRow orgId signature row'.effectId result count w' :=
    fun count hrow => ⟨hrow, by rw [hanswered.orgs]; exact h.known, hanswered.keyed⟩
  obtain ⟨record, hmap, heffect, hsnapshot⟩ := mapEffectRow_result hresult
  by_cases hmax : smallintMax ≤ row'.replayCount
  · have hreplay : replayOf row' = .error .database := by simp only [replayOf, hmap, if_pos hmax]
    have hfull : ¬ row'.replayCount < smallintMax := by omega
    rw [CountedIn, hreplay] at hcounted
    constructor
    · rw [hreplay, answerAt, if_neg hfull]
      rfl
    · refine hkept _ ⟨row', hcounted, rfl, hresult, ?_⟩
      rw [tally, tally, if_neg hfull]
  · have hroom : row'.replayCount < smallintMax := by omega
    have hreplay : replayOf row' = .ok (.replay row'.effectId (some result)) := by
      simp only [replayOf, hmap, if_neg hmax, heffect, hsnapshot]
    rw [CountedIn, hreplay] at hcounted
    obtain ⟨now, hcounted⟩ := hcounted
    constructor
    · rw [hreplay, answerAt, if_pos hroom]
      rfl
    · refine hkept _ ⟨row'.counted now, ?_, rfl, hresult, ?_⟩
      · rw [hcounted, updateWhere, List.map_singleton,
          updateRow_of_pos (ofEffect_iff.mpr ⟨rfl, horg⟩)]
      · rw [tally, tally, if_pos hroom]
        rfl

theorem OnlyRow.ensures (hb : S.backend = .postgres) (hattempts : 0 < S.config.lockMaxAttempts)
    (horg : call.orgId = orgId) (hsig : call.signature S.hash = signature) (t : ℕ) :
    Ensures (M := system S) (Elsewhere orgId signature) (fun o : Oracle => o.calm = true) t
      (fun r w' => r = answerAt effectId result count ∧
        OnlyRow orgId signature effectId result (tally count 1) w')
      (programOf S (.intercept call)) w := by
  subst horg hsig
  obtain ⟨row, hrows, -⟩ := h.row
  have hsome : ∃ o : Oracle, (fun o : Oracle => o.calm = true) o := ⟨{}, rfl⟩
  refine (intercept_ensures hb hsome (fun _ ho => ho) hattempts h.known h.keyed ?_).mono ?_
  · rw [hrows]
    exact List.cons_ne_nil _ _
  · rintro _ w' ⟨r, rfl, hanswered⟩
    exact h.answered hanswered

end

/-! ## Retries of the only effect -/

/-- A call of the organisation under the signature. -/
def Op.retries (S : Setup) (orgId : OrgId) (signature : CallSignature) (op : Op) : Prop :=
  ∃ call, op = .intercept call ∧ call.orgId = orgId ∧ call.signature S.hash = signature

/-- A series of retries: the first number of a call in it, their key, and the effect that
answers them. -/
structure Series where
  first : ℕ
  orgId : OrgId
  signature : CallSignature
  effectId : EffectId
  result : ToolResult
  count : ℕ

/-- The retries that have started. -/
abbrev Series.started (s : Series) (d : State S) : List ℕ :=
  retries s.first s.orgId s.signature d.trace

/-- The only row after a number of retries. -/
abbrev Series.Row (s : Series) (n : ℕ) (w : World) : Prop :=
  OnlyRow s.orgId s.signature s.effectId s.result (tally s.count n) w

variable {s : Series} {choice : Choice (system S)} {d' : State S}

theorem retries_step (htrans : Transition d choice d')
    (hother : ∀ op, choice = .start op → ¬ Op.retries S s.orgId s.signature op) :
    s.started d' = s.started d := by
  cases htrans with
  | start op =>
    refine (retries_append s.first _ _).trans ((congrArg _ ?_).trans (List.append_nil _))
    refine List.filterMap_eq_nil_iff.mpr fun event hmem => ?_
    obtain rfl := List.mem_singleton.mp hmem
    cases op with
    | intercept call => exact if_neg fun hkey => hother _ rfl ⟨call, rfl, hkey.2⟩
    | _ => rfl
  | run | finish | crash | environment =>
    rw [Series.started, retries_append,
      retries_eq_nil (List.forall_mem_singleton.mpr (by rintro _ _ ⟨⟩)), List.append_nil]

/-- Retries have started. -/
theorem lt_next_of_retry (hd : Reaches S unguarded d) (hv : v ∈ s.started d) : v < d.next := by
  obtain ⟨-, call, hstart, -⟩ := mem_retries.mp hv
  exact hd.coherent.fresh _ hstart v rfl

/-- A call that does not run is not started again. -/
theorem calls_none_step (htrans : Transition d choice d') {u : ℕ} (hlt : u < d.next)
    (hnone : d.calls u = none) : d'.calls u = none := by
  by_contra hsome
  rcases htrans.running (Option.isSome_iff_ne_none.mpr hsome) with hbefore | ⟨op, -, rfl⟩
  · rw [hnone] at hbefore
    cases hbefore
  · exact Nat.lt_irrefl _ hlt

/-- Only its own return makes a call return. -/
theorem returned_before {r : Except UndoLogError OpResult} (htrans : Transition d choice d')
    (hother : choice ≠ .finish v) (hreturned : Returned d' v r) : Returned d v r := by
  obtain ⟨event, htrace⟩ := htrans.trace
  rw [Returned, htrace] at hreturned
  rcases List.mem_snoc.mp hreturned with hold | rfl
  · exact hold
  · cases htrans with
    | finish hcall =>
      cases List.append_cancel_left htrace
      exact absurd rfl hother
    | start | run | crash | environment => cases List.append_cancel_left htrace

/-- The retries that have returned got the answers of the counter. -/
def Series.CounterAnswers (s : Series) (d : State S) : Prop :=
  ∀ i v r, (s.started d)[i]? = some v → Returned d v r →
    r = answerAt s.effectId s.result (tally s.count i)

/-- All retries have returned. -/
def Series.AllReturned (s : Series) (d : State S) : Prop :=
  (∀ v ∈ s.started d, d.calls v = none) ∧ s.Row (s.started d).length d.store

/-- The last retry is running. -/
def Series.LastRunning (s : Series) (d : State S) : Prop :=
  ∃ earlier v p, s.started d = earlier ++ [v] ∧ d.calls v = some p ∧
    (∀ u ∈ earlier, d.calls u = none) ∧
    Ensures (M := system S) (Elsewhere s.orgId s.signature) (fun o : Oracle => o.calm = true) v
      (fun r w => r = answerAt s.effectId s.result (tally s.count earlier.length) ∧
        s.Row (earlier.length + 1) w) p d.store

/-- How far the retries have come. -/
def Series.Progress (s : Series) (d : State S) : Prop :=
  s.CounterAnswers d ∧ (s.AllReturned d ∨ s.LastRunning d)

theorem not_finish_of_none (htrans : Transition d choice d') (hnone : d.calls v = none) :
    choice ≠ .finish v := by
  rintro rfl
  cases htrans with
  | finish hcall =>
    rw [hnone] at hcall
    cases hcall

theorem getElem?_snoc {l : List ℕ} {i u : ℕ} (h : (l ++ [v])[i]? = some u) :
    l[i]? = some u ∨ i = l.length ∧ u = v := by
  rcases Nat.lt_trichotomy i l.length with hlt | rfl | hgt
  · rw [List.getElem?_append_left hlt] at h
    exact .inl h
  · rw [List.getElem?_concat_length] at h
    exact .inr ⟨rfl, (Option.some.inj h).symm⟩
  · rw [List.getElem?_eq_none (by simp; omega)] at h
    cases h

theorem Series.CounterAnswers.keep (h : s.CounterAnswers d) (htrans : Transition d choice d')
    (hsame : s.started d' = s.started d) (hother : ∀ v ∈ s.started d, choice ≠ .finish v) :
    s.CounterAnswers d' := by
  intro i v r hi hr
  rw [hsame] at hi
  exact h i v r hi (returned_before htrans (hother v (List.mem_of_getElem? hi)) hr)

theorem Series.Progress.start (hd : Reaches S unguarded d) {op : Op}
    (htrans : Transition d (.start op) d')
    (hretry : Op.retries S s.orgId s.signature op) (hfirst : s.first ≤ d.next)
    (hb : S.backend = .postgres) (hattempts : 0 < S.config.lockMaxAttempts)
    (hanswers : s.CounterAnswers d) (hall : s.AllReturned d) : s.Progress d' := by
  obtain ⟨hidle, honly⟩ := hall
  obtain ⟨call, rfl, horg, hsig⟩ := hretry
  have hmore : s.started d' = s.started d ++ [d.next] := by
    rw [Series.started, htrans.trace_start, retries_append]
    simp [retries, hfirst, horg, hsig]
  constructor
  · intro i v r hi hr
    have hbefore := returned_before htrans (by rintro ⟨⟩) hr
    rw [hmore] at hi
    rcases getElem?_snoc hi with hi | ⟨-, rfl⟩
    · exact hanswers i v r hi hbefore
    · exact absurd (hd.coherent.fresh _ hbefore d.next rfl) (Nat.lt_irrefl _)
  · refine .inr ⟨_, d.next, programOf S (.intercept call), hmore, ?_, ?_, ?_⟩
    · cases htrans
      exact Function.update_self ..
    · intro u hu
      exact calls_none_step htrans (lt_next_of_retry hd hu) (hidle u hu)
    · cases htrans
      exact honly.ensures hb hattempts horg hsig d.next

theorem Series.Progress.between (hd : Reaches S unguarded d) (htrans : Transition d choice d')
    (hguard : Retrying s.first s.orgId s.signature d choice)
    (hother : ∀ op, choice = .start op → ¬ Op.retries S s.orgId s.signature op)
    (hanswers : s.CounterAnswers d) (hall : s.AllReturned d) : s.Progress d' := by
  have hsame : s.started d' = s.started d := retries_step htrans hother
  obtain ⟨hidle, honly⟩ := hall
  have hrely : Elsewhere s.orgId s.signature d.store d'.store := by
    refine elsewhere_of_step hd hguard htrans ?_
    rintro t o rfl hmem
    cases htrans with
    | run hcall hexec =>
      rw [hidle t hmem] at hcall
      cases hcall
  refine ⟨hanswers.keep htrans hsame fun v hv => not_finish_of_none htrans (hidle v hv), .inl ?_⟩
  rw [AllReturned, hsame]
  refine ⟨fun v hv => ?_, honly.amid hrely⟩
  exact calls_none_step htrans (lt_next_of_retry hd hv) (hidle v hv)

theorem Series.Progress.running (hd : Reaches S unguarded d) (htrans : Transition d choice d')
    (hguard : Retrying s.first s.orgId s.signature d choice)
    (hanswers : s.CounterAnswers d) (hlast : s.LastRunning d) : s.Progress d' := by
  obtain ⟨earlier, v, p, hsplit, hcall, hdone, hensures⟩ := hlast
  have hv : v ∈ s.started d := by
    rw [hsplit]
    exact List.mem_append_right _ (List.mem_singleton_self v)
  have hearlier : ∀ u ∈ earlier, u ∈ s.started d := by
    intro u hu
    rw [hsplit]
    exact List.mem_append_left _ hu
  have hnotin : v ∉ earlier := by
    intro hmem
    rw [hdone v hmem] at hcall
    cases hcall
  have hsame : s.started d' = s.started d := by
    refine retries_step htrans ?_
    rintro op rfl hretry
    rw [hguard hretry v hv] at hcall
    cases hcall
  have hdone' : ∀ u ∈ earlier, d'.calls u = none := fun u hu =>
    calls_none_step htrans (lt_next_of_retry hd (hearlier u hu)) (hdone u hu)
  have hown : ∀ o : Oracle, choice = .run v o → o.calm = true := by
    rintro o rfl
    simpa only [Retrying, if_pos hv] using hguard
  have hcrash : choice ≠ .crash v := by
    rintro rfl
    exact hguard hv
  have hothers : (∀ o, choice ≠ .run v o) → Elsewhere s.orgId s.signature d.store d'.store := by
    intro hne
    refine elsewhere_of_step hd hguard htrans ?_
    rintro t o rfl (hmem : t ∈ s.started d)
    rw [hsplit] at hmem
    rcases List.mem_snoc.mp hmem with hmem | rfl
    · cases htrans with
      | run hcall' hexec =>
        rw [hdone t hmem] at hcall'
        cases hcall'
    · exact hne o rfl
  rcases hensures.transition hcall htrans (lt_next_of_retry hd hv) .refl .trans hown hcrash
    hothers with ⟨p', hrunning, hcall', hensures'⟩ | ⟨r, rfl, htrace, hcall', hr, honly⟩
  · refine ⟨hanswers.keep htrans hsame ?_, .inr ⟨earlier, v, p', ?_, hcall', hdone', hensures'⟩⟩
    · intro u hu
      rw [hsplit] at hu
      rcases List.mem_snoc.mp hu with hu | rfl
      · exact not_finish_of_none htrans (hdone u hu)
      · exact hrunning
    · rw [hsame, hsplit]
  · constructor
    · intro i u r' hi hr'
      rw [hsame] at hi
      by_cases huv : u = v
      · subst huv
        rw [hsplit] at hi
        rcases getElem?_snoc hi with hi | ⟨rfl, -⟩
        · exact absurd (List.mem_of_getElem? hi) hnotin
        · rw [Returned, htrace] at hr'
          rcases List.mem_snoc.mp hr' with hold | heq
          · rw [(hd.coherent.returned u r' hold).1] at hcall
            cases hcall
          · cases heq
            exact hr
      · refine hanswers i u r' hi (returned_before htrans ?_ hr')
        rintro ⟨⟩
        exact huv rfl
    · refine .inl ⟨fun u hu => ?_, ?_⟩
      · rw [hsame, hsplit] at hu
        rcases List.mem_snoc.mp hu with hu | rfl
        · exact hdone' u hu
        · exact hcall'
      · rw [hsame, hsplit, List.length_append]
        exact honly

/-- The retries of a run keep the answers and the counter in step. -/
theorem progress (hc : Reaches S unguarded c) (hb : S.backend = .postgres)
    (hattempts : 0 < S.config.lockMaxAttempts) (hnone : s.started c = [])
    (hfirst : s.first ≤ c.next) (honly : s.Row 0 c.store)
    (hrun : Run (Retrying s.first s.orgId s.signature) c d) : s.Progress d := by
  have hall : Reaches S unguarded d ∧ s.first ≤ d.next ∧ s.Progress d := by
    induction hrun with
    | refl =>
      refine ⟨hc, hfirst, ?_, .inl ?_⟩
      · intro i v r hi
        rw [hnone] at hi
        cases hi
      · rw [Series.AllReturned, hnone]
        exact ⟨by simp, honly⟩
    | @tail d d' _ hlast ih =>
      obtain ⟨choice, hguard, hchoice⟩ := hlast
      obtain ⟨hd, hfirst, hanswers, hstate⟩ := ih
      have htrans := Transition.of_step hchoice
      have hmore : Run (Retrying s.first s.orgId s.signature) d d' :=
        .single ⟨choice, hguard, hchoice⟩
      refine ⟨hd.transition trivial htrans, hfirst.trans hmore.started.1, ?_⟩
      rcases hstate with hall | hlast
      · by_cases hretry : ∃ op, choice = .start op ∧ Op.retries S s.orgId s.signature op
        · obtain ⟨op, rfl, hretry⟩ := hretry
          exact .start hd htrans hretry hfirst hb hattempts hanswers hall
        · exact .between hd htrans hguard (fun op heq hop => hretry ⟨op, heq, hop⟩) hanswers hall
      · exact .running hd htrans hguard hanswers hlast
  exact hall.2.2

/-- The retries of a run get the answers of the counter. -/
theorem counter_answers (hc : Reaches S unguarded c) (hb : S.backend = .postgres)
    (hattempts : 0 < S.config.lockMaxAttempts)
    (honly : OnlyRow orgId signature effectId result count c.store)
    (hrun : Run (Retrying c.next orgId signature) c d) {i : ℕ} {r : Except UndoLogError OpResult}
    (hv : (retries c.next orgId signature d.trace)[i]? = some v) (hr : Returned d v r) :
    r = answerAt effectId result (tally count i) :=
  (progress (s := ⟨_, _, _, _, _, _⟩) hc hb hattempts (retries_next hc) le_rfl honly hrun).1
    i v r hv hr

/-! ## There are as many retries as one likes -/

theorem Answered.ids (h : Answered allowed orgId signature w r w') :
    (underSignature orgId signature w').map (·.effectId) =
      (underSignature orgId signature w).map (·.effectId) := by
  obtain ⟨o, row, -, -, -, hcounted⟩ := h.row
  unfold CountedIn at hcounted
  split at hcounted
  · obtain ⟨now, hrows⟩ := hcounted
    rw [hrows]
    exact map_updateWhere fun _ => rfl
  · rw [hcounted]

section

variable {first : ℕ} (horg : call.orgId = orgId) (hsig : call.signature S.hash = signature)
  (hb : S.backend = .postgres) (hattempts : 0 < S.config.lockMaxAttempts)
include horg hsig hb hattempts

theorem exists_retry (hsome : ∃ o, allowed o) (hcalm : ∀ o, allowed o → o.calm = true)
    (hd : Reaches S unguarded d) (hfirst : first ≤ d.next) (hknown : orgId ∈ (dbOf d).orgs)
    (hlogged : underSignature orgId signature d.store ≠ [])
    (hidle : ∀ v ∈ retries first orgId signature d.trace, d.calls v = none) :
    ∃ d' r, Run (Retrying first orgId signature) d d' ∧
      retries first orgId signature d'.trace =
        retries first orgId signature d.trace ++ [d.next] ∧
      (∀ v ∈ retries first orgId signature d'.trace, d'.calls v = none) ∧
      Returned d' d.next (r.map OpResult.intercepted) ∧
      Answered allowed orgId signature d.store r d'.store := by
  have hensures : Ensures (M := system S) (Elsewhere orgId signature) allowed d.next
      (fun r w' => ∃ r', r = r'.map OpResult.intercepted ∧
        Answered allowed orgId signature d.store r' w')
        (programOf S (.intercept call)) d.store := by
    subst horg hsig
    exact intercept_ensures hb hsome hcalm hattempts hknown (effects_keyed hd) hlogged
  obtain ⟨oracles, _, w', hallowed, hsolo, r, rfl, hanswered⟩ := hensures.exists_solo .refl
  have hown : ∀ e : State S, .started d.next (.intercept call) ∈ e.trace → ∀ o ∈ oracles,
      Retrying first orgId signature e (.run d.next o) := by
    intro e hstarted o ho
    have hmem : d.next ∈ retries first orgId signature e.trace :=
      mem_retries.mpr ⟨hfirst, call, hstarted, horg, hsig⟩
    simpa only [Retrying, if_pos hmem] using hcalm o (hallowed o ho)
  obtain ⟨d', ran, hrun, rfl, -, hcalls, htrace, hran⟩ :=
    exists_call_within hsolo (fun _ => hidle) hown fun _ => trivial
  have hmore : retries first orgId signature d'.trace =
      retries first orgId signature d.trace ++ [d.next] := by
    have hnone : retries first orgId signature
        (ran ++ [Event.returned d.next (r.map OpResult.intercepted)]) = [] := by
      refine retries_eq_nil fun event hmem => ?_
      rcases List.mem_snoc.mp hmem with hmem | rfl
      · obtain ⟨st, reply, rfl⟩ := hran event hmem
        rintro _ _ ⟨⟩
      · rintro _ _ ⟨⟩
    have hone : retries first orgId signature
        [Event.started (M := system S) d.next (.intercept call)] = [d.next] := by
      simp [retries, hfirst, horg, hsig]
    refine (congrArg _ htrace).trans ((retries_append first d.trace _).trans (congrArg (_ ++ ·) ?_))
    exact (retries_append first [_] _).trans (congrArg₂ (· ++ ·) hone hnone)
  refine ⟨d', r, hrun, hmore, fun v hv => ?_, ?_, hanswered⟩
  · rw [hcalls]
    by_cases hv' : v = d.next
    · subst hv'
      exact Function.update_self ..
    · rw [Function.update_of_ne hv']
      rw [hmore] at hv
      rcases List.mem_append.mp hv with hv | hv
      · exact hidle v hv
      · exact absurd (List.mem_singleton.mp hv) hv'
  · rw [Returned, htrace]
    refine List.mem_append_right _ (List.mem_cons_of_mem _ ?_)
    exact List.mem_concat_self

theorem exists_retries (hc : Reaches S unguarded c) (hknown : orgId ∈ (dbOf c).orgs)
    (hlogged : underSignature orgId signature c.store ≠ []) (n : ℕ) :
    ∃ d, Run (Retrying c.next orgId signature) c d ∧
      (retries c.next orgId signature d.trace).length = n ∧
      (∀ v ∈ retries c.next orgId signature d.trace,
        d.calls v = none ∧ ∃ r, Returned d v r) ∧ orgId ∈ (dbOf d).orgs ∧
      (underSignature orgId signature d.store).map (·.effectId) =
        (underSignature orgId signature c.store).map (·.effectId) := by
  induction n with
  | zero =>
    have hnone : retries c.next orgId signature c.trace = [] :=
      retries_next hc
    refine ⟨c, .refl, by rw [hnone]; rfl, ?_, hknown, rfl⟩
    rw [hnone]
    exact fun v hv => by cases hv
  | succ n ih =>
    obtain ⟨d, hrun, hlength, hidle, hknown', hids⟩ := ih
    have hd : Reaches S unguarded d := hc.run (hrun.mono fun _ _ _ => trivial)
    have hlogged' : underSignature orgId signature d.store ≠ [] := by
      intro hempty
      rw [hempty] at hids
      exact hlogged (List.map_eq_nil_iff.mp hids.symm)
    have hsome : ∃ o : Oracle, (fun o : Oracle => o.calm = true) o := ⟨{}, rfl⟩
    obtain ⟨d', r, hrun', hmore, hidle', hreturned, hanswered⟩ := exists_retry horg hsig hb
      hattempts hsome (fun _ ho => ho) hd hrun.started.1 hknown' hlogged' fun v hv => (hidle v hv).1
    refine ⟨d', hrun.trans hrun', ?_, fun v hv => ⟨hidle' v hv, ?_⟩, ?_, hanswered.ids.trans hids⟩
    · rw [hmore, List.length_append, hlength]
      rfl
    · rw [hmore] at hv
      rcases List.mem_snoc.mp hv with hv | rfl
      · obtain ⟨-, r', hr'⟩ := hidle v hv
        exact ⟨r', hrun'.trace.subset hr'⟩
      · exact ⟨_, hreturned⟩
    · have horgs : (dbOf d').orgs = (dbOf d).orgs := hanswered.orgs
      rw [horgs]
      exact hknown'

end

theorem effectId_of_replayOf {row : EffectRow} {result : Option ToolResult}
    (h : (replayOf row).map OpResult.intercepted = .ok (.intercepted (.replay effectId result))) :
    row.effectId = effectId := by
  unfold replayOf at h
  split at h
  · cases h
  · next record hmap =>
    split at h
    · cases h
    · cases h
      exact (mapEffectRow_effectId hmap).symm

/-! ## Committed effects -/

theorem committed_row (hc : Reaches S unguarded c) {u : ℕ} {rows : ℕ × Bool}
    (hcommit : Succeeded c u (.commitRows orgId effectId result) rows) (hmet : 0 < rows.1) :
    ∃ row ∈ (dbOf c).effects, row.effectId = effectId ∧ Settled c row ∧
      row.resultSnapshot = some result.toValue := by
  refine hcommit.since hc ?_ ?_
  · intro c c' o hc _ htrans hquery
    obtain ⟨row, hrow, hin⟩ := met_of_rows hquery.tx hmet
    obtain ⟨⟨hid, -⟩, -⟩ := ofEffectIn_iff.mp hin
    have hafter := hquery.effect_after hrow
    have hsettled := settled_of_met hc htrans hrow hin
      ((Query.commitRows orgId effectId result).effectChange (dbOf c).now row).core
      (by rw [Query.effectAfter, updateRow_of_pos hin]; simp)
    rw [Query.effectAfter, updateRow_of_pos hin] at hafter hsettled
    exact ⟨_, hafter, hid, hsettled, rfl⟩
  · rintro c choice c' hc _ htrans ⟨row, hrow, hid, hsettled, hresult⟩
    obtain ⟨row', hrow', hcore, hsettled', hresult'⟩ := hsettled.step hc hrow htrans
    exact ⟨row', hrow', (core_effectId hcore).trans hid, hsettled', hresult'.trans hresult⟩

section Committed

variable {row : EffectRow} {u : ℕ} {rows : ℕ × Bool} (hb : S.backend = .postgres)
  (hc : Reaches S unguarded c) (hrow : row ∈ (dbOf c).effects)
  (hcommit : Succeeded c u (.commitRows row.orgId row.effectId result) rows) (hmet : 0 < rows.1)

include hb hc hrow

/-- A logged effect was inserted by a call under its signature, with attempts at the lock. -/
theorem exists_call_of_row : 0 < S.config.lockMaxAttempts ∧
    ∃ call : ToolCall, call.orgId = row.orgId ∧ call.signature S.hash = row.callSignature := by
  obtain ⟨t, ins, hins, hof⟩ := insertion_of_row hc hrow
  obtain ⟨-, hsig, -⟩ := insertion_call hc hins
  refine ⟨attempts_pos_of_insertion hc hins hb, ins.call, hof.orgId.symm, ?_⟩
  rw [hof.callSignature, hsig]

include hcommit hmet

/-- The organisation of a committed effect exists, and the result is on record. -/
theorem committed_facts : row.orgId ∈ (dbOf c).orgs ∧ row.resultSnapshot = some result.toValue := by
  obtain ⟨row', hrow', hid, hsettled, hresult⟩ := committed_row hc hcommit hmet
  obtain rfl := (effects_keyed hc).eq hrow' hrow hid
  exact ⟨org_of_released hb hc hrow hsettled.released, hresult⟩

variable {n : ℕ}

section Alone

variable (honly : ∀ other ∈ (dbOf c).effects, other.orgId = row.orgId →
  other.callSignature = row.callSignature → other = row)

include honly

/-- A committed effect that is alone under its signature. -/
theorem onlyRow_of_unique :
    OnlyRow row.orgId row.callSignature row.effectId result row.replayCount c.store := by
  obtain ⟨hknown, hresult⟩ := committed_facts hb hc hrow hcommit hmet
  refine ⟨⟨row, ?_, rfl, hresult, rfl⟩, hknown, effects_keyed hc⟩
  have hmem : row ∈ underSignature row.orgId row.callSignature c.store :=
    List.mem_filter.mpr ⟨hrow, by simp⟩
  have hall : ∀ other ∈ underSignature row.orgId row.callSignature c.store, other = row := by
    intro other hother
    obtain ⟨hother, hkey⟩ := List.mem_filter.mp hother
    obtain ⟨hsig, horg⟩ := of_decide_eq_true hkey
    exact honly other hother horg hsig
  have hnodup : (underSignature row.orgId row.callSignature c.store).Nodup :=
    ((effects_keyed hc).of_map).filter _
  cases hrows : underSignature row.orgId row.callSignature c.store with
  | nil =>
    rw [hrows] at hmem
    cases hmem
  | cons first rest =>
    rw [hrows] at hall hnodup
    obtain ⟨rfl, hrest⟩ := List.forall_mem_cons.mp hall
    have hnil : rest = [] := List.eq_nil_iff_forall_not_mem.mpr fun other hother =>
      (List.nodup_cons.mp hnodup).1 (hrest other hother ▸ hother)
    rw [hnil]

/-- There is an `n`-th retry of an effect that is alone, and it gets the answer of the
counter. -/
theorem exists_nth_answer (hn : 1 ≤ n) :
    ∃ d v, Run (Retrying c.next row.orgId row.callSignature) c d ∧
      (retries c.next row.orgId row.callSignature d.trace)[n - 1]? = some v ∧
      Returned d v (answerAt row.effectId result (tally row.replayCount (n - 1))) := by
  have honlyRow := onlyRow_of_unique hb hc hrow hcommit hmet honly
  obtain ⟨hattempts, call, horg, hsig⟩ := exists_call_of_row hb hc hrow
  have hlogged : underSignature row.orgId row.callSignature c.store ≠ [] := by
    obtain ⟨row', hrows, -⟩ := honlyRow.row
    rw [hrows]
    exact List.cons_ne_nil _ _
  obtain ⟨d, hrun, hlength, hdone, -⟩ :=
    exists_retries horg hsig hb hattempts hc honlyRow.known hlogged n
  have hlast : n - 1 < (retries c.next row.orgId row.callSignature d.trace).length := by omega
  have hv := List.getElem?_eq_getElem hlast
  obtain ⟨-, r, hr⟩ := hdone _ (List.getElem_mem hlast)
  rw [counter_answers hc hb hattempts honlyRow hrun hv hr] at hr
  exact ⟨d, _, hrun, hv, hr⟩

theorem nthAnswer_of_room (hn : 1 ≤ n) (hroom : row.replayCount + n ≤ smallintMax) :
    NthAnswer c row.orgId row.callSignature n
      (.ok (.intercepted (.replay row.effectId (some result)))) := by
  have honlyRow := onlyRow_of_unique hb hc hrow hcommit hmet honly
  obtain ⟨hattempts, -⟩ := exists_call_of_row hb hc hrow
  constructor
  · obtain ⟨d, v, hrun, hv, hr⟩ := exists_nth_answer hb hc hrow hcommit hmet honly hn
    exact ⟨d, v, _, hrun, hv, hr⟩
  · intro d v r hrun hv hr
    rw [counter_answers hc hb hattempts honlyRow hrun hv hr, answerAt,
      if_pos ((tally_lt_iff _ _).mpr (by omega))]

end Alone

/-- When the `n`-th retry is always answered with the result, the effect is alone under its
signature. -/
theorem unique_of_nthAnswer (h : NthAnswer c row.orgId row.callSignature n
      (.ok (.intercepted (.replay row.effectId (some result))))) :
    ∀ other ∈ (dbOf c).effects, other.orgId = row.orgId →
      other.callSignature = row.callSignature → other = row := by
  intro other hother horg' hsig'
  by_contra hne
  have hids : other.effectId ≠ row.effectId := fun h => hne ((effects_keyed hc).eq hother hrow h)
  obtain ⟨hknown, -⟩ := committed_facts hb hc hrow hcommit hmet
  obtain ⟨hattempts, call, horg, hsig⟩ := exists_call_of_row hb hc hrow
  have hmem : other ∈ underSignature row.orgId row.callSignature c.store :=
    List.mem_filter.mpr ⟨hother, decide_eq_true ⟨hsig', horg'⟩⟩
  obtain ⟨d, hrun, hlength, hdone, hknown', hsame⟩ := exists_retries horg hsig hb hattempts hc
    hknown (List.ne_nil_of_mem hmem) (n - 1)
  have hd : Reaches S unguarded d := hc.run (hrun.mono fun _ _ _ => trivial)
  -- the last lookup meets the other row
  obtain ⟨i, hi, hother'⟩ := List.getElem_of_mem hmem
  have hlength' := congrArg List.length hsame
  simp only [List.length_map] at hlength'
  have hlogged' : underSignature row.orgId row.callSignature d.store ≠ [] := by
    intro hempty
    rw [hempty] at hlength'
    simp at hlength'
    omega
  have hsome : ∃ o : Oracle, (fun o : Oracle => o.calm = true ∧ o.pick = i) o :=
    ⟨{ pick := i }, rfl, rfl⟩
  obtain ⟨d', r, hrun', hmore, -, hreturned, hanswered⟩ := exists_retry horg hsig hb hattempts
    hsome (fun o ho => ho.1) hd hrun.started.1 hknown' hlogged' fun v hv => (hdone v hv).1
  obtain ⟨o, row', ⟨-, rfl⟩, hpick, rfl, -⟩ := hanswered.row
  have hid : row'.effectId = other.effectId := by
    rw [limitOne, Nat.mod_eq_of_lt (by omega)] at hpick
    have hsame' := congrArg (·[o.pick]?) hsame
    simp only [List.getElem?_map, hpick, List.getElem?_eq_getElem hi, hother'] at hsame'
    exact Option.some.inj hsame'
  have hnth : (retries c.next row.orgId row.callSignature d'.trace)[n - 1]? = some d.next := by
    rw [hmore, ← hlength]
    exact List.getElem?_concat_length
  have hanswer := h.answer d' d.next _ (hrun.trans hrun') hnth hreturned
  rw [effectId_of_replayOf hanswer] at hid
  exact hids hid.symm

theorem room_of_nthAnswer (hn : 1 ≤ n) (h : NthAnswer c row.orgId row.callSignature n
      (.ok (.intercepted (.replay row.effectId (some result))))) :
    row.replayCount + n ≤ smallintMax := by
  have honlyRow := onlyRow_of_unique hb hc hrow hcommit hmet
    (unique_of_nthAnswer hb hc hrow hcommit hmet h)
  obtain ⟨hattempts, -⟩ := exists_call_of_row hb hc hrow
  obtain ⟨d, v, r, hrun, hv, hr⟩ := h.returns
  have hfull := counter_answers hc hb hattempts honlyRow hrun hv hr
  rw [h.answer d v r hrun hv hr, answerAt] at hfull
  by_contra hroom
  rw [if_neg fun hlt => hroom (by have := (tally_lt_iff _ _).mp hlt; omega)] at hfull
  cases hfull

/-- The `n`-th of any number of consecutive retries of a committed call is answered with its
effect and its result exactly if no other effect of the organisation has the signature and the
counter of the row has room for `n` more replays. -/
theorem replays_iff_room {n : ℕ} (hn : 1 ≤ n) : NthAnswer c row.orgId row.callSignature n
        (.ok (.intercepted (.replay row.effectId (some result)))) ↔
      (∀ other ∈ (dbOf c).effects, other.orgId = row.orgId →
        other.callSignature = row.callSignature → other = row) ∧
      row.replayCount + n ≤ smallintMax := by
  constructor
  · intro h
    exact ⟨unique_of_nthAnswer hb hc hrow hcommit hmet h,
      room_of_nthAnswer hb hc hrow hcommit hmet hn h⟩
  · rintro ⟨honly, hroom⟩
    exact nthAnswer_of_room hb hc hrow hcommit hmet honly hn hroom

end Committed

/-- Whether a commit has met the effect with number 10. -/
def commitTest (c : State S) : Bool :=
  c.trace.any fun
    | .ran 1 (.db (.commitRows orgId effectId _)) (.ok rows) =>
      orgId = sampleOrg ∧ effectId = ⟨10⟩ ∧ 0 < rows.1
    | _ => false

theorem exists_committedCall :
    ∃ (c : State (sample .postgres)) (row : EffectRow) (result : ToolResult) (rows : ℕ × Bool),
      Reaches (sample .postgres) unguarded c ∧ row ∈ (dbOf c).effects ∧
      (∀ other ∈ (dbOf c).effects, other = row) ∧ row.replayCount = 0 ∧
      Succeeded c 1 (.commitRows row.orgId row.effectId result) rows ∧ 0 < rows.1 := by
  obtain ⟨c, hc, htest⟩ := exists_sample unguarded 1780271999 (.compensable sampleCompensation)
    committedCall (fun c =>
        commitTest c && ((dbOf c).effects.map fun row =>
          (row.orgId, row.effectId, row.replayCount)) = [(sampleOrg, ⟨10⟩, 0)]) (by decide +kernel)
  obtain ⟨hcommitted, hrows⟩ := Bool.and_eq_true_iff.mp htest
  obtain ⟨event, hran, htest⟩ := List.any_eq_true.mp hcommitted
  obtain ⟨row, hone, hrow⟩ := List.map_eq_singleton_iff.mp (of_decide_eq_true hrows)
  obtain ⟨horg, hid, hcount⟩ :
      row.orgId = sampleOrg ∧ row.effectId = ⟨10⟩ ∧ row.replayCount = 0 := by
    simpa using hrow
  split at htest
  · next orgId effectId result rows =>
    obtain ⟨rfl, rfl, hmet⟩ := of_decide_eq_true htest
    rw [← horg, ← hid] at hran
    refine ⟨c, row, result, rows, hc, ?_, ?_, hcount, hran, hmet⟩ <;> simp [hone]
  · cases htest

/-- The first 32767 retries of the call are answered. -/
theorem committedCall_replays :
    ∃ (c : State (sample .postgres)) (row : EffectRow) (result : ToolResult),
      row ∈ (dbOf c).effects ∧ ∀ n, 1 ≤ n → n ≤ 32767 → NthAnswer c row.orgId row.callSignature n
          (.ok (.intercepted (.replay row.effectId (some result)))) := by
  obtain ⟨c, row, result, rows, hc, hrow, honly, hcount, hran, hmet⟩ := exists_committedCall
  refine ⟨c, row, result, hrow, fun n hn hle => ?_⟩
  refine (replays_iff_room rfl hc hrow hran hmet hn).mpr
    ⟨fun other hother _ _ => honly other hother, ?_⟩
  rw [hcount, smallintMax]
  omega

/-- The 32768-th consecutive retry of a committed call ends with a database error. -/
theorem replay_fails_when_full :
    ∃ (c d : State (sample .postgres)) (row : EffectRow) (result : ToolResult) (rows : ℕ × Bool)
      (v : ℕ), Reaches (sample .postgres) unguarded c ∧ row ∈ (dbOf c).effects ∧
      Succeeded c 1 (.commitRows row.orgId row.effectId result) rows ∧ 0 < rows.1 ∧
      Run (Retrying c.next row.orgId row.callSignature) c d ∧
      (retries c.next row.orgId row.callSignature d.trace)[32768 - 1]? = some v ∧
      Returned d v (.error .database) := by
  obtain ⟨c, row, result, rows, hc, hrow, honly, hcount, hran, hmet⟩ := exists_committedCall
  obtain ⟨d, v, hrun, hv, hr⟩ := exists_nth_answer rfl hc hrow hran hmet
    (fun other hother _ _ => honly other hother) (show 1 ≤ 32768 by decide)
  have hfull : ¬ tally row.replayCount (32768 - 1) < smallintMax := by
    rw [tally_lt_iff, smallintMax]
    omega
  rw [answerAt, if_neg hfull] at hr
  exact ⟨c, d, row, result, rows, v, hc, hrow, hran, hmet, hrun, hv, hr⟩

end UndoLog
