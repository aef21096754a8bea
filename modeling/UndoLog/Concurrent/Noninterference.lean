import Mathlib.Data.List.Forall2
import UndoLog.Concurrent.History

/-!
# Noninterference between the calls of a shared store

Some calls of a machine are ours and the others belong to strangers. Two schedules agree on
our part when our calls start in the same order, take the same turns and read the same values
from outside. The rule below says when our calls cannot tell two such runs apart.
-/

namespace Concurrent.Machine

variable {M : Machine} {choice : Choice M} {c c' : Config M}

/-! ## Schedules of turns -/

/-- One turn of a schedule. It is a step, except that a call which has run all its statements
and has not returned yet lets its turns pass. -/
def turn (c : Config M) : Choice M → Option (Config M)
  | .run t o =>
    match c.calls t with
    | some (.done _) => some c
    | _ => step c (.run t o)
  | choice => step c choice

/-- Play a schedule of turns, each of which has to meet the guard. -/
def play (guard : Guard M) [∀ c choice, Decidable (guard c choice)] :
    Config M → List (Choice M) → Option (Config M)
  | c, [] => some c
  | c, choice :: rest =>
    if guard c choice then (turn c choice).bind fun c' => play guard c' rest else none

/-- A turn is a step, or it passes. -/
theorem turn_cases (h : turn c choice = some c') :
    Transition c choice c' ∨ ∃ t o r, choice = .run t o ∧ c.calls t = some (.done r) ∧ c' = c := by
  cases choice with
  | run t o =>
    simp only [turn] at h
    split at h
    · next r hcall => exact .inr ⟨t, o, r, rfl, hcall, (Option.some.inj h).symm⟩
    · exact .inl (.of_step h)
  | start | finish | crash | environment => exact .inl (.of_step h)

variable {t u : ℕ} {choices : List (Choice M)} {op : M.Op} {rest : List (Choice M)}
  {event : M.Event} {o : M.Oracle}

section Play

variable {init : M.Store → Prop} {guard : Guard M}

/-- A turn that meets the guard stays within the reachable configurations. -/
theorem Reachable.turn (hc : Reachable init guard c)
    (hguard : guard c choice) (h : Machine.turn c choice = some c') : Reachable init guard c' := by
  rcases turn_cases h with htrans | ⟨t, o, r, -, -, rfl⟩
  · exact hc.transition hguard htrans
  · exact hc

variable [∀ c choice, Decidable (guard c choice)]

theorem play_cons (h : play guard c (choice :: rest) = some c') :
    ∃ d, guard c choice ∧ turn c choice = some d ∧ play guard d rest = some c' := by
  rw [play] at h
  split at h
  · next hguard =>
    obtain ⟨d, hturn, hrest⟩ := Option.bind_eq_some_iff.mp h
    exact ⟨d, hguard, hturn, hrest⟩
  · cases h

/-- A condition that every choice of a schedule meets may be added to the guard. -/
theorem play_and {P : Choice M → Prop} [∀ choice, Decidable (P choice)]
    (h : play guard c choices = some c') (hP : ∀ choice ∈ choices, P choice) :
    play (fun c choice => guard c choice ∧ P choice) c choices = some c' := by
  induction choices generalizing c with
  | nil => exact h
  | cons choice rest ih =>
    obtain ⟨d, hguard, hturn, hrest⟩ := play_cons h
    rw [play, if_pos ⟨hguard, hP choice List.mem_cons_self⟩, hturn, Option.bind_some]
    exact ih hrest fun choice hmem => hP choice (List.mem_cons_of_mem _ hmem)

end Play

/-! ## Our calls -/

variable (mine : M.Op → Bool)

/-- The numbers of our calls, in the order in which they started. -/
def ours (trace : List M.Event) : List ℕ :=
  trace.filterMap fun
    | .started t op => if mine op then some t else none
    | _ => none

/-- What a call has returned. -/
def resultOf (t : ℕ) (trace : List M.Event) : Option (Except M.Err M.Result) :=
  trace.findSome? fun
    | .returned u r => if u = t then some r else none
    | _ => none

/-- How far a call has come: what is left of its program, and its result. -/
def status (c : Config M) (t : ℕ) : Option M.Prog × Option (Except M.Err M.Result) :=
  (c.calls t, resultOf t c.trace)

/-- How far our calls have come. -/
def statuses (c : Config M) : List (Option M.Prog × Option (Except M.Err M.Result)) :=
  (ours mine c.trace).map (status c)

/-- The results of our calls, in the order in which they started. -/
def outcomes (c : Config M) : List (Option (Except M.Err M.Result)) :=
  (ours mine c.trace).map fun t => resultOf t c.trace

section Ours

variable {mine : M.Op → Bool} {trace : List M.Event}

theorem mem_ours : t ∈ ours mine trace ↔ ∃ op, .started t op ∈ trace ∧ mine op = true := by
  simp only [ours, List.mem_filterMap]
  constructor
  · rintro ⟨event, hevent, hsome⟩
    cases event with
    | started u op =>
      dsimp only at hsome
      split at hsome
      · next hmine =>
        cases hsome
        exact ⟨op, hevent, hmine⟩
      · cases hsome
    | _ => cases hsome
  · rintro ⟨op, hstart, hmine⟩
    exact ⟨_, hstart, if_pos hmine⟩

theorem ours_start (t : ℕ) (hmine : mine op = true) :
    ours mine (trace ++ [.started t op]) = ours mine trace ++ [t] := by
  simp [ours, hmine]

/-- Only the start of one of our calls adds to them. -/
theorem ours_snoc (h : ∀ t op, event = .started t op → mine op = false) :
    ours mine (trace ++ [event]) = ours mine trace := by
  cases event with
  | started t op => simp [ours, h t op rfl]
  | _ => simp [ours]

theorem resultOf_returned (t : ℕ) (r : Except M.Err M.Result) :
    resultOf t (trace ++ [.returned t r]) = (resultOf t trace).or (some r) := by
  simp [resultOf, List.findSome?_append]

/-- Only the return of a call gives it a result. -/
theorem resultOf_snoc (h : ∀ r, event ≠ .returned t r) :
    resultOf t (trace ++ [event]) = resultOf t trace := by
  cases event with
  | returned u r =>
    have hne : u ≠ t := by
      rintro rfl
      exact h r rfl
    simp [resultOf, List.findSome?_append, hne]
  | _ => simp [resultOf, List.findSome?_append]

variable {c : Config M}

/-- Our calls have started before the next call does. -/
theorem Coherent.ours_lt (hc : Coherent c) (ht : t ∈ ours mine c.trace) : t < c.next := by
  obtain ⟨op, hstart, -⟩ := mem_ours.mp ht
  exact hc.fresh _ hstart t rfl

/-- No two of our calls have one number. -/
theorem Reachable.ours_nodup {init : M.Store → Prop} {guard : Guard M}
    (hc : Reachable init guard c) : (ours mine c.trace).Nodup := by
  refine hc.invariant (fun _ _ => List.nodup_nil) ?_
  intro c choice c' hc ih _ htrans
  cases htrans with
  | start op =>
    cases hmine : mine op with
    | true =>
      rw [ours_start _ hmine]
      refine List.nodup_append.mpr ⟨ih, by simp, ?_⟩
      rintro u hu v hv rfl
      exact Nat.ne_of_lt (hc.coherent.ours_lt hu) (List.mem_singleton.mp hv)
    | false =>
      rw [ours_snoc (by simp [hmine])]
      exact ih
  | run | finish | crash | environment =>
    rw [ours_snoc (by simp)]
    exact ih

end Ours

/-! ## Our part of a schedule -/

/-- A choice as we see it: our calls are numbered in the order in which they started, and what
strangers do is not seen. -/
def seen (own : List ℕ) : Choice M → Option (Choice M)
  | .start op => if mine op then some (.start op) else none
  | .run t o => (own.idxOf? t).map fun i => .run i o
  | .finish t => (own.idxOf? t).map fun i => .finish i
  | .crash t => (own.idxOf? t).map fun i => .crash i
  | .environment e => some (.environment e)

section Seen

variable {mine : M.Op → Bool} {own : List ℕ} {choice : Choice M} {i : ℕ}

theorem getElem?_of_idxOf? (h : own.idxOf? t = some i) : own[i]? = some t := by
  obtain ⟨hlt, heq, -⟩ := List.idxOf?_eq_some_iff.mp h
  exact List.getElem?_eq_some_iff.mpr ⟨hlt, heq⟩

/-- What we see of a choice tells the choice, up to the number of its call. -/
theorem seen_cases {x : Choice M} (h : seen mine own choice = some x) :
    match x with
    | .start op => choice = .start op ∧ mine op = true
    | .run i o => ∃ t, choice = .run t o ∧ own[i]? = some t
    | .finish i => ∃ t, choice = .finish t ∧ own[i]? = some t
    | .crash i => ∃ t, choice = .crash t ∧ own[i]? = some t
    | .environment e => choice = .environment e := by
  cases choice with
  | start op =>
    simp only [seen] at h
    split at h
    · next hmine =>
      cases h
      exact ⟨rfl, hmine⟩
    · cases h
  | run t | finish t | crash t =>
    obtain ⟨i, hi, rfl⟩ := Option.map_eq_some_iff.mp h
    exact ⟨t, rfl, getElem?_of_idxOf? hi⟩
  | environment e =>
    cases h
    rfl

end Seen

/-- Our part of a schedule that begins with a call number and with some calls of ours. -/
def partFrom : ℕ → List ℕ → List (Choice M) → List (Choice M)
  | _, _, [] => []
  | next, own, .start op :: rest =>
    if mine op then .start op :: partFrom (next + 1) (own ++ [next]) rest
    else partFrom (next + 1) own rest
  | next, own, choice :: rest => (seen mine own choice).toList ++ partFrom next own rest

/-- Our part of a schedule. -/
def part (choices : List (Choice M)) : List (Choice M) :=
  partFrom mine 0 [] choices

/-- Our part of what is scheduled after a configuration. -/
def partAfter (c : Config M) (choices : List (Choice M)) : List (Choice M) :=
  partFrom mine c.next (ours mine c.trace) choices

/-- The first turn of a schedule contributes what we see of it. -/
theorem partAfter_cons {mine : M.Op → Bool}
    (h : turn c choice = some c') : partAfter mine c (choice :: rest) =
      (seen mine (ours mine c.trace) choice).toList ++ partAfter mine c' rest := by
  have hquiet : ∀ (first : List (Choice M)) (d : Config M) (event : M.Event),
      d.next = c.next → d.trace = c.trace ++ [event] → (∀ t op, event ≠ .started t op) →
      first ++ partFrom mine c.next (ours mine c.trace) rest =
        first ++ partAfter mine d rest := by
    intro first d event hnext htrace hevent
    rw [partAfter, hnext, htrace, ours_snoc]
    exact fun t op heq => absurd heq (hevent t op)
  rcases turn_cases h with htrans | ⟨t, o, r, rfl, -, rfl⟩
  · cases htrans with
    | start op =>
      simp only [partAfter, partFrom, seen]
      split
      · next hmine => rw [ours_start _ hmine, Option.toList_some, List.singleton_append]
      · next hmine =>
        rw [ours_snoc, Option.toList_none, List.nil_append]
        rintro t op' ⟨⟩
        simpa using hmine
    | run | finish | crash | environment => exact hquiet _ _ _ rfl rfl (by simp)
  · rfl

/-! ## Unwinding -/

/-- What makes our calls unable to tell two runs apart: relations on stores and on programs that our
statements keep, and that strangers cannot break. -/
structure Unwinding (mine : M.Op → Bool) (init : M.Store → Prop) (guard : Guard M) where
  /-- The stores look alike to our calls. -/
  View : M.Store → M.Store → Prop
  /-- The programs go on alike when they are answered alike. -/
  Alike : M.Prog → M.Prog → Prop
  view_symm : ∀ {s s'}, View s s' → View s' s
  alike_symm : ∀ {p p'}, Alike p p' → Alike p' p
  initial : ∀ {s}, init s → View s s
  program : ∀ {c op}, guard c (.start op) → mine op = true →
    Alike (M.program op) (M.program op)
  /-- Programs that have ended alike have the same result. -/
  done : ∀ {r p}, Alike (.done r) p → p = .done r
  /-- One statement of ours in both runs. -/
  run : ∀ {c c' : Config M} {t t' : ℕ} {o : M.Oracle} {st st' : M.Stmt}
    {next : Except M.Err (M.Ret st) → M.Prog} {next' : Except M.Err (M.Ret st') → M.Prog}
    {reply : Except M.Err (M.Ret st)} {reply' : Except M.Err (M.Ret st')} {s s' : M.Store},
    Reachable init guard c → Reachable init guard c' →
    guard c (.run t o) → guard c' (.run t' o) →
    t ∈ ours mine c.trace → t' ∈ ours mine c'.trace →
    c.calls t = some (.call st next) → c'.calls t' = some (.call st' next') →
    View c.store c'.store → Alike (.call st next) (.call st' next') →
    M.exec t o st c.store = some (reply, s) → M.exec t' o st' c'.store = some (reply', s') →
    View s s' ∧ Alike (next reply) (next' reply')
  /-- One statement of a stranger. -/
  stranger : ∀ {c : Config M} {t : ℕ} {o : M.Oracle} {st : M.Stmt}
    {next : Except M.Err (M.Ret st) → M.Prog} {reply : Except M.Err (M.Ret st)} {s s' : M.Store},
    Reachable init guard c → guard c (.run t o) → t ∉ ours mine c.trace →
    c.calls t = some (.call st next) → M.exec t o st c.store = some (reply, s) →
    View c.store s' → View s s'
  /-- A call that disappears leaves nothing that we could see. -/
  abort : ∀ {s s'} (t : ℕ), View s s' → View (M.abort t s) s'
  environment : ∀ {s s' s₁ s₁'} {e : M.Env}, View s s' → M.environment e s = some s₁ →
    M.environment e s' = some s₁' → View s₁ s₁'

namespace Unwinding

variable {mine : M.Op → Bool} {init : M.Store → Prop} {guard : Guard M}
  (U : Unwinding mine init guard) {c c' d d' : Config M}

/-- Two calls have got equally far. -/
structure Abreast (x y : Option M.Prog × Option (Except M.Err M.Result)) : Prop where
  running : Option.Rel U.Alike x.1 y.1
  result : x.2 = y.2

/-- Our calls cannot tell two configurations apart. -/
structure Matched (c d : Config M) : Prop where
  view : U.View c.store d.store
  calls : List.Forall₂ U.Abreast (statuses mine c) (statuses mine d)

variable {U} {i : ℕ}

theorem Matched.symm (h : U.Matched c d) : U.Matched d c where
  view := U.view_symm h.view
  calls := by
    refine h.calls.flip.imp ?_
    rintro ⟨p, r⟩ ⟨q, r'⟩ ⟨hrunning, hresult⟩
    refine ⟨?_, hresult.symm⟩
    cases hrunning with
    | some halike => exact .some (U.alike_symm halike)
    | none => exact .none

/-- A running call has a running counterpart. -/
theorem Abreast.alike (h : U.Abreast (status c t) (status d u)) {p : M.Prog}
    (hcall : c.calls t = some p) : ∃ q, d.calls u = some q ∧ U.Alike p q := by
  have hrunning : Option.Rel U.Alike (c.calls t) (d.calls u) := h.running
  rw [hcall] at hrunning
  generalize d.calls u = other at hrunning
  cases hrunning with
  | some halike => exact ⟨_, rfl, halike⟩

/-- The calls in one place have got equally far. -/
theorem Matched.abreast (h : U.Matched c d) (ht : (ours mine c.trace)[i]? = some t)
    (hu : (ours mine d.trace)[i]? = some u) : U.Abreast (status c t) (status d u) := by
  have hcalls := List.forall₂_map_left_iff.mp (List.forall₂_map_right_iff.mp h.calls)
  obtain ⟨hlt, rfl⟩ := List.getElem?_eq_some_iff.mp ht
  obtain ⟨hlt', rfl⟩ := List.getElem?_eq_some_iff.mp hu
  exact hcalls.get hlt hlt'

/-- A step of call `t` starts none of our calls and leaves the other calls alone. -/
structure Aside (mine : M.Op → Bool) (t : ℕ) (c c' : Config M) : Prop where
  ours : Machine.ours mine c'.trace = Machine.ours mine c.trace
  others : ∀ x, x ≠ t → status c' x = status c x

theorem Aside.of_update {p : Option M.Prog} (htrace : c'.trace = c.trace ++ [event])
    (hcalls : c'.calls = Function.update c.calls t p)
    (hstart : ∀ t op, event = .started t op → mine op = false)
    (hreturn : ∀ x r, event = .returned x r → x = t) : Aside mine t c c' := by
  refine ⟨htrace ▸ ours_snoc hstart, fun x hx => ?_⟩
  rw [status, status, hcalls, htrace, Function.update_of_ne hx,
    resultOf_snoc fun r hevent => hx (hreturn x r hevent)]

/-- What a stranger does leaves our calls where they are. -/
theorem Aside.statuses_eq (h : Aside mine t c c') (ht : t ∉ Machine.ours mine c.trace) :
    statuses mine c' = statuses mine c := by
  rw [statuses, h.ours]
  refine List.map_congr_left fun x hx => h.others x ?_
  rintro rfl
  exact ht hx

/-- A step of one of our calls changes the status in its place. -/
theorem Aside.statuses_set (h : Aside mine t c c') (hc : Reachable init guard c)
    (ht : (Machine.ours mine c.trace)[i]? = some t) :
    statuses mine c' = (statuses mine c).set i (status c' t) := by
  have hlt := (List.getElem?_eq_some_iff.mp ht).1
  rw [statuses, h.ours, statuses]
  refine List.ext_getElem? fun j => ?_
  by_cases hij : i = j
  · subst hij
    rw [List.getElem?_set_self (by simpa using hlt), List.getElem?_map, ht]
    rfl
  · rw [List.getElem?_set_ne hij, List.getElem?_map, List.getElem?_map]
    cases hx : (Machine.ours mine c.trace)[j]? with
    | none => rfl
    | some x =>
      refine congrArg some (h.others x ?_)
      rintro rfl
      exact hij ((List.getElem?_inj hlt hc.ours_nodup).mp (ht.trans hx.symm))

/-- Nothing from outside changes where our calls are. -/
theorem statuses_environment (hc : Coherent c) {e : M.Env}
    (htrans : Transition c (.environment e) c') : statuses mine c' = statuses mine c := by
  cases htrans
  refine Aside.statuses_eq (t := c.next)
    (.of_update rfl (Function.update_eq_self _ _).symm (by simp) (by simp)) fun hmem => ?_
  exact Nat.lt_irrefl _ (hc.ours_lt hmem)

/-- What a stranger does on one side is not noticed when it leaves the store alike. -/
theorem Matched.left (h : U.Matched c d) (hview : U.View c'.store d.store)
    (haside : Aside mine t c c') (ht : t ∉ ours mine c.trace) : U.Matched c' d :=
  ⟨hview, haside.statuses_eq ht ▸ h.calls⟩

/-- A turn that we do not see is not noticed. -/
theorem Matched.unseen (h : U.Matched c d) (hc : Reachable init guard c)
    (hguard : guard c choice) (hturn : turn c choice = some c')
    (hunseen : seen mine (ours mine c.trace) choice = none) : U.Matched c' d := by
  rcases turn_cases hturn with htrans | ⟨t, o, r, rfl, -, rfl⟩
  · cases htrans with
    | start op =>
      have hmine : mine op = false := by
        by_contra hmine
        simp [seen, hmine] at hunseen
      refine h.left h.view (t := c.next) (.of_update rfl rfl ?_ (by simp)) ?_
      · rintro t op' ⟨⟩
        exact hmine
      · exact fun hmem => absurd (hc.coherent.ours_lt hmem) (Nat.lt_irrefl _)
    | run hcall hexec =>
      rw [seen, Option.map_eq_none_iff, List.idxOf?_eq_none_iff] at hunseen
      have hview := U.stranger hc hguard hunseen hcall hexec h.view
      exact h.left hview (.of_update rfl rfl (by simp) (by simp)) hunseen
    | finish hcall =>
      rw [seen, Option.map_eq_none_iff, List.idxOf?_eq_none_iff] at hunseen
      refine h.left h.view (.of_update rfl rfl (by simp) ?_) hunseen
      rintro x r ⟨⟩
      rfl
    | crash hcall =>
      rw [seen, Option.map_eq_none_iff, List.idxOf?_eq_none_iff] at hunseen
      exact h.left (U.abort _ h.view) (.of_update rfl rfl (by simp) (by simp)) hunseen
    | environment henv => cases hunseen
  · exact h

theorem forall₂_set {α β : Type} {R : α → β → Prop} {xs : List α} {ys : List β} {x : α} {y : β}
    (h : List.Forall₂ R xs ys) (hxy : R x y) (i : ℕ) :
    List.Forall₂ R (xs.set i x) (ys.set i y) := by
  induction h generalizing i with
  | nil => exact .nil
  | cons hab hrest ih =>
    cases i with
    | zero => exact .cons hxy hrest
    | succ i => exact .cons hab (ih i)

/-- What one call of ours does in both runs is noticed by no other call of ours. -/
theorem Matched.both (h : U.Matched c d) (hc : Reachable init guard c) (hd : Reachable init guard d)
    (ht : (ours mine c.trace)[i]? = some t) (hu : (ours mine d.trace)[i]? = some u)
    (hview : U.View c'.store d'.store) (haside : Aside mine t c c') (haside' : Aside mine u d d')
    (habreast : U.Abreast (status c' t) (status d' u)) : U.Matched c' d' := by
  refine ⟨hview, ?_⟩
  rw [haside.statuses_set hc ht, haside'.statuses_set hd hu]
  exact forall₂_set h.calls habreast i

/-- A call of ours that starts comes last. -/
theorem statuses_start (hc : Coherent c) (hmine : mine op = true)
    (htrans : Transition c (.start op) c') :
    statuses mine c' = statuses mine c ++ [(some (M.program op), none)] := by
  cases htrans
  have hnone : resultOf c.next c.trace = none := by
    refine List.findSome?_eq_none_iff.mpr fun event hevent => ?_
    cases event with
    | returned v r =>
      have hlt := hc.fresh _ hevent v rfl
      exact if_neg (by omega)
    | _ => rfl
  simp only [statuses, ours_start _ hmine, List.map_append, List.map_singleton]
  congr 1
  · refine List.map_congr_left fun t ht => Prod.ext ?_ (resultOf_snoc (by simp))
    exact Function.update_of_ne (Nat.ne_of_lt (hc.ours_lt ht)) _ _
  · exact congrArg (fun x => [x])
      (Prod.ext (Function.update_self ..) ((resultOf_snoc (by simp)).trans hnone))

section Turns

variable (h : U.Matched c d) (hc : Reachable init guard c) (hd : Reachable init guard d)
include h hc hd

/-- A call of ours starts in both runs. -/
theorem Matched.start (hmine : mine op = true) (hguard : guard c (.start op))
    (htrans : Transition c (.start op) c') (htrans' : Transition d (.start op) d') :
    U.Matched c' d' := by
  constructor
  · cases htrans
    cases htrans'
    exact h.view
  · rw [statuses_start hc.coherent hmine htrans, statuses_start hd.coherent hmine htrans']
    exact List.rel_append h.calls (.cons ⟨.some (U.program hguard hmine), rfl⟩ .nil)

section OneCall

variable (ht : (ours mine c.trace)[i]? = some t) (hu : (ours mine d.trace)[i]? = some u)
include ht hu

/-- A call of ours takes a turn in both runs. -/
theorem Matched.run (hguard : guard c (.run t o)) (hguard' : guard d (.run u o))
    (hturn : turn c (.run t o) = some c') (hturn' : turn d (.run u o) = some d') :
    U.Matched c' d' := by
  have hold := h.abreast ht hu
  rcases turn_cases hturn with htrans | ⟨t', o', r, heq, hcall, rfl⟩
  · obtain ⟨st, next, reply, hcall, hexec, htrace, -, hcalls⟩ := htrans.of_run
    obtain ⟨q, hq, halike⟩ := hold.alike hcall
    rcases turn_cases hturn' with htrans' | ⟨u', o', r, heq, hdone, rfl⟩
    · obtain ⟨st', next', reply', hcall', hexec', htrace', -, hcalls'⟩ := htrans'.of_run
      rw [hcall'] at hq
      cases hq
      obtain ⟨hview, halike'⟩ := U.run hc hd hguard hguard' (List.mem_of_getElem? ht)
        (List.mem_of_getElem? hu) hcall hcall' h.view halike hexec hexec'
      refine h.both hc hd ht hu hview (.of_update htrace hcalls (by simp) (by simp))
        (.of_update htrace' hcalls' (by simp) (by simp)) ⟨?_, ?_⟩
      · simp only [status, hcalls, hcalls', Function.update_self]
        exact .some halike'
      · simp only [status, htrace, htrace']
        rw [resultOf_snoc (by simp), resultOf_snoc (by simp)]
        exact hold.result
    · -- the other run has no statement left here
      cases heq
      rw [hdone] at hq
      cases hq
      cases U.done (U.alike_symm halike)
  · cases heq
    obtain ⟨q, hq, halike⟩ := hold.alike hcall
    obtain rfl := U.done halike
    rcases turn_cases hturn' with htrans' | ⟨u', o', r', -, -, rfl⟩
    · obtain ⟨st', next', reply', hcall', -⟩ := htrans'.of_run
      rw [hcall'] at hq
      cases hq
    · exact h

/-- A call of ours returns in both runs. -/
theorem Matched.finish (htrans : Transition c (.finish t) c')
    (htrans' : Transition d (.finish u) d') : U.Matched c' d' := by
  have hold := h.abreast ht hu
  cases htrans with
  | @finish _ r hcall =>
    cases htrans' with
    | @finish _ r' hcall' =>
      obtain ⟨q, hq, halike⟩ := hold.alike hcall
      obtain rfl := U.done halike
      cases hcall'.symm.trans hq
      refine h.both hc hd ht hu h.view (.of_update rfl rfl (by simp) ?_)
        (.of_update rfl rfl (by simp) ?_)
        ⟨?_, ?_⟩
      · rintro x r ⟨⟩
        rfl
      · rintro x r ⟨⟩
        rfl
      · simp only [status, Function.update_self]
        exact .none
      · have hresult : resultOf t c.trace = resultOf u d.trace := hold.result
        simp only [status, resultOf_returned, hresult]

/-- A call of ours disappears in both runs. -/
theorem Matched.crash (htrans : Transition c (.crash t) c')
    (htrans' : Transition d (.crash u) d') : U.Matched c' d' := by
  have hold := h.abreast ht hu
  cases htrans with
  | crash hcall =>
    cases htrans' with
    | crash hcall' =>
      have hview := U.view_symm (U.abort u (U.view_symm (U.abort t h.view)))
      refine h.both hc hd ht hu hview (.of_update rfl rfl (by simp) (by simp))
        (.of_update rfl rfl (by simp) (by simp))
        ⟨?_, (resultOf_snoc (by simp)).trans (hold.result.trans (resultOf_snoc (by simp)).symm)⟩
      simp only [status, Function.update_self]
      exact .none

end OneCall

/-- A turn that looks the same to us in both runs keeps them matched. -/
theorem Matched.seen {choice choice' x : Choice M} (hguard : guard c choice)
    (hguard' : guard d choice') (hturn : turn c choice = some c')
    (hturn' : turn d choice' = some d')
    (hseen : Machine.seen mine (ours mine c.trace) choice = some x)
    (hseen' : Machine.seen mine (ours mine d.trace) choice' = some x) : U.Matched c' d' := by
  cases x with
  | start op =>
    obtain ⟨rfl, hmine⟩ := seen_cases hseen
    obtain ⟨rfl, -⟩ := seen_cases hseen'
    exact h.start hc hd hmine hguard (.of_step hturn) (.of_step hturn')
  | run i o =>
    obtain ⟨t, rfl, ht⟩ := seen_cases hseen
    obtain ⟨u, rfl, hu⟩ := seen_cases hseen'
    exact h.run hc hd ht hu hguard hguard' hturn hturn'
  | finish i =>
    obtain ⟨t, rfl, ht⟩ := seen_cases hseen
    obtain ⟨u, rfl, hu⟩ := seen_cases hseen'
    exact h.finish hc hd ht hu (.of_step hturn) (.of_step hturn')
  | crash i =>
    obtain ⟨t, rfl, ht⟩ := seen_cases hseen
    obtain ⟨u, rfl, hu⟩ := seen_cases hseen'
    exact h.crash hc hd ht hu (.of_step hturn) (.of_step hturn')
  | environment e =>
    have heq : choice = .environment e := seen_cases hseen
    have heq' : choice' = .environment e := seen_cases hseen'
    subst heq heq'
    have htrans : Transition c (.environment e) c' := .of_step hturn
    have htrans' : Transition d (.environment e) d' := .of_step hturn'
    cases htrans with
    | environment henv =>
      cases htrans' with
      | environment henv' =>
        refine ⟨U.environment h.view henv henv', ?_⟩
        rw [statuses_environment hc.coherent (.of_step hturn),
          statuses_environment hd.coherent (.of_step hturn')]
        exact h.calls

end Turns

/-! ## Runs -/

/-- Our calls have returned the same in matched configurations. -/
theorem Matched.outcomes_eq (h : U.Matched c d) : outcomes mine c = outcomes mine d := by
  have hresults : List.Forall₂ Eq ((statuses mine c).map Prod.snd)
      ((statuses mine d).map Prod.snd) := List.forall₂_map_left_iff.mpr
    (List.forall₂_map_right_iff.mpr (h.calls.imp fun _ _ => (·.result)))
  rw [List.forall₂_eq_eq_eq, statuses, statuses, List.map_map, List.map_map] at hresults
  exact hresults

section Runs

variable [∀ c choice, Decidable (guard c choice)]

/-- A schedule of which we see nothing is not noticed. -/
theorem Matched.quiet (h : U.Matched c d)
    (hd : Reachable init guard d) (hplay : play guard d choices = some d')
    (hpart : partAfter mine d choices = []) : U.Matched c d' := by
  induction choices generalizing d with
  | nil =>
    cases hplay
    exact h
  | cons choice rest ih =>
    obtain ⟨d₁, hguard, hturn, hrest⟩ := play_cons hplay
    rw [partAfter_cons hturn, List.append_eq_nil_iff, Option.toList_eq_nil_iff] at hpart
    have hstep := (h.symm.unseen hd hguard hturn hpart.1).symm
    exact ih hstep (hd.turn hguard hturn) hrest hpart.2

/-- A schedule gets to its first turn that we see without being noticed. -/
theorem Matched.skip {seenRest : List (Choice M)} {x : Choice M} (h : U.Matched c d)
    (hd : Reachable init guard d) (hplay : play guard d choices = some d')
    (hpart : partAfter mine d choices = x :: seenRest) :
    ∃ d₁ d₂ choice rest, U.Matched c d₁ ∧ Reachable init guard d₁ ∧ guard d₁ choice ∧
      turn d₁ choice = some d₂ ∧ Machine.seen mine (ours mine d₁.trace) choice = some x ∧
      play guard d₂ rest = some d' ∧ partAfter mine d₂ rest = seenRest := by
  induction choices generalizing d with
  | nil => cases hpart
  | cons choice rest ih =>
    obtain ⟨d₁, hguard, hturn, hrest⟩ := play_cons hplay
    rw [partAfter_cons hturn] at hpart
    cases hseen : Machine.seen mine (ours mine d.trace) choice with
    | none =>
      rw [hseen, Option.toList_none, List.nil_append] at hpart
      have hstep := (h.symm.unseen hd hguard hturn hseen).symm
      exact ih hstep (hd.turn hguard hturn) hrest hpart
    | some y =>
      rw [hseen, Option.toList_some, List.singleton_append, List.cons.injEq] at hpart
      obtain ⟨rfl, hpart⟩ := hpart
      exact ⟨d, d₁, choice, rest, h, hd, hguard, hturn, hseen, hrest, hpart⟩

/-- Schedules that agree on our part keep the runs matched. -/
theorem Matched.play {left right : List (Choice M)} (h : U.Matched c d)
    (hc : Reachable init guard c) (hd : Reachable init guard d)
    (hleft : Machine.play guard c left = some c') (hright : Machine.play guard d right = some d')
    (hpart : partAfter mine c left = partAfter mine d right) : U.Matched c' d' := by
  induction left generalizing c d right with
  | nil =>
    cases hleft
    exact h.quiet hd hright hpart.symm
  | cons choice rest ih =>
    obtain ⟨c₁, hguard, hturn, hrest⟩ := play_cons hleft
    rw [partAfter_cons hturn] at hpart
    cases hseen : Machine.seen mine (ours mine c.trace) choice with
    | none =>
      rw [hseen, Option.toList_none, List.nil_append] at hpart
      exact ih (h.unseen hc hguard hturn hseen) (hc.turn hguard hturn) hd hrest hright hpart
    | some x =>
      -- the other schedule catches up before both take the turn that we see
      rw [hseen, Option.toList_some, List.singleton_append] at hpart
      obtain ⟨d₁, d₂, choice', rest', hmatched, hd₁, hguard', hturn', hseen', hrest', hpart'⟩ :=
        h.skip hd hright hpart.symm
      have hboth := hmatched.seen hc hd₁ hguard hguard' hturn hturn' hseen hseen'
      exact ih hboth (hc.turn hguard hturn) (hd₁.turn hguard' hturn') hrest hrest' hpart'.symm

/-- Our calls return the same in every two runs from one store whose schedules agree on our
part. -/
theorem outcomes_eq (U : Unwinding mine init guard) {s : M.Store} (hs : init s)
    {left right : List (Choice M)} (hleft : play guard (Config.initial s) left = some c)
    (hright : play guard (Config.initial s) right = some d)
    (hpart : part mine left = part mine right) : outcomes mine c = outcomes mine d := by
  have hstart : U.Matched (Config.initial s) (Config.initial s) :=
    ⟨U.initial hs, .nil⟩
  exact (hstart.play (.initial hs) (.initial hs) hleft hright hpart).outcomes_eq

end Runs

end Unwinding

end Concurrent.Machine
