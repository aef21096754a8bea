import UndoLog.Engine.Compensation
import UndoLog.Engine.Schedule
import UndoLog.Text.Literal

/-!
# Resumed compensations

A compensation that was cut is resumed by another one, which loads what is still pending.
As long as the compensations of a session do not overlap, requests go out for unmarked entries
only, highest position first, each with the key of its entry.
-/

namespace UndoLog

open Concurrent Machine Relational

variable {S : Setup} {guard : Guard (system S)} {c : State S}

/-! ## Requests -/

/-- The event is a request that a call sends for an entry of the undo stack. -/
def PostsFor (c : State S) (event : SystemEvent S) (t : ℕ) (u : UndoRow) : Prop :=
  u ∈ (dbOf c).undo ∧ ∃ endpoint args reply,
    event = .ran t (.app (.post endpoint u.undoId args)) reply

/-- The idempotency key that a request carries. -/
def idempotencyKey (display : Uuid → String) : SystemEvent S → Option String
  | .ran _ (.app (.post _ undoId _)) _ => some (idempotencyKeyFor display undoId)
  | _ => none

/-- An entry was marked as compensated. -/
def MarkedIn (events : List (SystemEvent S)) (undoId : UndoId) : Prop :=
  ∃ t orgId, Event.ran (M := system S) t (.db (.markCompensated orgId undoId)) (.ok ()) ∈ events

/-- A request for an entry that fits the events before it: the entry was not marked, earlier
requests of the call were for entries at least as high, and every higher entry that the call has
loaded was undone by a request. -/
structure InOrder (c : State S) (before : List (SystemEvent S)) (t : ℕ) (u : UndoRow) :
    Prop where
  unmarked : ¬ MarkedIn before u.undoId
  descending : ∀ event ∈ before, ∀ v, PostsFor c event t v → u.stackPosition ≤ v.stackPosition
  afterHigher : ∃ orgId sessionId rows, StackOf (dbOf c) orgId sessionId rows ∧
    (∃ v ∈ rows, v.undoId = u.undoId) ∧
    Done (ranBy t before) (.loadUndoStack orgId sessionId) (rows.map mapUndoRow) ∧
    ∀ v ∈ rows, u.stackPosition < v.stackPosition → Undone (ranBy t before) (mapUndoRow v)

/-- The requests of a run: each is for an entry of the undo stack, in order, and two of them carry
the same key exactly when they are for the same entry. -/
structure RecoversInOrder (display : Uuid → String) (c : State S) : Prop where
  entry : ∀ event ∈ c.trace, (idempotencyKey display event).isSome = true →
    ∃ t u, PostsFor c event t u
  order : ∀ before event after, c.trace = before ++ event :: after → ∀ t u,
    PostsFor c event t u → InOrder c before t u
  keys : ∀ event ∈ c.trace, ∀ event' ∈ c.trace, ∀ t t' u u', PostsFor c event t u →
    PostsFor c event' t' u' →
    (idempotencyKey display event = idempotencyKey display event' ↔ u = u')

section Post

variable {before after : List (SystemEvent S)} {t : ℕ} {endpoint : String} {undoId : UndoId}
  {args : Json} {reply : Except UndoLogError HttpResponse} (hc : Reaches S guard c)
include hc

/-- The walk at the moment of a request, in view of the stack at the end. -/
theorem posted_walk
    (hsplit : c.trace = before ++ .ran t (.app (.post endpoint undoId args)) reply :: after) :
    ∃ d, Reaches S guard d ∧ d.trace = before ∧ (d.calls t).isSome = true ∧
      ∃ orgId sessionId higher u lower, u.undoId = undoId ∧
        StackOf (dbOf c) orgId sessionId (higher ++ u :: lower) ∧
        Walked orgId sessionId (pastOf t d) (higher.map mapUndoRow)
          ((u :: lower).map mapUndoRow) := by
  obtain ⟨d, choice, d', hrec⟩ := hc.recorded hsplit
  obtain ⟨o, next, -, hcall, -⟩ := hrec.step.of_ran hrec.trace'
  obtain ⟨orgId, sessionId, entry, -, hat, -, rfl, -⟩ := post_at hrec.reachable hcall
  have hpast : pastOf t d <+: pastOf t c := hrec.run.trace.filterMap _
  obtain ⟨higher, u, lower, hstack, rfl, hwalked⟩ := hat.stack hc hpast
  exact ⟨d, hrec.reachable, hrec.trace, by rw [hcall]; rfl, orgId, sessionId, higher, u, lower,
    rfl, hstack, hwalked⟩

theorem posted_unmarked (hguard : ∀ (c : State S) choice, guard c choice → NonOverlapping c choice)
    (hsplit : c.trace = before ++ .ran t (.app (.post endpoint undoId args)) reply :: after) :
    ¬ MarkedIn before undoId := by
  rintro ⟨t', orgId', hmarked⟩
  obtain ⟨d, hd, rfl, hrunning, orgId, sessionId, higher, u, lower, rfl, hstack, hwalked⟩ :=
    posted_walk hc hsplit
  have hload : Succeeded d t (.loadUndoStack orgId sessionId)
      (higher.map mapUndoRow ++ (u :: lower).map mapUndoRow) :=
    succeeded_iff_done.mpr hwalked.loaded
  have hentry : mapUndoRow u ∈ higher.map mapUndoRow ++ (u :: lower).map mapUndoRow := by simp
  -- only the call itself can have marked it, but it has marked higher entries only
  obtain rfl := marked_apart hd hguard hload hrunning hentry hmarked
  obtain ⟨e, he, hid⟩ := hwalked.marks _ _ _ (succeeded_iff_done.mp hmarked)
  obtain ⟨v, hv, rfl⟩ := List.mem_map.mp he
  exact (List.pairwise_append.mp (hstack.undoIds hc)).2.2 v hv u (by simp) hid

theorem posted_descending {u : UndoRow} (hu : u ∈ (dbOf c).undo)
    (hsplit : c.trace = before ++ .ran t (.app (.post endpoint u.undoId args)) reply :: after)
    {event : SystemEvent S} (hevent : event ∈ before) {v : UndoRow} (hv : PostsFor c event t v) :
    u.stackPosition ≤ v.stackPosition := by
  obtain ⟨d, hd, rfl, -, orgId, sessionId, higher, w, lower, hid, hstack, hwalked⟩ :=
    posted_walk hc hsplit
  obtain ⟨hmem, endpoint', args', reply', rfl⟩ := hv
  rw [hstack.position hc (by simp) hu hid.symm]
  obtain ⟨e, he, heid⟩ := hwalked.posts _ _ _ _ (mem_ranBy.mpr hevent)
  rcases List.mem_append.mp he with hhigher | hnext
  · obtain ⟨x, hx, rfl⟩ := List.mem_map.mp hhigher
    rw [hstack.position hc (List.mem_append_left _ hx) hmem heid.symm]
    exact ((List.pairwise_append.mp hstack.descending).2.2 x hx w (by simp)).le
  · obtain rfl : e = mapUndoRow w := by simpa using hnext
    rw [hstack.position hc (by simp) hmem heid.symm]

theorem posted_afterHigher {u : UndoRow} (hu : u ∈ (dbOf c).undo)
    (hsplit : c.trace = before ++ .ran t (.app (.post endpoint u.undoId args)) reply :: after) :
    ∃ orgId sessionId rows, StackOf (dbOf c) orgId sessionId rows ∧
      (∃ v ∈ rows, v.undoId = u.undoId) ∧
      Done (ranBy t before) (.loadUndoStack orgId sessionId) (rows.map mapUndoRow) ∧
      ∀ v ∈ rows, u.stackPosition < v.stackPosition → Undone (ranBy t before) (mapUndoRow v) := by
  obtain ⟨d, hd, rfl, -, orgId, sessionId, higher, w, lower, hid, hstack, hwalked⟩ :=
    posted_walk hc hsplit
  refine ⟨orgId, sessionId, higher ++ w :: lower, hstack, ⟨w, by simp, hid⟩, ?_, ?_⟩
  · rw [List.map_append]
    exact hwalked.loaded
  · intro v hv hlt
    rw [hstack.position hc (by simp) hu hid.symm] at hlt
    rcases List.mem_append.mp hv with hhigher | hlower
    · refine hwalked.undone _ (List.mem_map_of_mem hhigher) ?_
      change v.state.isTerminal = false
      rw [hstack.pending v hv]
      rfl
    · -- the entry itself and the ones below are not higher
      rcases List.mem_cons.mp hlower with rfl | hlower
      · exact absurd hlt (lt_irrefl _)
      · have hrest := (List.pairwise_append.mp hstack.descending).2.1
        exact absurd hlt ((List.pairwise_cons.mp hrest).1 v hlower).le.not_gt

end Post

/-! ## Runs without overlapping compensations -/

/-- In every run in which the compensations of a session do not overlap, however each of
them is cut, requests are sent in order and no recorded undo is repeated. -/
theorem recoversInOrder_of_nonOverlapping {display : Uuid → String}
    (hdisplay : Function.Injective display) (hc : Reaches S NonOverlapping c) :
    RecoversInOrder display c := by
  refine ⟨?_, ?_, ?_⟩
  · intro event hmem hkey
    unfold idempotencyKey at hkey
    split at hkey
    · next t endpoint undoId args reply =>
      obtain ⟨u, hu, rfl, -⟩ := post_row hc hmem
      exact ⟨t, u, hu, endpoint, args, reply, rfl⟩
    · cases hkey
  · rintro before event after hsplit t u ⟨hu, endpoint, args, reply, rfl⟩
    exact ⟨posted_unmarked hc (fun _ _ h => h) hsplit,
      fun event hevent v hv => posted_descending hc hu hsplit hevent hv,
      posted_afterHigher hc hu hsplit⟩
  · rintro _ - _ - t t' u u' ⟨hu, endpoint, args, reply, rfl⟩ ⟨hu', endpoint', args', reply', rfl⟩
    simp only [idempotencyKey, Option.some.injEq, idempotencyKeyFor_inj hdisplay]
    exact ⟨fun hid => (undoIds_keyed hc).eq hu hu' hid, fun h => congrArg UndoRow.undoId h⟩

/-- A compensation is cut after its first request; a second one resumes it and ends. -/
def resumedCompensation : List (Choice (system (reachableSample .postgres))) :=
  twoExecutedCalls ++ [.start (.compensateSession sampleOrg ⟨2⟩)] ++ runs 2 3 ++
    [.crash 2, .start (.compensateSession sampleOrg ⟨2⟩)] ++ runs 3 7 ++ [.finish 3]

/-- The entries that requests were sent for, in order. -/
def posted (c : State S) : List UndoId :=
  c.trace.filterMap fun
    | .ran _ (.app (.post _ undoId _)) _ => some undoId
    | _ => none

/-- The resumed compensation repeats the unrecorded request and sends the other one after
it. -/
theorem resumedCompensation_recoversInOrder :
    ∃ c : State (reachableSample .postgres), Function.Injective Text.uuidText ∧
      Reaches (reachableSample .postgres) NonOverlapping c ∧
      posted c = [⟨21⟩, ⟨21⟩, ⟨11⟩] ∧ RecoversInOrder Text.uuidText c := by
  obtain ⟨c, hc, hposted, -⟩ := exists_sample NonOverlapping 1780271999
    (.compensable sampleCompensation) resumedCompensation (fun c =>
      posted c = [⟨21⟩, ⟨21⟩, ⟨11⟩] ∧ ∀ s ∈ (dbOf c).sessions, s.state = .compensated)
    (by decide +kernel)
  exact ⟨c, Text.uuidText_injective, hc, hposted,
    recoversInOrder_of_nonOverlapping Text.uuidText_injective hc⟩

end UndoLog
