import UndoLog.Dev.Connection

/-!
# Request identifiers of the local development server

The handler keeps the identifier of a request in a field that is made when the connection is
and never cleared. Every response on the connection carries it.
-/

namespace UndoLog.Dev.Connection

open Text.Stream

/-- The responses to the requests of a connection. -/
def answers (H : Library) : List Circumstance → Conn → List Sent
  | [], _ => []
  | o :: rest, s =>
    if s.closeConnection then []
    else (handleOneRequest H o s).1 :: answers H rest (handleOneRequest H o s).2

variable {ι : Type}

/-- The field `_undolog_request_id`, and how often `uuid4` was called. -/
structure Identity (ι : Type) where
  requestId : Option ι
  minted : ℕ

/-- `_request_id` -/
def Identity.request (uuid4 : ℕ → ι) (s : Identity ι) : ι × Identity ι :=
  match s.requestId with
  | some id => (id, s)
  | none => (uuid4 s.minted, ⟨some (uuid4 s.minted), s.minted + 1⟩)

/-- The identifiers in a response: the header, and the body of an error, which is built before
it. The error pages of the library carry none. -/
def Sent.identifiers (uuid4 : ℕ → ι) (s : Identity ι) : Sent → List ι × Identity ι
  | .error _ =>
    let (body, s) := s.request uuid4
    let (header, s) := s.request uuid4
    ([header, body], s)
  | .reply | .stream =>
    let (header, s) := s.request uuid4
    ([header], s)
  | .library | .nothing => ([], s)

/-- The identifiers in the responses of a connection. -/
def identifiers (uuid4 : ℕ → ι) : List Sent → Identity ι → List (List ι)
  | [], _ => []
  | sent :: rest, s =>
    (sent.identifiers uuid4 s).1 :: identifiers uuid4 rest (sent.identifiers uuid4 s).2

/-- One identifier for each request, and another one for every other request. -/
def PerRequest (responses : List (List ι)) : Prop :=
  (∀ ids ∈ responses, ∀ id ∈ ids, ∀ id' ∈ ids, id = id') ∧
  responses.Pairwise fun ids ids' => ∀ id ∈ ids, ∀ id' ∈ ids', id ≠ id'

/-- The response comes from a handler. -/
def Sent.handled : Sent → Bool
  | .error _ | .reply | .stream => true
  | .library | .nothing => false

/-- How often a response carries the identifier. -/
def Sent.uses : Sent → ℕ
  | .error _ => 2
  | .reply | .stream => 1
  | .library | .nothing => 0

variable {uuid4 : ℕ → ι}

theorem identifiers_eq (sents : List Sent) (s : Identity ι) : identifiers uuid4 sents s =
    sents.map fun sent => List.replicate sent.uses (s.requestId.getD (uuid4 s.minted)) := by
  induction sents generalizing s with
  | nil => rfl
  | cons sent rest ih =>
    obtain ⟨requestId, minted⟩ := s
    rw [identifiers, ih, List.map_cons]
    cases requestId <;> cases sent <;> rfl

/-- Responses that share one identifier are told apart only if one carries it. -/
theorem perRequest_shared {id : ι} {sents : List Sent} :
    PerRequest (sents.map fun sent => List.replicate sent.uses id) ↔
      (sents.filter Sent.handled).length ≤ 1 := by
  have hsame : ∀ ids ∈ sents.map fun sent => List.replicate sent.uses id,
      ∀ a ∈ ids, ∀ b ∈ ids, a = b := by
    rintro ids hids a ha b hb
    obtain ⟨sent, -, rfl⟩ := List.mem_map.mp hids
    rw [List.eq_of_mem_replicate ha, List.eq_of_mem_replicate hb]
  have hapart : ∀ sent sent' : Sent, (∀ a ∈ List.replicate sent.uses id,
      ∀ b ∈ List.replicate sent'.uses id, a ≠ b) ↔
        ¬ (sent.handled = true ∧ sent'.handled = true) := by
    intro sent sent'
    cases sent <;> cases sent' <;> simp [Sent.uses, Sent.handled]
  rw [PerRequest, and_iff_right hsame, List.pairwise_map]
  simp only [hapart]
  clear hsame
  induction sents with
  | nil => simp
  | cons sent rest ih =>
    refine List.pairwise_cons.trans ((and_congr_right' ih).trans ?_)
    cases hsent : sent.handled with
    | false => simp [hsent]
    | true =>
      have hempty : (∀ sent' ∈ rest, sent'.handled = false) ↔ rest.filter Sent.handled = [] := by
        simp
      simp only [List.filter_cons, hsent, if_true, List.length_cons, true_and,
        Bool.not_eq_true, hempty]
      constructor
      · rintro ⟨hnone, -⟩
        simp [hnone]
      · intro hone
        have hnone := List.length_eq_zero_iff.mp (Nat.le_zero.mp (Nat.le_of_succ_le_succ hone))
        simp [hnone]

/-- The identifiers of a connection are per request exactly if at most one of its requests is
answered by a handler. -/
theorem identifiers_per_request_iff (uuid4 : ℕ → ι) (H : Library) (os : List Circumstance)
    (stream : Bytes) :
    PerRequest (identifiers uuid4 (answers H os (accepted stream)) ⟨none, 0⟩) ↔
      ((answers H os (accepted stream)).filter Sent.handled).length ≤ 1 := by
  rw [identifiers_eq, perRequest_shared]

/-- A library that reads every byte as a liveness probe. -/
def probes : Library where
  parseRequest
    | [] => none
    | _ :: rest => some (⟨"GET", "/health".toList, none, false, false⟩, rest)
  loads := fun _ => .error .jsonDecode

/-- Two probes on one connection carry one identifier. -/
theorem probes_share_identifier :
    ¬ PerRequest (identifiers id (answers probes [{}, {}] (accepted [0, 0])) ⟨none, 0⟩) := by
  rw [identifiers_eq, perRequest_shared]
  decide

end UndoLog.Dev.Connection
