import Mathlib.Tactic.IntervalCases
import UndoLog.Store.Approvals

/-!
# Timestamps on SQLite

Columns hold texts. Approvals are given their timeout in chrono's RFC 3339 format, every other
timestamp is written by `datetime('now')`, and one parser reads them all.
-/

namespace UndoLog

/-! ## Texts of a date -/

/-- The days of a month. -/
def monthDays (year month : ℕ) : ℕ :=
  if month = 2 then if year % 4 = 0 ∧ (year % 100 ≠ 0 ∨ year % 400 = 0) then 29 else 28
  else if month = 4 ∨ month = 6 ∨ month = 9 ∨ month = 11 then 30
  else 31

/-- A point in time between the years 1970 and 9999, by its fields. -/
structure CivilTime where
  year : ℕ
  month : ℕ
  day : ℕ
  hour : ℕ
  minute : ℕ
  second : ℕ
  nano : ℕ
  hyear : 1970 ≤ year ∧ year ≤ 9999
  hmonth : 1 ≤ month ∧ month ≤ 12
  hday : 1 ≤ day ∧ day ≤ monthDays year month
  htime : hour < 24 ∧ minute < 60 ∧ second < 60 ∧ nano < 1000000000

/-- The number of a day, counted from the first of January 1970. -/
def civilDays (year month day : ℕ) : ℤ :=
  let y : ℤ := if month ≤ 2 then year - 1 else year
  let m : ℤ := if month ≤ 2 then month + 9 else month - 3
  365 * y + y / 4 - y / 100 + y / 400 + (153 * m + 2) / 5 + day - 719469

namespace CivilTime

/-- The day of a point in time. -/
def days (t : CivilTime) : ℤ := civilDays t.year t.month t.day

/-- The point in time, in whole seconds. -/
def time (t : CivilTime) : ℤ := 86400 * t.days + 3600 * t.hour + 60 * t.minute + t.second

/-- A number in a fixed number of digits. -/
def digits : ℕ → ℕ → List ℕ
  | 0, _ => []
  | width + 1, n => digits width (n / 10) ++ [48 + n % 10]

/-- A date and a time of day, with the bytes between their fields. -/
def text (separator : ℕ) (t : CivilTime) : List ℕ :=
  digits 4 t.year ++ 45 :: (digits 2 t.month ++ 45 :: (digits 2 t.day ++ separator ::
    (digits 2 t.hour ++ 58 :: (digits 2 t.minute ++ 58 :: digits 2 t.second))))

/-- The text of `datetime('now')`. -/
def datetime (now : CivilTime) : List ℕ := text 32 now

/-- The fraction of a second, in as many groups of three digits as it needs. -/
def fraction (nano : ℕ) : List ℕ :=
  if nano = 0 then []
  else if nano % 1000000 = 0 then 46 :: digits 3 (nano / 1000000)
  else if nano % 1000 = 0 then 46 :: digits 6 (nano / 1000)
  else 46 :: digits 9 nano

/-- The offset of UTC, `+00:00`. -/
def utc : List ℕ := [43, 48, 48, 58, 48, 48]

/-- `to_rfc3339` of a time in UTC. -/
def toRfc3339 (t : CivilTime) : List ℕ := text 84 t ++ fraction t.nano ++ utc

end CivilTime

/-- The order of texts on SQLite, by their bytes. -/
def textLt : List ℕ → List ℕ → Bool
  | _, [] => false
  | [], _ :: _ => true
  | a :: s, b :: t => a < b || (a == b && textLt s t)

/-! ## The order of days -/

theorem civilDays_lt_of_month {y m d m' d' : ℕ} (hm : 1 ≤ m) (hlt : m < m') (hm' : m' ≤ 12)
    (hd : d ≤ monthDays y m) (hd' : 1 ≤ d') : civilDays y m d < civilDays y m' d' := by
  have hm12 : m ≤ 11 := by omega
  simp only [monthDays] at hd
  simp only [civilDays]
  interval_cases m
  all_goals
    simp only [reduceIte, Nat.reduceEqDiff, Nat.reduceLeDiff, or_self, or_false,
      or_true] at hd ⊢
    split <;> first | omega | (split at hd <;> omega)

theorem civilDays_lt_of_year {y m d y' m' d' : ℕ} (hlt : y < y') (hm : m ≤ 12) (hm' : 1 ≤ m')
    (hd : d ≤ monthDays y m) (hd' : 1 ≤ d') : civilDays y m d < civilDays y' m' d' := by
  have hd31 : d ≤ 31 ∧ (m = 2 → d ≤ 29) := by
    simp only [monthDays] at hd
    split at hd <;> split at hd <;> omega
  simp only [civilDays]
  split <;> split <;> omega

namespace CivilTime

/-- Days are ordered by year, month and day. -/
theorem days_lt_iff (t n : CivilTime) : t.days < n.days ↔ t.year < n.year ∨ t.year = n.year ∧
    (t.month < n.month ∨ t.month = n.month ∧ t.day < n.day) := by
  have hstep : ∀ t n : CivilTime, t.year < n.year ∨ t.year = n.year ∧
      (t.month < n.month ∨ t.month = n.month ∧ t.day < n.day) → t.days < n.days := by
    rintro t n (hyear | ⟨hyear, hmonth | ⟨hmonth, hday⟩⟩)
    · exact civilDays_lt_of_year hyear t.hmonth.2 n.hmonth.1 t.hday.2 n.hday.1
    · rw [days, days, ← hyear]
      exact civilDays_lt_of_month t.hmonth.1 hmonth n.hmonth.2 t.hday.2 n.hday.1
    · simp only [days, civilDays, hyear, hmonth]
      omega
  refine ⟨fun hlt => ?_, hstep t n⟩
  by_contra hnot
  by_cases hrev : n.year < t.year ∨ n.year = t.year ∧
      (n.month < t.month ∨ n.month = t.month ∧ n.day < t.day)
  · have := hstep n t hrev
    omega
  · have heq : t.year = n.year ∧ t.month = n.month ∧ t.day = n.day := by omega
    rw [days, days, heq.1, heq.2.1, heq.2.2] at hlt
    omega

/-- Digits of one width are ordered as their numbers. -/
theorem textLt_digits {width m n : ℕ} (hm : m < 10 ^ width) (hn : n < 10 ^ width) (s t : List ℕ) :
    textLt (digits width m ++ s) (digits width n ++ t) = true ↔
      m < n ∨ m = n ∧ textLt s t = true := by
  induction width generalizing m n s t with
  | zero =>
    obtain rfl : m = 0 := by omega
    obtain rfl : n = 0 := by omega
    simp [digits]
  | succ width ih =>
    rw [Nat.pow_succ] at hm hn
    rw [digits, digits, List.append_assoc, List.append_assoc, ih (by omega) (by omega)]
    simp only [List.singleton_append, textLt]
    cases textLt s t <;> simp <;> omega

theorem day_lt (t : CivilTime) : t.day < 10 ^ 2 := by
  have := t.hday.2
  simp only [monthDays] at this
  split at this <;> split at this <;> omega

/-- The date decides between a timeout and the current time, and `T` is after the blank. -/
theorem textLt_iff (t now : CivilTime) :
    textLt t.toRfc3339 now.datetime = true ↔ t.days < now.days := by
  have hyear := t.hyear
  have hyear' := now.hyear
  have hmonth := t.hmonth
  have hmonth' := now.hmonth
  have hsame : ∀ (c : ℕ) (s s' : List ℕ), textLt (c :: s) (c :: s') = textLt s s' := by
    simp [textLt]
  have hblank : ∀ s s' : List ℕ, textLt (84 :: s) (32 :: s') = false := by
    simp [textLt]
  rw [days_lt_iff, toRfc3339, datetime, text, text]
  simp only [List.append_assoc, List.cons_append]
  rw [textLt_digits (by omega) (by omega), hsame, textLt_digits (by omega) (by omega), hsame,
    textLt_digits t.day_lt now.day_lt, hblank]
  simp

theorem time_lt_of_days_lt {t now : CivilTime} (h : t.days < now.days) : t.time < now.time := by
  have ht := t.htime
  simp only [time]
  omega

/-- SQLite compares texts where the model compares days. -/
theorem expired_sqlite (t now : CivilTime) :
    expired .sqlite t.time now.time = textLt t.toRfc3339 now.datetime := by
  have ht := t.htime
  have hnow := now.htime
  rw [Bool.eq_iff_iff, textLt_iff]
  change decide (t.time / 86400 < now.time / 86400) = true ↔ _
  rw [decide_eq_true_iff, time, time]
  omega

end CivilTime

/-- The columns of the approvals table that `process_timeouts` reads. -/
structure SqliteApproval where
  approvalRequestId : ApprovalRequestId
  orgId : OrgId
  state : ApprovalState
  timeoutAt : List ℕ
  autoApproveOnTimeout : Bool

/-- The rows that `process_timeouts` selects. -/
def selectTimeouts (orgId : OrgId) (now : CivilTime) (rows : List SqliteApproval) :
    List SqliteApproval :=
  rows.filter fun row => row.orgId = orgId ∧ row.state = .pending ∧
    textLt row.timeoutAt now.datetime

/-- A pending approval is selected exactly when its timeout lies in the past, unless it became
due earlier on the same day. -/
theorem selected_when_due_iff {orgId : OrgId} {t now : CivilTime} {rows : List SqliteApproval}
    {row : SqliteApproval} (hrow : row ∈ rows) (horg : row.orgId = orgId)
    (hpending : row.state = .pending) (htimeout : row.timeoutAt = t.toRfc3339) :
    (row ∈ selectTimeouts orgId now rows ↔ t.time < now.time) ↔
      ¬ (t.days = now.days ∧ t.time < now.time) := by
  have hselected : row ∈ selectTimeouts orgId now rows ↔ t.days < now.days := by
    rw [selectTimeouts, List.mem_filter, decide_eq_true_iff, htimeout, CivilTime.textLt_iff]
    simp [hrow, horg, hpending]
  have hdays := @CivilTime.time_lt_of_days_lt t now
  have hdays' := @CivilTime.time_lt_of_days_lt now t
  rw [hselected]
  omega

/-- Noon on the first day of 2026. -/
def noon : CivilTime :=
  ⟨2026, 1, 1, 12, 0, 0, 0, by decide, by decide, by decide, by decide⟩

/-- A second later. -/
def afterNoon : CivilTime := { noon with second := 1, htime := by decide }

/-- The first second of the next day. -/
def nextDay : CivilTime := { noon with day := 2, hour := 0, hday := by decide, htime := by decide }

/-- A pending approval that times out at noon. -/
def noonApproval : SqliteApproval := ⟨⟨1⟩, ⟨1⟩, .pending, noon.toRfc3339, false⟩

/-- On the next day it is due and is selected. -/
theorem selected_next_day : noonApproval ∈ selectTimeouts ⟨1⟩ nextDay [noonApproval] ∧
    noon.time < nextDay.time := by
  have hselected : noonApproval ∈ selectTimeouts ⟨1⟩ nextDay [noonApproval] ↔ _ :=
    (selected_when_due_iff List.mem_cons_self rfl rfl rfl).mpr (by decide)
  exact ⟨hselected.mpr (by decide), by decide⟩

/-- A second later it is due and is not selected. -/
theorem due_not_selected : noon.time < afterNoon.time ∧
    selectTimeouts ⟨1⟩ afterNoon [noonApproval] = [] :=
  ⟨by decide, by decide⟩

/-! ## Reading timestamps -/

/-- The time formats of chrono and SQLite, with the second of an instant. A text of
`datetime('now')` has no offset, so it is not RFC 3339. -/
structure TimeFormats where
  Instant : Type
  second : Instant → ℤ
  Text : Type
  toRfc3339 : Instant → Text
  datetime : Instant → Text
  parseFromRfc3339 : Text → Option Instant
  parse_toRfc3339 : ∀ t, parseFromRfc3339 (toRfc3339 t) = some t
  parse_datetime : ∀ t, parseFromRfc3339 (datetime t) = none

/-- `parse_timestamp`, with what `Utc::now` would tell. -/
def parseTimestamp (F : TimeFormats) (now : F.Instant) (s : F.Text) : F.Instant :=
  (F.parseFromRfc3339 s).getD now

/-- A stored timestamp: when it was written, and in which format. -/
inductive StoredTime (τ : Type) where
  | rfc3339 (t : τ)
  | datetime (t : τ)

/-- The text in the column. -/
def StoredTime.text (F : TimeFormats) : StoredTime F.Instant → F.Text
  | .rfc3339 t => F.toRfc3339 t
  | .datetime t => F.datetime t

/-- The instant that was written. -/
def StoredTime.instant {τ : Type} : StoredTime τ → τ
  | .rfc3339 t | .datetime t => t

/-- The timestamps of the rows that the SQLite stores write. -/
inductive StoredRow (τ : Type) where
  | approval (timeoutAt : τ) (resolvedAt : Option τ) (createdAt : τ)
  | session (startedAt : τ) (completedAt failedAt : Option τ)
  | effect (executedAt : τ) (committedAt compensatedAt lastReplayedAt : Option τ)

/-- The columns, in the order in which the mappers read them. -/
def StoredRow.columns {τ : Type} : StoredRow τ → List (Option (StoredTime τ))
  | .approval timeoutAt resolvedAt createdAt =>
    [some (.rfc3339 timeoutAt), resolvedAt.map .datetime, some (.datetime createdAt)]
  | .session startedAt completedAt failedAt =>
    [some (.datetime startedAt), completedAt.map .datetime, failedAt.map .datetime]
  | .effect executedAt committedAt compensatedAt lastReplayedAt =>
    [some (.datetime executedAt), committedAt.map .datetime, compensatedAt.map .datetime,
      lastReplayedAt.map .datetime]

/-- The timestamps in the records of `map_approval_row`, `map_session_row` and
`map_effect_row`. Each column that cannot be parsed asks the clock by itself. -/
def StoredRow.read (F : TimeFormats) (clock : ℕ → F.Instant) (row : StoredRow F.Instant) :
    List (Option F.Instant) :=
  row.columns.mapIdx fun i column => column.map fun s => parseTimestamp F (clock i) (s.text F)

/-- Two reads of a row agree, on the written seconds, exactly if at every column of
`datetime('now')` both clocks read one instant, in the second of the write. -/
theorem reads_agree_iff (F : TimeFormats) (row : StoredRow F.Instant)
    (clock clock' : ℕ → F.Instant) :
    (row.read F clock = row.read F clock' ∧ (row.read F clock).map (Option.map F.second) =
        row.columns.map (Option.map (F.second ∘ StoredTime.instant))) ↔
      ∀ i t, row.columns[i]? = some (some (.datetime t)) →
        clock i = clock' i ∧ F.second (clock i) = F.second t := by
  rw [List.ext_getElem?_iff, List.ext_getElem?_iff, ← forall_and]
  refine forall_congr' fun i => ?_
  simp only [StoredRow.read, List.getElem?_map, List.getElem?_mapIdx]
  cases row.columns[i]? with
  | none => simp
  | some column =>
    cases column with
    | none => simp
    | some s =>
      cases s with
      | rfc3339 t => simp [parseTimestamp, StoredTime.text, StoredTime.instant, F.parse_toRfc3339]
      | datetime t => simp [parseTimestamp, StoredTime.text, StoredTime.instant, F.parse_datetime]

namespace CivilTime

/-- A number in a fixed number of digits. -/
def readNumber : ℕ → List ℕ → Option (ℕ × List ℕ)
  | 0, s => some (0, s)
  | width + 1, s =>
    match readNumber width s with
    | some (n, d :: s) => if 48 ≤ d ∧ d ≤ 57 then some (10 * n + (d - 48), s) else none
    | _ => none

/-- A number of two digits behind one of some bytes. -/
def readField (separators s : List ℕ) : Option (ℕ × List ℕ) :=
  s.head?.bind fun c => if c ∈ separators then readNumber 2 s.tail else none

/-- The nanoseconds, in the digits before the six bytes of the offset. -/
def readNano : List ℕ → Option (ℕ × List ℕ)
  | 46 :: s => (readNumber (s.length - 6) s).map (·.map (· * 10 ^ (9 - (s.length - 6))) id)
  | s => some (0, s)

/-- A time in UTC by its fields and its offset. -/
def ofFields (year month day hour minute second nano : ℕ) (offset : List ℕ) : Option CivilTime :=
  if h : (1970 ≤ year ∧ year ≤ 9999) ∧ (1 ≤ month ∧ month ≤ 12) ∧
      (1 ≤ day ∧ day ≤ monthDays year month) ∧
      (hour < 24 ∧ minute < 60 ∧ second < 60 ∧ nano < 1000000000) ∧
      offset = utc then
    some ⟨year, month, day, hour, minute, second, nano, h.1, h.2.1, h.2.2.1, h.2.2.2.1⟩
  else none

/-- `parse_from_rfc3339` of a time in UTC. -/
def parseFromRfc3339 (s : List ℕ) : Option CivilTime := do
  let (year, s) ← readNumber 4 s
  let (month, s) ← readField [45] s
  let (day, s) ← readField [45] s
  let (hour, s) ← readField [84, 116, 32] s
  let (minute, s) ← readField [58] s
  let (second, s) ← readField [58] s
  let (nano, s) ← readNano s
  ofFields year month day hour minute second nano s

/-- Digits are read back. -/
theorem readNumber_digits {width n : ℕ} (hn : n < 10 ^ width) (s : List ℕ) :
    readNumber width (digits width n ++ s) = some (n, s) := by
  induction width generalizing n s with
  | zero =>
    obtain rfl : n = 0 := by omega
    rfl
  | succ width ih =>
    rw [Nat.pow_succ] at hn
    rw [digits, List.append_assoc, readNumber, ih (by omega)]
    simp only [List.singleton_append]
    rw [if_pos (by omega)]
    congr
    omega

theorem readField_digits {separators : List ℕ} {c n : ℕ} (hc : c ∈ separators) (hn : n < 10 ^ 2)
    (s : List ℕ) : readField separators (c :: (digits 2 n ++ s)) = some (n, s) :=
  (if_pos hc).trans (readNumber_digits hn s)

/-- The digits of a fraction are counted, so each of its three widths is read back. -/
theorem readNano_fraction {nano : ℕ} (h : nano < 1000000000) :
    readNano (fraction nano ++ utc) = some (nano, utc) := by
  have hread : ∀ width n : ℕ, n < 10 ^ width → n * 10 ^ (9 - width) = nano →
      (digits width n).length = width →
      readNano (46 :: digits width n ++ utc) = some (nano, utc) := by
    intro width n hn hnano hlength
    have hwidth : (digits width n ++ utc).length - 6 = width := by
      simp [hlength, utc]
    rw [List.cons_append, readNano, hwidth, readNumber_digits hn, Option.map_some]
    simp [hnano]
  unfold fraction
  split
  · next hzero => rw [hzero]; rfl
  · split
    · exact hread 3 _ (by omega) (by omega) rfl
    · split
      · exact hread 6 _ (by omega) (by omega) rfl
      · exact hread 9 _ h (by omega) rfl

/-- Either separator is read, and what follows the time decides. -/
theorem parse_text {c : ℕ} (hc : c ∈ [84, 116, 32]) (t : CivilTime) (s : List ℕ) :
    parseFromRfc3339 (text c t ++ s) = (readNano s).bind fun x =>
      ofFields t.year t.month t.day t.hour t.minute t.second x.1 x.2 := by
  have hyear := t.hyear
  have hmonth := t.hmonth
  have htime := t.htime
  rw [text, List.append_assoc, parseFromRfc3339, readNumber_digits (by omega)]
  simp only [List.cons_append, List.append_assoc, Option.bind_eq_bind, Option.bind_some]
  rw [readField_digits (by simp) (by omega), Option.bind_some,
    readField_digits (by simp) t.day_lt, Option.bind_some, readField_digits hc (by omega),
    Option.bind_some, readField_digits (by simp) (by omega), Option.bind_some,
    readField_digits (by simp) (by omega), Option.bind_some]

/-- A written time is read back. -/
theorem parse_toRfc3339 (t : CivilTime) : parseFromRfc3339 t.toRfc3339 = some t := by
  rw [toRfc3339, List.append_assoc, parse_text (by simp),
    readNano_fraction t.htime.2.2.2]
  exact dif_pos ⟨t.hyear, t.hmonth, t.hday, t.htime, rfl⟩

/-- A text without an offset is refused. -/
theorem parse_datetime (t : CivilTime) : parseFromRfc3339 t.datetime = none := by
  rw [datetime, ← List.append_nil (text 32 t), parse_text (by simp)]
  exact dif_neg fun h => by simpa [utc] using h.2.2.2.2

/-- The formats on the points in time. -/
def civil : TimeFormats where
  Instant := CivilTime
  second := time
  Text := List ℕ
  toRfc3339 := toRfc3339
  datetime := datetime
  parseFromRfc3339 := parseFromRfc3339
  parse_toRfc3339 := parse_toRfc3339
  parse_datetime := parse_datetime

end CivilTime

/-- A session that is read a second later seems to have started a second later. -/
theorem reads_differ : (StoredRow.session noon none none).read CivilTime.civil (fun _ => noon) ≠
    (StoredRow.session noon none none).read CivilTime.civil (fun _ => afterNoon) := by
  intro h
  have hseconds := congrArg (List.map (Option.map CivilTime.time)) h
  revert hseconds
  decide

end UndoLog
