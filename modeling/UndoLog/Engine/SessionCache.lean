import Mathlib.Data.List.AList
import Mathlib.Data.List.MinMax
import UndoLog.Store.Approvals

/-!
# The session cache of the engine

A bounded map of session records. An entry that has expired is removed when it is asked for, and
a new key makes room by removing an oldest entry. What the cache answers is compared with the
history of its inserts, evictions and invalidations.
-/

namespace UndoLog.SessionCache

structure SessionKey where
  orgId : OrgId
  sessionId : SessionId
deriving DecidableEq

/-- The key of a record. -/
def keyOf (record : SessionRecord) : SessionKey := ⟨record.orgId, record.sessionId⟩

structure CacheEntry where
  record : SessionRecord
  insertedAt : ℕ

structure CacheConfig where
  ttlSecs : ℕ
  maxEntries : ℕ

/-- `ttl_duration`, in nanoseconds like the clock. -/
def CacheConfig.ttlDuration (config : CacheConfig) : ℕ := config.ttlSecs * 1000000000

/-- The entries by their keys. -/
abbrev Entries : Type := AList fun _ : SessionKey => CacheEntry

variable (config : CacheConfig)

/-- `SessionCache::get`. The clock is read under the read lock and, unless the entry is found
there, once more under the write lock. -/
def get (key : SessionKey) (now later : ℕ) (entries : Entries) : Option SessionRecord × Entries :=
  match entries.lookup key with
  | some entry =>
    if now - entry.insertedAt ≤ config.ttlDuration then (some entry.record, entries)
    else if config.ttlDuration < later - entry.insertedAt then (none, entries.erase key)
    else (none, entries)
  | none => (none, entries)

/-- The key that `min_by_key` finds. Among entries of one time it depends on the order of the
hash map. -/
def oldest (pick : ℕ) (entries : Entries) : Option SessionKey :=
  limitOne pick ((entries.entries.filter fun e =>
    entries.entries.all fun f => e.2.insertedAt ≤ f.2.insertedAt).map Sigma.fst)

/-- The entry that `insert` removes. -/
def evicted (key : SessionKey) (pick : ℕ) (entries : Entries) : Option SessionKey :=
  if 0 < config.maxEntries ∧ key ∉ entries ∧ config.maxEntries ≤ entries.keys.length then
    oldest pick entries
  else none

/-- `SessionCache::insert` -/
def insert (record : SessionRecord) (now pick : ℕ) (entries : Entries) : Entries :=
  (match evicted config (keyOf record) pick entries with
    | some key => entries.erase key
    | none => entries).insert (keyOf record) ⟨record, now⟩

/-- `SessionCache::invalidate` -/
def invalidate (key : SessionKey) (entries : Entries) : Entries := entries.erase key

/-! ## Histories -/

/-- What has changed the cache. -/
inductive Event where
  | inserted (entry : CacheEntry) (evicted : Option SessionKey)
  | invalidated (key : SessionKey)

/-- The last insert of a key, unless an eviction or an invalidation of the key has followed it.
The history begins with what happened last. -/
def standing (key : SessionKey) : List Event → Option CacheEntry
  | [] => none
  | .inserted entry evicted :: log =>
    if keyOf entry.record = key then some entry
    else if evicted = some key then none
    else standing key log
  | .invalidated key' :: log => if key' = key then none else standing key log

/-- A sequence of operations under a clock that does not go back. -/
inductive Run : List Event → Entries → ℕ → Prop
  | start (now : ℕ) : Run [] ∅ now
  | get {log entries now} (h : Run log entries now) (key : SessionKey) {t t' : ℕ} (hnow : now ≤ t)
      (hlater : t ≤ t') : Run log (get config key t t' entries).2 t'
  | insert {log entries now} (h : Run log entries now) (record : SessionRecord) (pick : ℕ) {t : ℕ}
      (hnow : now ≤ t) :
      Run (.inserted ⟨record, t⟩ (evicted config (keyOf record) pick entries) :: log)
        (insert config record t pick entries) t
  | invalidate {log entries now} (h : Run log entries now) (key : SessionKey) :
      Run (.invalidated key :: log) (invalidate key entries) now

variable {config} {log : List Event} {entries : Entries} {now t t' pick : ℕ}
  {key other : SessionKey} {record : SessionRecord}

/-! ## Evictions -/

/-- A cache that is not empty has an oldest entry. -/
theorem oldest_ne_none (h : entries.keys ≠ []) : oldest pick entries ≠ none := by
  rw [oldest, Ne, limitOne_eq_none, List.map_eq_nil_iff]
  cases hfirst : List.argmin (fun e => e.2.insertedAt) entries.entries with
  | none =>
    rw [List.argmin_eq_none] at hfirst
    exact absurd (List.map_eq_nil_iff.mpr hfirst) h
  | some e =>
    refine List.ne_nil_of_mem (List.mem_filter.mpr ⟨List.argmin_mem hfirst, ?_⟩)
    simpa using fun f hf => List.le_of_mem_argmin hf hfirst

/-- Only a new key in a full cache evicts, and then an oldest entry. -/
theorem evicted_some (h : evicted config key pick entries = some other) :
    key ∉ entries ∧ config.maxEntries ≤ entries.keys.length ∧
      ∃ entry, entries.lookup other = some entry ∧
        ∀ k e, entries.lookup k = some e → entry.insertedAt ≤ e.insertedAt := by
  unfold evicted at h
  split at h
  · next hfull =>
    obtain ⟨e, hmem, rfl⟩ := List.mem_map.mp (limitOne_mem h)
    obtain ⟨he, hmin⟩ := List.mem_filter.mp hmem
    refine ⟨hfull.2.1, hfull.2.2, e.2, AList.mem_lookup_iff.mpr he, fun k e' he' => ?_⟩
    simpa using List.all_eq_true.mp hmin ⟨k, e'⟩ (AList.mem_lookup_iff.mp he')
  · cases h

theorem lookup_erase : (entries.erase key).lookup other =
    if key = other then none else entries.lookup other := by
  by_cases hkey : key = other
  · rw [if_pos hkey, hkey, AList.lookup_erase]
  · rw [if_neg hkey, AList.lookup_erase_ne (Ne.symm hkey)]

/-- An insert shows under its own key and hides the entry it evicts. -/
theorem lookup_insert : (insert config record now pick entries).lookup key =
    if keyOf record = key then some ⟨record, now⟩
    else if evicted config (keyOf record) pick entries = some key then none
    else entries.lookup key := by
  unfold insert
  by_cases hkey : keyOf record = key
  · rw [if_pos hkey, ← hkey, AList.lookup_insert]
  · rw [if_neg hkey, AList.lookup_insert_ne (Ne.symm hkey)]
    cases evicted config (keyOf record) pick entries with
    | none => rfl
    | some other => simp only [lookup_erase, Option.some.injEq]

theorem length_erase_le : (entries.erase key).keys.length ≤ entries.keys.length := by
  rw [AList.keys_erase]
  exact List.length_erase_le

/-- What is found and fresh is the answer. -/
theorem get_eq_some_iff : (get config key t t' entries).1 = some record ↔
    ∃ entry ∈ entries.lookup key, t - entry.insertedAt ≤ config.ttlDuration ∧
      entry.record = record := by
  unfold get
  cases entries.lookup key with
  | none => simp
  | some entry =>
    simp only [Option.mem_def, Option.some.injEq, exists_eq_left']
    split
    · next hfresh => simp only [hfresh, true_and, Option.some.injEq]
    · next hold =>
      refine ⟨?_, fun h => absurd h.1 hold⟩
      split <;> rintro ⟨⟩

/-- An insert keeps the bound. -/
theorem length_insert (hmax : 1 ≤ config.maxEntries) (h : entries.keys.length ≤ config.maxEntries) :
    (insert config record now pick entries).keys.length ≤ config.maxEntries := by
  rw [insert, AList.keys_insert, List.length_cons]
  cases hevicted : evicted config (keyOf record) pick entries with
  | none =>
    by_cases hmem : keyOf record ∈ entries
    · have hpos := List.length_pos_of_mem (AList.mem_keys.mp hmem)
      rw [List.length_erase_of_mem (AList.mem_keys.mp hmem)]
      omega
    · have hroom : entries.keys.length < config.maxEntries := by
        by_contra hfull
        rw [evicted, if_pos ⟨hmax, hmem, Nat.not_lt.mp hfull⟩] at hevicted
        exact oldest_ne_none (List.ne_nil_of_length_pos (by omega)) hevicted
      exact Nat.succ_le_of_lt (List.length_erase_le.trans_lt hroom)
  | some other =>
    obtain ⟨-, -, entry, hlookup, -⟩ := evicted_some hevicted
    have hmem : other ∈ entries.keys :=
      AList.mem_keys.mp (AList.lookup_isSome.mp (hlookup ▸ rfl))
    have hpos := List.length_pos_of_mem hmem
    refine (Nat.succ_le_succ List.length_erase_le).trans ?_
    rw [AList.keys_erase, List.length_erase_of_mem hmem]
    omega

/-! ## Runs -/

/-- The cache holds the standing inserts, except for some that have expired. -/
structure Agrees (config : CacheConfig) (log : List Event) (entries : Entries) (now : ℕ) :
    Prop where
  bounded : entries.keys.length ≤ config.maxEntries
  lookup : ∀ key, entries.lookup key = standing key log ∨
    entries.lookup key = none ∧
      ∃ entry ∈ standing key log, config.ttlDuration < now - entry.insertedAt

section

variable (h : Agrees config log entries now)
include h

theorem Agrees.later (hnow : now ≤ t) : Agrees config log entries t := by
  refine ⟨h.bounded, fun key => (h.lookup key).imp_right ?_⟩
  rintro ⟨hnone, entry, hentry, hexpired⟩
  exact ⟨hnone, entry, hentry, by omega⟩

theorem Agrees.get (hnow : now ≤ t) (hlater : t ≤ t') :
    Agrees config log (get config key t t' entries).2 t' := by
  have hsame := h.later (hnow.trans hlater)
  unfold SessionCache.get
  cases hlookup : entries.lookup key with
  | none => exact hsame
  | some entry =>
    dsimp only
    split
    · exact hsame
    · next hold =>
      rw [if_pos (by omega)]
      refine ⟨length_erase_le.trans h.bounded, fun k => ?_⟩
      rw [lookup_erase]
      split
      · next hkey =>
        -- the entry that is removed has expired
        rcases h.lookup key with hstanding | ⟨hnone, -⟩
        · exact .inr ⟨rfl, entry, hkey ▸ (hstanding.symm.trans hlookup), by omega⟩
        · cases hlookup.symm.trans hnone
      · exact hsame.lookup k

/-- An insert is logged with what it evicts. -/
theorem Agrees.insert (hmax : 1 ≤ config.maxEntries) (hnow : now ≤ t) :
    Agrees config (.inserted ⟨record, t⟩ (evicted config (keyOf record) pick entries) :: log)
      (insert config record t pick entries) t := by
  refine ⟨length_insert hmax h.bounded, fun key => ?_⟩
  rw [lookup_insert, standing]
  split
  · exact .inl rfl
  · split
    · exact .inl rfl
    · exact (h.later hnow).lookup key

/-- An invalidation is logged. -/
theorem Agrees.invalidate :
    Agrees config (.invalidated key :: log) (invalidate key entries) now := by
  refine ⟨length_erase_le.trans h.bounded, fun k => ?_⟩
  rw [SessionCache.invalidate, lookup_erase, standing]
  split
  · exact .inl rfl
  · exact h.lookup k

end

/-- Along every run the cache agrees with its log. -/
theorem Run.agrees (hmax : 1 ≤ config.maxEntries) (h : Run config log entries now) :
    Agrees config log entries now := by
  induction h with
  | start now => exact ⟨Nat.zero_le _, fun key => .inl rfl⟩
  | get _ key hnow hlater ih => exact ih.get hnow hlater
  | insert _ record pick hnow ih => exact ih.insert hmax hnow
  | invalidate _ key ih => exact ih.invalidate

/-- The cache is a bounded map: it never holds more than its limit, it answers with the last insert
of a key unless that was removed or has expired, and an insert removes at most one other entry, an
oldest one, to make room for a new key. -/
theorem cache_bounded_map (hmax : 1 ≤ config.maxEntries) (h : Run config log entries now) :
    entries.keys.length ≤ config.maxEntries ∧
    (∀ key t t' record, now ≤ t → t ≤ t' → ((get config key t t' entries).1 = some record ↔
      ∃ entry ∈ standing key log, t - entry.insertedAt ≤ config.ttlDuration ∧
        entry.record = record)) ∧
    ∀ record t pick key, key ≠ keyOf record →
      (insert config record t pick entries).lookup key = entries.lookup key ∨
      evicted config (keyOf record) pick entries = some key ∧
        (insert config record t pick entries).lookup key = none ∧ keyOf record ∉ entries ∧
        entries.keys.length = config.maxEntries ∧
        ∃ entry, entries.lookup key = some entry ∧
          ∀ k e, entries.lookup k = some e → entry.insertedAt ≤ e.insertedAt := by
  have hagrees := h.agrees hmax
  refine ⟨hagrees.bounded, fun key t t' record hnow hlater => ?_, fun record t pick key hne => ?_⟩
  · rw [get_eq_some_iff]
    rcases hagrees.lookup key with hstanding | ⟨hnone, entry, hentry, hexpired⟩
    · rw [hstanding]
    · rw [hnone]
      refine ⟨by rintro ⟨_, ⟨⟩, _⟩, ?_⟩
      rintro ⟨other, hother, hfresh, -⟩
      cases Option.mem_unique hentry hother
      omega
  · rw [lookup_insert, if_neg (Ne.symm hne)]
    split
    · next hevicted =>
      obtain ⟨hnew, hfull, holdest⟩ := evicted_some hevicted
      exact .inr ⟨hevicted, rfl, hnew, le_antisymm hagrees.bounded hfull, holdest⟩
    · exact .inl rfl

/-- A second record has taken the place of the first in a cache for one. -/
theorem replaced_answers : ∃ log entries, Run ⟨60, 1⟩ log entries 7 ∧ entries.keys.length ≤ 1 ∧
    (get ⟨60, 1⟩ ⟨⟨1⟩, ⟨3⟩⟩ 8 9 entries).1 = some (newSession ⟨1⟩ ⟨3⟩ 0) := by
  have hrun := ((Run.start 0 : Run ⟨60, 1⟩ [] ∅ 0).insert (newSession ⟨1⟩ ⟨2⟩ 0) 0
    (Nat.zero_le 5)).insert (newSession ⟨1⟩ ⟨3⟩ 0) 0 (by decide : 5 ≤ 7)
  obtain ⟨hsize, hget, -⟩ := cache_bounded_map le_rfl hrun
  exact ⟨_, _, hrun, hsize, (hget _ 8 9 _ (by decide) (by decide)).mpr ⟨_, rfl, by decide, rfl⟩⟩

end UndoLog.SessionCache
