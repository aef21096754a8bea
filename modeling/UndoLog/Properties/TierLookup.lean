import Mathlib.Data.List.Induction
import UndoLog.Engine.Registry

/-!
# Refreshing and asking the tier registry

A refresh replaces the registrations of every organisation that has an active tool. An
organisation whose last tool was deactivated keeps what it had. A call without a version is
given the tier of any version of its tool.
-/

namespace UndoLog

open Relational

/-! ## Refreshes -/

/-- `TierRegistry::get` -/
def TierRegistry.get (registry : List (OrgId × ToolRegistration)) (orgId : OrgId)
    (toolName toolVersion : String) : Option ToolRegistration :=
  (registry.find? fun r =>
    r.1 = orgId ∧ r.2.toolName = toolName ∧ r.2.toolVersion = toolVersion).map (·.2)

/-- The columns of `undolog_tool_registry_unique`. -/
def ToolRow.key (row : ToolRow) : OrgId × String × String :=
  (row.orgId, row.toolName, row.toolVersion)

/-- The registry answers from a table: it knows the tools with an active row, and their tiers. -/
def Converged (rows : List ToolRow) (registry : List (OrgId × ToolRegistration)) : Prop :=
  ∀ orgId toolName toolVersion,
    ((TierRegistry.get registry orgId toolName toolVersion).isSome = true ↔
      ∃ row ∈ rows, row.isActive = true ∧ row.key = (orgId, toolName, toolVersion)) ∧
    ∀ reg, TierRegistry.get registry orgId toolName toolVersion = some reg →
      ∀ row ∈ rows, row.isActive = true → row.key = (orgId, toolName, toolVersion) →
        reg.tier = row.registration.tier

variable {registry : List (OrgId × ToolRegistration)} {r : OrgId × ToolRegistration}
  {orgId : OrgId} {toolName toolVersion : String}

theorem TierRegistry.isSome_get :
    (TierRegistry.get registry orgId toolName toolVersion).isSome = true ↔ ∃ r ∈ registry,
      r.1 = orgId ∧ r.2.toolName = toolName ∧ r.2.toolVersion = toolVersion := by
  simp [TierRegistry.get]

theorem TierRegistry.mem_of_get {reg : ToolRegistration}
    (h : TierRegistry.get registry orgId toolName toolVersion = some reg) :
    (orgId, reg) ∈ registry ∧ reg.toolName = toolName ∧ reg.toolVersion = toolVersion := by
  obtain ⟨r, hfound, rfl⟩ := Option.map_eq_some_iff.mp h
  have htest := List.find?_some hfound
  obtain ⟨rfl, hname⟩ := of_decide_eq_true htest
  exact ⟨List.mem_of_find?_eq_some hfound, hname⟩

theorem insertAll_eq {regs start : List ToolRegistration}
    (h : Keyed (fun r => (r.toolName, r.toolVersion)) (start ++ regs)) :
    regs.foldl insertRegistration start = start ++ regs := by
  induction regs generalizing start with
  | nil => simp
  | cons reg rest ih =>
    have hkept : insertRegistration start reg = start ++ [reg] := by
      rw [insertRegistration, List.filter_eq_self.mpr]
      intro old hold
      rw [Keyed, List.map_append, List.nodup_append] at h
      have hne := h.2.2 _ (List.mem_map_of_mem hold) _ (List.mem_map_of_mem List.mem_cons_self)
      simpa [← not_and_or] using hne
    rw [List.foldl_cons, hkept, ih (by simpa using h), List.append_assoc, List.singleton_append]

/-- After a refresh the registry holds the active rows, and what it held of organisations
without one. -/
theorem mem_refresh {rows : List ToolRow} (hkeys : Keyed ToolRow.key rows) :
    r ∈ refreshAllOrgs rows registry ↔
      (∃ row ∈ rows, row.isActive = true ∧ r = (row.orgId, row.registration)) ∨
        (r ∈ registry ∧ ∀ row ∈ rows, row.isActive = true → row.orgId ≠ r.1) := by
  have hregs : Keyed (fun reg => (reg.toolName, reg.toolVersion))
      (((rows.filter ToolRow.isActive).filter fun row => row.orgId = r.1).map
        ToolRow.registration) := by
    rw [Keyed, List.map_map]
    refine List.Nodup.map_on ?_ ((hkeys.of_map.filter _).filter _)
    intro a ha b hb heq
    simp only [List.mem_filter, decide_eq_true_eq] at ha hb
    refine hkeys.eq ha.1.1 hb.1.1 ?_
    exact Prod.ext (ha.2.trans hb.2.symm) heq
  simp only [refreshAllOrgs]
  rw [mem_replaceOrgs, insertAll_eq hregs, List.nil_append, and_comm (b := r ∈ registry)]
  refine or_congr ?_ (and_congr_right fun _ => ?_)
  · simp only [List.mem_dedup, List.mem_map, List.mem_filter, decide_eq_true_eq]
    constructor
    · rintro ⟨-, row, ⟨⟨hrow, hactive⟩, horg⟩, hreg⟩
      exact ⟨row, hrow, hactive, Prod.ext horg.symm hreg.symm⟩
    · rintro ⟨row, hrow, hactive, rfl⟩
      exact ⟨⟨row, ⟨hrow, hactive⟩, rfl⟩, row, ⟨⟨hrow, hactive⟩, rfl⟩, rfl⟩
  · simp

/-- After a refresh the registry answers from the table that was read exactly if every
organisation that had a registration has an active row. -/
theorem converged_refresh_iff {rows : List ToolRow} (hkeys : Keyed ToolRow.key rows) :
    Converged rows (refreshAllOrgs rows registry) ↔
      ∀ r ∈ registry, ∃ row ∈ rows, row.isActive = true ∧ row.orgId = r.1 := by
  constructor
  · intro h r hr
    by_contra hnone
    have hstale : r ∈ refreshAllOrgs rows registry :=
      (mem_refresh hkeys).mpr
        (.inr ⟨hr, fun row hrow hactive heq => hnone ⟨row, hrow, hactive, heq⟩⟩)
    have hsome := TierRegistry.isSome_get.mpr ⟨r, hstale, rfl, rfl, rfl⟩
    obtain ⟨row, hrow, hactive, hkey⟩ := (h _ _ _).1.mp hsome
    exact hnone ⟨row, hrow, hactive, congrArg Prod.fst hkey⟩
  · intro h
    have hmem : ∀ r, r ∈ refreshAllOrgs rows registry ↔
        ∃ row ∈ rows, row.isActive = true ∧ r = (row.orgId, row.registration) := by
      intro r
      rw [mem_refresh hkeys]
      refine or_iff_left ?_
      rintro ⟨hr, hnone⟩
      obtain ⟨row, hrow, hactive, heq⟩ := h r hr
      exact hnone row hrow hactive heq
    intro orgId toolName toolVersion
    refine ⟨?_, fun reg hget row hrow hactive hkey => ?_⟩
    · rw [TierRegistry.isSome_get]
      constructor
      · rintro ⟨r, hr, rfl, rfl, rfl⟩
        obtain ⟨row, hrow, hactive, rfl⟩ := (hmem r).mp hr
        exact ⟨row, hrow, hactive, rfl⟩
      · rintro ⟨row, hrow, hactive, hkey⟩
        cases hkey
        exact ⟨_, (hmem _).mpr ⟨row, hrow, hactive, rfl⟩, rfl, rfl, rfl⟩
    · obtain ⟨hr, rfl, rfl⟩ := TierRegistry.mem_of_get hget
      obtain ⟨row', hrow', -, heq⟩ := (hmem _).mp hr
      cases heq
      rw [hkeys.eq hrow' hrow hkey.symm]

/-- The registry after refreshes from the successive contents of the table. -/
def refreshed (tables : List (List ToolRow)) : List (OrgId × ToolRegistration) :=
  tables.foldl (fun registry rows => refreshAllOrgs rows registry) []

theorem refreshed_snoc (tables : List (List ToolRow)) (rows : List ToolRow) :
    refreshed (tables ++ [rows]) = refreshAllOrgs rows (refreshed tables) := by
  simp [refreshed]

/-- No refresh takes away the last registration of an organisation. -/
theorem exists_refreshed_iff {tables : List (List ToolRow)}
    (hkeys : ∀ rows ∈ tables, Keyed ToolRow.key rows) (orgId : OrgId) :
    (∃ r ∈ refreshed tables, r.1 = orgId) ↔
      ∃ rows ∈ tables, ∃ row ∈ rows, row.isActive = true ∧ row.orgId = orgId := by
  induction tables using List.reverseRecOn with
  | nil => simp [refreshed]
  | append_singleton tables rows ih =>
    have hrows : Keyed ToolRow.key rows := hkeys rows (by simp)
    have hbefore := ih fun rows' hmem => hkeys rows' (List.mem_append_left _ hmem)
    simp only [refreshed_snoc, mem_refresh hrows]
    constructor
    · rintro ⟨r, ⟨row, hrow, hactive, rfl⟩ | ⟨hr, -⟩, horg⟩
      · exact ⟨rows, by simp, row, hrow, hactive, horg⟩
      · obtain ⟨old, hold, hactive⟩ := hbefore.mp ⟨r, hr, horg⟩
        exact ⟨old, List.mem_append_left _ hold, hactive⟩
    · rintro ⟨old, hold, row, hrow, hactive, horg⟩
      by_cases hnow : ∃ row ∈ rows, row.isActive = true ∧ row.orgId = orgId
      · obtain ⟨row, hrow, hactive, horg⟩ := hnow
        exact ⟨_, .inl ⟨row, hrow, hactive, rfl⟩, horg⟩
      · rcases List.mem_snoc.mp hold with hold | rfl
        · obtain ⟨r, hr, rfl⟩ := hbefore.mpr ⟨old, hold, row, hrow, hactive, horg⟩
          exact ⟨r, .inr ⟨hr, fun row hrow hactive heq => hnow ⟨row, hrow, hactive, heq⟩⟩, rfl⟩
        · exact absurd ⟨row, hrow, hactive, horg⟩ hnow

/-- After any sequence of refreshes the registry answers from the last table exactly if every
organisation with an active row in an earlier table has one in the last. -/
theorem refresh_converges_iff (earlier : List (List ToolRow)) (rows : List ToolRow)
    (hkeys : ∀ table ∈ earlier ++ [rows], Keyed ToolRow.key table) :
    Converged rows (refreshed (earlier ++ [rows])) ↔
      ∀ old ∈ earlier, ∀ row ∈ old, row.isActive = true →
        ∃ row' ∈ rows, row'.isActive = true ∧ row'.orgId = row.orgId := by
  have hearlier := exists_refreshed_iff fun table hmem =>
    hkeys table (List.mem_append_left _ hmem)
  rw [refreshed_snoc, converged_refresh_iff (hkeys rows (by simp))]
  constructor
  · intro h old hold row hrow hactive
    obtain ⟨r, hr, heq⟩ := (hearlier row.orgId).mpr ⟨old, hold, row, hrow, hactive, rfl⟩
    rw [← heq]
    exact h r hr
  · intro h r hr
    obtain ⟨old, hold, row, hrow, hactive, heq⟩ := (hearlier r.1).mp ⟨r, hr, rfl⟩
    rw [← heq]
    exact h old hold row hrow hactive

/-- A tool that can be undone. -/
def refundRow : ToolRow where
  orgId := ⟨1⟩
  toolName := "refund"
  toolVersion := "1"
  tier := .compensable
  irreversibilityReason := none
  compensationRef := none
  isActive := true

/-- The tool when it is deactivated. -/
def retiredRow : ToolRow := { refundRow with isActive := false }

/-- Another tool of the organisation. -/
def chargeRow : ToolRow := { refundRow with toolName := "charge" }

/-- A tool is deactivated and its organisation keeps another one: the next refresh drops it. -/
theorem deactivated_tool_dropped :
    Converged [retiredRow, chargeRow]
        (refreshed [[refundRow, chargeRow], [retiredRow, chargeRow]]) ∧
      TierRegistry.get (refreshed [[refundRow, chargeRow], [retiredRow, chargeRow]]) ⟨1⟩ "refund"
        "1" = none := by
  refine ⟨(refresh_converges_iff [[refundRow, chargeRow]] _ ?_).mpr ?_, by decide⟩
  · simp [Keyed, ToolRow.key, refundRow, chargeRow, retiredRow]
  · simp [refundRow, chargeRow, retiredRow]

/-- The only tool of an organisation is deactivated: the next refresh still finds it. -/
theorem stale_registration : ¬ Converged [retiredRow] (refreshed [[refundRow], [retiredRow]]) := by
  intro h
  obtain ⟨row, hrow, hactive, -⟩ := (h ⟨1⟩ "refund" "1").1.mp (by decide)
  cases List.mem_singleton.mp hrow
  cases hactive

/-! ## Lookups -/

/-- The tier of a call is the same in every iteration order exactly if the call has a version,
or the tool is registered under the empty version, or all its versions have one tier. -/
theorem resolveTier_deterministic_iff (registry : List (OrgId × ToolRegistration))
    (orgId : OrgId) (toolName toolVersion : String) :
    (∀ pick pick', resolveTier registry pick orgId toolName toolVersion =
        resolveTier registry pick' orgId toolName toolVersion) ↔
      toolVersion ≠ "" ∨ (TierRegistry.get registry orgId toolName "").isSome = true ∨
        ∀ r ∈ registry, ∀ r' ∈ registry, r.1 = orgId → r.2.toolName = toolName →
          r'.1 = orgId → r'.2.toolName = toolName → r.2.tier = r'.2.tier := by
  rw [TierRegistry.isSome_get]
  simp only [resolveTier]
  by_cases hversion : toolVersion = ""
  · subst hversion
    cases hfound : (registry.filter fun r => r.1 = orgId ∧ r.2.toolName = toolName).find?
        fun r => r.2.toolVersion = "" with
    | some r =>
      have hempty := List.find?_some hfound
      obtain ⟨hr, htest⟩ := List.mem_filter.mp (List.mem_of_find?_eq_some hfound)
      obtain ⟨horg, hname⟩ := of_decide_eq_true htest
      simp only [implies_true, true_iff]
      exact .inr (.inl ⟨r, hr, horg, hname, of_decide_eq_true hempty⟩)
    | none =>
      have hnone : ¬ ∃ r ∈ registry, r.1 = orgId ∧ r.2.toolName = toolName ∧
          r.2.toolVersion = "" := by
        rintro ⟨r, hr, horg, hname, hempty⟩
        refine List.find?_eq_none.mp hfound r (List.mem_filter.mpr ⟨hr, ?_⟩) (decide_eq_true hempty)
        exact decide_eq_true ⟨horg, hname⟩
      simp only [hnone, ne_eq, not_true_eq_false, false_or, if_true]
      obtain ⟨rows, hrows⟩ : ∃ rows, rows = registry.filter fun r =>
          r.1 = orgId ∧ r.2.toolName = toolName := ⟨_, rfl⟩
      have hmem : ∀ r, r ∈ rows ↔ r ∈ registry ∧ r.1 = orgId ∧ r.2.toolName = toolName := by
        simp [hrows]
      rw [← hrows]
      constructor
      · intro h r hr r' hr' horg hname horg' hname'
        obtain ⟨pick, hpick⟩ := exists_limitOne ((hmem r).mpr ⟨hr, horg, hname⟩)
        obtain ⟨pick', hpick'⟩ := exists_limitOne ((hmem r').mpr ⟨hr', horg', hname'⟩)
        have hsame := h pick pick'
        rw [hpick, hpick'] at hsame
        exact hsame
      · intro h pick pick'
        by_cases hnil : rows = []
        · rw [limitOne_eq_none.mpr hnil, limitOne_eq_none.mpr hnil]
        · obtain ⟨x, hx⟩ := limitOne_of_ne_nil hnil pick
          obtain ⟨y, hy⟩ := limitOne_of_ne_nil hnil pick'
          obtain ⟨hxr, horg, hname⟩ := (hmem x).mp (limitOne_mem hx)
          obtain ⟨hyr, horg', hname'⟩ := (hmem y).mp (limitOne_mem hy)
          rw [hx, hy]
          exact h x hxr y hyr horg hname horg' hname'
  · simp [hversion]

/-- Two versions of one tool, one of them free to run. -/
theorem versionless_tier_differs :
    resolveTier [(⟨1⟩, ⟨"pay", "1", .safe⟩), (⟨1⟩, ⟨"pay", "2", .irreversible "money"⟩)] 0 ⟨1⟩
        "pay" "" ≠
      resolveTier [(⟨1⟩, ⟨"pay", "1", .safe⟩), (⟨1⟩, ⟨"pay", "2", .irreversible "money"⟩)] 1 ⟨1⟩
        "pay" "" := by
  rintro ⟨⟩

end UndoLog
