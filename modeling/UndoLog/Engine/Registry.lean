import UndoLog.Engine.Known

/-!
# Loading the tier registry

The registry starts empty and is filled from `undolog_tool_registry` by
`refresh_all_orgs`, which replaces the registrations of every organisation that has an
active tool. A row knows the name of a compensation and nothing of its arguments.
-/

namespace UndoLog

open Concurrent Machine

/-- The text of a tier column. -/
def TierLabel.text : TierLabel → String
  | .safe => "safe"
  | .compensable => "compensable"
  | .irreversible => "irreversible"

/-- A row of `undolog_tool_registry`. -/
structure ToolRow where
  orgId : OrgId
  toolName : String
  toolVersion : String
  tier : TierLabel
  irreversibilityReason : Option String
  compensationRef : Option String
  isActive : Bool

/-- `tier_from_str`. -/
def tierFromStr (s : String) (compensationRef irreversibilityReason : Option String) : ToolTier :=
  if s = "compensable" then
    .compensable (.new (compensationRef.getD "__registry_compensable__") .null)
  else if s = "irreversible" then
    .irreversible (irreversibilityReason.getD "Registered as irreversible")
  else .safe

/-- The registration that `refresh_all_orgs` makes of a row. -/
def ToolRow.registration (row : ToolRow) : ToolRegistration where
  toolName := row.toolName
  toolVersion := row.toolVersion
  tier := tierFromStr row.tier.text row.compensationRef row.irreversibilityReason

/-- A registration takes the place of the one with its name and version. -/
def insertRegistration (regs : List ToolRegistration) (reg : ToolRegistration) :
    List ToolRegistration :=
  regs.filter (fun r => ¬ (r.toolName = reg.toolName ∧ r.toolVersion = reg.toolVersion)) ++ [reg]

/-- `replace_org`. -/
def replaceOrg (orgId : OrgId) (regs : List ToolRegistration)
    (registry : List (OrgId × ToolRegistration)) : List (OrgId × ToolRegistration) :=
  registry.filter (fun r => r.1 ≠ orgId) ++
    (regs.foldl insertRegistration []).map fun reg => (orgId, reg)

/-- `refresh_all_orgs`. The rows are grouped by organisation; an organisation without
active rows keeps what it has. -/
def refreshAllOrgs (rows : List ToolRow) (registry : List (OrgId × ToolRegistration)) :
    List (OrgId × ToolRegistration) :=
  let active := rows.filter ToolRow.isActive
  (active.map ToolRow.orgId).dedup.foldl (fun registry orgId =>
    replaceOrg orgId ((active.filter fun row => row.orgId = orgId).map ToolRow.registration)
      registry) registry

/-- The registries that come from refreshes alone. -/
inductive Loaded : List (OrgId × ToolRegistration) → Prop
  | new : Loaded []
  | refresh {registry : List (OrgId × ToolRegistration)} (rows : List ToolRow)
      (h : Loaded registry) : Loaded (refreshAllOrgs rows registry)

/-! ## Where registrations come from -/

theorem mem_insertAll {regs start : List ToolRegistration} {reg : ToolRegistration}
    (h : reg ∈ regs.foldl insertRegistration start) : reg ∈ start ∨ reg ∈ regs := by
  induction regs generalizing start with
  | nil => exact .inl h
  | cons new regs ih =>
    rcases ih h with hstart | hregs
    · rcases List.mem_snoc.mp hstart with hold | rfl
      · exact .inl (List.mem_filter.mp hold).1
      · exact .inr List.mem_cons_self
    · exact .inr (List.mem_cons_of_mem _ hregs)

variable {registry : List (OrgId × ToolRegistration)} {r : OrgId × ToolRegistration}

theorem mem_replaceOrgs {regs : OrgId → List ToolRegistration} {orgs : List OrgId} :
    r ∈ orgs.foldl (fun registry orgId => replaceOrg orgId (regs orgId) registry) registry ↔
      (r.1 ∈ orgs ∧ r.2 ∈ (regs r.1).foldl insertRegistration []) ∨ r.1 ∉ orgs ∧ r ∈ registry := by
  induction orgs generalizing registry with
  | nil => simp
  | cons orgId rest ih =>
    have hone : r ∈ replaceOrg orgId (regs orgId) registry ↔ (r ∈ registry ∧ r.1 ≠ orgId) ∨
        (r.2 ∈ (regs orgId).foldl insertRegistration [] ∧ r.1 = orgId) := by
      obtain ⟨org, reg⟩ := r
      simp [replaceOrg, eq_comm (a := orgId)]
    rw [List.foldl_cons, ih, hone, List.mem_cons]
    by_cases horg : r.1 = orgId
    · subst horg
      by_cases hrest : r.1 ∈ rest <;> simp [hrest]
    · simp [horg]

theorem mem_refreshAllOrgs {rows : List ToolRow} (h : r ∈ refreshAllOrgs rows registry) :
    r ∈ registry ∨ ∃ row ∈ rows, row.isActive = true ∧ r = (row.orgId, row.registration) := by
  rcases mem_replaceOrgs.mp h with ⟨-, hreg⟩ | ⟨-, hold⟩
  · obtain ⟨row, hrow, hreg⟩ := List.mem_map.mp ((mem_insertAll hreg).resolve_left List.not_mem_nil)
    obtain ⟨hactive, horg⟩ := List.mem_filter.mp hrow
    obtain ⟨hmem, hactive⟩ := List.mem_filter.mp hactive
    exact .inr ⟨row, hmem, hactive, Prod.ext (of_decide_eq_true horg).symm hreg.symm⟩
  · exact .inl hold

theorem Loaded.row (h : Loaded registry) (hr : r ∈ registry) :
    ∃ row : ToolRow, r = (row.orgId, row.registration) := by
  induction h with
  | new => cases hr
  | refresh rows _ ih =>
    rcases mem_refreshAllOrgs hr with hold | ⟨row, -, -, hrow⟩
    · exact ih hold
    · exact ⟨row, hrow⟩

theorem Loaded.compensation (h : Loaded registry) (hr : r ∈ registry)
    {compensation : CompensationDescriptor} (htier : r.2.tier = .compensable compensation) :
    ∃ fnName, compensation = .new fnName .null := by
  obtain ⟨row, rfl⟩ := h.row hr
  change tierFromStr _ _ _ = _ at htier
  unfold tierFromStr at htier
  split at htier
  · cases htier
    exact ⟨_, rfl⟩
  · split at htier <;> cases htier

/-! ## The registry in a run -/

variable {S : Setup} {c c' : State S}

/-- The registry is one that refreshes have loaded. -/
def RegistryLoaded : Guard (system S) := fun c _ => Loaded (World.registry c.store)

/-- The registry is not refreshed. -/
def NoRefresh : Guard (system S)
  | _, .environment (.refresh _) => False
  | _, _ => True

instance (c : State S) (choice : Choice (system S)) : Decidable (NoRefresh c choice) := by
  unfold NoRefresh
  split
  · exact .isFalse id
  · exact .isTrue trivial

theorem resolved_compensation (hc : Reaches S RegistryLoaded c) {t : ℕ} {call : ToolCall}
    {compensation : CompensationDescriptor}
    (h : Resolved call (.compensable compensation) (pastOf t c)) :
    ∃ fnName, compensation = .new fnName .null := by
  refine hc.since (mem_pastOf.mp h) ?_ (fun _ _ _ _ _ _ hnew => hnew)
  intro c choice c' hc hloaded htrans htrace
  obtain ⟨o, next, -, -, hexec⟩ := htrans.of_ran htrace
  have hreply : UndoLog.resolveTier (World.registry c.store) (Oracle.pick o) call.orgId
      call.toolName call.toolVersion = .compensable compensation :=
    Except.ok.inj (congrArg Prod.fst (Option.some.inj hexec))
  obtain ⟨r, hr, -, -, htier⟩ := resolveTier_registered hreply (by rintro ⟨⟩)
  exact Loaded.compensation hloaded hr htier

end UndoLog
