import Mathlib.Data.List.DropRight
import Mathlib.Data.Set.Finite.Lemmas

/-!
# Route labels of the HTTP metrics

Every request to a route behind `StructuredLogging` is published under a route label, before
anybody has asked who sent it. `metricRoute` folds the decision endpoints into one label for
each action and keeps every other path as it is.
-/

namespace UndoLog.Proxy

/-- A request path. -/
abbrev Path : Type := List Char

/-- The prefix of the approval endpoints. -/
def approvalsPath : Path := "/approvals/".toList

/-- The routes that the proxy mounts behind `StructuredLogging`. The ones that end in a slash
stand for everything below them. -/
def Mounted (path : Path) : Prop :=
  path ∈ ["/mcp/tool_call".toList, "/events".toList, "/approvals".toList,
    "/api/v1/admin/dead-letters".toList] ∨
  approvalsPath <+: path ∨ "/api/v1/admin/dead-letters/".toList <+: path

/-- `metricRoute`: a path that holds an approval id and an action is kept without the id. -/
def metricRoute (path : Path) : Path :=
  if approvalsPath <+: path then
    let rest := path.drop approvalsPath.length
    if '/' ∈ rest then
      let suffix := (rest.dropWhile (· ≠ '/')).rdropWhile (· = '/')
      if suffix = "/approve".toList ∨ suffix = "/reject".toList then
        approvalsPath ++ "\x7bid\x7d".toList ++ suffix
      else path
    else path
  else path

/-- The route labels that `observeHTTP` has passed to the registry. -/
def routeLabels (requests : List Path) : Finset Path := (requests.map metricRoute).toFinset

/-- A decision endpoint: one id and an action, with any number of slashes after it. -/
def DecisionPath (path : Path) : Prop :=
  ∃ id action n, '/' ∉ id ∧ action ∈ ["/approve".toList, "/reject".toList] ∧
    path = approvalsPath ++ (id ++ (action ++ List.replicate n '/'))

/-- The labels of the decision endpoints. -/
def decisionLabels : Set Path :=
  {approvalsPath ++ "\x7bid\x7d".toList ++ "/approve".toList,
    approvalsPath ++ "\x7bid\x7d".toList ++ "/reject".toList}

theorem metricRoute_decision {path : Path} (h : DecisionPath path) :
    metricRoute path ∈ decisionLabels := by
  obtain ⟨id, action, n, hid, haction, rfl⟩ := h
  have hdrop : (id ++ (action ++ List.replicate n '/')).dropWhile (· ≠ '/') =
      action ++ List.replicate n '/' := by
    rw [List.dropWhile_append_of_pos]
    · rcases List.mem_pair.mp haction with rfl | rfl <;> rfl
    · rintro c hc
      exact decide_eq_true fun hslash => hid (hslash ▸ hc)
  have htrim : (action ++ List.replicate n '/').rdropWhile (· = '/') = action := by
    rw [List.rdropWhile, List.reverse_append, List.reverse_replicate,
      List.dropWhile_append_of_pos (by simp)]
    rcases List.mem_pair.mp haction with rfl | rfl <;> rfl
  have hslash : '/' ∈ id ++ (action ++ List.replicate n '/') := by
    rcases List.mem_pair.mp haction with rfl | rfl <;> simp
  rw [metricRoute, if_pos (List.prefix_append _ _)]
  simp only [List.drop_left, hslash, if_true, hdrop, htrim]
  rcases List.mem_pair.mp haction with rfl | rfl <;> simp [decisionLabels]

theorem metricRoute_other {path : Path} (h : ¬ DecisionPath path) : metricRoute path = path := by
  unfold metricRoute
  split
  · next happrovals =>
    obtain ⟨rest, rfl⟩ := happrovals
    simp only [List.drop_left]
    split
    · split
      · next haction =>
        refine absurd ⟨rest.takeWhile (· ≠ '/'), _,
          ((rest.dropWhile (· ≠ '/')).rtakeWhile (· = '/')).length, ?_,
          List.mem_pair.mpr haction, ?_⟩ h
        · intro hmem
          simpa using List.mem_takeWhile_imp hmem
        · have hslash : ∀ c ∈ (rest.dropWhile (· ≠ '/')).rtakeWhile (· = '/'), c = '/' := by
            intro c hc
            simpa using List.mem_rtakeWhile_imp hc
          rw [← List.eq_replicate_of_mem hslash, List.rdropWhile_append_rtakeWhile,
            List.takeWhile_append_dropWhile]
      · rfl
    · rfl
  · rfl

/-- What is published of requests with paths in a set has a bounded number of values exactly if
the labels of the set are finite. -/
theorem routeLabels_bounded (paths : Set Path) :
    (∃ K, ∀ requests, (∀ path ∈ requests, path ∈ paths) → (routeLabels requests).card ≤ K) ↔
      (Set.image metricRoute paths).Finite := by
  constructor
  · rintro ⟨K, hK⟩
    by_contra hinfinite
    obtain ⟨labels, hsub, hcard⟩ := Set.Infinite.exists_subset_card_eq hinfinite (K + 1)
    choose! path hpath using hsub
    have hlabels : routeLabels (labels.toList.map path) = labels := by
      ext label
      simp only [routeLabels, List.map_map, List.mem_toFinset, List.mem_map, Finset.mem_toList]
      constructor
      · rintro ⟨label', hmem, rfl⟩
        rwa [Function.comp_apply, (hpath hmem).2]
      · exact fun hmem => ⟨label, hmem, (hpath hmem).2⟩
    have hbound := hK (labels.toList.map path) fun p hp => by
      obtain ⟨label, hmem, rfl⟩ := List.mem_map.mp hp
      exact (hpath (Finset.mem_toList.mp hmem)).1
    rw [hlabels] at hbound
    omega
  · intro hfinite
    refine ⟨hfinite.toFinset.card, fun _ hpaths => Finset.card_le_card fun label hlabel => ?_⟩
    obtain ⟨path, hpath, rfl⟩ := List.mem_map.mp (List.mem_toFinset.mp hlabel)
    exact hfinite.mem_toFinset.mpr ⟨path, hpaths path hpath, rfl⟩

/-- Requests with paths in a set use a bounded number of route labels exactly if finitely many
of the paths are not decision endpoints. -/
theorem route_labels_bounded_iff (paths : Set Path) :
    (∃ K, ∀ requests, (∀ path ∈ requests, path ∈ paths) → (routeLabels requests).card ≤ K) ↔
      {path ∈ paths | ¬ DecisionPath path}.Finite := by
  rw [routeLabels_bounded]
  constructor
  · refine fun hfinite => hfinite.subset fun path hpath => ?_
    exact ⟨path, hpath.1, metricRoute_other hpath.2⟩
  · intro hfinite
    have hlabels : decisionLabels.Finite := by simp [decisionLabels]
    refine (hlabels.union hfinite).subset ?_
    rintro _ ⟨path, hpath, rfl⟩
    by_cases hdecision : DecisionPath path
    · exact .inl (metricRoute_decision hdecision)
    · exact .inr (by rw [metricRoute_other hdecision]; exact ⟨hpath, hdecision⟩)

/-- Paths below `/approvals/` without an action give any number of labels. -/
theorem route_labels_unbounded : ¬ ∃ K, ∀ requests, (∀ path ∈ requests, Mounted path) →
    (routeLabels requests).card ≤ K := by
  rintro ⟨K, hK⟩
  have hfinite := (routeLabels_bounded {path | Mounted path}).mp ⟨K, hK⟩
  refine Set.infinite_of_injective_forall_mem (f := fun n : ℕ => approvalsPath ++
    List.replicate n 'a') ?_ (fun n => ?_) hfinite
  · intro n m heq
    simpa using congrArg List.length heq
  · refine ⟨_, .inr (.inl (List.prefix_append _ _)), metricRoute_other ?_⟩
    rintro ⟨id, action, k, -, haction, heq⟩
    have hmem : '/' ∈ List.replicate n 'a' := by
      rw [List.append_cancel_left heq]
      rcases List.mem_pair.mp haction with rfl | rfl <;> simp
    cases List.eq_of_mem_replicate hmem

end UndoLog.Proxy
