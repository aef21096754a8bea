import Mathlib.Data.Rat.Defs
import Mathlib.Logic.Relation

/-!
# Reloading the configuration of a proxy

The proxy loads its configuration file when it starts. Later the watcher notes the stamp of the
file, and from then on polls it: a stamp that differs from the one it has noted makes it load
the file again. Somebody else writes the file at any time.
-/

namespace UndoLog.Proxy.ConfigWatch

/-- The settings that can be reloaded, as `LoadConfig` returns them. -/
structure Config where
  logLevel : String
  rateLimitRPS : ℚ
  rateLimitBurst : ℤ

/-- The levels of the logger. -/
inductive Level where
  | debug
  | info
  | warn
  | error
deriving DecidableEq

/-- `ParseLevel` -/
def parseLevel (name : String) : Level :=
  if name = "debug" then .debug
  else if name = "warn" then .warn
  else if name = "error" then .error
  else .info

/-- What is known of the versions of a file: the stamp that `stat` returns, and what
`LoadConfig` makes of it. -/
structure Files (ν τ : Type) where
  stamp : ν → τ
  loadConfig : ν → Option Config

/-- How far the proxy has come. -/
inductive Phase (τ : Type) where
  | starting
  /-- The configuration is loaded, and the watcher does not exist yet. -/
  | loaded
  /-- The watcher waits for its next tick. -/
  | idle (stamp : τ)
  /-- A poll has noted a new stamp and will load the file. -/
  | noted (stamp : τ)

/-- The file with the stamps it has had, the proxy, and its running settings. There is no limit
if no limiter is mounted. -/
structure State (ν τ : Type) where
  file : ν
  seen : List τ
  phase : Phase τ
  level : Level
  limit : Option (ℚ × ℤ)

variable {ν τ : Type} {F : Files ν τ}

/-- Before the proxy starts. -/
def State.initial (F : Files ν τ) (file : ν) : State ν τ where
  file
  seen := [F.stamp file]
  phase := .starting
  level := .info
  limit := none

/-- `main`: the level, and the limiter if there is a rate. -/
def State.boot (s : State ν τ) (cfg : Config) : State ν τ :=
  { s with
    phase := .loaded
    level := parseLevel cfg.logLevel
    limit := if 0 < cfg.rateLimitRPS then some (cfg.rateLimitRPS, cfg.rateLimitBurst) else none }

/-- `applyReload` -/
def State.applyReload (s : State ν τ) (cfg : Config) : State ν τ :=
  { s with
    level := parseLevel cfg.logLevel
    limit := s.limit.map fun _ => (cfg.rateLimitRPS, cfg.rateLimitBurst) }

/-- The settings of a version that loads are running. -/
def Applied (F : Files ν τ) (s : State ν τ) : Prop :=
  ∀ cfg, F.loadConfig s.file = some cfg → s.level = parseLevel cfg.logLevel ∧
    ∀ limit ∈ s.limit, limit = (cfg.rateLimitRPS, cfg.rateLimitBurst)

/-- A step of the proxy. -/
inductive ProxyStep (F : Files ν τ) (s : State ν τ) : State ν τ → Prop
  /-- The first `LoadConfig`. The proxy does not start with an invalid file. -/
  | start {cfg : Config} (h : s.phase = .starting) (hload : F.loadConfig s.file = some cfg) :
      ProxyStep F s (s.boot cfg)
  /-- The `stat` of `newConfigWatcher`. -/
  | seed (h : s.phase = .loaded) : ProxyStep F s { s with phase := .idle (F.stamp s.file) }
  /-- The `stat` of a poll that sees the noted stamp. -/
  | unchanged (h : s.phase = .idle (F.stamp s.file)) : ProxyStep F s s
  /-- The `stat` of a poll that sees another stamp. -/
  | changed {stamp : τ} (h : s.phase = .idle stamp) (hne : F.stamp s.file ≠ stamp) :
      ProxyStep F s { s with phase := .noted (F.stamp s.file) }
  /-- The `LoadConfig` of a poll. -/
  | reload {stamp : τ} {cfg : Config} (h : s.phase = .noted stamp)
      (hload : F.loadConfig s.file = some cfg) :
      ProxyStep F s ({ s with phase := .idle stamp }.applyReload cfg)
  | keep {stamp : τ} (h : s.phase = .noted stamp) (hload : F.loadConfig s.file = none) :
      ProxyStep F s { s with phase := .idle stamp }

/-- A step of the proxy, or a write with a new stamp. -/
inductive Step (F : Files ν τ) (guard : State ν τ → Prop) (s : State ν τ) : State ν τ → Prop
  | write (file : ν) (h : F.stamp file ∉ s.seen) :
      Step F guard s { s with file, seen := F.stamp file :: s.seen }
  | proxy {s' : State ν τ} (h : ProxyStep F s s') (hguard : s.phase = .loaded → guard s) :
      Step F guard s s'

/-- Any number of steps, with a condition on the state that the watcher is made in. -/
abbrev Run (F : Files ν τ) (guard : State ν τ → Prop) : State ν τ → State ν τ → Prop :=
  Relation.ReflTransGen (Step F guard)

/-- A whole poll without a write in between: its `stat` sees the noted stamp, or it goes on to
load the file. -/
def Poll (F : Files ν τ) (s s' : State ν τ) : Prop :=
  (s.phase = .idle (F.stamp s.file) ∧ s' = s) ∨
    ∃ stamp, s.phase = .idle stamp ∧ F.stamp s.file ≠ stamp ∧
      ProxyStep F { s with phase := .noted (F.stamp s.file) } s'

/-- What the watcher is for: once a poll has run, the version in place is running until it is
replaced, and only a version that loads changes a setting. -/
structure Follows (F : Files ν τ) (s : State ν τ) : Prop where
  polled : ∀ s' s'', Poll F s s' → Relation.ReflTransGen (ProxyStep F) s' s'' → Applied F s''
  kept : ∀ s', ProxyStep F s s' → F.loadConfig s.file = none →
    s'.level = s.level ∧ s'.limit = s.limit

variable {s s' : State ν τ}

/-- The stamp that the watcher has noted. -/
def Phase.stamp : Phase τ → Option τ
  | .starting | .loaded => none
  | .idle stamp | .noted stamp => some stamp

/-- A version is running when the watcher has noted its stamp and does not load it. -/
structure Tracked (F : Files ν τ) (s : State ν τ) : Prop where
  seen : F.stamp s.file ∈ s.seen
  noted : ∀ stamp ∈ s.phase.stamp, stamp ∈ s.seen
  applied : s.phase = .idle (F.stamp s.file) → Applied F s

/-- A poll that has noted a stamp ends with the version in place running, if it loads. -/
theorem applied_of_noted {stamp : τ} (h : s.phase = .noted stamp) (hstep : ProxyStep F s s') :
    s'.file = s.file ∧ s'.seen = s.seen ∧ s'.phase = .idle stamp ∧ Applied F s' := by
  cases hstep with
  | start h' | seed h' | unchanged h' | changed h' => cases h.symm.trans h'
  | reload h' hload =>
    cases h.symm.trans h'
    refine ⟨rfl, rfl, rfl, fun cfg' hload' => ?_⟩
    cases hload.symm.trans hload'
    refine ⟨rfl, fun limit hlimit => ?_⟩
    obtain ⟨old, -, rfl⟩ := Option.map_eq_some_iff.mp hlimit
    rfl
  | keep h' hload =>
    cases h.symm.trans h'
    refine ⟨rfl, rfl, rfl, fun cfg' hload' => ?_⟩
    cases hload.symm.trans hload'

theorem Tracked.step (h : Tracked F s) (hstep : Step F (Applied F) s s') : Tracked F s' := by
  obtain ⟨hseen, hnoted, happlied⟩ := h
  cases hstep with
  | write file hnew =>
    refine ⟨List.mem_cons_self, fun stamp hstamp => List.mem_cons_of_mem _ (hnoted stamp hstamp),
      fun hphase => absurd (hnoted _ ?_) hnew⟩
    exact congrArg Phase.stamp hphase
  | proxy hproxy hguard =>
    cases hphase : s.phase with
    | noted stamp =>
      obtain ⟨hfile, hsame, hidle, happlied'⟩ := applied_of_noted hphase hproxy
      rw [hphase] at hnoted
      exact ⟨by rwa [hfile, hsame], by rwa [hidle, hsame], fun _ => happlied'⟩
    | _ =>
      cases hproxy with
      | start => exact ⟨hseen, by rintro _ ⟨⟩, by rintro ⟨⟩⟩
      | seed h => exact ⟨hseen, by rintro _ ⟨⟩; exact hseen, fun _ => hguard h⟩
      | unchanged => exact ⟨hseen, hnoted, happlied⟩
      | changed => exact ⟨hseen, by rintro _ ⟨⟩; exact hseen, by rintro ⟨⟩⟩
      | reload h | keep h => cases hphase.symm.trans h

/-- After a whole poll the version in place is noted and running. -/
theorem Tracked.poll (h : Tracked F s) (hpoll : Poll F s s') :
    s'.phase = .idle (F.stamp s'.file) ∧ Applied F s' := by
  rcases hpoll with ⟨hidle, rfl⟩ | ⟨stamp, -, -, hstep⟩
  · exact ⟨hidle, h.applied hidle⟩
  · obtain ⟨hfile, -, hidle, happlied⟩ := applied_of_noted rfl hstep
    exact ⟨by rw [hidle, hfile], happlied⟩

/-- If the version in place when the watcher is made is the one that is running, or does not
load, then every later version is followed. -/
theorem follows_of_applied (F : Files ν τ) (file : ν) (s : State ν τ)
    (hrun : Run F (Applied F) (.initial F file) s) : Follows F s := by
  have htracked : Tracked F s := by
    induction hrun with
    | refl => exact ⟨List.mem_cons_self, by rintro _ ⟨⟩, by rintro ⟨⟩⟩
    | tail _ hstep ih => exact ih.step hstep
  refine ⟨fun s' s'' hpoll hafter => ?_, fun s' hstep hnone => ?_⟩
  · have hall : s''.phase = .idle (F.stamp s''.file) ∧ Applied F s'' := by
      induction hafter with
      | refl => exact htracked.poll hpoll
      | tail _ hstep ih =>
        cases hstep with
        | unchanged => exact ih
        | changed h hne => cases h.symm.trans ih.1; exact absurd rfl hne
        | start h | seed h | reload h | keep h => cases h.symm.trans ih.1
    exact hall.2
  · cases hstep with
    | start _ hload | reload _ hload => cases hnone.symm.trans hload
    | _ => exact ⟨rfl, rfl⟩

/-- Three versions: the first one logs warnings, the second one everything with a higher rate, and
the third one is not valid. -/
def sampleFiles : Files (Fin 3) (Fin 3) where
  stamp := id
  loadConfig
    | 0 => some ⟨"warn", 5, 10⟩
    | 1 => some ⟨"debug", 20, 40⟩
    | _ => none

/-- A proxy that watches the first version when the second one is written. -/
def rewritten : State (Fin 3) (Fin 3) :=
  { (State.initial sampleFiles 0).boot ⟨"warn", 5, 10⟩ with
    file := 1
    seen := [1, 0]
    phase := .idle 0 }

/-- The next poll loads the second version, and the one after it leaves the settings alone. -/
theorem later_write_followed :
    Run sampleFiles (Applied sampleFiles) (.initial sampleFiles 0) rewritten ∧
    rewritten.level = .warn ∧ rewritten.limit = some (5, 10) ∧ Follows sampleFiles rewritten ∧
    ∃ s, Poll sampleFiles rewritten s ∧ Poll sampleFiles s s ∧ Applied sampleFiles s ∧
      s.level = .debug ∧ s.limit = some (20, 40) := by
  have hrun : Run sampleFiles (Applied sampleFiles) (.initial sampleFiles 0) rewritten := by
    refine ((Relation.ReflTransGen.refl.tail (.proxy (.start rfl rfl) (by rintro ⟨⟩))).tail
      (.proxy (.seed rfl) fun _ => ?_)).tail (.write 1 (by decide))
    rintro cfg ⟨⟩
    exact ⟨rfl, by decide⟩
  have hfollows := follows_of_applied sampleFiles 0 rewritten hrun
  have hpoll : Poll sampleFiles rewritten _ := .inr ⟨0, rfl, by decide, .reload rfl rfl⟩
  exact ⟨hrun, rfl, rfl, hfollows, _, hpoll, .inl ⟨rfl, rfl⟩, hfollows.polled _ _ hpoll .refl,
    rfl, rfl⟩

/-- A version that is written before the watcher is made is never loaded. -/
theorem early_write_missed : ∃ s, Run sampleFiles (fun _ => True) (.initial sampleFiles 0) s ∧
    ¬ Follows sampleFiles s := by
  refine ⟨_, ((Relation.ReflTransGen.refl.tail (.proxy (.start rfl rfl) fun _ => trivial)).tail
    (.write 1 (by decide))).tail (.proxy (.seed rfl) fun _ => trivial), fun h => ?_⟩
  have happlied := h.polled _ _ (.inl ⟨rfl, rfl⟩) .refl ⟨"debug", 20, 40⟩ rfl
  cases happlied.1

end UndoLog.Proxy.ConfigWatch
