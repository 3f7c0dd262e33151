import QuotaService.Config.Diff
import QuotaService.Lib.Notifier

/-! A server over the memory persister: what `Start` and the config listener make of the persister's
notifications. Notifications are coalesced into one slot; a config is read some time after the
notification, and applied some time after it has been read, unless one as new has been applied. -/
namespace QuotaService.Notifications
open Config

/-- `HashConfig` is the parameter of the operations. -/
structure MemoryConfigPersister where
  config : String
  configs : AList fun _ : String => ServiceConfig
  /-- Whether the one-slot channel holds a notification. -/
  watcher : Bool

def NewMemoryConfigPersister : MemoryConfigPersister := ⟨"", ∅, true⟩

def MemoryConfigPersister.persistAndNotify (hashConfig : ServiceConfig → String)
    (m : MemoryConfigPersister) (cfg : ServiceConfig) : MemoryConfigPersister where
  config := hashConfig cfg
  configs := m.configs.insert (hashConfig cfg) (cloneConfig cfg)
  watcher := true

def MemoryConfigPersister.readPersistedConfig (m : MemoryConfigPersister) : Option ServiceConfig :=
  (m.configs.lookup m.config).map cloneConfig

/-- How far the server has come: `Start` waits for the persister; the listener waits; either has
received a notification; either has read a config and not applied it yet. -/
inductive Progress
  | starting
  | listening
  | received
  | holding (newConfig : ServiceConfig)
deriving DecidableEq

/-- The server, with a log of the configs that `updateBucketContainer` has let pass, the last one
first. -/
structure State where
  persister : MemoryConfigPersister
  progress : Progress
  cfgs : Option ServiceConfig
  applied : List ServiceConfig

inductive Action
  | persist (cfg : ServiceConfig)
  | receive
  | read
  | apply

section Steps
variable (hashConfig : ServiceConfig → String)

/-- A server that has not started, over a persister with one config. -/
def launched (initial : ServiceConfig) : State :=
  ⟨NewMemoryConfigPersister.persistAndNotify hashConfig initial, .starting, none, []⟩

def step (s : State) : Action → Option State
  | .persist cfg => some { s with persister := s.persister.persistAndNotify hashConfig cfg }
  | .receive =>
    if (s.progress = .starting ∨ s.progress = .listening) ∧ s.persister.watcher = true then
      some { s with persister := { s.persister with watcher := false }, progress := .received }
    else none
  | .read =>
    if s.progress = .received then
      s.persister.readPersistedConfig.map fun newConfig => { s with progress := .holding newConfig }
    else none
  | .apply =>
    match s.progress with
    | .holding newConfig => some { s with
        progress := .listening
        cfgs := some (appliedConfig s.cfgs newConfig)
        applied := if s.cfgs.any fun c => newConfig.version ≤ c.version then s.applied
          else newConfig :: s.applied }
    | _ => none

end Steps

/-- The channel is empty and the listener waits. -/
def Quiet (s : State) : Prop := s.persister.watcher = false ∧ s.progress = .listening

/-- Every config that is persisted has a larger version than the one before it. -/
def Grows (s : State) : Action → Prop
  | .persist cfg => ∀ c ∈ s.persister.readPersistedConfig, c.version < cfg.version
  | _ => True

/-- The config that was persisted last. -/
def lastPersisted (initial : ServiceConfig) (actions : List Action) : ServiceConfig :=
  actions.foldl (fun c a => match a with | .persist cfg => cfg | _ => c) initial

/-- What the server has in `cfgs` when these are the configs that it has let pass: the first one has
initialised the container and got names for its nameless namespaces. -/
def shown : List ServiceConfig → Option ServiceConfig
  | [] => none
  | [c] => some (nameNamespaces c)
  | c :: _ :: _ => some c

instance (s : State) : Decidable (Quiet s) := inferInstanceAs (Decidable (_ ∧ _))

instance decidableGrows (s : State) : ∀ a, Decidable (Grows s a)
  | .persist _ => inferInstanceAs (Decidable (∀ c ∈ s.persister.readPersistedConfig, _))
  | .receive | .read | .apply => isTrue trivial

section Refinement
variable {hashConfig : ServiceConfig → String} {s s' : State}

theorem readPersistedConfig_persist (m : MemoryConfigPersister) (cfg : ServiceConfig) :
    (m.persistAndNotify hashConfig cfg).readPersistedConfig = some (cloneConfig cfg) := by
  simp [MemoryConfigPersister.persistAndNotify, MemoryConfigPersister.readPersistedConfig]

/-- The move of the notification protocol that an action is. -/
def move : Action → Notifier.Move ServiceConfig
  | .persist cfg => .store (cloneConfig cfg)
  | .receive => .receive
  | .read => .read
  | .apply => .take

def reader : Progress → Notifier.Reader ServiceConfig
  | .starting | .listening => .waiting
  | .received => .received
  | .holding newConfig => .holding newConfig

/-- The server is a reader of the register that the persister is. -/
structure Reads (s : State) (t : Notifier.State ServiceConfig) : Prop where
  stored : s.persister.readPersistedConfig = some t.stored
  notified : t.notified = s.persister.watcher
  reader : t.reader = reader s.progress
  taken : t.taken = s.applied
  cfgs : s.cfgs = shown s.applied

theorem version_shown (applied : List ServiceConfig) :
    (shown applied).map (·.version) = applied.head?.map (·.version) := by
  cases applied with
  | nil => rfl
  | cons c applied => cases applied <;> rfl

/-- The version guard of the server is the one of the protocol. -/
theorem guard_iff (applied : List ServiceConfig) (newConfig : ServiceConfig) :
    ((shown applied).any fun c => newConfig.version ≤ c.version) = false ↔
      ∀ c ∈ applied.head?, c.version < newConfig.version := by
  cases applied with
  | nil => simp [shown]
  | cons c applied => cases applied <;> simp [shown, nameNamespaces]

theorem accept_eq (applied : List ServiceConfig) (newConfig : ServiceConfig) :
    Notifier.accept (·.version) applied newConfig =
      if (shown applied).any fun c => newConfig.version ≤ c.version then applied
      else newConfig :: applied := by
  have hguard := guard_iff applied newConfig
  unfold Notifier.accept
  by_cases hnew : ∀ c ∈ applied.head?, c.version < newConfig.version
  · rw [if_pos hnew, hguard.mpr hnew]
    rfl
  · rw [if_neg hnew, if_pos (by simpa using mt hguard.mp hnew)]

theorem appliedConfig_shown (applied : List ServiceConfig) (newConfig : ServiceConfig) :
    some (appliedConfig (shown applied) newConfig) =
      shown (Notifier.accept (·.version) applied newConfig) := by
  unfold Notifier.accept
  split_ifs with hnew
  · cases applied with
    | nil => rfl
    | cons c applied =>
      have hlt : ¬ newConfig.version ≤ c.version := not_le.mpr (hnew c rfl)
      cases applied <;> simp [shown, appliedConfig, nameNamespaces, hlt]
  · push Not at hnew
    obtain ⟨c, hc, hle⟩ := hnew
    cases applied with
    | nil => cases hc
    | cons c' applied =>
      cases hc
      cases applied <;> simp [shown, appliedConfig, nameNamespaces, hle]

theorem launched_reads (initial : ServiceConfig) :
    Reads (launched hashConfig initial) ⟨cloneConfig initial, true, .waiting, []⟩ :=
  ⟨readPersistedConfig_persist _ _, rfl, rfl, rfl, rfl⟩

/-- Every step of the server is a step of the notification protocol. -/
theorem step_reads {t : Notifier.State ServiceConfig} {a : Action} (h : Reads s t)
    (hs : step hashConfig s a = some s') :
    ∃ t', Notifier.step (·.version) t (move a) = some t' ∧ Reads s' t' := by
  cases a with
  | persist cfg =>
    cases hs
    exact ⟨_, rfl, readPersistedConfig_persist _ _, rfl, h.reader, h.taken, h.cfgs⟩
  | receive =>
    simp only [step] at hs
    split_ifs at hs with hguard
    cases hs
    have hwaiting : t.reader = .waiting := by
      rw [h.reader]
      rcases hguard.1 with hp | hp <;> rw [hp] <;> rfl
    refine ⟨{ t with reader := .received, notified := false }, ?_, h.stored, rfl, rfl, h.taken,
      h.cfgs⟩
    simp [Notifier.step, move, hwaiting, h.notified, hguard.2]
  | read =>
    simp only [step] at hs
    split_ifs at hs with hreceived
    rw [h.stored, Option.map_some] at hs
    cases hs
    refine ⟨{ t with reader := .holding t.stored }, ?_, h.stored, h.notified, rfl, h.taken, h.cfgs⟩
    have hreader : t.reader = .received := by rw [h.reader, hreceived]; rfl
    simp [Notifier.step, move, hreader]
  | apply =>
    simp only [step] at hs
    split at hs
    · rename_i newConfig hholding
      cases hs
      have hreader : t.reader = .holding newConfig := by rw [h.reader, hholding]; rfl
      refine ⟨{ t with taken := Notifier.accept (·.version) t.taken newConfig, reader := .waiting },
        by simp [Notifier.step, move, hreader], h.stored, h.notified, rfl, ?_, ?_⟩
      · simp only [h.taken, h.cfgs, accept_eq]
      · simp only [h.cfgs, appliedConfig_shown, accept_eq]
    · cases hs

theorem grows_move {t : Notifier.State ServiceConfig} {a : Action} (h : Reads s t)
    (hgrows : Grows s a) : Notifier.Grows (·.version) t (move a) := by
  cases a with
  | persist cfg => exact hgrows t.stored h.stored
  | receive | read | apply => trivial

theorem run_persisted {initial : ServiceConfig} {actions : List Action}
    (h : s.persister.readPersistedConfig = some (cloneConfig initial))
    (hrun : Machine.run (step hashConfig) s actions = some s') :
    s'.persister.readPersistedConfig = some (cloneConfig (lastPersisted initial actions)) := by
  induction actions generalizing s initial with
  | nil =>
    cases hrun
    exact h
  | cons a actions ih =>
    rw [Machine.run_cons] at hrun
    obtain ⟨s₁, hs₁, hrun⟩ := Option.bind_eq_some_iff.mp hrun
    cases a with
    | persist cfg =>
      cases hs₁
      exact ih (readPersistedConfig_persist _ _) hrun
    | receive =>
      simp only [step] at hs₁
      split_ifs at hs₁
      cases hs₁
      refine ih ?_ hrun
      exact h
    | read =>
      simp only [step] at hs₁
      split_ifs at hs₁
      rw [h, Option.map_some] at hs₁
      cases hs₁
      refine ih ?_ hrun
      exact h
    | apply =>
      simp only [step] at hs₁
      split at hs₁
      · cases hs₁
        refine ih ?_ hrun
        exact h
      · cases hs₁

end Refinement

/-- In every run over configs of growing versions, the version that the server has applied never
falls, and whenever the channel is empty and the listener waits, the server has the config that was
persisted last; if that is the first one it has applied, with the names of its nameless namespaces
filled in. -/
theorem latest_config_applied (hashConfig : ServiceConfig → String) (initial : ServiceConfig)
    (actions : List Action) (s : State)
    (hgrows : Machine.Along (step hashConfig) Grows (launched hashConfig initial) actions)
    (hrun : Machine.run (step hashConfig) (launched hashConfig initial) actions = some s) :
    (∀ actions' s', Machine.run (step hashConfig) s actions' = some s' →
      ∀ c ∈ s.cfgs, ∃ c' ∈ s'.cfgs, c.version ≤ c'.version) ∧
    (Quiet s →
      let cfg := cloneConfig (lastPersisted initial actions)
      s.applied.head? = some cfg ∧
        s.cfgs = some (if s.applied.length = 1 then nameNamespaces cfg else cfg)) := by
  obtain ⟨hgrows', t, ht, hreads⟩ := Machine.run_refines Reads move
    (Notifier.Grows (·.version)) (fun s t a s' h hg hs => ⟨grows_move h hg, step_reads h hs⟩)
    (launched_reads initial) hgrows hrun
  constructor
  · intro actions' s' hrun' c hc
    obtain ⟨-, t', ht', hreads'⟩ := Machine.run_refines Reads move (fun _ _ => True)
      (fun s t a s' h _ hs => ⟨trivial, step_reads h hs⟩) hreads (Machine.along_true _ _ _) hrun'
    have hversion : ∀ {u : State} {w : Notifier.State ServiceConfig}, Reads u w →
        u.cfgs.map (·.version) = w.taken.head?.map (·.version) := by
      intro u w h
      rw [h.cfgs, h.taken]
      exact version_shown u.applied
    obtain ⟨v, hv, hcv⟩ : ∃ v, t.taken.head? = some v ∧ v.version = c.version := by
      have h := hversion hreads
      rw [hc, Option.map_some, eq_comm] at h
      exact Option.map_eq_some_iff.mp h
    obtain ⟨v', hv', hle⟩ := Notifier.run_taken ht' hv
    obtain ⟨c', hc', hcv'⟩ : ∃ c', s'.cfgs = some c' ∧ c'.version = v'.version := by
      have h := hversion hreads'
      rw [hv', Option.map_some] at h
      exact Option.map_eq_some_iff.mp h
    exact ⟨c', hc', by rw [← hcv, hcv']; exact hle⟩
  · intro hquiet
    have hinv := Notifier.run_inv (Notifier.fresh_inv (cloneConfig initial)) hgrows' ht
    have hreader : t.reader = .waiting := by rw [hreads.reader, hquiet.2]; rfl
    have htaken := Notifier.taken_of_quiet hinv (hreads.notified.trans hquiet.1) hreader
    have hstored := run_persisted (readPersistedConfig_persist _ initial) hrun
    have hlast : t.stored = cloneConfig (lastPersisted initial actions) :=
      Option.some.inj (hreads.stored.symm.trans hstored)
    rw [hreads.taken, hlast] at htaken
    refine ⟨htaken, ?_⟩
    rw [hreads.cfgs]
    cases happlied : s.applied with
    | nil => simp [happlied] at htaken
    | cons c applied =>
      rw [happlied] at htaken
      cases htaken
      cases applied <;> simp [shown]

/-- Two configs are persisted after the first one has been applied, the second of them between the
notification of the other and its reading. -/
theorem latest_config_applied_coalesced :
    let third : ServiceConfig := { version := 3, user := "v" }
    ∃ s, Machine.run (step (·.user)) (launched (·.user) { version := 1 })
        [.receive, .read, .apply, .persist { version := 2, user := "u" }, .receive, .persist third,
          .read, .apply, .receive, .read, .apply] = some s ∧ Quiet s ∧ s.cfgs = some third := by
  intro third
  obtain ⟨s, hrun, hquiet, hlength⟩ : ∃ s, Machine.run (step (·.user))
      (launched (·.user) { version := 1 })
      [.receive, .read, .apply, .persist { version := 2, user := "u" }, .receive, .persist third,
        .read, .apply, .receive, .read, .apply] = some s ∧ (Quiet s ∧ s.applied.length = 2) :=
    Machine.exists_run (by decide)
  have hlatest := (latest_config_applied (·.user) { version := 1 } _ s (by decide) hrun).2 hquiet
  refine ⟨s, hrun, hquiet, ?_⟩
  rw [hlatest.2, hlength]
  rfl

/-- A first config with a nameless namespace: the server has it with the name filled in. -/
theorem nameless_namespace_named :
    let initial : ServiceConfig := { namespaces := .table (AList.singleton "a" (some {})) }
    ∃ s, Machine.run (step (·.user)) (launched (·.user) initial) [.receive, .read, .apply] =
        some s ∧ Quiet s ∧
      s.cfgs = some { namespaces := .table (AList.singleton "a" (some { name := "a" })) } ∧
      s.cfgs ≠ some (cloneConfig initial) := by
  intro initial
  exact ⟨_, rfl, by decide, by decide, by decide⟩

end QuotaService.Notifications
