import QuotaService.Lib.Ranking
import QuotaService.Server.Console

/-! The configs of the past, as the server lists them and as the console reads the list. The server
sorts them by their dates, which are whole seconds on the clocks of the servers that wrote them; the
console takes the first of them for the current one. -/
namespace QuotaService.History
open Config Json JavaScript Console

/-- `sortedConfigs.Less`. -/
def less (c c' : ServiceConfig) : Bool := decide (c.date > c'.date)

/-- What `sort.Sort` may make of a list: no element comes before one that is less. -/
def Sorts (l sorted : List ServiceConfig) : Prop :=
  sorted.Perm l ∧ sorted.Pairwise fun c c' => less c' c = false

/-- `HistoricalConfigs`, over the result of `ReadHistoricalConfigs`. -/
def HistoricalConfigs (read : Except String (List ServiceConfig)) :
    Except String (List ServiceConfig) → Prop
  | .error err => read = .error err
  | .ok sorted => ∃ configs, read = .ok configs ∧ Sorts configs sorted

/-- The reducer of the version that the console sends back as a header. -/
def currentVersion (state : Json) : Action → Option Json
  | .configsFetchSuccess (config :: _) => propertyOr config "version" (num 0)
  | _ => some state

/-- The action with which the console gets the list. -/
def fetched (N : Numbers) (configs : List ServiceConfig) : Action :=
  .configsFetchSuccess (configs.map fun c => parse N (marshalConfig c))

/-- A config that `updateConfig` has handed to the persister. -/
def Persisted (c : ServiceConfig) : Prop :=
  ∃ (change : Admin.Change) (user : String) (date : ℤ) (clonedCfg : ServiceConfig),
    (-2147483648 ≤ clonedCfg.version ∧ clonedCfg.version ≤ 2147483647) ∧
      Admin.updatedConfig change.updater user date clonedCfg = some (.ok c)

/-- The list goes from newer to older versions, and the console takes the newest for the current one. -/
structure NewestFirst (N : Numbers) (sorted : List ServiceConfig) : Prop where
  decreasing : (sorted.map ServiceConfig.version).Pairwise (· > ·)
  current : ∀ c ∈ sorted.head?, (∀ c' ∈ sorted, c'.version ≤ c.version) ∧
    ∀ state, currentVersion state (fetched N sorted) = some (num c.version)

theorem sorts_iff {l sorted : List ServiceConfig} :
    Sorts l sorted ↔ Ranking.IsSorted ServiceConfig.date l sorted := by
  simp [Sorts, Ranking.IsSorted, less]

/-- A version that was persisted is an `int32`, which JavaScript represents exactly. -/
theorem Persisted.safe_version {c : ServiceConfig} (h : Persisted c) : SafeInteger c.version := by
  obtain ⟨change, user, date, clonedCfg, ⟨hlow, hhigh⟩, hupdated⟩ := h
  obtain ⟨edited, filled, -, -, rfl⟩ := Admin.updatedConfig_ok hupdated
  have hbounds : -2147483648 ≤ Server.nextVersion clonedCfg.version ∧
      Server.nextVersion clonedCfg.version ≤ 2147483647 := by
    unfold Server.nextVersion
    split_ifs with hmax
    · omega
    · omega
  apply abs_le.mpr
  constructor
  · have hlow' : -2147483648 ≤ Server.nextVersion clonedCfg.version := hbounds.1
    change -9007199254740991 ≤ Server.nextVersion clonedCfg.version
    omega
  · have hhigh' : Server.nextVersion clonedCfg.version ≤ 2147483647 := hbounds.2
    change Server.nextVersion clonedCfg.version ≤ 9007199254740991
    omega

/-- The console reads the version of a config; one that is zero is not written. -/
theorem propertyOr_version (N : Numbers) {c : ServiceConfig} (h : SafeInteger c.version) :
    propertyOr (parse N (marshalConfig c)) "version" (num 0) = some (num c.version) := by
  have hfirst := find?_parse_eq_none N (omitNil_keys "global_default_bucket" marshalBucket
    c.globalDefaultBucket) (show "version" ∉ _ by decide)
  have hnamespaces := find?_parse_eq_none N (omitNone_keys "namespaces" marshalNamespace
    c.namespaces) (show "version" ∉ _ by decide)
  have hkeys := (omitEmpty_keys "user" c.user).append (omitZero_keys "date" c.date)
  rw [← List.map_append] at hkeys
  have hlast := find?_parse_eq_none N hkeys (show "version" ∉ _ by decide)
  rw [parse_marshalConfig, List.map_append, List.map_append, List.map_append]
  simp only [propertyOr, List.find?_append, hfirst, hnamespaces, hlast, Option.none_or,
    Option.or_none]
  unfold omitZero
  split_ifs with hzero
  · simp [hzero]
  · simp [parse, N.exact _ h, truthy, hzero]

theorem newestFirst_iff (N : Numbers) {sorted : List ServiceConfig}
    (h : ∀ c ∈ sorted, Persisted c) :
    NewestFirst N sorted ↔ (sorted.map ServiceConfig.version).Pairwise (· > ·) := by
  refine ⟨NewestFirst.decreasing, fun hdecreasing => ⟨hdecreasing, fun c hc => ?_⟩⟩
  cases sorted with
  | nil => cases hc
  | cons c' rest =>
    cases hc
    have hfirst := (List.pairwise_cons.mp (List.pairwise_map.mp hdecreasing)).1
    constructor
    · intro c' hc'
      rcases List.mem_cons.mp hc' with rfl | hc'
      · exact le_refl _
      · exact (hfirst c' hc').le
    · intro state
      exact propertyOr_version N (h c (by simp)).safe_version

/-- The list has the newest version first, in whatever order it is read and equal dates are left,
exactly if later versions have later dates. -/
theorem historical_newest_iff (N : Numbers) {configs : List ServiceConfig}
    (hpersisted : ∀ c ∈ configs, Persisted c)
    (hdistinct : (configs.map ServiceConfig.version).Nodup) :
    (∀ read sorted, read.Perm configs → HistoricalConfigs (.ok read) (.ok sorted) →
        NewestFirst N sorted) ↔
      ∀ c ∈ configs, ∀ c' ∈ configs, c.version < c'.version → c.date < c'.date := by
  rw [← Ranking.isSorted_decreasing_iff hdistinct]
  constructor
  · intro h sorted hsorted
    exact (h configs sorted (List.Perm.refl _)
      ⟨configs, rfl, sorts_iff.mpr hsorted⟩).decreasing
  · intro h read sorted hread hhistorical
    obtain ⟨configs', heq, hsorts⟩ := hhistorical
    cases heq
    obtain ⟨hperm, hpairs⟩ := sorts_iff.mp hsorts
    have hall : sorted.Perm configs := hperm.trans hread
    rw [newestFirst_iff N fun c hc => hpersisted c (hall.mem_iff.mp hc)]
    exact h sorted ⟨hall, hpairs⟩

/-- A config without namespaces, as it is persisted after the version before. -/
theorem persisted_empty (version date : ℤ) (h : -2147483648 ≤ version ∧ version < 2147483647) :
    Persisted { version := version + 1, date := date } := by
  refine ⟨.updateConfig {}, "", date, { version := version }, ⟨h.1, h.2.le⟩, ?_⟩
  have hnext : Server.nextVersion version = version + 1 := if_neg (by omega)
  simp only [Admin.updatedConfig, Admin.Change.updater]
  rw [hnext]
  rfl

theorem historical_newest_iff_pair :
    let configs : List ServiceConfig := [{ version := 1, date := 100 }, { version := 2, date := 101 }]
    (∀ c ∈ configs, Persisted c) ∧ (configs.map ServiceConfig.version).Nodup ∧
      ((∀ read sorted, read.Perm configs → HistoricalConfigs (.ok read) (.ok sorted) →
        NewestFirst exactNumbers sorted) ↔
      ∀ c ∈ configs, ∀ c' ∈ configs, c.version < c'.version → c.date < c'.date) := by
  intro configs
  have hpersisted : ∀ c ∈ configs, Persisted c := by
    rw [List.forall_mem_cons, List.forall_mem_singleton]
    exact ⟨persisted_empty 0 100 (by omega), persisted_empty 1 101 (by omega)⟩
  have hdistinct : (configs.map ServiceConfig.version).Nodup := by decide
  exact ⟨hpersisted, hdistinct, historical_newest_iff exactNumbers hpersisted hdistinct⟩

/-- Two configs of one second, read in the order of their versions: they are left in this order, and the
console goes by the older one. -/
theorem historical_same_second :
    let older : ServiceConfig := { version := 1, date := 100 }
    let newer : ServiceConfig := { version := 2, date := 100 }
    Persisted older ∧ Persisted newer ∧
      HistoricalConfigs (.ok [older, newer]) (.ok [older, newer]) ∧
      currentVersion (num 0) (fetched exactNumbers [older, newer]) = some (num 1) ∧
      ¬NewestFirst exactNumbers [older, newer] := by
  intro older newer
  refine ⟨persisted_empty 0 100 (by omega), persisted_empty 1 100 (by omega),
    ⟨[older, newer], rfl, List.Perm.refl _, by simp [less, older, newer]⟩, ?_, ?_⟩
  · exact propertyOr_version exactNumbers (by decide)
  · intro h
    have hdecreasing := h.decreasing
    simp [older, newer] at hdecreasing

end QuotaService.History
