import QuotaService.Config.Json
import QuotaService.Lib.JavaScript
import QuotaService.Server.Admin
import Mathlib.Algebra.Order.Group.Abs

/-! The admin console. It loads a config from the JSON of the server, keeps its namespaces as a frozen
copy, and on save posts the namespaces to the handler that replaces the whole config. Only what
a save without edits needs is modelled of the reducer. -/
namespace QuotaService.Console
open Config Json JavaScript

/-- What the reducer holds of a config. -/
structure Namespaces where
  version : Json
  items : Json

inductive Action
  | configsFetchSuccess (configs : List Json)
  | loadConfig (config : Json)

/-- What counts as true in JavaScript. -/
def truthy : Json → Bool
  | .null => false
  | .bool b => b
  | .num n => n ≠ 0
  | .str s => s ≠ ""
  | _ => true

/-- `v.key || other`; `none` is the TypeError on a null. -/
def propertyOr (v : Json) (key : String) (other : Json) : Option Json :=
  match v with
  | .null => none
  | .obj fields =>
    match fields.find? fun e => e.1 = key with
    | some e => some (if truthy e.2 then e.2 else other)
    | none => some other
  | _ => some other

def loadConfig (config : Json) : Option Namespaces := do
  let version ← propertyOr config "version" (num 0)
  let namespaces ← propertyOr config "namespaces" (obj [])
  let items ← freeze 64 namespaces
  some ⟨version, items.value⟩

/-- The reducer, which looks at the first of the configs that it is sent. -/
def namespaces (state : Namespaces) : Action → Option Namespaces
  | .configsFetchSuccess [] => some state
  | .configsFetchSuccess (config :: _) => loadConfig config
  | .loadConfig config => loadConfig config

/-- The handler of the body and `UpdateConfig`; `none` if nothing is persisted. -/
def updateConfig (body : Json) (user : String) (date : ℤ) (clonedCfg : ServiceConfig) :
    Option ServiceConfig :=
  (unmarshalConfig body {}).bind fun c =>
    match Admin.updatedConfig (Admin.Change.updateConfig c).updater user date clonedCfg with
    | some (.ok cfg) => some cfg
    | _ => none

/-- How a config gets into the console: as the first of all configs, or picked out of them. -/
inductive Load
  | fetched (others : List ServiceConfig)
  | picked

def Load.action (N : Numbers) (c : ServiceConfig) : Load → Action
  | fetched others => .configsFetchSuccess ((c :: others).map fun c => parse N (marshalConfig c))
  | picked => .loadConfig (parse N (marshalConfig c))

section Conditions

/-- Safe integers of JavaScript. -/
def SafeInteger (n : ℤ) : Prop := |n| ≤ 9007199254740991

instance (n : ℤ) : Decidable (SafeInteger n) := inferInstanceAs (Decidable (_ ≤ _))

structure SafeBucket (b : BucketConfig) : Prop where
  size : SafeInteger b.size
  fillRate : SafeInteger b.fillRate
  waitTimeoutMillis : SafeInteger b.waitTimeoutMillis
  maxIdleMillis : SafeInteger b.maxIdleMillis
  maxDebtMillis : SafeInteger b.maxDebtMillis
  maxTokensPerRequest : SafeInteger b.maxTokensPerRequest

/-- `maxDynamicBuckets` is an `int32`. -/
structure SafeNamespace (ns : NamespaceConfig) : Prop where
  maxDynamicBuckets : -2 ^ 31 ≤ ns.maxDynamicBuckets ∧ ns.maxDynamicBuckets < 2 ^ 31
  defaultBucket : ∀ b ∈ ns.defaultBucket, SafeBucket b
  dynamicBucketTemplate : ∀ b ∈ ns.dynamicBucketTemplate, SafeBucket b
  buckets : ∀ n b, ns.buckets.get n = some (some b) → SafeBucket b

/-- The names in a table survive a copy by `Immutable.from`: none is hidden, or the table passes for
frozen. -/
def Carried {α : Type} (m : GoMap String α) : Prop :=
  tag ∈ m.keys ∨ ∀ k ∈ m.keys, k ∉ hiddenNames

/-- The console carries the whole config. -/
structure Carries (c : ServiceConfig) : Prop where
  globalDefaultBucket : c.globalDefaultBucket = none
  namespaces : tag ∈ c.namespaces.keys ∨
    (∀ name ∈ c.namespaces.keys, name ∉ hiddenNames) ∧
      ∀ name ns, c.namespaces.get name = some (some ns) → Carried ns.buckets

end Conditions

section Scalars

theorem SafeInteger.fits {n : ℤ} (h : SafeInteger n) : -2 ^ 63 ≤ n ∧ n < 2 ^ 63 := by
  obtain ⟨hlow, hhigh⟩ := abs_le.mp h
  constructor <;> omega

theorem SafeBucket.fits {b : BucketConfig} (h : SafeBucket b) : b.Fits :=
  ⟨h.size.fits, h.fillRate.fits, h.waitTimeoutMillis.fits, h.maxIdleMillis.fits,
    h.maxDebtMillis.fits, h.maxTokensPerRequest.fits⟩

theorem SafeNamespace.fits {ns : NamespaceConfig} (h : SafeNamespace ns) : ns.Fits :=
  ⟨h.maxDynamicBuckets, fun b hb => (h.defaultBucket b hb).fits,
    fun b hb => (h.dynamicBucketTemplate b hb).fits, fun n b hb => (h.buckets n b hb).fits⟩

end Scalars

/-- A browser in which every number is exact. -/
def exactNumbers : Numbers := ⟨id, fun literal => .decimal literal, fun _ _ => rfl⟩

section Messages
variable {N : Numbers} {b : BucketConfig} {ns : NamespaceConfig} {v : Json}

def BucketJson (v : Json) (b : BucketConfig) : Prop := v = marshalBucket b ∧ SafeBucket b

/-- The object of a namespace without nil buckets, with its buckets in some order. -/
structure NamespaceJson (v : Json) (ns : NamespaceConfig) : Prop where
  safe : SafeNamespace ns
  buckets_set : ∀ n b, ns.buckets.get n = some b → b ≠ none
  properties : ∃ part, v = obj (namespaceProperties ns ++ part) ∧
    Part "buckets" BucketJson (fun n => (ns.buckets.get n).join) part

theorem stable_marshalBucket (N : Numbers) (h : SafeBucket b) : Stable N 1 (marshalBucket b) := by
  have hstr : ∀ name s, ∀ e ∈ omitEmpty name s, Stable N 0 e.2 := by
    intro name s e he
    rw [mem_omitEmpty he]
    exact stable_str N 0 s
  have hnum : ∀ name n, SafeInteger n → ∀ e ∈ omitZero name n, Stable N 0 e.2 := by
    intro name n hn e he
    rw [mem_omitZero he]
    exact stable_num 0 (N.exact n hn)
  have hplain : Plain (["name"] ++ (["namespace"] ++ (["size"] ++ (["fill_rate"] ++
      (["wait_timeout_millis"] ++ (["max_idle_millis"] ++ (["max_debt_millis"] ++
        ["max_tokens_per_request"]))))))) := by decide
  refine hplain.stable ?_ ?_
  · simp only [bucketProperties, List.map_append]
    exact (omitEmpty_keys _ _).append ((omitEmpty_keys _ _).append ((omitZero_keys _ _).append
      ((omitZero_keys _ _).append ((omitZero_keys _ _).append ((omitZero_keys _ _).append
        ((omitZero_keys _ _).append (omitZero_keys _ _)))))))
  · simp only [bucketProperties, List.forall_mem_append]
    exact ⟨hstr _ _, hstr _ _, hnum _ _ h.size, hnum _ _ h.fillRate, hnum _ _ h.waitTimeoutMillis,
      hnum _ _ h.maxIdleMillis, hnum _ _ h.maxDebtMillis, hnum _ _ h.maxTokensPerRequest⟩

theorem stable_namespaceProperties (N : Numbers) (h : SafeNamespace ns) :
    ∀ e ∈ namespaceProperties ns, Stable N 1 e.2 := by
  have hbucket : ∀ name (x : Option BucketConfig), (∀ b ∈ x, SafeBucket b) →
      ∀ e ∈ omitNil name marshalBucket x, Stable N 1 e.2 := by
    intro name x hx e he
    obtain ⟨b, hb, hv⟩ := mem_omitNil he
    rw [hv]
    exact stable_marshalBucket N (hx b hb)
  simp only [namespaceProperties, List.forall_mem_append]
  refine ⟨?_, hbucket _ _ h.defaultBucket, hbucket _ _ h.dynamicBucketTemplate, ?_⟩
  · intro e he
    rw [mem_omitEmpty he]
    exact stable_str N 1 _
  · intro e he
    rw [mem_omitZero he]
    refine stable_num 1 (N.exact _ (abs_le.mpr ?_))
    obtain ⟨hlow, hhigh⟩ := h.maxDynamicBuckets
    constructor <;> omega

def namespaceNames : List String :=
  ["name"] ++ (["default_bucket"] ++ (["dynamic_bucket_template"] ++ ["max_dynamic_buckets"])) ++
    ["buckets"]

theorem plain_namespaceNames : Plain namespaceNames := by decide

theorem namespaceProperties_keys {R : Json → BucketConfig → Prop}
    {T : String → Option BucketConfig} {part : List (String × Json)} (h : Part "buckets" R T part) :
    ((namespaceProperties ns ++ part).map Prod.fst).Sublist namespaceNames := by
  have hpart : (part.map Prod.fst).Sublist ["buckets"] := by
    cases h <;> simp
  simp only [namespaceProperties, List.map_append]
  exact ((omitEmpty_keys _ _).append ((omitNil_keys _ _ _).append
    ((omitNil_keys _ _ _).append (omitZero_keys _ _)))).append hpart

theorem join_eq_none {α : Type} {m : GoMap String (Option α)}
    (h : ∀ k x, m.get k = some x → x ≠ none) (k : String) : (m.get k).join = none ↔ k ∉ m.keys := by
  rw [GoMap.mem_keys_iff]
  cases hk : m.get k with
  | none => simp
  | some x => simp [h k x hk]

theorem BucketJson.parse (h : BucketJson v b) : BucketJson (parse N v) b := by
  obtain ⟨rfl, hb⟩ := h
  rw [(stable_marshalBucket N hb).parse]
  exact ⟨rfl, hb⟩

theorem BucketJson.freeze {d : ℕ} {v' : Frozen} (h : BucketJson v b)
    (hfreeze : freeze (d + 1) v = some v') : BucketJson v'.value b := by
  obtain ⟨rfl, hb⟩ := h
  obtain ⟨w, hw, hvalue⟩ := (stable_marshalBucket exactNumbers hb).freeze d
  cases hfreeze.symm.trans hw
  exact ⟨hvalue, hb⟩

theorem BucketJson.freeze_total (d : ℕ) (h : BucketJson v b) :
    ∃ v', JavaScript.freeze (d + 1) v = some v' := by
  obtain ⟨rfl, hb⟩ := h
  obtain ⟨w, hw, -⟩ := (stable_marshalBucket exactNumbers hb).freeze d
  exact ⟨w, hw⟩

theorem BucketJson.isElementType (h : BucketJson v b) : isElementType v = false := by
  rw [h.1]
  rfl

theorem NamespaceJson.isElementType (h : NamespaceJson v ns) : isElementType v = false := by
  obtain ⟨part, rfl, -⟩ := h.properties
  rfl

theorem NamespaceJson.parse (N : Numbers) (h : NamespaceJson v ns) :
    NamespaceJson (parse N v) ns := by
  obtain ⟨part, rfl, hpart⟩ := h.properties
  refine ⟨h.safe, h.buckets_set, ?_⟩
  rw [plain_namespaceNames.parse (namespaceProperties_keys hpart), List.map_append]
  have hproperties : (namespaceProperties ns).map (fun e => (e.1, JavaScript.parse N e.2)) =
      namespaceProperties ns := by
    refine (List.map_congr_left fun e he => ?_).trans (List.map_id _)
    rw [(stable_namespaceProperties N h.safe e he).parse]
    rfl
  rw [hproperties]
  refine ⟨_, rfl, ?_⟩
  cases hpart with
  | omitted empty => exact .omitted empty
  | present entries =>
    obtain ⟨fields', hfields', hentries⟩ := parse_entries N entries fun v b hv => hv.parse
    rw [List.map_singleton, hfields']
    exact .present hentries

/-- What is left of a table of buckets in a copy by `Immutable.from`. -/
def carriedBuckets (m : GoMap String (Option BucketConfig)) : GoMap String (Option BucketConfig) :=
  if tag ∈ m.keys then m else m.deleteAll hiddenNames

def carriedNamespace (ns : NamespaceConfig) : NamespaceConfig :=
  { ns with buckets := carriedBuckets ns.buckets }

theorem get_carriedBuckets (m : GoMap String (Option BucketConfig)) (n : String) :
    (carriedBuckets m).get n = if tag ∉ m.keys ∧ n ∈ hiddenNames then none else m.get n := by
  unfold carriedBuckets
  by_cases htag : tag ∈ m.keys
  · simp [htag]
  · simp [htag, GoMap.get_deleteAll]

theorem get_of_carriedBuckets {m : GoMap String (Option BucketConfig)} {n : String}
    {b : Option BucketConfig} (h : (carriedBuckets m).get n = some b) : m.get n = some b := by
  rw [get_carriedBuckets] at h
  split_ifs at h
  exact h

theorem NamespaceJson.freeze {d : ℕ} {v' : Frozen} (h : NamespaceJson v ns)
    (hfreeze : freeze (d + 3) v = some v') : NamespaceJson v'.value (carriedNamespace ns) := by
  obtain ⟨part, rfl, hpart⟩ := h.properties
  have hsafe : SafeNamespace (carriedNamespace ns) :=
    ⟨h.safe.maxDynamicBuckets, h.safe.defaultBucket, h.safe.dynamicBucketTemplate,
      fun n b hb => h.safe.buckets n b (get_of_carriedBuckets hb)⟩
  refine ⟨hsafe, fun n b hb => h.buckets_set n b (get_of_carriedBuckets hb), ?_⟩
  obtain ⟨frozen, hfrozen, hvalue⟩ :=
    plain_namespaceNames.freeze (namespaceProperties_keys hpart) hfreeze
  obtain ⟨first, second, hfirst, hsecond, rfl⟩ := freezeFields_append hfrozen
  have hproperties := freezeFields_stable (d := d + 1) (stable_namespaceProperties exactNumbers h.safe) hfirst
  rw [List.map_append, hproperties] at hvalue
  refine ⟨_, hvalue, ?_⟩
  cases hpart with
  | omitted empty =>
    cases hsecond
    refine .omitted fun n => ?_
    rw [show (carriedNamespace ns).buckets = carriedBuckets ns.buckets from rfl, get_carriedBuckets]
    split_ifs
    · rfl
    · exact empty n
  | present entries =>
    obtain ⟨w, hw, hsecond⟩ := Option.bind_eq_some_iff.mp hsecond
    cases hsecond
    have htable := freeze_table (g := id) entries (fun v b hv => hv.isElementType) hw
      fun v b v' hv hv' => hv.freeze hv'
    have hget : ∀ n, ((carriedNamespace ns).buckets.get n).join =
        if tag ∉ ns.buckets.keys ∧ n ∈ hiddenNames then none else (ns.buckets.get n).join := by
      intro n
      rw [show (carriedNamespace ns).buckets = carriedBuckets ns.buckets from rfl,
        get_carriedBuckets]
      split_ifs <;> rfl
    simp only [List.map_singleton, hget]
    rcases htable with ⟨htag, hw'⟩ | ⟨htag, fields', hw', hentries⟩
    · have hmem : tag ∈ ns.buckets.keys := by
        by_contra hnot
        exact htag ((join_eq_none h.buckets_set tag).mpr hnot)
      rw [hw']
      simpa [hmem] using Part.present entries
    · have hnot : tag ∉ ns.buckets.keys := (join_eq_none h.buckets_set tag).mp htag
      rw [hw']
      simpa [hnot] using Part.present hentries

theorem NamespaceJson.freeze_total (d : ℕ) (h : NamespaceJson v ns) (hcarried : Carried ns.buckets) :
    ∃ v', JavaScript.freeze (d + 3) v = some v' := by
  obtain ⟨part, rfl, hpart⟩ := h.properties
  refine plain_namespaceNames.freeze_total (namespaceProperties_keys hpart) fun e he => ?_
  rcases List.mem_append.mp he with he | he
  · obtain ⟨v', hv', -⟩ := (stable_namespaceProperties exactNumbers h.safe e he).freeze (d + 1)
    exact ⟨v', hv'⟩
  · cases hpart with
    | omitted empty => cases he
    | present entries =>
      rw [List.mem_singleton.mp he]
      apply freeze_table_total entries (fun v b hv => hv.isElementType)
      rcases hcarried with htag | hkeys
      · exact Or.inl (mt (join_eq_none h.buckets_set tag).mp (not_not_intro htag))
      · refine Or.inr fun n b hb => ⟨hkeys n ?_, fun v hv => hv.freeze_total d⟩
        exact GoMap.mem_keys_iff.mpr ⟨some b, Option.join_eq_some_iff.mp hb⟩

theorem NamespaceJson.unmarshal (h : NamespaceJson v ns) :
    v ≠ null ∧ ∃ ns', unmarshalNamespace v {} = some ns' ∧ SameNamespace ns' ns := by
  obtain ⟨part, rfl, hpart⟩ := h.properties
  refine ⟨(fun hnull => nomatch hnull), ?_⟩
  have hfits := hpart.mono (Q := fun v b => v = marshalBucket b ∧ b.Fits)
    fun _ _ _ _ hv => ⟨hv.1, hv.2.fits⟩
  obtain ⟨m, hm, hget⟩ := unmarshalNamespace_part h.safe.fits hfits
  refine ⟨_, hm, rfl, rfl, rfl, rfl, fun n => ?_⟩
  rw [hget]
  cases hn : ns.buckets.get n with
  | none => rfl
  | some b =>
    obtain ⟨c, rfl⟩ := Option.ne_none_iff_exists'.mp (h.buckets_set n b hn)
    rfl

end Messages

section Configs
variable {c : ServiceConfig}

/-- A property that is not among the keys of an object is not found in it. -/
theorem find?_parse_eq_none (N : Numbers) {l : List (String × Json)} {names : List String}
    (hkeys : (l.map Prod.fst).Sublist names) {key : String} (hkey : key ∉ names) :
    (l.map fun e => (e.1, parse N e.2)).find? (fun e => e.1 = key) = none := by
  rw [List.find?_eq_none]
  intro e he
  obtain ⟨e', he', rfl⟩ := List.mem_map.mp he
  have hmem := hkeys.subset (List.mem_map_of_mem he')
  simp only [decide_eq_true_eq]
  intro heq
  exact hkey (heq ▸ hmem)

/-- The fields of a config after its namespaces. -/
theorem lastFields_keys (c : ServiceConfig) :
    ((omitZero "version" c.version ++ (omitEmpty "user" c.user ++
      omitZero "date" c.date)).map Prod.fst).Sublist (["version"] ++ (["user"] ++ ["date"])) := by
  simp only [List.map_append]
  exact (omitZero_keys _ _).append ((omitEmpty_keys _ _).append (omitZero_keys _ _))

theorem parse_marshalConfig (N : Numbers) (c : ServiceConfig) :
    parse N (marshalConfig c) = obj ((omitNil "global_default_bucket" marshalBucket
      c.globalDefaultBucket ++ (omitNone "namespaces" marshalNamespace c.namespaces ++
        (omitZero "version" c.version ++ (omitEmpty "user" c.user ++ omitZero "date" c.date)))).map
          fun e => (e.1, parse N e.2)) := by
  have hplain : Plain (["global_default_bucket"] ++ (["namespaces"] ++ (["version"] ++
      (["user"] ++ ["date"])))) := by decide
  have hkeys := (omitNil_keys "global_default_bucket" marshalBucket c.globalDefaultBucket).append
    ((omitNone_keys "namespaces" marshalNamespace c.namespaces).append (lastFields_keys c))
  simp only [← List.map_append] at hkeys
  exact hplain.parse hkeys

end Configs

section Saving
variable {N : Numbers} {c : ServiceConfig}

end Saving

end QuotaService.Console
