import QuotaService.Config.Types

/-! `ApplyDefaults`. It panics on a namespace with both a default bucket and a template, and on
nil namespaces or buckets; otherwise it returns a normalised config, on which a second call
changes nothing. -/
namespace QuotaService.Config

/-- A field that is zero is unset. -/
def defaulted (x default : ℤ) : ℤ := if x = 0 then default else x

def applyBucketDefaults (b : BucketConfig) : BucketConfig :=
  { b with
    size := defaulted b.size 100
    fillRate := defaulted b.fillRate 50
    waitTimeoutMillis := defaulted b.waitTimeoutMillis 1000
    maxIdleMillis := defaulted b.maxIdleMillis (-1)
    maxDebtMillis := defaulted b.maxDebtMillis 10000
    maxTokensPerRequest := defaulted b.maxTokensPerRequest (defaulted b.fillRate 50) }

/-- Defaults of a bucket that is then filed under a name in a namespace. -/
def applyNamedDefaults (ns name : String) (b : BucketConfig) : BucketConfig :=
  { applyBucketDefaults b with name := name, «namespace» := ns }

/-- The body of the loop over the namespaces, for a namespace on which it does not panic. -/
def applyNamespaceDefaults (name : String) (ns : NamespaceConfig) : NamespaceConfig :=
  { ns with
    name := name
    defaultBucket := ns.defaultBucket.map (applyNamedDefaults name defaultBucketName)
    dynamicBucketTemplate :=
      ns.dynamicBucketTemplate.map (applyNamedDefaults name dynamicBucketTemplateName)
    buckets := match ns.buckets with
      | .null => .make
      | .table t => (GoMap.table t).map fun n b => b.map (applyNamedDefaults name n) }

def acceptsDefaults : Option NamespaceConfig → Bool
  | none => false
  | some ns => !(ns.defaultBucket.isSome && ns.dynamicBucketTemplate.isSome) &&
      ns.buckets.range.all fun e => e.2.isSome

/-- `none` is the panic, of the constraint on default and dynamic buckets or of a nil pointer. -/
def applyDefaults (sc : ServiceConfig) : Option ServiceConfig :=
  if sc.namespaces.range.all fun e => acceptsDefaults e.2 then
    some { sc with
      globalDefaultBucket := sc.globalDefaultBucket.map fun b =>
        { applyBucketDefaults b with name := defaultBucketName }
      namespaces := sc.namespaces.map fun name ns => ns.map (applyNamespaceDefaults name) }
  else none

/-- A config as `ApplyDefaults` leaves it, or a copy of one. -/
def Normalised (sc : ServiceConfig) : Prop :=
  ∃ raw sc', applyDefaults raw = some sc' ∧ (sc = sc' ∨ sc = cloneConfig sc')

theorem defaulted_ne_zero (x : ℤ) {d : ℤ} (hd : d ≠ 0) : defaulted x d ≠ 0 := by
  unfold defaulted
  split_ifs with h
  · exact hd
  · exact h

theorem defaulted_idem (x : ℤ) {d : ℤ} (hd : d ≠ 0) (d' : ℤ) :
    defaulted (defaulted x d) d' = defaulted x d :=
  if_neg (defaulted_ne_zero x hd)

@[simp] theorem applyBucketDefaults_idem (b : BucketConfig) :
    applyBucketDefaults (applyBucketDefaults b) = applyBucketDefaults b := by
  have hrate : defaulted b.fillRate 50 ≠ 0 := defaulted_ne_zero _ (by decide)
  simp only [applyBucketDefaults, defaulted_idem _ hrate,
    defaulted_idem _ (show (100 : ℤ) ≠ 0 by decide), defaulted_idem _ (show (50 : ℤ) ≠ 0 by decide),
    defaulted_idem _ (show (1000 : ℤ) ≠ 0 by decide), defaulted_idem _ (show (-1 : ℤ) ≠ 0 by decide),
    defaulted_idem _ (show (10000 : ℤ) ≠ 0 by decide)]

/-- A bucket that is filed under a name keeps the defaults that it has. -/
theorem applyBucketDefaults_named (ns name : String) (b : BucketConfig) :
    applyBucketDefaults (applyNamedDefaults ns name b) = applyNamedDefaults ns name b := by
  have h : ∀ c : BucketConfig, applyBucketDefaults { c with name := name, «namespace» := ns } =
      { applyBucketDefaults c with name := name, «namespace» := ns } := fun c => rfl
  simp only [applyNamedDefaults, h, applyBucketDefaults_idem]

@[simp] theorem applyNamedDefaults_idem (ns name : String) (b : BucketConfig) :
    applyNamedDefaults ns name (applyNamedDefaults ns name b) = applyNamedDefaults ns name b := by
  have h := applyBucketDefaults_named ns name b
  unfold applyNamedDefaults at h ⊢
  simp only [h]

theorem get_applyNamespaceDefaults (name : String) (ns : NamespaceConfig) (n : String) :
    (applyNamespaceDefaults name ns).buckets.get n =
      (ns.buckets.get n).map fun b => b.map (applyNamedDefaults name n) := by
  unfold applyNamespaceDefaults
  cases ns.buckets <;> simp

theorem get_applyDefaults {sc sc' : ServiceConfig} (h : applyDefaults sc = some sc')
    (name : String) :
    sc'.namespaces.get name =
      (sc.namespaces.get name).map fun ns => ns.map (applyNamespaceDefaults name) := by
  unfold applyDefaults at h
  split_ifs at h
  cases h
  simp

/-- What the panics rule out: every pointer of a namespace that is passed on is set, and it has
no default bucket together with a template. -/
theorem acceptsDefaults_of_applyDefaults {sc sc' : ServiceConfig} (h : applyDefaults sc = some sc')
    {name : String} {ns : Option NamespaceConfig} (hns : sc.namespaces.get name = some ns) :
    acceptsDefaults ns = true := by
  unfold applyDefaults at h
  split_ifs at h with hall
  exact List.all_eq_true.mp hall _ (GoMap.mem_range_iff.mpr hns)

theorem acceptsDefaults_bucket {ns : NamespaceConfig} (h : acceptsDefaults (some ns) = true)
    {n : String} {b : Option BucketConfig} (hb : ns.buckets.get n = some b) : ∃ c, b = some c := by
  simp only [acceptsDefaults, Bool.and_eq_true, List.all_eq_true] at h
  exact Option.isSome_iff_exists.mp (h.2 _ (GoMap.mem_range_iff.mpr hb))

theorem clone_applyNamespaceDefaults_buckets (k : String) (ns : NamespaceConfig) :
    (cloneNamespaceConfig (applyNamespaceDefaults k ns)).buckets =
      if ns.buckets.len = 0 then .null
      else ns.buckets.map fun n b => some ((b.map (applyNamedDefaults k n)).getD {}) := by
  unfold cloneNamespaceConfig applyNamespaceDefaults cloneMap
  cases ns.buckets with
  | null => rfl
  | table t =>
    simp only [GoMap.len_map, GoMap.map_map]
    rfl

/-- Cloning a namespace with its defaults a second time changes nothing. -/
theorem clone_applyNamespaceDefaults_idem (k : String) {ns : NamespaceConfig}
    (hns : acceptsDefaults (some ns) = true) :
    cloneNamespaceConfig (applyNamespaceDefaults k
        (cloneNamespaceConfig (applyNamespaceDefaults k ns))) =
      cloneNamespaceConfig (applyNamespaceDefaults k ns) := by
  have hbuckets : (cloneNamespaceConfig (applyNamespaceDefaults k
      (cloneNamespaceConfig (applyNamespaceDefaults k ns)))).buckets =
        (cloneNamespaceConfig (applyNamespaceDefaults k ns)).buckets := by
    rw [clone_applyNamespaceDefaults_buckets, clone_applyNamespaceDefaults_buckets]
    by_cases hlen : ns.buckets.len = 0
    · rw [if_pos hlen]
      rfl
    · simp only [hlen, if_false, GoMap.len_map, GoMap.map_map]
      refine GoMap.map_congr fun n b hb => ?_
      obtain ⟨c, rfl⟩ := acceptsDefaults_bucket hns hb
      simp
  have hext : ∀ a b : NamespaceConfig, a.name = b.name → a.defaultBucket = b.defaultBucket →
      a.dynamicBucketTemplate = b.dynamicBucketTemplate →
      a.maxDynamicBuckets = b.maxDynamicBuckets → a.buckets = b.buckets → a = b := by
    rintro ⟨⟩ ⟨⟩ rfl rfl rfl rfl rfl
    rfl
  refine hext _ _ rfl ?_ ?_ rfl hbuckets <;>
    simp [cloneNamespaceConfig, applyNamespaceDefaults, Function.comp_def]

/-- The shape of a normalised namespace. -/
structure NormalisedNamespace (name : String) (ns : NamespaceConfig) : Prop where
  name_eq : ns.name = name
  exclusive : ns.defaultBucket = none ∨ ns.dynamicBucketTemplate = none
  buckets_set : ∀ n b, ns.buckets.get n = some b → b ≠ none

theorem applyDefaults_namespace_get {raw sc : ServiceConfig} (h : applyDefaults raw = some sc)
    {name : String} {ns : Option NamespaceConfig} (hns : sc.namespaces.get name = some ns) :
    ∃ c, ns = some c ∧ NormalisedNamespace name c := by
  rw [get_applyDefaults h, Option.map_eq_some_iff] at hns
  obtain ⟨raws, hr, rfl⟩ := hns
  have haccepts := acceptsDefaults_of_applyDefaults h hr
  have hacc := haccepts
  cases raws with
  | none => simp [acceptsDefaults] at hacc
  | some c =>
    simp only [acceptsDefaults, Bool.and_eq_true, Bool.not_eq_true', Bool.and_eq_false_iff,
      Option.isSome_eq_false_iff, Option.isNone_iff_eq_none, List.all_eq_true] at hacc
    refine ⟨applyNamespaceDefaults name c, rfl, rfl, ?_, ?_⟩
    · rcases hacc.1 with hd | ht
      · exact Or.inl (by simp [applyNamespaceDefaults, hd])
      · exact Or.inr (by simp [applyNamespaceDefaults, ht])
    · intro n b hb
      rw [get_applyNamespaceDefaults, Option.map_eq_some_iff] at hb
      obtain ⟨b₀, hb₀, rfl⟩ := hb
      obtain ⟨c₀, rfl⟩ := acceptsDefaults_bucket haccepts hb₀
      simp

theorem NormalisedNamespace.clone {name : String} {ns : NamespaceConfig}
    (h : NormalisedNamespace name ns) : NormalisedNamespace name (cloneNamespaceConfig ns) := by
  refine ⟨h.name_eq, h.exclusive, fun n b hb => ?_⟩
  simp only [cloneNamespaceConfig, get_cloneMap, Option.map_eq_some_iff] at hb
  obtain ⟨b₀, -, rfl⟩ := hb
  simp

/-- In a normalised config every namespace carries its name, and no pointer is nil. -/
theorem Normalised.namespace_get {sc : ServiceConfig} (h : Normalised sc) {name : String}
    {ns : Option NamespaceConfig} (hns : sc.namespaces.get name = some ns) :
    ∃ c, ns = some c ∧ NormalisedNamespace name c := by
  obtain ⟨raw, sc', hraw, rfl | rfl⟩ := h
  · exact applyDefaults_namespace_get hraw hns
  · simp only [cloneConfig, get_cloneMap, Option.map_eq_some_iff] at hns
    obtain ⟨ns', hns', rfl⟩ := hns
    obtain ⟨c, rfl, hc⟩ := applyDefaults_namespace_get hraw hns'
    exact ⟨_, rfl, hc.clone⟩

end QuotaService.Config
