import QuotaService.Config.Defaults

/-! The comparisons with which a server decides whether to apply a config, and what to keep. -/
namespace QuotaService.Config

def differentBucketConfigs : Option BucketConfig → Option BucketConfig → Bool
  | none, none => false
  | none, some _ => true
  | some _, none => true
  | some c1, some c2 =>
    c1.name != c2.name || c1.«namespace» != c2.«namespace» || c1.size != c2.size ||
      c1.fillRate != c2.fillRate || c1.waitTimeoutMillis != c2.waitTimeoutMillis ||
      c1.maxIdleMillis != c2.maxIdleMillis || c1.maxDebtMillis != c2.maxDebtMillis ||
      c1.maxTokensPerRequest != c2.maxTokensPerRequest

def differentNamespaceConfigs (c1 c2 : NamespaceConfig) : Bool :=
  let different := c1.name != c2.name || c1.maxDynamicBuckets != c2.maxDynamicBuckets ||
    differentBucketConfigs c1.defaultBucket c2.defaultBucket ||
    differentBucketConfigs c1.dynamicBucketTemplate c2.dynamicBucketTemplate ||
    c1.buckets.len != c2.buckets.len
  if different then true
  else c1.buckets.range.any fun e => match c2.buckets.get e.1 with
    | none => true
    | some b2 => differentBucketConfigs e.2 b2

/-- `initLocked` names the namespaces that have no name, in the config that the server keeps. -/
def nameNamespace (name : String) (ns : NamespaceConfig) : NamespaceConfig :=
  if ns.name = "" then { ns with name := name } else ns

def nameNamespaces (cfg : ServiceConfig) : ServiceConfig :=
  { cfg with namespaces := cfg.namespaces.map fun name ns => ns.map (nameNamespace name) }

/-- What a server that has applied `cfgs` has applied once it is given `newConfig`: a config whose
version is not larger is ignored, and the first one initialises the bucket container. -/
def appliedConfig (cfgs : Option ServiceConfig) (newConfig : ServiceConfig) : ServiceConfig :=
  match cfgs with
  | none => nameNamespaces newConfig
  | some c => if newConfig.version ≤ c.version then c else newConfig

theorem nameNamespaces_eq {cfg : ServiceConfig}
    (h : ∀ name c, cfg.namespaces.get name = some (some c) → c.name = name) :
    nameNamespaces cfg = cfg := by
  have hmap : cfg.namespaces.map (fun name ns => ns.map (nameNamespace name)) =
      cfg.namespaces.map fun _ ns => ns := by
    refine GoMap.map_congr fun name ns hns => ?_
    cases ns with
    | none => rfl
    | some c =>
      have hname : c.name = name := h name c hns
      simp only [Option.map_some, nameNamespace]
      split_ifs with hempty
      · rw [← hname]
      · rfl
  unfold nameNamespaces
  rw [hmap, GoMap.map_id]

/-- The eight compared fields are all the fields there are. -/
@[simp] theorem differentBucketConfigs_eq_false {c1 c2 : Option BucketConfig} :
    differentBucketConfigs c1 c2 = false ↔ c1 = c2 := by
  cases c1 with
  | none => cases c2 <;> simp [differentBucketConfigs]
  | some c1 =>
    cases c2 with
    | none => simp [differentBucketConfigs]
    | some c2 =>
      cases c1
      cases c2
      simp [differentBucketConfigs, and_assoc]

/-- Two namespace configs with the same settings and the same table of buckets. -/
structure SameNamespace (c1 c2 : NamespaceConfig) : Prop where
  name : c1.name = c2.name
  maxDynamicBuckets : c1.maxDynamicBuckets = c2.maxDynamicBuckets
  defaultBucket : c1.defaultBucket = c2.defaultBucket
  dynamicBucketTemplate : c1.dynamicBucketTemplate = c2.dynamicBucketTemplate
  buckets : ∀ n, c1.buckets.get n = c2.buckets.get n

@[simp] theorem SameNamespace.refl (c : NamespaceConfig) : SameNamespace c c :=
  ⟨rfl, rfl, rfl, rfl, fun _ => rfl⟩

theorem SameNamespace.trans {c1 c2 c3 : NamespaceConfig} (h : SameNamespace c1 c2)
    (h' : SameNamespace c2 c3) : SameNamespace c1 c3 :=
  ⟨h.name.trans h'.name, h.maxDynamicBuckets.trans h'.maxDynamicBuckets,
    h.defaultBucket.trans h'.defaultBucket, h.dynamicBucketTemplate.trans h'.dynamicBucketTemplate,
    fun n => (h.buckets n).trans (h'.buckets n)⟩

theorem SameNamespace.symm {c1 c2 : NamespaceConfig} (h : SameNamespace c1 c2) :
    SameNamespace c2 c1 :=
  ⟨h.name.symm, h.maxDynamicBuckets.symm, h.defaultBucket.symm, h.dynamicBucketTemplate.symm,
    fun n => (h.buckets n).symm⟩

/-- Two configs with the same global default bucket and the same table of namespaces, whatever
their version, user and date. -/
structure SameConfig (c1 c2 : ServiceConfig) : Prop where
  globalDefaultBucket : c1.globalDefaultBucket = c2.globalDefaultBucket
  namespaces : ∀ name,
    Option.Rel (Option.Rel SameNamespace) (c1.namespaces.get name) (c2.namespaces.get name)

theorem SameNamespace.applyDefaults {c1 c2 : NamespaceConfig} (h : SameNamespace c1 c2)
    (name : String) :
    SameNamespace (applyNamespaceDefaults name c1) (applyNamespaceDefaults name c2) := by
  refine ⟨rfl, h.maxDynamicBuckets, ?_, ?_, fun n => ?_⟩
  · simp [applyNamespaceDefaults, h.defaultBucket]
  · simp [applyNamespaceDefaults, h.dynamicBucketTemplate]
  · rw [get_applyNamespaceDefaults, get_applyNamespaceDefaults, h.buckets n]

/-- Defaults are filled in once. -/
theorem same_applyNamespaceDefaults (name : String) (ns : NamespaceConfig) :
    SameNamespace (applyNamespaceDefaults name (applyNamespaceDefaults name ns))
      (applyNamespaceDefaults name ns) := by
  refine ⟨rfl, rfl, ?_, ?_, fun n => ?_⟩
  · simp [applyNamespaceDefaults, Function.comp_def]
  · simp [applyNamespaceDefaults, Function.comp_def]
  · simp [get_applyNamespaceDefaults, Function.comp_def]

/-- A copy is the same, once no bucket is nil. -/
theorem same_cloneNamespaceConfig {ns : NamespaceConfig}
    (h : ∀ n b, ns.buckets.get n = some b → b ≠ none) :
    SameNamespace (cloneNamespaceConfig ns) ns := by
  refine ⟨rfl, rfl, rfl, rfl, fun n => ?_⟩
  rw [show (cloneNamespaceConfig ns).buckets = cloneMap {} id ns.buckets from rfl, get_cloneMap]
  cases hb : ns.buckets.get n with
  | none => rfl
  | some b =>
    obtain ⟨c, rfl⟩ := Option.ne_none_iff_exists'.mp (h n b hb)
    rfl

/-- In a normalised config the defaults are filled in. -/
theorem Normalised.filled {sc : ServiceConfig} (h : Normalised sc) {name : String}
    {ns : NamespaceConfig} (hns : sc.namespaces.get name = some (some ns)) :
    SameNamespace (applyNamespaceDefaults name ns) ns := by
  obtain ⟨raw, sc', hraw, rfl | rfl⟩ := h
  · rw [get_applyDefaults hraw, Option.map_eq_some_iff] at hns
    obtain ⟨x, -, hx⟩ := hns
    obtain ⟨rawNs, -, rfl⟩ := Option.map_eq_some_iff.mp hx
    exact same_applyNamespaceDefaults name rawNs
  · simp only [cloneConfig, get_cloneMap, Option.map_eq_some_iff] at hns
    obtain ⟨x, hx, heq⟩ := hns
    obtain ⟨c, rfl, hc⟩ := applyDefaults_namespace_get hraw hx
    cases heq
    rw [get_applyDefaults hraw, Option.map_eq_some_iff] at hx
    obtain ⟨y, -, hy⟩ := hx
    obtain ⟨rawNs, -, rfl⟩ := Option.map_eq_some_iff.mp hy
    have hclone := same_cloneNamespaceConfig hc.buckets_set
    exact (hclone.applyDefaults name).trans
      ((same_applyNamespaceDefaults name rawNs).trans hclone.symm)

/-- The loop over the named buckets finds no difference exactly when they are the same table,
because the sizes have been compared before. -/
theorem differentNamespaceConfigs_eq_false {c1 c2 : NamespaceConfig} :
    differentNamespaceConfigs c1 c2 = false ↔ SameNamespace c1 c2 := by
  unfold differentNamespaceConfigs
  dsimp only
  constructor
  · intro h
    split_ifs at h with hd
    simp only [Bool.or_eq_true, bne_iff_ne, ne_eq, not_or, not_not, Bool.not_eq_true,
      differentBucketConfigs_eq_false] at hd
    obtain ⟨⟨⟨⟨hname, hmax⟩, hdef⟩, htpl⟩, hlen⟩ := hd
    refine ⟨hname, hmax, hdef, htpl, GoMap.get_eq_of_len_eq hlen fun n b hb => ?_⟩
    have hn := List.any_eq_false.mp h _ (GoMap.mem_range_iff.mpr hb)
    cases hb2 : c2.buckets.get n with
    | none => simp [hb2] at hn
    | some b2 =>
      simp only [hb2, Bool.not_eq_true, differentBucketConfigs_eq_false] at hn
      rw [hn]
  · intro h
    have hlen := GoMap.len_eq_of_get_eq h.buckets
    have hd : ∀ c : Option BucketConfig, differentBucketConfigs c c = false := by simp
    simp only [h.name, h.maxDynamicBuckets, h.defaultBucket, h.dynamicBucketTemplate, hlen, hd,
      bne_self_eq_false, Bool.or_self, Bool.false_eq_true, if_false, List.any_eq_false]
    rintro ⟨n, b⟩ he
    rw [GoMap.mem_range_iff, h.buckets] at he
    simp [he]

/-- The loop over the named buckets of the first config, in the order in which its map is
iterated. -/
def differentNamedBuckets (c2 : NamespaceConfig) : List (String × Option BucketConfig) → Bool
  | [] => false
  | (name, b1) :: rest =>
    match c2.buckets.get name with
    | none => true
    | some b2 => if differentBucketConfigs b1 b2 then true else differentNamedBuckets c2 rest

/-- `differentNamespaceConfigs` with `order` for the order in which Go iterates over the map of
`c1`. -/
def differentNamespaceConfigsIn (order : List (String × Option BucketConfig))
    (c1 c2 : NamespaceConfig) : Bool :=
  let different := c1.name != c2.name || c1.maxDynamicBuckets != c2.maxDynamicBuckets ||
    differentBucketConfigs c1.defaultBucket c2.defaultBucket ||
    differentBucketConfigs c1.dynamicBucketTemplate c2.dynamicBucketTemplate ||
    c1.buckets.len != c2.buckets.len
  if different then true else differentNamedBuckets c2 order

theorem differentNamedBuckets_eq_any (c2 : NamespaceConfig)
    (order : List (String × Option BucketConfig)) :
    differentNamedBuckets c2 order = order.any fun e => match c2.buckets.get e.1 with
      | none => true
      | some b2 => differentBucketConfigs e.2 b2 := by
  induction order with
  | nil => rfl
  | cons e rest ih =>
    rw [differentNamedBuckets, List.any_cons, ← ih]
    cases c2.buckets.get e.1 with
    | none => simp
    | some b2 => cases differentBucketConfigs e.2 b2 <;> simp

/-- Leaving the loop early makes no difference, and neither does the order. -/
theorem differentNamespaceConfigsIn_eq {order : List (String × Option BucketConfig)}
    {c1 : NamespaceConfig} (h : order.Perm c1.buckets.range) (c2 : NamespaceConfig) :
    differentNamespaceConfigsIn order c1 c2 = differentNamespaceConfigs c1 c2 := by
  unfold differentNamespaceConfigsIn
  rw [differentNamedBuckets_eq_any, h.any_eq]
  rfl

/-- A config differs from another exactly when some setting does, in whichever orders the maps
are iterated; so no difference is an equivalence. -/
theorem differentNamespaceConfigs_value_inequality
    (order : NamespaceConfig → NamespaceConfig → List (String × Option BucketConfig))
    (horder : ∀ c1 c2, (order c1 c2).Perm c1.buckets.range) :
    (∀ c1 c2, differentNamespaceConfigsIn (order c1 c2) c1 c2 = false ↔ SameNamespace c1 c2) ∧
    (∀ c1 c2, differentNamespaceConfigsIn (order c1 c2) c1 c2 =
      differentNamespaceConfigsIn (order c2 c1) c2 c1) ∧
    Equivalence fun c1 c2 => differentNamespaceConfigsIn (order c1 c2) c1 c2 = false := by
  have hiff : ∀ c1 c2,
      differentNamespaceConfigsIn (order c1 c2) c1 c2 = false ↔ SameNamespace c1 c2 := by
    intro c1 c2
    rw [differentNamespaceConfigsIn_eq (horder c1 c2), differentNamespaceConfigs_eq_false]
  have hsymm : ∀ c1 c2, differentNamespaceConfigsIn (order c1 c2) c1 c2 = false ↔
      differentNamespaceConfigsIn (order c2 c1) c2 c1 = false := by
    intro c1 c2
    rw [hiff, hiff]
    exact ⟨SameNamespace.symm, SameNamespace.symm⟩
  refine ⟨hiff, fun c1 c2 => Bool.eq_iff_iff.mpr ?_, ?_⟩
  · rw [← not_iff_not, Bool.not_eq_true, Bool.not_eq_true]
    exact hsymm c1 c2
  · constructor
    · intro c
      exact (hiff c c).mpr (SameNamespace.refl c)
    · intro c1 c2 h
      exact (hsymm c1 c2).mp h
    · intro c1 c2 c3 h h'
      exact (hiff c1 c3).mpr (((hiff c1 c2).mp h).trans ((hiff c2 c3).mp h'))

/-- A nil map and an empty one are no difference, a nil bucket under another name is one; the maps
are iterated backwards. -/
theorem differentNamespaceConfigs_value_inequality_backwards :
    let one : NamespaceConfig := { buckets := .table (AList.singleton "a" none) }
    let other : NamespaceConfig := { buckets := .table (AList.singleton "b" none) }
    differentNamespaceConfigsIn [] {} { buckets := .make } = false ∧
      differentNamespaceConfigsIn one.buckets.range.reverse one other = true := by
  intro one other
  have h := differentNamespaceConfigs_value_inequality (fun c _ => c.buckets.range.reverse)
    (fun c _ => List.reverse_perm _)
  refine ⟨(h.1 {} { buckets := .make }).mpr ⟨rfl, rfl, rfl, rfl, by simp⟩, ?_⟩
  by_contra hsame
  have heq := ((h.1 one other).mp (Bool.not_eq_true _ ▸ hsame)).buckets "a"
  exact absurd heq (by decide)

end QuotaService.Config
