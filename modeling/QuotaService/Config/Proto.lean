import QuotaService.Config.Json
import QuotaService.Config.Places
import QuotaService.Lib.WireMessages

/-! The configs in the wire format, in which they are persisted. The messages of a newer version have
fields that this one does not know, in each message after those that it knows. -/
namespace QuotaService.Config
open Wire

/-- The integers of a config fit in their types. -/
structure ServiceConfig.Fits (cfg : ServiceConfig) : Prop where
  version : -2 ^ 31 ≤ cfg.version ∧ cfg.version < 2 ^ 31
  date : -2 ^ 63 ≤ cfg.date ∧ cfg.date < 2 ^ 63
  globalDefaultBucket : ∀ b ∈ cfg.globalDefaultBucket, b.Fits
  namespaces : ∀ name ns, cfg.namespaces.get name = some (some ns) → ns.Fits

namespace Proto

/-- The records that a message has after those of the known fields. -/
structure Unrecognized where
  bucket : BucketConfig → Bytes
  «namespace» : NamespaceConfig → Bytes
  service : ServiceConfig → Bytes

/-- The types of this version keep nothing that they do not know. -/
def Unrecognized.none : Unrecognized := ⟨fun _ => [], fun _ => [], fun _ => []⟩

section Messages
variable (u : Unrecognized)

def bucketInfo : MessageInfo BucketConfig where
  coders :=
    [(1, stringCoder 1 BucketConfig.name fun x b => { b with name := x }),
      (2, stringCoder 2 BucketConfig.namespace fun x b => { b with «namespace» := x }),
      (3, intCoder 64 3 BucketConfig.size fun x b => { b with size := x }),
      (4, intCoder 64 4 BucketConfig.fillRate fun x b => { b with fillRate := x }),
      (5, intCoder 64 5 BucketConfig.waitTimeoutMillis fun x b => { b with waitTimeoutMillis := x }),
      (6, intCoder 64 6 BucketConfig.maxIdleMillis fun x b => { b with maxIdleMillis := x }),
      (7, intCoder 64 7 BucketConfig.maxDebtMillis fun x b => { b with maxDebtMillis := x }),
      (8, intCoder 64 8 BucketConfig.maxTokensPerRequest fun x b =>
        { b with maxTokensPerRequest := x })]
  unknown := u.bucket

def namespaceInfo : MessageInfo NamespaceConfig where
  coders :=
    [(1, stringCoder 1 NamespaceConfig.name fun x ns => { ns with name := x }),
      (2, messageCoder 2 (bucketInfo u) {} NamespaceConfig.defaultBucket fun b ns =>
        { ns with defaultBucket := b }),
      (3, messageCoder 3 (bucketInfo u) {} NamespaceConfig.dynamicBucketTemplate fun b ns =>
        { ns with dynamicBucketTemplate := b }),
      (4, intCoder 32 4 NamespaceConfig.maxDynamicBuckets fun x ns =>
        { ns with maxDynamicBuckets := x }),
      (5, mapCoder 5 (bucketInfo u) {} NamespaceConfig.buckets fun m ns => { ns with buckets := m })]
  unknown := u.namespace

def serviceInfo : MessageInfo ServiceConfig where
  coders :=
    [(1, messageCoder 1 (bucketInfo u) {} ServiceConfig.globalDefaultBucket fun b cfg =>
        { cfg with globalDefaultBucket := b }),
      (2, mapCoder 2 (namespaceInfo u) {} ServiceConfig.namespaces fun m cfg =>
        { cfg with namespaces := m }),
      (3, intCoder 32 3 ServiceConfig.version fun x cfg => { cfg with version := x }),
      (4, stringCoder 4 ServiceConfig.user fun x cfg => { cfg with user := x }),
      (5, intCoder 64 5 ServiceConfig.date fun x cfg => { cfg with date := x })]
  unknown := u.service

/-- A config as a version writes it. -/
def marshalAs (cfg : ServiceConfig) : Bytes := (serviceInfo u).marshal cfg

end Messages

/-- `proto.Marshal`, of which the maps are written in the order of a `range`. -/
def marshal (cfg : ServiceConfig) : Bytes := marshalAs .none cfg

/-- `proto.Unmarshal`: the config, and whether there was no error. -/
def unmarshal (b : Bytes) : ServiceConfig × Bool := (serviceInfo .none).unmarshal b {}

/-- The records of a newer version, whose fields have numbers of their own. -/
structure Unrecognized.Newer (u : Unrecognized) : Prop where
  bucket : ∀ b, MessageInfo.Foreign [1, 2, 3, 4, 5, 6, 7, 8] (u.bucket b)
  «namespace» : ∀ ns, MessageInfo.Foreign [1, 2, 3, 4, 5] (u.namespace ns)
  service : ∀ cfg, MessageInfo.Foreign [1, 2, 3, 4, 5] (u.service cfg)

section Sizes
variable (u : Unrecognized)

theorem bucketInfo_exact (b : BucketConfig) : (bucketInfo u).Exact b := by
  apply MessageInfo.exact_of_coders
  simp only [bucketInfo, List.forall_mem_cons, List.not_mem_nil, false_imp_iff, implies_true,
    and_true]
  exact ⟨stringCoder_exact (by decide) _ _ b, stringCoder_exact (by decide) _ _ b,
    intCoder_exact (by decide) _ _ b, intCoder_exact (by decide) _ _ b,
    intCoder_exact (by decide) _ _ b, intCoder_exact (by decide) _ _ b,
    intCoder_exact (by decide) _ _ b, intCoder_exact (by decide) _ _ b⟩

theorem namespaceInfo_exact (ns : NamespaceConfig) : (namespaceInfo u).Exact ns := by
  apply MessageInfo.exact_of_coders
  simp only [namespaceInfo, List.forall_mem_cons, List.not_mem_nil, false_imp_iff, implies_true,
    and_true]
  exact ⟨stringCoder_exact (by decide) _ _ ns,
    messageCoder_exact (by decide) _ _ fun b _ => bucketInfo_exact u b,
    messageCoder_exact (by decide) _ _ fun b _ => bucketInfo_exact u b,
    intCoder_exact (by decide) _ _ ns,
    mapCoder_exact (by decide) _ _ fun _ _ b _ => bucketInfo_exact u b⟩

end Sizes

section Reading
variable {u : Unrecognized}

theorem bucket_read (hu : u.Newer) {b : BucketConfig} (hfits : b.Fits)
    (hlt : ((bucketInfo u).marshal b).length < 2 ^ 64) :
    (bucketInfo .none).unmarshal ((bucketInfo u).marshal b) {} = (b, true) := by
  unfold MessageInfo.marshal at hlt ⊢
  simp only [bucketInfo, List.flatMap_cons, List.flatMap_nil, List.append_nil,
    List.length_append] at hlt ⊢
  apply MessageInfo.Reads.unmarshal
  have hunknown : (bucketInfo .none).Reads (u.bucket b) b b :=
    (hu.bucket b).reads rfl b
  refine .append ?_ hunknown
  refine .append (MessageInfo.reads_string (by decide) rfl (by omega) rfl) ?_
  refine .append (MessageInfo.reads_string (by decide) rfl (by omega) rfl) ?_
  refine .append (MessageInfo.reads_int (by decide) rfl (.inr rfl) hfits.size rfl) ?_
  refine .append (MessageInfo.reads_int (by decide) rfl (.inr rfl) hfits.fillRate rfl) ?_
  refine .append (MessageInfo.reads_int (by decide) rfl (.inr rfl) hfits.waitTimeoutMillis rfl) ?_
  refine .append (MessageInfo.reads_int (by decide) rfl (.inr rfl) hfits.maxIdleMillis rfl) ?_
  refine .append (MessageInfo.reads_int (by decide) rfl (.inr rfl) hfits.maxDebtMillis rfl) ?_
  exact MessageInfo.reads_int (by decide) rfl (.inr rfl) hfits.maxTokensPerRequest rfl

/-- A copy of a map changes nothing that is not changed in an entry, if the map is nil when it is
empty. -/
theorem cloneMap_map_eq_self {α : Type} (zero : α) {clone : α → α} {m : GoMap String (Option α)}
    {f : String → Option α → Option α} (hnull : m.len = 0 → m = .null)
    (h : ∀ k v, m.get k = some v → some (clone ((f k v).getD zero)) = v) :
    cloneMap zero clone (m.map f) = m := by
  unfold cloneMap
  rw [GoMap.len_map, GoMap.map_map]
  split_ifs with hlen
  · exact (hnull hlen).symm
  · exact (GoMap.map_congr h).trans (GoMap.map_id m)

theorem cloneMap_eq_self {α : Type} (zero : α) {clone : α → α} {m : GoMap String (Option α)}
    (hnull : m.len = 0 → m = .null)
    (h : ∀ k v, m.get k = some v → ∃ x, v = some x ∧ clone x = x) :
    cloneMap zero clone m = m := by
  have hmap := cloneMap_map_eq_self zero (f := fun _ v => v) hnull fun k v hk => by
    obtain ⟨x, rfl, hx⟩ := h k v hk
    exact congrArg some hx
  rwa [GoMap.map_id] at hmap

/-- What a table has been read from, by an entry that it has. -/
theorem exists_of_rel {α : Type} {zero : α} {R : α → α → Prop} {x : Option (Option α)}
    {o : Option α} (h : Option.Rel (fun o o' => ∃ x, o' = some x ∧ R (o.getD zero) x) x (some o)) :
    ∃ y v, x = some y ∧ o = some v ∧ R (y.getD zero) v := by
  cases h with
  | some hx =>
    obtain ⟨v, rfl, hR⟩ := hx
    exact ⟨_, v, rfl, rfl, hR⟩

/-- A table that has been read is that of the clone. -/
theorem get_read {m m' : GoMap String (Option BucketConfig)} {k : String}
    (h : Option.Rel (fun o o' => ∃ x, o' = some x ∧ o.getD {} = x) (m.get k) (m'.get k)) :
    (cloneMap {} id m).get k = m'.get k := by
  rw [get_cloneMap]
  generalize m.get k = x, m'.get k = y at h
  cases h with
  | none => rfl
  | some hx =>
    obtain ⟨b, rfl, rfl⟩ := hx
    rfl

/-- A namespace that has been read: what it should be, and its own copy. -/
structure ReadAs (ns ns' : NamespaceConfig) : Prop where
  same : SameNamespace (cloneNamespaceConfig ns) ns'
  copied : cloneNamespaceConfig ns' = ns'

theorem namespace_read (hu : u.Newer) {ns : NamespaceConfig} (hfits : ns.Fits)
    (hlt : ((namespaceInfo u).marshal ns).length < 2 ^ 64) :
    ∃ ns', (namespaceInfo .none).unmarshal ((namespaceInfo u).marshal ns) {} = (ns', true) ∧
      ReadAs ns ns' := by
  unfold MessageInfo.marshal at hlt ⊢
  simp only [namespaceInfo, List.flatMap_cons, List.flatMap_nil, List.append_nil,
    List.length_append] at hlt ⊢
  obtain ⟨m, hbuckets, hget, hnull⟩ := MessageInfo.reads_map (namespaceInfo .none) 5 ns
    { ns with buckets := .null } (R := fun b b' => b = b') (by decide) rfl
    (fun _ _ => rfl) (fun _ => rfl) (fun _ _ _ => rfl) rfl (by omega)
    (fun b => bucketInfo_exact u b)
    (fun n b hb hle => ⟨b, bucket_read hu (hfits.buckets n b hb) hle, rfl⟩) fun k => GoMap.get_null k
  have hunknown : (namespaceInfo .none).Reads (u.namespace ns) { ns with buckets := m }
      { ns with buckets := m } := (hu.namespace ns).reads rfl _
  have hcopied : cloneMap {} id m = m := by
    refine cloneMap_eq_self {} hnull fun k v hk => ?_
    have hrel := hget k
    rw [hk] at hrel
    obtain ⟨-, b, -, rfl, -⟩ := exists_of_rel hrel
    exact ⟨b, rfl, rfl⟩
  refine ⟨{ ns with buckets := m }, MessageInfo.Reads.unmarshal ?_,
    ⟨rfl, rfl, rfl, rfl, fun n => get_read (hget n)⟩, ?_⟩
  · refine .append ?_ hunknown
    refine .append (MessageInfo.reads_string (by decide) rfl (by omega) rfl) ?_
    refine .append (MessageInfo.reads_message (by decide) rfl (by omega)
      (fun b => bucketInfo_exact u b)
      (fun b hb hle => bucket_read hu (hfits.defaultBucket b hb) hle) rfl rfl) ?_
    refine .append (MessageInfo.reads_message (by decide) rfl (by omega)
      (fun b => bucketInfo_exact u b)
      (fun b hb hle => bucket_read hu (hfits.dynamicBucketTemplate b hb) hle) rfl rfl) ?_
    refine .append (MessageInfo.reads_int (by decide) rfl (.inl rfl) hfits.maxDynamicBuckets rfl) ?_
    exact hbuckets
  · simp only [cloneNamespaceConfig, hcopied]

/-- Two configs that agree, whatever the order of their maps. -/
structure SameMessage (c1 c2 : ServiceConfig) : Prop extends SameConfig c1 c2 where
  version : c1.version = c2.version
  user : c1.user = c2.user
  date : c1.date = c2.date

theorem service_read (hu : u.Newer) {cfg : ServiceConfig} (hfits : cfg.Fits)
    (hlt : (marshalAs u cfg).length < 2 ^ 64) :
    ∃ cfg', unmarshal (marshalAs u cfg) = (cfg', true) ∧ SameMessage (cloneConfig cfg) cfg' ∧
      cloneConfig cfg' = cfg' := by
  unfold unmarshal marshalAs MessageInfo.marshal at *
  simp only [serviceInfo, List.flatMap_cons, List.flatMap_nil, List.append_nil,
    List.length_append] at hlt ⊢
  obtain ⟨m, hnamespaces, hget, hnull⟩ := MessageInfo.reads_map (serviceInfo .none) 2 cfg
    { globalDefaultBucket := cfg.globalDefaultBucket } (R := ReadAs) (by decide) rfl
    (fun _ _ => rfl) (fun _ => rfl) (fun _ _ _ => rfl) ⟨.refl _, rfl⟩ (by omega)
    (fun ns => namespaceInfo_exact u ns)
    (fun name ns hns hle => namespace_read hu (hfits.namespaces name ns hns) hle)
    fun k => GoMap.get_null k
  have hunknown : (serviceInfo .none).Reads (u.service cfg) { cfg with namespaces := m }
      { cfg with namespaces := m } := (hu.service cfg).reads rfl _
  have hcopied : cloneMap {} cloneNamespaceConfig m = m := by
    refine cloneMap_eq_self {} hnull fun k v hk => ?_
    have hrel := hget k
    rw [hk] at hrel
    obtain ⟨_, ns, -, rfl, hread⟩ := exists_of_rel hrel
    exact ⟨ns, rfl, hread.copied⟩
  refine ⟨{ cfg with namespaces := m }, MessageInfo.Reads.unmarshal ?_, ⟨⟨rfl, fun name => ?_⟩, rfl,
    rfl, rfl⟩, ?_⟩
  · refine .append ?_ hunknown
    refine .append (MessageInfo.reads_message (by decide) rfl (by omega)
      (fun b => bucketInfo_exact u b)
      (fun b hb hle => bucket_read hu (hfits.globalDefaultBucket b hb) hle) rfl rfl) ?_
    refine .append hnamespaces ?_
    refine .append (MessageInfo.reads_int (by decide) rfl (.inl rfl) hfits.version rfl) ?_
    refine .append (MessageInfo.reads_string (by decide) rfl (by omega) rfl) ?_
    exact MessageInfo.reads_int (by decide) rfl (.inr rfl) hfits.date rfl
  · have hrel := hget name
    simp only [cloneConfig, get_cloneMap]
    generalize cfg.namespaces.get name = x, m.get name = y at hrel
    cases hrel with
    | none => exact .none
    | some hx =>
      obtain ⟨ns', rfl, hread⟩ := hx
      exact .some (.some hread.same)
  · simp only [cloneConfig, hcopied]

end Reading

section Normalised
variable {c c' : ServiceConfig} {name : String} {ns : NamespaceConfig}

/-- What a map that is its own copy holds. -/
theorem of_cloneMap_eq_self {α : Type} {zero : α} {clone : α → α} {m : GoMap String (Option α)}
    (h : cloneMap zero clone m = m) :
    (m.len = 0 → m = .null) ∧ ∀ k v, m.get k = some v → some (clone (v.getD zero)) = v := by
  constructor
  · intro hlen
    rw [← h]
    exact if_pos hlen
  · intro k v hk
    have hget := get_cloneMap zero clone m k
    rw [h, hk] at hget
    exact (Option.some_inj.mp hget).symm

/-- A copy of a namespace in which the defaults are filled in. -/
theorem clone_applyNamespaceDefaults_eq_self (hcopied : cloneNamespaceConfig ns = ns)
    (h : SameNamespace (applyNamespaceDefaults name ns) ns) :
    cloneNamespaceConfig (applyNamespaceDefaults name ns) = ns := by
  have hbuckets : (cloneNamespaceConfig (applyNamespaceDefaults name ns)).buckets = ns.buckets := by
    obtain ⟨hnull, hset⟩ := of_cloneMap_eq_self (congrArg NamespaceConfig.buckets hcopied)
    rw [clone_applyNamespaceDefaults_buckets]
    split_ifs with hlen
    · exact (hnull hlen).symm
    · refine (GoMap.map_congr fun n b hb => ?_).trans (GoMap.map_id ns.buckets)
      have hfilled := h.buckets n
      rw [get_applyNamespaceDefaults, hb] at hfilled
      have hb' : b.map (applyNamedDefaults name n) = b := Option.some_inj.mp hfilled
      rw [hb']
      exact hset n b hb
  have hext : ∀ a b : NamespaceConfig, a.name = b.name → a.defaultBucket = b.defaultBucket →
      a.dynamicBucketTemplate = b.dynamicBucketTemplate →
      a.maxDynamicBuckets = b.maxDynamicBuckets → a.buckets = b.buckets → a = b := by
    rintro ⟨⟩ ⟨⟩ rfl rfl rfl rfl rfl
    rfl
  exact hext _ _ h.name h.defaultBucket h.dynamicBucketTemplate rfl hbuckets

theorem acceptsDefaults_of_normalised (hns : NormalisedNamespace name ns) {ns' : NamespaceConfig}
    (h : SameNamespace ns ns') : acceptsDefaults (some ns') = true := by
  have hexclusive : (ns'.defaultBucket.isSome && ns'.dynamicBucketTemplate.isSome) = false := by
    rw [← h.defaultBucket, ← h.dynamicBucketTemplate]
    rcases hns.exclusive with hnone | hnone
    · simp [hnone]
    · simp [hnone]
  have hset : ns'.buckets.range.all (fun e => e.2.isSome) = true := by
    rw [List.all_eq_true]
    rintro ⟨n, b⟩ he
    have hget : ns.buckets.get n = some b := (h.buckets n).trans (GoMap.mem_range_iff.mp he)
    exact Option.isSome_iff_ne_none.mpr (hns.buckets_set n b hget)
  simp only [acceptsDefaults, hexclusive, hset, Bool.not_false, Bool.and_self]

/-- What agrees with a normalised config is normalised, if it is its own copy. -/
theorem normalised_of_same (hc : Normalised c) (h : SameConfig c c') (hcopied : cloneConfig c' = c') :
    Normalised c' := by
  have hsame : SameConfig (withDefaults c') c' :=
    (h.symm.withDefaults).trans (hc.same_withDefaults.trans h)
  obtain ⟨hnull, hset⟩ := of_cloneMap_eq_self (congrArg ServiceConfig.namespaces hcopied)
  have haccepts : applyDefaults c' = some (withDefaults c') := by
    unfold applyDefaults
    refine if_pos (List.all_eq_true.mpr ?_)
    rintro ⟨name, o⟩ he
    have hrel := h.namespaces name
    rw [GoMap.mem_range_iff.mp he] at hrel
    generalize hget : c.namespaces.get name = x at hrel
    cases hrel with
    | some hrel =>
      obtain ⟨ns, rfl, hns⟩ := hc.namespace_get hget
      cases hrel with
      | some hrel => exact acceptsDefaults_of_normalised hns hrel
  refine ⟨c', withDefaults c', haccepts, Or.inr ?_⟩
  have hnamespaces : (cloneConfig (withDefaults c')).namespaces = c'.namespaces := by
    refine cloneMap_map_eq_self {} hnull fun name o hget => ?_
    obtain ⟨x, rfl⟩ : ∃ x, o = some x := ⟨_, (hset name o hget).symm⟩
    have hcopy : cloneNamespaceConfig x = x := Option.some_inj.mp (hset name _ hget)
    have hrel := hsame.namespaces name
    have hdefaults : (withDefaults c').namespaces.get name =
        some (some (applyNamespaceDefaults name x)) := by
      simp only [withDefaults, GoMap.get_map, hget, Option.map_some]
    rw [hdefaults, hget] at hrel
    cases hrel with
    | some hrel =>
      cases hrel with
      | some hrel => exact congrArg some (clone_applyNamespaceDefaults_eq_self hcopy hrel)
  have hext : ∀ a b : ServiceConfig, a.globalDefaultBucket = b.globalDefaultBucket →
      a.namespaces = b.namespaces → a.version = b.version → a.user = b.user → a.date = b.date →
      a = b := by
    rintro ⟨⟩ ⟨⟩ rfl rfl rfl rfl rfl
    rfl
  exact hext _ _ hsame.globalDefaultBucket.symm hnamespaces.symm rfl rfl rfl

theorem normalised_clone (h : Normalised c) : Normalised (cloneConfig c) := by
  obtain ⟨raw, sc, hraw, rfl | rfl⟩ := h
  · exact ⟨raw, c, hraw, Or.inr rfl⟩
  · exact ⟨raw, sc, hraw, Or.inr (cloneConfig_idem sc)⟩

end Normalised

/-- Whatever the order of its maps, and whether this version wrote it or a newer one, a config is read
back from what it is written as: as its clone, without an error, and normalised if it was. -/
theorem config_read_back {u : Unrecognized} (hu : u.Newer) {cfg : ServiceConfig} (hfits : cfg.Fits)
    (hsize : (marshalAs u cfg).length < 2 ^ 63) :
    ∃ cfg', unmarshal (marshalAs u cfg) = (cfg', true) ∧ SameMessage (cloneConfig cfg) cfg' ∧
      (Normalised cfg → Normalised cfg') := by
  obtain ⟨cfg', hread, hsame, hcopied⟩ := service_read hu hfits (hsize.trans (by decide))
  refine ⟨cfg', hread, hsame, fun hnorm => ?_⟩
  exact normalised_of_same (normalised_clone hnorm) hsame.toSameConfig hcopied

/-- A version that has a ninth field in each bucket, and a group in the service. -/
def expanded : Unrecognized where
  bucket _ := appendVarint (8 * 9 + 0) ++ appendVarint 300 ++ []
  «namespace» _ := []
  service _ := appendVarint (8 * 6 + 3) ++ appendVarint (8 * 6 + 4) ++ []

theorem expanded_newer : expanded.Newer := by
  refine ⟨fun b => ?_, fun ns => .nil, fun cfg => ?_⟩
  · refine .record (by decide) (by decide) (by decide) (by decide) (fun rest => ?_) .nil
    rw [consumeFieldValue_scalar 9 (by decide)]
    exact congrArg (Option.map Prod.snd) (consumeVarint_append (show 300 < 2 ^ 64 by decide) rest)
  · refine .record (by decide) (by decide) (by decide) (by decide) (fun rest => ?_) .nil
    change consumeFieldValue 6 .startGroup _ = _
    rw [consumeFieldValue_startGroup, consumeTag_append (by decide) (by decide) (by decide)]
    rfl

/-- The expanded version writes a config with a bucket in a namespace. -/
theorem config_read_back_expanded :
    let bucket : BucketConfig := { name := "b", size := 300 }
    let ns : NamespaceConfig :=
      { name := "n", maxDynamicBuckets := -1, buckets := .table (AList.singleton "b" (some bucket)) }
    let cfg : ServiceConfig :=
      { namespaces := .table (AList.singleton "n" (some ns)), version := 3, user := "é", date := -1 }
    ∃ cfg', unmarshal (marshalAs expanded cfg) = (cfg', true) ∧ SameMessage (cloneConfig cfg) cfg' := by
  intro bucket ns cfg
  have hbucket : bucket.Fits := ⟨by decide, by decide, by decide, by decide, by decide, by decide⟩
  have hns : ns.Fits := by
    refine ⟨by decide, by simp [ns], by simp [ns], fun n b hb => ?_⟩
    have hb' := (GoMap.lookup_singleton "b" (some bucket) n).symm.trans hb
    split_ifs at hb'
    cases hb'
    exact hbucket
  have hfits : cfg.Fits := by
    refine ⟨by decide, by decide, by simp [cfg], fun name ns' hget => ?_⟩
    have hget' := (GoMap.lookup_singleton "n" (some ns) name).symm.trans hget
    split_ifs at hget'
    cases hget'
    exact hns
  obtain ⟨cfg', hread, hsame, -⟩ := config_read_back expanded_newer hfits (by decide)
  exact ⟨cfg', hread, hsame⟩

end Proto

end QuotaService.Config
