import QuotaService.Config.Diff
import QuotaService.Lib.Json

/-! The JSON of the config messages, under the tags of the generated structs. All fields are marked
with `omitempty`. A config that is written and read back is the same, but for empty maps, which come
back as nil. -/
namespace QuotaService.Config
open Json

def bucketFields : List (Json.Field BucketConfig) :=
  [stringField "name" BucketConfig.name fun x b => { b with name := x },
    stringField "namespace" BucketConfig.namespace fun x b => { b with «namespace» := x },
    intField "size" 64 BucketConfig.size fun n b => { b with size := n },
    intField "fill_rate" 64 BucketConfig.fillRate fun n b => { b with fillRate := n },
    intField "wait_timeout_millis" 64 BucketConfig.waitTimeoutMillis
      fun n b => { b with waitTimeoutMillis := n },
    intField "max_idle_millis" 64 BucketConfig.maxIdleMillis
      fun n b => { b with maxIdleMillis := n },
    intField "max_debt_millis" 64 BucketConfig.maxDebtMillis
      fun n b => { b with maxDebtMillis := n },
    intField "max_tokens_per_request" 64 BucketConfig.maxTokensPerRequest
      fun n b => { b with maxTokensPerRequest := n }]

def bucketProperties (b : BucketConfig) : List (String × Json) :=
  omitEmpty "name" b.name ++ (omitEmpty "namespace" b.namespace ++ (omitZero "size" b.size ++
    (omitZero "fill_rate" b.fillRate ++ (omitZero "wait_timeout_millis" b.waitTimeoutMillis ++
      (omitZero "max_idle_millis" b.maxIdleMillis ++ (omitZero "max_debt_millis" b.maxDebtMillis ++
        omitZero "max_tokens_per_request" b.maxTokensPerRequest))))))

def marshalBucket (b : BucketConfig) : Json := obj (bucketProperties b)

def unmarshalBucket (v : Json) (b : BucketConfig) : Option BucketConfig :=
  readStruct bucketFields v b

def namespaceFields : List (Json.Field NamespaceConfig) :=
  [stringField "name" NamespaceConfig.name fun x ns => { ns with name := x },
    pointerField "default_bucket" unmarshalBucket {} NamespaceConfig.defaultBucket
      fun b ns => { ns with defaultBucket := b },
    pointerField "dynamic_bucket_template" unmarshalBucket {} NamespaceConfig.dynamicBucketTemplate
      fun b ns => { ns with dynamicBucketTemplate := b },
    intField "max_dynamic_buckets" 32 NamespaceConfig.maxDynamicBuckets
      fun n ns => { ns with maxDynamicBuckets := n },
    tableField "buckets" unmarshalBucket {} NamespaceConfig.buckets
      fun m ns => { ns with buckets := m }]

/-- The properties of a namespace before its buckets. -/
def namespaceProperties (ns : NamespaceConfig) : List (String × Json) :=
  omitEmpty "name" ns.name ++ (omitNil "default_bucket" marshalBucket ns.defaultBucket ++
    (omitNil "dynamic_bucket_template" marshalBucket ns.dynamicBucketTemplate ++
      omitZero "max_dynamic_buckets" ns.maxDynamicBuckets))

def marshalNamespace (ns : NamespaceConfig) : Json :=
  obj (namespaceProperties ns ++ omitNone "buckets" marshalBucket ns.buckets)

def unmarshalNamespace (v : Json) (ns : NamespaceConfig) : Option NamespaceConfig :=
  readStruct namespaceFields v ns

def serviceFields : List (Json.Field ServiceConfig) :=
  [pointerField "global_default_bucket" unmarshalBucket {} ServiceConfig.globalDefaultBucket
      fun b c => { c with globalDefaultBucket := b },
    tableField "namespaces" unmarshalNamespace {} ServiceConfig.namespaces
      fun m c => { c with namespaces := m },
    intField "version" 32 ServiceConfig.version fun n c => { c with version := n },
    stringField "user" ServiceConfig.user fun x c => { c with user := x },
    intField "date" 64 ServiceConfig.date fun n c => { c with date := n }]

def marshalConfig (c : ServiceConfig) : Json :=
  obj (omitNil "global_default_bucket" marshalBucket c.globalDefaultBucket ++
    (omitNone "namespaces" marshalNamespace c.namespaces ++ (omitZero "version" c.version ++
      (omitEmpty "user" c.user ++ omitZero "date" c.date))))

def unmarshalConfig (v : Json) (c : ServiceConfig) : Option ServiceConfig :=
  readStruct serviceFields v c

/-- The integers of a bucket fit in 64 bits. -/
structure BucketConfig.Fits (b : BucketConfig) : Prop where
  size : -2 ^ 63 ≤ b.size ∧ b.size < 2 ^ 63
  fillRate : -2 ^ 63 ≤ b.fillRate ∧ b.fillRate < 2 ^ 63
  waitTimeoutMillis : -2 ^ 63 ≤ b.waitTimeoutMillis ∧ b.waitTimeoutMillis < 2 ^ 63
  maxIdleMillis : -2 ^ 63 ≤ b.maxIdleMillis ∧ b.maxIdleMillis < 2 ^ 63
  maxDebtMillis : -2 ^ 63 ≤ b.maxDebtMillis ∧ b.maxDebtMillis < 2 ^ 63
  maxTokensPerRequest : -2 ^ 63 ≤ b.maxTokensPerRequest ∧ b.maxTokensPerRequest < 2 ^ 63

/-- The integers of a namespace fit in their types. -/
structure NamespaceConfig.Fits (ns : NamespaceConfig) : Prop where
  maxDynamicBuckets : -2 ^ 31 ≤ ns.maxDynamicBuckets ∧ ns.maxDynamicBuckets < 2 ^ 31
  defaultBucket : ∀ b ∈ ns.defaultBucket, b.Fits
  dynamicBucketTemplate : ∀ b ∈ ns.dynamicBucketTemplate, b.Fits
  buckets : ∀ n b, ns.buckets.get n = some (some b) → b.Fits

theorem unmarshal_marshalBucket {b : BucketConfig} (h : b.Fits) :
    unmarshalBucket (marshalBucket b) {} = some b := by
  unfold unmarshalBucket marshalBucket bucketProperties
  rw [readStruct_append (readStruct_omitEmpty rfl rfl),
    readStruct_append (readStruct_omitEmpty rfl rfl),
    readStruct_append (readStruct_omitZero rfl h.size rfl),
    readStruct_append (readStruct_omitZero rfl h.fillRate rfl),
    readStruct_append (readStruct_omitZero rfl h.waitTimeoutMillis rfl),
    readStruct_append (readStruct_omitZero rfl h.maxIdleMillis rfl),
    readStruct_append (readStruct_omitZero rfl h.maxDebtMillis rfl),
    readStruct_omitZero rfl h.maxTokensPerRequest rfl]

theorem marshalBucket_ne_null (b : BucketConfig) : marshalBucket b ≠ null :=
  fun h => nomatch h

/-- Reading the properties of a namespace, with its buckets in some order. -/
theorem unmarshalNamespace_part {ns : NamespaceConfig} (h : ns.Fits) {T : String → Option BucketConfig}
    {part : List (String × Json)}
    (hpart : Part "buckets" (fun v b => v = marshalBucket b ∧ b.Fits) T part) :
    ∃ m, unmarshalNamespace (obj (namespaceProperties ns ++ part)) {} =
        some { ns with buckets := m } ∧ ∀ n, m.get n = (T n).map some := by
  have hpointer : ∀ x : Option BucketConfig, (∀ b ∈ x, b.Fits) →
      ∀ b ∈ x, marshalBucket b ≠ null ∧ unmarshalBucket (marshalBucket b) {} = some b :=
    fun x hx b hb => ⟨marshalBucket_ne_null b, unmarshal_marshalBucket (hx b hb)⟩
  have hproperties : readStruct namespaceFields (obj (namespaceProperties ns)) {} =
      some { ns with buckets := .null } := by
    unfold namespaceProperties
    rw [readStruct_append (readStruct_omitEmpty rfl rfl),
      readStruct_append (readStruct_omitNil rfl rfl rfl (hpointer _ h.defaultBucket)),
      readStruct_append (readStruct_omitNil rfl rfl rfl (hpointer _ h.dynamicBucketTemplate)),
      readStruct_omitZero rfl h.maxDynamicBuckets rfl]
  have hbucket : ∀ v b, v = marshalBucket b ∧ b.Fits →
      v ≠ null ∧ ∃ x, unmarshalBucket v {} = some x ∧ x = b := by
    rintro v b ⟨rfl, hb⟩
    exact ⟨marshalBucket_ne_null b, b, unmarshal_marshalBucket hb, rfl⟩
  have hfield : findField namespaceFields "buckets" = some (tableField "buckets" unmarshalBucket {}
      NamespaceConfig.buckets fun m ns => { ns with buckets := m }) := rfl
  obtain ⟨m, hm, hrel⟩ := readStruct_part (s := { ns with buckets := .null }) hfield rfl rfl
    hbucket hpart
  refine ⟨m, ?_, fun n => ?_⟩
  · unfold unmarshalNamespace
    rw [readStruct_append hproperties, hm]
  · have hn := hrel n
    generalize m.get n = x, T n = y at hn
    cases hn with
    | none => rfl
    | some hx =>
      obtain ⟨b, rfl, rfl⟩ := hx
      rfl

end QuotaService.Config
