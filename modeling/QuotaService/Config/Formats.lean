import QuotaService.Config.Yaml

/-! What JSON and YAML have in common for the config messages: a bucket that stands in an object for a
namespace or for a config is read by itself, whatever stands beside it. -/
namespace QuotaService.Config

/-- A format in which the config messages are written. The keys of an object address fields by name;
a field that only one key addresses, and an entry of a table with a key of its own, are read from a
fresh message. -/
structure Format (ν : Type) where
  object : List (String × ν) → ν
  readBucket : ν → BucketConfig → Option BucketConfig
  readNamespace : ν → NamespaceConfig → Option NamespaceConfig
  readService : ν → ServiceConfig → Option ServiceConfig
  namespaceKey : String → Option String
  serviceKey : String → Option String
  defaultBucket : ∀ {fields kvs ns},
    Single (fun e => namespaceKey e.1 = some "default_bucket") ("default_bucket", object fields) kvs →
    readNamespace (object kvs) {} = some ns →
    ∃ b, readBucket (object fields) {} = some b ∧ ns.defaultBucket = some b
  dynamicBucketTemplate : ∀ {fields kvs ns},
    Single (fun e => namespaceKey e.1 = some "dynamic_bucket_template")
      ("dynamic_bucket_template", object fields) kvs →
    readNamespace (object kvs) {} = some ns →
    ∃ b, readBucket (object fields) {} = some b ∧ ns.dynamicBucketTemplate = some b
  bucket : ∀ {fields entries kvs ns name},
    Single (fun e => namespaceKey e.1 = some "buckets") ("buckets", object entries) kvs →
    Single (fun e => e.1 = name) (name, object fields) entries →
    readNamespace (object kvs) {} = some ns →
    ∃ b, readBucket (object fields) {} = some b ∧ ns.buckets.get name = some (some b)
  globalDefaultBucket : ∀ {fields kvs c c'},
    Single (fun e => serviceKey e.1 = some "global_default_bucket")
      ("global_default_bucket", object fields) kvs →
    readService (object kvs) c = some c' → c.globalDefaultBucket = none →
    ∃ b, readBucket (object fields) {} = some b ∧ c'.globalDefaultBucket = some b
  «namespace» : ∀ {inner entries kvs c c' name},
    Single (fun e => serviceKey e.1 = some "namespaces") ("namespaces", object entries) kvs →
    Single (fun e => e.1 = name) (name, object inner) entries →
    readService (object kvs) c = some c' →
    ∃ ns, readNamespace (object inner) {} = some ns ∧ c'.namespaces.get name = some (some ns)

section Frames
variable {v : Yaml} {w : Json}

/-- A key of a namespace that is read leaves what has other keys as it is. -/
theorem namespaceKeys_frame {f : Yaml.Field NamespaceConfig} (hf : f ∈ namespaceKeys)
    {ns ns' : NamespaceConfig} (h : f.read v ns = some ns') :
    (f.name ≠ "default_bucket" → ns'.defaultBucket = ns.defaultBucket) ∧
      (f.name ≠ "dynamic_bucket_template" →
        ns'.dynamicBucketTemplate = ns.dynamicBucketTemplate) ∧
      (f.name ≠ "buckets" → ns'.buckets = ns.buckets) := by
  simp only [namespaceKeys, List.mem_cons, List.not_mem_nil, or_false] at hf
  rcases hf with rfl | rfl | rfl | rfl | rfl <;>
    obtain ⟨x, -, rfl⟩ := Option.map_eq_some_iff.mp h <;>
    exact ⟨fun hne => by first | rfl | exact absurd rfl hne,
      fun hne => by first | rfl | exact absurd rfl hne,
      fun hne => by first | rfl | exact absurd rfl hne⟩

theorem namespaceFields_frame {f : Json.Field NamespaceConfig} (hf : f ∈ namespaceFields)
    {ns ns' : NamespaceConfig} (h : f.read w ns = some ns') :
    (f.name ≠ "default_bucket" → ns'.defaultBucket = ns.defaultBucket) ∧
      (f.name ≠ "dynamic_bucket_template" →
        ns'.dynamicBucketTemplate = ns.dynamicBucketTemplate) ∧
      (f.name ≠ "buckets" → ns'.buckets = ns.buckets) := by
  simp only [namespaceFields, List.mem_cons, List.not_mem_nil, or_false] at hf
  rcases hf with rfl | rfl | rfl | rfl | rfl <;>
    obtain ⟨x, -, rfl⟩ := Option.map_eq_some_iff.mp h <;>
    exact ⟨fun hne => by first | rfl | exact absurd rfl hne,
      fun hne => by first | rfl | exact absurd rfl hne,
      fun hne => by first | rfl | exact absurd rfl hne⟩

theorem serviceKeys_frame {f : Yaml.Field ServiceConfig} (hf : f ∈ serviceKeys)
    {c c' : ServiceConfig} (h : f.read v c = some c') :
    (f.name ≠ "global_default_bucket" → c'.globalDefaultBucket = c.globalDefaultBucket) ∧
      (f.name ≠ "namespaces" → c'.namespaces = c.namespaces) := by
  simp only [serviceKeys, List.mem_cons, List.not_mem_nil, or_false] at hf
  rcases hf with rfl | rfl | rfl | rfl | rfl <;>
    obtain ⟨x, -, rfl⟩ := Option.map_eq_some_iff.mp h <;>
    exact ⟨fun hne => by first | rfl | exact absurd rfl hne,
      fun hne => by first | rfl | exact absurd rfl hne⟩

theorem serviceFields_frame {f : Json.Field ServiceConfig} (hf : f ∈ serviceFields)
    {c c' : ServiceConfig} (h : f.read w c = some c') :
    (f.name ≠ "global_default_bucket" → c'.globalDefaultBucket = c.globalDefaultBucket) ∧
      (f.name ≠ "namespaces" → c'.namespaces = c.namespaces) := by
  simp only [serviceFields, List.mem_cons, List.not_mem_nil, or_false] at hf
  rcases hf with rfl | rfl | rfl | rfl | rfl <;>
    obtain ⟨x, -, rfl⟩ := Option.map_eq_some_iff.mp h <;>
    exact ⟨fun hne => by first | rfl | exact absurd rfl hne,
      fun hne => by first | rfl | exact absurd rfl hne⟩

end Frames

/-- JSON. -/
def jsonFormat : Format Json where
  object := .obj
  readBucket := unmarshalBucket
  readNamespace := unmarshalNamespace
  readService := unmarshalConfig
  namespaceKey key := (Json.findField namespaceFields key).map Json.Field.name
  serviceKey key := (Json.findField serviceFields key).map Json.Field.name
  defaultBucket := fun hkvs h => Json.pointer_of_single rfl
    (fun _ hf hne _ _ _ hs => (namespaceFields_frame hf hs).1 hne) (fun _ _ => rfl) hkvs h rfl
  dynamicBucketTemplate := fun hkvs h => Json.pointer_of_single rfl
    (fun _ hf hne _ _ _ hs => (namespaceFields_frame hf hs).2.1 hne) (fun _ _ => rfl) hkvs h rfl
  bucket := fun hkvs hentries h => Json.table_of_single rfl
    (fun _ hf hne _ _ _ hs => (namespaceFields_frame hf hs).2.2 hne) (fun _ _ => rfl) hkvs hentries h
  globalDefaultBucket := fun hkvs h hnone => Json.pointer_of_single rfl
    (fun _ hf hne _ _ _ hs => (serviceFields_frame hf hs).1 hne) (fun _ _ => rfl) hkvs h hnone
  «namespace» := fun hkvs hentries h => Json.table_of_single rfl
    (fun _ hf hne _ _ _ hs => (serviceFields_frame hf hs).2 hne) (fun _ _ => rfl) hkvs hentries h

/-- YAML. -/
def yamlFormat : Format Yaml where
  object := .mapping
  readBucket := bucketOfYaml
  readNamespace := namespaceOfYaml
  readService := configOfYaml
  namespaceKey key := (Yaml.findField namespaceKeys key).map Yaml.Field.name
  serviceKey key := (Yaml.findField serviceKeys key).map Yaml.Field.name
  defaultBucket := fun hkvs h => Yaml.pointer_of_single rfl
    (fun _ hf hne _ _ _ hs => (namespaceKeys_frame hf hs).1 hne) (fun _ _ => rfl) hkvs h rfl
  dynamicBucketTemplate := fun hkvs h => Yaml.pointer_of_single rfl
    (fun _ hf hne _ _ _ hs => (namespaceKeys_frame hf hs).2.1 hne) (fun _ _ => rfl) hkvs h rfl
  bucket := fun hkvs hentries h => Yaml.table_of_single rfl
    (fun _ hf hne _ _ _ hs => (namespaceKeys_frame hf hs).2.2 hne) (fun _ _ => rfl) hkvs hentries h
  globalDefaultBucket := fun hkvs h hnone => Yaml.pointer_of_single rfl
    (fun _ hf hne _ _ _ hs => (serviceKeys_frame hf hs).1 hne) (fun _ _ => rfl) hkvs h hnone
  «namespace» := fun hkvs hentries h => Yaml.table_of_single rfl
    (fun _ hf hne _ _ _ hs => (serviceKeys_frame hf hs).2 hne) (fun _ _ => rfl) hkvs hentries h

end QuotaService.Config
