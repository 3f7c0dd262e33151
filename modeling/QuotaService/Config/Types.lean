import QuotaService.Lib.GoMap

/-! The configuration messages of `protos/config/configs.proto` as the Go code holds them: a
message pointer is an `Option`, and a map may be nil and may hold nil pointers. The integers are
unbounded; where a width matters the operation that wraps says so. -/
namespace QuotaService.Config

def globalNamespace : String := "___GLOBAL___"

def defaultBucketName : String := "___DEFAULT_BUCKET___"

def dynamicBucketTemplateName : String := "___DYNAMIC_BUCKET_TPL___"

structure BucketConfig where
  name : String := ""
  «namespace» : String := ""
  size : ℤ := 0
  fillRate : ℤ := 0
  waitTimeoutMillis : ℤ := 0
  maxIdleMillis : ℤ := 0
  maxDebtMillis : ℤ := 0
  maxTokensPerRequest : ℤ := 0
deriving DecidableEq

structure NamespaceConfig where
  name : String := ""
  defaultBucket : Option BucketConfig := none
  dynamicBucketTemplate : Option BucketConfig := none
  maxDynamicBuckets : ℤ := 0
  buckets : GoMap String (Option BucketConfig) := .null
deriving DecidableEq

structure ServiceConfig where
  globalDefaultBucket : Option BucketConfig := none
  namespaces : GoMap String (Option NamespaceConfig) := .null
  version : ℤ := 0
  user : String := ""
  date : ℤ := 0
deriving DecidableEq

/-- What `proto.Clone` makes of a map field: an empty map is not populated, so its copy is nil,
and a nil message value is copied as the zero message. -/
def cloneMap {α : Type} (zero : α) (clone : α → α) (m : GoMap String (Option α)) :
    GoMap String (Option α) :=
  if m.len = 0 then .null else m.map fun _ v => some (clone (v.getD zero))

def cloneNamespaceConfig (ns : NamespaceConfig) : NamespaceConfig :=
  { ns with buckets := cloneMap {} id ns.buckets }

def cloneConfig (cfg : ServiceConfig) : ServiceConfig :=
  { cfg with namespaces := cloneMap {} cloneNamespaceConfig cfg.namespaces }

def fullyQualifiedName (ns bucketName : String) : String := ns ++ ":" ++ bucketName

theorem get_cloneMap {α : Type} (zero : α) (clone : α → α) (m : GoMap String (Option α))
    (k : String) :
    (cloneMap zero clone m).get k = (m.get k).map fun v => some (clone (v.getD zero)) := by
  unfold cloneMap
  split_ifs with h
  · have hk : m.get k = none := by
      cases hv : m.get k with
      | none => rfl
      | some v =>
        have hmem := GoMap.mem_keys_iff.mpr ⟨v, hv⟩
        simp [List.length_eq_zero_iff.mp h] at hmem
    simp [hk]
  · simp

theorem cloneMap_idem {α : Type} (zero : α) {clone : α → α} (h : ∀ a, clone (clone a) = clone a)
    (m : GoMap String (Option α)) :
    cloneMap zero clone (cloneMap zero clone m) = cloneMap zero clone m := by
  unfold cloneMap
  by_cases hlen : m.len = 0
  · rw [if_pos hlen]
    rfl
  · simp only [hlen, if_false, GoMap.len_map, GoMap.map_map, Option.getD_some, h]

@[simp] theorem cloneConfig_idem (cfg : ServiceConfig) :
    cloneConfig (cloneConfig cfg) = cloneConfig cfg := by
  have hns : ∀ ns, cloneNamespaceConfig (cloneNamespaceConfig ns) = cloneNamespaceConfig ns := by
    intro ns
    simp only [cloneNamespaceConfig, cloneMap_idem {} (show ∀ a : BucketConfig, id (id a) = id a from fun _ => rfl)]
  simp only [cloneConfig, cloneMap_idem {} hns]

end QuotaService.Config
