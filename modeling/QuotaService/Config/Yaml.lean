import QuotaService.Config.Json
import QuotaService.Lib.Yaml

/-! The YAML of the config messages, under the tags of the generated structs, and `ReadConfig`: a
document is read over the default config, and the defaults of its namespaces and buckets are filled
in. -/
namespace QuotaService.Config
open Yaml

def bucketKeys : List (Yaml.Field BucketConfig) :=
  [stringField "name" fun x b => { b with name := x },
    stringField "namespace" fun x b => { b with «namespace» := x },
    intField "size" 64 fun n b => { b with size := n },
    intField "fill_rate" 64 fun n b => { b with fillRate := n },
    intField "wait_timeout_millis" 64 fun n b => { b with waitTimeoutMillis := n },
    intField "max_idle_millis" 64 fun n b => { b with maxIdleMillis := n },
    intField "max_debt_millis" 64 fun n b => { b with maxDebtMillis := n },
    intField "max_tokens_per_request" 64 fun n b => { b with maxTokensPerRequest := n }]

def bucketOfYaml (v : Yaml) (b : BucketConfig) : Option BucketConfig :=
  readStruct bucketKeys {} v b

def namespaceKeys : List (Yaml.Field NamespaceConfig) :=
  [stringField "name" fun x ns => { ns with name := x },
    pointerField "default_bucket" bucketOfYaml {} NamespaceConfig.defaultBucket
      fun b ns => { ns with defaultBucket := b },
    pointerField "dynamic_bucket_template" bucketOfYaml {} NamespaceConfig.dynamicBucketTemplate
      fun b ns => { ns with dynamicBucketTemplate := b },
    intField "max_dynamic_buckets" 32 fun n ns => { ns with maxDynamicBuckets := n },
    tableField "buckets" bucketOfYaml {} NamespaceConfig.buckets
      fun m ns => { ns with buckets := m }]

def namespaceOfYaml (v : Yaml) (ns : NamespaceConfig) : Option NamespaceConfig :=
  readStruct namespaceKeys {} v ns

def serviceKeys : List (Yaml.Field ServiceConfig) :=
  [pointerField "global_default_bucket" bucketOfYaml {} ServiceConfig.globalDefaultBucket
      fun b c => { c with globalDefaultBucket := b },
    tableField "namespaces" namespaceOfYaml {} ServiceConfig.namespaces
      fun m c => { c with namespaces := m },
    intField "version" 32 fun n c => { c with version := n },
    stringField "user" fun x c => { c with user := x },
    intField "date" 64 fun n c => { c with date := n }]

def configOfYaml (v : Yaml) (c : ServiceConfig) : Option ServiceConfig :=
  readStruct serviceKeys {} v c

def newDefaultServiceConfig (now : ℤ) : ServiceConfig :=
  { globalDefaultBucket := none, namespaces := .make, user := "quotaservice", date := now,
    version := 0 }

/-- `none` is a panic; an empty document has no node. -/
def readConfigFromBytes (now : ℤ) (document : Option Yaml) : Option ServiceConfig :=
  let cfg := newDefaultServiceConfig now
  ((document.map fun v => configOfYaml v cfg).getD (some cfg)).bind applyDefaults

end QuotaService.Config
