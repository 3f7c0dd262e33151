import QuotaService.Buckets.Memory
import QuotaService.Config.Diff
import QuotaService.Lib.Arith
import QuotaService.Lib.Directory
import Mathlib.Data.Finset.Insert
import Mathlib.Data.Multiset.Range

/-! The bucket container: namespaces with their buckets, the global default bucket, and the
incremental update of `server.updateBucketContainer`. Namespaces are objects that a name refers to,
because the reaper and `FindBucket` go on using the one they have fetched. Buckets are numbered as
they are created, and every call of `Destroy` is logged under its bucket's number. -/
namespace QuotaService.Container
open Config

/-- A bucket factory with state `F` whose buckets are `B`. -/
structure BucketFactory (F B : Type) where
  init : F → ServiceConfig → F
  newBucket : F → String → String → BucketConfig → Bool → F × B
  destroy : F → B → F

/-- The factory of the in-memory buckets, which has no state and nothing to clean up. -/
def memoryFactory : BucketFactory Unit Memory.TokenBucket where
  init _ _ := ()
  newBucket _ ns bucketName cfg dyn := ((), Memory.newBucket ns bucketName cfg dyn)
  destroy _ _ := ()

/-- A bucket of the container; a reapable one reports its activity to the reaper. -/
structure Bucket (B : Type) where
  id : ℕ
  cfg : BucketConfig
  dynamic : Bool
  reapable : Bool
  impl : B

structure Namespace (B : Type) where
  name : String
  cfg : NamespaceConfig
  buckets : AList fun _ : String => Bucket B
  dynamicBucketCount : ℤ
  defaultBucket : Option (Bucket B)

/-- What the reaper knows of a bucket, whose activity channel is named by the bucket's number. -/
structure Watcher where
  ns : String
  bucketName : String
  identifier : String
  maxIdle : ℤ
  lastActivity : ℤ
  activities : ℕ

/-- The container, with the channels to the reaper: the activity channels, of capacity one, that
hold a report, and the watchers that the reaper has not received yet. -/
structure BucketContainer (F B : Type) where
  cfg : Option ServiceConfig
  factory : F
  namespaces : Directory String (Namespace B)
  defaultBucket : Option (Bucket B)
  nextBucket : ℕ
  destroyed : Multiset ℕ
  activities : Finset ℕ
  newWatchers : List Watcher

/-- How long a bucket may be idle, in nanoseconds. -/
def idleTime (cfg : BucketConfig) : ℤ := Arith.int64.wrap (cfg.maxIdleMillis * 1000000)

def NewBucketContainer {F B : Type} (factory : F) : BucketContainer F B where
  cfg := none
  factory := factory
  namespaces := .empty
  defaultBucket := none
  nextBucket := 0
  destroyed := 0
  activities := ∅
  newWatchers := []

structure Server (F B : Type) where
  cfgs : Option ServiceConfig
  bucketContainer : BucketContainer F B

def Namespace.swapCfg {B : Type} (newCfg : NamespaceConfig) (ns : Namespace B) : Namespace B :=
  { ns with cfg := newCfg }

/-- The namespace with a bucket put into its map, a dynamic one being counted. -/
def Namespace.addBucket {B : Type} (bucketName : String) (b : Bucket B) (ns : Namespace B) :
    Namespace B :=
  { ns with
    buckets := ns.buckets.insert bucketName b
    dynamicBucketCount :=
      if b.dynamic then Arith.int32.wrap (ns.dynamicBucketCount + 1) else ns.dynamicBucketCount }

/-- The namespace with a bucket taken out of its map. -/
def Namespace.dropBucket {B : Type} (bucketName : String) (b : Bucket B) (ns : Namespace B) :
    Namespace B :=
  { ns with
    buckets := ns.buckets.erase bucketName
    dynamicBucketCount :=
      if b.dynamic then Arith.int32.wrap (ns.dynamicBucketCount - 1) else ns.dynamicBucketCount }

/-- The loop of `countDynamicBuckets`, which counts in an `int32`. -/
def Namespace.countDynamicBuckets {B : Type} (ns : Namespace B) : ℤ :=
  ns.buckets.entries.foldl (fun c e => if e.2.dynamic then Arith.int32.wrap (c + 1) else c) 0

namespace BucketContainer
variable {F B : Type} (fac : BucketFactory F B)

def newBucket (bc : BucketContainer F B) («namespace» bucketName : String) (cfg : BucketConfig)
    (dyn reapable : Bool) : BucketContainer F B × Bucket B :=
  let r := fac.newBucket bc.factory «namespace» bucketName cfg dyn
  ({ bc with factory := r.1, nextBucket := bc.nextBucket + 1 },
    ⟨bc.nextBucket, cfg, dyn, reapable, r.2⟩)

def destroyBucket (bc : BucketContainer F B) (b : Bucket B) : BucketContainer F B :=
  { bc with factory := fac.destroy bc.factory b.impl, destroyed := b.id ::ₘ bc.destroyed }

/-- `Destroy` of a default bucket, if there is one. -/
def destroyDefault (bc : BucketContainer F B) : Option (Bucket B) → BucketContainer F B
  | none => bc
  | some b => bc.destroyBucket fac b

/-- A report to a full channel is dropped. -/
def reportActivity (bc : BucketContainer F B) (b : Bucket B) : BucketContainer F B :=
  if b.reapable then { bc with activities := insert b.id bc.activities } else bc

/-- The report at the end of `FindBucket`, of the bucket that it has found, if any. -/
def reportBucket (bc : BucketContainer F B) : Option (Bucket B) → BucketContainer F B
  | none => bc
  | some b => bc.reportActivity b

/-- `createNewNamedBucketFromCfg` with `applyWatch`. -/
def createNewNamedBucketFromCfg (bc : BucketContainer F B) («namespace» bucketName : String)
    (nsp : Namespace B) (bCfg : BucketConfig) (dyn : Bool) :
    BucketContainer F B × Namespace B × Bucket B :=
  let reapable := dyn && decide (0 < bCfg.maxIdleMillis)
  let r := bc.newBucket fac «namespace» bucketName bCfg dyn reapable
  let bc := if reapable then
      { r.1 with newWatchers := r.1.newWatchers ++ [⟨«namespace», bucketName,
          fullyQualifiedName «namespace» bucketName, idleTime bCfg, 0, r.2.id⟩] }
    else r.1
  (bc.reportActivity r.2, nsp.addBucket bucketName r.2, r.2)

/-- The body of the loop over the configured buckets of a namespace; `none` is a nil pointer. -/
def createStaticBucket (nsName : String) (s : BucketContainer F B × Namespace B)
    (e : String × Option BucketConfig) : Option (BucketContainer F B × Namespace B) :=
  e.2.map fun bCfg =>
    let r := s.1.createNewNamedBucketFromCfg fac nsName e.1 s.2 bCfg false
    (r.1, r.2.1)

/-- A new namespace with its default bucket, if one is configured. -/
def newNamespace (bc : BucketContainer F B) (nsCfg : NamespaceConfig) :
    BucketContainer F B × Namespace B :=
  let nsp : Namespace B := ⟨nsCfg.name, nsCfg, ∅, 0, none⟩
  match nsCfg.defaultBucket with
  | none => (bc, nsp)
  | some cfg =>
    let r := bc.newBucket fac nsCfg.name defaultBucketName cfg false false
    (r.1, { nsp with defaultBucket := some r.2 })

def createNamespaceLocked (bc : BucketContainer F B) (nsCfg : NamespaceConfig) :
    Option (BucketContainer F B) :=
  (nsCfg.buckets.range.foldlM (createStaticBucket fac nsCfg.name) (bc.newNamespace fac nsCfg)).map
    fun s => { s.1 with namespaces := s.1.namespaces.bind nsCfg.name s.2 }

def createGlobalDefaultBucketLocked (bc : BucketContainer F B) (cfg : BucketConfig) :
    BucketContainer F B :=
  let r := bc.newBucket fac globalNamespace defaultBucketName cfg false false
  { r.1 with defaultBucket := some r.2 }

/-- `destroy` of a namespace; its buckets stay in its map. -/
def destroyNamespace (bc : BucketContainer F B) (ns : Namespace B) : BucketContainer F B :=
  ns.buckets.entries.foldl (fun bc e => bc.destroyBucket fac e.2)
    (bc.destroyDefault fac ns.defaultBucket)

/-- The body of the loop over the namespaces of the first config. -/
def initNamespace (bc : BucketContainer F B) (e : String × Option NamespaceConfig) :
    Option (BucketContainer F B) :=
  e.2.bind (bc.createNamespaceLocked fac)

def initGlobalDefaultBucket (bc : BucketContainer F B) : Option BucketConfig → BucketContainer F B
  | none => bc
  | some b => bc.createGlobalDefaultBucketLocked fac b

/-- `initLocked` of a container that has no config yet. -/
def initLocked (bc : BucketContainer F B) (cfg : ServiceConfig) : Option (BucketContainer F B) :=
  let cfg := nameNamespaces cfg
  let bc := { bc with cfg := some cfg }
  cfg.namespaces.range.foldlM (initNamespace fac)
    (bc.initGlobalDefaultBucket fac cfg.globalDefaultBucket)

/-- The namespace object that a name refers to. -/
def fetch (bc : BucketContainer F B) (name : String) : Option (ℕ × Namespace B) :=
  (bc.namespaces.ref? name).bind fun r => (bc.namespaces.deref r).map fun ns => (r, ns)

/-- The part of an update that compares the global default bucket. -/
def updateGlobalDefaultBucket (bc : BucketContainer F B) (newConfig : ServiceConfig) :
    BucketContainer F B :=
  if differentBucketConfigs (bc.defaultBucket.map Bucket.cfg) newConfig.globalDefaultBucket then
    let bc := bc.destroyDefault fac bc.defaultBucket
    match newConfig.globalDefaultBucket with
    | none => { bc with defaultBucket := none }
    | some b => bc.createGlobalDefaultBucketLocked fac b
  else bc

/-- The body of the loop over the container's namespaces, for a name that it comes to. A name that
is gone by then is not visited; `none` is a nil pointer. -/
def updateNamespace (newConfig : ServiceConfig) (bc : BucketContainer F B) (name : String) :
    Option (BucketContainer F B) :=
  match bc.fetch name with
  | none => some bc
  | some (r, ns) =>
    match newConfig.namespaces.get name with
    | some none => none
    | some (some newNsCfg) =>
      if differentNamespaceConfigs ns.cfg newNsCfg then
        (bc.destroyNamespace fac ns).createNamespaceLocked fac newNsCfg
      else some { bc with namespaces := bc.namespaces.modify r (Namespace.swapCfg newNsCfg) }
    | none =>
      let bc := bc.destroyNamespace fac ns
      some { bc with namespaces := bc.namespaces.unbind name }

/-- The body of the loop that adds the namespaces that are new. -/
def addNamespace (bc : BucketContainer F B) (e : String × Option NamespaceConfig) :
    Option (BucketContainer F B) :=
  if (bc.fetch e.1).isSome then some bc else e.2.bind (bc.createNamespaceLocked fac)

/-- The update of a container that has a config; `order` is the order in which the loop comes to
the names of the map, which it changes while it ranges over it. -/
def update (order : List String) (newConfig : ServiceConfig) (bc : BucketContainer F B) :
    Option (BucketContainer F B) := do
  let bc := { bc with cfg := some newConfig }
  let bc ← order.foldlM (updateNamespace fac newConfig) (bc.updateGlobalDefaultBucket fac newConfig)
  newConfig.namespaces.range.foldlM (addNamespace fac) bc

/-- `createNewNamedBucket` on the namespace `nsp`, to which `r` refers; `none` if there is no room
for another dynamic bucket. -/
def createNewNamedBucket (bc : BucketContainer F B) («namespace» bucketName : String) (r : ℕ)
    (nsp : Namespace B) (template : BucketConfig) : BucketContainer F B × Option (Bucket B) :=
  let create (bCfg : BucketConfig) (dyn : Bool) :=
    let s := bc.createNewNamedBucketFromCfg fac «namespace» bucketName nsp bCfg dyn
    ({ s.1 with namespaces := s.1.namespaces.modify r fun _ => s.2.1 }, some s.2.2)
  match (nsp.cfg.buckets.get bucketName).join with
  | some bCfg => create bCfg false
  | none =>
    if nsp.cfg.maxDynamicBuckets ≤ nsp.dynamicBucketCount ∧ 0 < nsp.cfg.maxDynamicBuckets then
      (bc, none)
    else create template true

/-- `FindBucket`, uninterrupted. -/
def findBucket (bc : BucketContainer F B) («namespace» bucketName : String) :
    BucketContainer F B × Except String (Option (Bucket B)) :=
  match bc.fetch «namespace» with
  | none => (bc.reportBucket bc.defaultBucket, .ok bc.defaultBucket)
  | some (r, ns) =>
    match ns.buckets.lookup bucketName with
    | some b => (bc.reportBucket (some b), .ok (some b))
    | none =>
      match ns.cfg.dynamicBucketTemplate with
      | none => (bc.reportBucket ns.defaultBucket, .ok ns.defaultBucket)
      | some template =>
        match bc.createNewNamedBucket fac «namespace» bucketName r ns template with
        | (bc, some b) => (bc, .ok (some b))
        | (bc, none) => (bc, .error "Cannot create dynamic bucket")

/-- `removeBucket` of a namespace, to which `r` refers. -/
def removeBucket (bc : BucketContainer F B) (r : ℕ) (bucketName : String) : BucketContainer F B :=
  match (bc.namespaces.deref r).bind fun ns => (ns.buckets.lookup bucketName) with
  | none => bc
  | some b =>
    let bc := { bc with namespaces := bc.namespaces.modify r (Namespace.dropBucket bucketName b) }
    BucketContainer.destroyBucket fac bc b

end BucketContainer

/-- `updateBucketContainer`. The first config initialises the container, which names the namespaces
of that config in place. -/
def updateBucketContainer {F B : Type} (fac : BucketFactory F B) (order : List String)
    (newConfig : ServiceConfig) (s : Server F B) : Option (Server F B) :=
  if s.cfgs.any fun c => newConfig.version ≤ c.version then some s
  else
    let bc := { s.bucketContainer with factory := fac.init s.bucketContainer.factory newConfig }
    match bc.cfg with
    | none => (bc.initLocked fac newConfig).map fun bc => ⟨some (nameNamespaces newConfig), bc⟩
    | some _ => (bc.update fac order newConfig).map fun bc => ⟨some newConfig, bc⟩

end QuotaService.Container
