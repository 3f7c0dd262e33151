import QuotaService.Container.Reconcile
import QuotaService.Server.Mysql
import QuotaService.Server.Zookeeper

/-! A server that starts on a persister which may have nothing for it yet. A persister says so by an
error or, without one, by a nil config; `readUpdatedConfig` hands the latter on. A panic ends the
process. -/
namespace QuotaService.Startup
open Config Server Container Notifications Mysql

/-- The persisters. A file is known by what it decodes to, if it does. -/
inductive ConfigPersister (D : Type)
  | zookeeper (z : ZkConfigPersister)
  | memory (m : MemoryConfigPersister)
  | mysql (mp : MysqlPersister D)
  | disk (location : Option ServiceConfig)

namespace ConfigPersister
variable {D : Type}

/-- `none` is an error, `some none` the nil config. -/
def readPersistedConfig : ConfigPersister D → Option (Option ServiceConfig)
  | zookeeper z => some z.readPersistedConfig
  | memory m => some m.readPersistedConfig
  | mysql mp => mp.readPersistedConfig.map some
  | disk location => location.map fun cfg => some (cloneConfig cfg)

/-- A persister that looks up its current config in a map, in which there is none. -/
def Unset : ConfigPersister D → Prop
  | zookeeper z => z.configs.lookup z.config = none
  | memory m => m.configs.lookup m.config = none
  | mysql _ | disk _ => False

end ConfigPersister

inductive Panic
  | nilConfig
  | nilEntry
deriving DecidableEq

/-- A field of a config is read. -/
def deref : Option ServiceConfig → Except Panic ServiceConfig
  | none => .error .nilConfig
  | some cfg => .ok cfg

/-- A bucket factory, with what `Init` makes of the nil config: the one in memory stores it, the one
on Redis logs its version. -/
structure InitFactory (F B : Type) extends BucketFactory F B where
  initNil : F → Option F

def inMemory : InitFactory Unit Memory.TokenBucket := { memoryFactory with initNil := some }

section Update
variable {F B D : Type} (fac : InitFactory F B) (order : List String)

def InitFactory.Init (factory : F) : Option ServiceConfig → Except Panic F
  | none => (fac.initNil factory).elim (.error .nilConfig) .ok
  | some cfg => .ok (fac.init factory cfg)

/-- The guard against configs that are not newer. -/
def stale (cfgs newConfig : Option ServiceConfig) : Except Panic Bool :=
  match cfgs with
  | none => .ok false
  | some c => do
    let newConfig ← deref newConfig
    return newConfig.version ≤ c.version

def updateBucketContainer (newConfig : Option ServiceConfig) (s : Server F B) :
    Except Panic (Server F B) := do
  if ← stale s.cfgs newConfig then
    return s
  let factory ← fac.Init s.bucketContainer.factory newConfig
  let bc := { s.bucketContainer with factory := factory }
  -- both ways begin with the global default bucket of the config
  let newConfig ← deref newConfig
  match bc.cfg with
  | none =>
    match bc.initLocked fac.toBucketFactory newConfig with
    | none => throw .nilEntry
    | some bc => return ⟨some (nameNamespaces newConfig), bc⟩
  | some _ =>
    match bc.update fac.toBucketFactory order newConfig with
    | none => throw .nilEntry
    | some bc => return ⟨some newConfig, bc⟩

def readUpdatedConfig (persister : ConfigPersister D) (s : Server F B) :
    Except Panic (Server F B) :=
  match persister.readPersistedConfig with
  | none => .ok s
  | some newConfig => updateBucketContainer fac order newConfig s

end Update

/-- The persister and the server, which is gone after a panic. -/
structure Process (F B D : Type) where
  persister : ConfigPersister D
  server : Option (Server F B)

/-- The persister comes to hold something else, the server reads its config, a bucket is asked for. -/
inductive Input (D : Type)
  | persist (p : ConfigPersister D)
  | readUpdatedConfig (order : List String)
  | findBucket («namespace» bucketName : String)

section Runs
variable {F B D : Type} (fac : InitFactory F B)

def step (s : Process F B D) : Input D → Process F B D × Option Panic
  | .persist p => ({ s with persister := p }, none)
  | .readUpdatedConfig order =>
    match s.server.map (readUpdatedConfig fac order s.persister) with
    | none => (s, none)
    | some (.ok server) => ({ s with server := some server }, none)
    | some (.error panic) => ({ s with server := none }, some panic)
  | .findBucket ns bucketName =>
    ({ s with server := s.server.map fun server => { server with
        bucketContainer :=
          (server.bucketContainer.findBucket fac.toBucketFactory ns bucketName).1 } }, none)

/-- A server that has been initialised with a config, on a container that had none. -/
def Initialised (factory : F) (cfg : ServiceConfig) (s : Server F B) : Prop :=
  s.cfgs = some (nameNamespaces cfg) ∧
    (NewBucketContainer (fac.init factory cfg)).initLocked fac.toBucketFactory cfg =
      some s.bucketContainer ∧
    (Normalised cfg → Reconciled cfg s.bucketContainer)

/-- A read does not stumble over a nil config. It leaves the server as it was unless there is a
config, the first of which initialises the container. -/
def Survives (factory : F) (t : Machine.Transition (Process F B D) (Input D) (Option Panic)) :
    Prop :=
  ∀ server ∈ t.before.server, ∀ order, t.input = .readUpdatedConfig order →
    t.output ≠ some .nilConfig ∧
      ((∀ cfg, t.before.persister.readPersistedConfig ≠ some (some cfg)) →
        t.after.server = some server) ∧
      ∀ cfg, t.before.persister.readPersistedConfig = some (some cfg) → server.cfgs = none →
        ∃ s ∈ t.after.server, Initialised fac factory cfg s

/-- A read finds a persister that has been set, or one that returns an error. -/
def Supplied (t : Machine.Transition (Process F B D) (Input D) (Option Panic)) : Prop :=
  ∀ order, t.input = .readUpdatedConfig order → ¬ t.before.persister.Unset

/-- A server without a config is as new. -/
def Inv (factory : F) (s : Server F B) : Prop := s.cfgs = none → s = empty factory

end Runs

section Read
variable {F B D : Type} {fac : InitFactory F B} {order : List String}

/-- What a persister reads is a copy. -/
theorem readPersistedConfig_complete {p : ConfigPersister D} {cfg : ServiceConfig}
    (h : p.readPersistedConfig = some (some cfg)) : Complete cfg := by
  have hcopy : ∃ c, cloneConfig c = cfg := by
    cases p with
    | zookeeper z =>
      obtain ⟨c, -, hc⟩ := Option.map_eq_some_iff.mp (Option.some.inj h)
      exact ⟨c, hc⟩
    | memory m =>
      obtain ⟨c, -, hc⟩ := Option.map_eq_some_iff.mp (Option.some.inj h)
      exact ⟨c, hc⟩
    | mysql mp =>
      obtain ⟨c', hc', heq⟩ := Option.map_eq_some_iff.mp h
      obtain ⟨c, -, hc⟩ := Option.map_eq_some_iff.mp hc'
      exact ⟨c, hc.trans (Option.some.inj heq)⟩
    | disk location =>
      obtain ⟨c, -, hc⟩ := Option.map_eq_some_iff.mp h
      exact ⟨c, Option.some.inj hc⟩
  obtain ⟨c, rfl⟩ := hcopy
  exact cloneConfig_complete c

/-- The persisters that can be unset are those that return the nil config. -/
theorem unset_iff (p : ConfigPersister D) : p.Unset ↔ p.readPersistedConfig = some none := by
  cases p with
  | zookeeper z =>
    simp [ConfigPersister.Unset, ConfigPersister.readPersistedConfig,
      ZkConfigPersister.readPersistedConfig, ZkConfigPersister.current]
  | memory m =>
    simp [ConfigPersister.Unset, ConfigPersister.readPersistedConfig,
      MemoryConfigPersister.readPersistedConfig]
  | mysql mp => simp [ConfigPersister.Unset, ConfigPersister.readPersistedConfig]
  | disk location => simp [ConfigPersister.Unset, ConfigPersister.readPersistedConfig]

theorem updateBucketContainer_nil (fac : InitFactory F B) (order : List String) (s : Server F B) :
    updateBucketContainer fac order none s = .error .nilConfig := by
  unfold updateBucketContainer stale
  cases s.cfgs with
  | some c => rfl
  | none =>
    cases hinit : fac.initNil s.bucketContainer.factory with
    | none => simp [InitFactory.Init, hinit, bind, Except.bind]
    | some f => simp [InitFactory.Init, hinit, deref, bind, Except.bind]

/-- On a config, this is the update of the container. -/
theorem updateBucketContainer_some (cfg : ServiceConfig) (s : Server F B) :
    updateBucketContainer fac order (some cfg) s =
      (Container.updateBucketContainer fac.toBucketFactory order cfg s).elim
        (.error .nilEntry) .ok := by
  have hstale : stale s.cfgs (some cfg) =
      .ok (s.cfgs.any fun c => cfg.version ≤ c.version) := by
    cases hcfgs : s.cfgs <;> rfl
  unfold updateBucketContainer Container.updateBucketContainer
  rw [hstale]
  simp only [bind, Except.bind, InitFactory.Init, deref]
  split_ifs
  · rfl
  · cases hcfg : s.bucketContainer.cfg with
    | none =>
      dsimp only
      generalize BucketContainer.initLocked fac.toBucketFactory _ cfg = bc
      cases bc <;> rfl
    | some c =>
      dsimp only
      generalize BucketContainer.update fac.toBucketFactory order cfg _ = bc
      cases bc <;> rfl

/-- The first config initialises the container. -/
theorem updateBucketContainer_empty (fac : InitFactory F B) (order : List String) (factory : F)
    {cfg : ServiceConfig} (hcomplete : Complete cfg) :
    ∃ s, Container.updateBucketContainer fac.toBucketFactory order cfg (empty factory) = some s ∧
      Initialised fac factory cfg s := by
  obtain ⟨bc, hinit⟩ := initLocked_total fac.toBucketFactory hcomplete
    (NewBucketContainer (fac.init factory cfg))
  have hupdate : Container.updateBucketContainer fac.toBucketFactory order cfg (empty factory) =
      ((NewBucketContainer (fac.init factory cfg)).initLocked fac.toBucketFactory cfg).map
        fun bc => ⟨some (nameNamespaces cfg), bc⟩ := rfl
  refine ⟨⟨some (nameNamespaces cfg), bc⟩, ?_, rfl, hinit, fun hnorm => ?_⟩
  · rw [hupdate, hinit]
    rfl
  · have hfresh := empty_inv (F := F) (B := B) (fac.init factory cfg)
    have hupd := initLocked_spec (stable_true fac.toBucketFactory) hnorm trivial
      (fun _ => Directory.get?_empty) rfl hinit
    exact hupd.reconciled (fun _ _ => hfresh.holds) hfresh.global_static hfresh.balanced

/-- The update by a config without nil entries goes through. -/
theorem updateBucketContainer_total (fac : InitFactory F B) (order : List String)
    (s : Server F B) {cfg : ServiceConfig} (hcomplete : Complete cfg) :
    ∃ s', Container.updateBucketContainer fac.toBucketFactory order cfg s = some s' ∧
      s'.cfgs ≠ none := by
  unfold Container.updateBucketContainer
  split_ifs with hstale
  · refine ⟨s, rfl, fun hnone => ?_⟩
    rw [hnone] at hstale
    cases hstale
  · cases hcfg : s.bucketContainer.cfg with
    | none =>
      obtain ⟨bc, hinit⟩ := initLocked_total fac.toBucketFactory hcomplete { s.bucketContainer with
        factory := fac.init s.bucketContainer.factory cfg }
      simp only [hcfg] at hinit ⊢
      rw [hinit]
      exact ⟨_, rfl, Option.some_ne_none _⟩
    | some c =>
      obtain ⟨bc, hupdate⟩ := update_total fac.toBucketFactory hcomplete { s.bucketContainer with
        factory := fac.init s.bucketContainer.factory cfg } order
      simp only [hcfg] at hupdate ⊢
      rw [hupdate]
      exact ⟨_, rfl, Option.some_ne_none _⟩

/-- A read from a persister that is not unset. -/
theorem readUpdatedConfig_set (fac : InitFactory F B) (order : List String) {factory : F}
    {s : Server F B} (h : Inv factory s) {p : ConfigPersister D} (hset : ¬ p.Unset) :
    ∃ s', readUpdatedConfig fac order p s = .ok s' ∧ Inv factory s' ∧
      ((∀ cfg, p.readPersistedConfig ≠ some (some cfg)) → s' = s) ∧
      ∀ cfg, p.readPersistedConfig = some (some cfg) → s.cfgs = none →
        Initialised fac factory cfg s' := by
  rw [unset_iff] at hset
  unfold readUpdatedConfig
  cases hread : p.readPersistedConfig with
  | none => exact ⟨s, rfl, h, fun _ => rfl, by simp⟩
  | some newConfig =>
    cases newConfig with
    | none => exact absurd hread hset
    | some cfg =>
      have hcomplete := readPersistedConfig_complete hread
      simp only [updateBucketContainer_some, ne_eq, Option.some.injEq, forall_eq',
        IsEmpty.forall_iff, true_and]
      cases hcfgs : s.cfgs with
      | none =>
        rw [h hcfgs]
        obtain ⟨s', hupdate, hinit⟩ := updateBucketContainer_empty fac order factory hcomplete
        rw [hupdate]
        refine ⟨s', rfl, fun hnone => ?_, fun _ => hinit⟩
        rw [hinit.1] at hnone
        cases hnone
      | some c =>
        obtain ⟨s', hupdate, hsome⟩ := updateBucketContainer_total fac order s hcomplete
        rw [hupdate]
        exact ⟨s', rfl, fun hnone => absurd hnone hsome, fun hnone => by cases hnone⟩

end Read

section Steps
variable {F B D : Type} (fac : InitFactory F B) {factory : F} {s : Server F B}

theorem findBucket_inv (h : Inv factory s) (ns bucketName : String) :
    Inv factory { s with bucketContainer :=
      (s.bucketContainer.findBucket fac.toBucketFactory ns bucketName).1 } := by
  intro hnone
  rw [h hnone]
  rfl

/-- A step is as it should be exactly when a read does not find the persister unset, and then it
leaves a server. -/
theorem step_cases (h : Inv factory s) (p : ConfigPersister D) (i : Input D) :
    let r := step fac ⟨p, some s⟩ i
    let t : Machine.Transition (Process F B D) (Input D) (Option Panic) :=
      ⟨⟨p, some s⟩, i, r.2, r.1⟩
    (Survives fac factory t ↔ Supplied t) ∧
      (Supplied t → ∃ s', r.1.server = some s' ∧ Inv factory s') := by
  dsimp only
  cases i with
  | persist p' =>
    constructor
    · constructor
      · intro _ order heq
        cases heq
      · intro _ _ _ order heq
        cases heq
    · exact fun _ => ⟨s, rfl, h⟩
  | findBucket ns bucketName =>
    constructor
    · constructor
      · intro _ order heq
        cases heq
      · intro _ _ _ order heq
        cases heq
    · exact fun _ => ⟨_, rfl, findBucket_inv fac h ns bucketName⟩
  | readUpdatedConfig order =>
    by_cases hunset : p.Unset
    · have hread := (unset_iff p).mp hunset
      have hstep : step fac ⟨p, some s⟩ (.readUpdatedConfig order) =
          (⟨p, none⟩, some .nilConfig) := by
        simp only [step, Option.map_some, readUpdatedConfig, hread, updateBucketContainer_nil]
      rw [hstep]
      constructor
      · constructor
        · intro hsurvives
          exact absurd rfl (hsurvives s rfl order rfl).1
        · intro hsupplied
          exact absurd hunset (hsupplied order rfl)
      · intro hsupplied
        exact absurd hunset (hsupplied order rfl)
    · obtain ⟨s', hok, hinv, hkept, hfirst⟩ := readUpdatedConfig_set fac order h hunset
      have hstep : step fac ⟨p, some s⟩ (.readUpdatedConfig order) = (⟨p, some s'⟩, none) := by
        simp only [step, Option.map_some, hok]
      rw [hstep]
      constructor
      · constructor
        · intro _ order' _
          exact hunset
        · intro _ server hserver order' _
          cases hserver
          refine ⟨by simp, fun hnone => ?_, fun cfg hread hnone => ?_⟩
          · rw [hkept hnone]
          · exact ⟨s', rfl, hfirst cfg hread hnone⟩
      · exact fun _ => ⟨s', rfl, hinv⟩

end Steps

/-- A server survives its reads, whatever the persister comes to hold, exactly if none of them finds a
persister without a config that does not return an error for it. -/
theorem startup_survives_iff {F B D : Type} (fac : InitFactory F B) (factory : F) (p : ConfigPersister D)
    (inputs : List (Input D)) :
    (∀ t ∈ Machine.trace (step fac) ⟨p, some (empty factory)⟩ inputs, Survives fac factory t) ↔
      ∀ t ∈ Machine.trace (step fac) ⟨p, some (empty factory)⟩ inputs, Supplied t := by
  apply Machine.forall_trace_congr
    (fun s : Process F B D => ∃ server, s.server = some server ∧ Inv factory server)
    fun _ _ => True
  · rintro ⟨p, _⟩ i ⟨server, rfl, hinv⟩ _
    exact (step_cases fac hinv p i).1
  · rintro ⟨p, _⟩ i ⟨server, rfl, hinv⟩ _ hsupplied
    exact (step_cases fac hinv p i).2 hsupplied
  · exact ⟨empty factory, rfl, fun _ => rfl⟩
  · exact fun _ _ => trivial

section Persisters

/-- A scan that has come through has read all nodes. -/
theorem get_of_scan {E : Type} {unmarshal : E → ServiceConfig} {get : String → Option E}
    {children : List String} {s s' : Scan}
    (h : children.foldlM (scanChild unmarshal get) s = some s') :
    ∀ hash ∈ children, ∃ d, get hash = some d := by
  induction children generalizing s with
  | nil => simp
  | cons hash children ih =>
    rw [List.foldlM_cons] at h
    obtain ⟨s₁, hs₁, h⟩ := Option.bind_eq_some_iff.mp h
    obtain ⟨d, hd, -⟩ := Option.map_eq_some_iff.mp hs₁
    exact List.forall_mem_cons.mpr ⟨⟨d, hd⟩, ih h⟩

/-- After a scan of the nodes the persister is unset, unless a node has a version that is not
negative. -/
theorem unset_zookeeper_iff {D E : Type} {unmarshal : E → ServiceConfig} {get : String → Option E}
    {children : List String} {z z' : ZkConfigPersister} (hchildren : "" ∉ children)
    (h : currentConfigEventListener unmarshal get children z = some z') :
    (ConfigPersister.zookeeper z' : ConfigPersister D).Unset ↔
      ∀ hash ∈ children, (node unmarshal get hash).version < 0 := by
  obtain ⟨s, hs, rfl⟩ := Option.map_eq_some_iff.mp h
  obtain ⟨configs, hlookup, hscan⟩ := foldlM_scanChild unmarshal (get_of_scan hs)
  rw [hscan] at hs
  cases hs
  rw [← Selection.select_eq_none_iff]
  simp only [ConfigPersister.Unset, hlookup]
  cases hselect : Selection.select (fun h => (node unmarshal get h).version) 0 children with
  | none => simp [hchildren]
  | some hash => simp [Selection.mem_of_select hselect]

end Persisters

/-- A server that starts on a memory persister without a config panics. -/
theorem empty_persister_panics :
    ∃ t ∈ Machine.trace (step inMemory)
        ⟨(.memory NewMemoryConfigPersister : ConfigPersister Unit), some (empty ())⟩
        [.readUpdatedConfig []], t.output = some .nilConfig ∧ ¬ Survives inMemory () t := by
  have hpanic : (step inMemory
      ⟨(.memory NewMemoryConfigPersister : ConfigPersister Unit), some (empty ())⟩
      (.readUpdatedConfig [])).2 = some .nilConfig := rfl
  refine ⟨_, List.mem_singleton_self _, hpanic, ?_⟩
  intro hsurvives
  exact (hsurvives (empty ()) rfl [] rfl).1 hpanic

end QuotaService.Startup
