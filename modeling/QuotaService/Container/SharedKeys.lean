import QuotaService.Buckets.Redis
import QuotaService.Container.Reconcile

/-! Which Redis keys the buckets of a server use. They carry the version that was in force when
the bucket was created, and an update keeps the buckets of a namespace whose config is the same, so
that the keys depend on how the server came to its config. -/
namespace QuotaService.Container
open Config

/-- The factory of the Redis buckets. A negative reference count, which is fatal, is ignored. -/
def redisFactory : BucketFactory Redis.BucketFactory Redis.RedisBucket where
  init := Redis.BucketFactory.init
  newBucket bf ns bucketName cfg dyn := bf.newBucket ns bucketName cfg dyn
  destroy bf b := (bf.destroy b).getD bf

abbrev RedisServer := Server Redis.BucketFactory Redis.RedisBucket

/-- The places in which a server holds buckets. -/
inductive Slot
  | global
  | default («namespace» : String)
  | named («namespace» bucketName : String)
deriving DecidableEq

namespace Slot

def held {F B : Type} (bc : BucketContainer F B) : Slot → Option (Bucket B)
  | global => bc.defaultBucket
  | default ns => (bc.namespaces.get? ns).bind Namespace.defaultBucket
  | named ns n => (bc.namespaces.get? ns).bind fun nsp => nsp.buckets.lookup n

/-- The keys of a bucket that is created in this place under a version. -/
def keys : Slot → ℤ → String × String
  | global, v => redisKeys globalNamespace defaultBucketName v
  | default ns, v => redisKeys ns defaultBucketName v
  | named ns n, v => redisKeys ns n v
where
  redisKeys (ns n : String) (v : ℤ) : String × String :=
    (Redis.toRedisKey ns n Redis.tokensNextAvblNanosSuffix v,
      Redis.toRedisKey ns n Redis.accumulatedTokensSuffix v)

theorem keys_inj {slot : Slot} {v w : ℤ} : slot.keys v = slot.keys w ↔ v = w := by
  refine ⟨fun h => ?_, fun h => h ▸ rfl⟩
  cases slot <;> exact Redis.toRedisKey_version_inj _ _ _ |>.mp (congrArg Prod.fst h)

/-- The config of a namespace. -/
def namespaceConfig (cfg : ServiceConfig) (ns : String) : Option NamespaceConfig :=
  (cfg.namespaces.get ns).join

def unchangedNamespace (old : Option ServiceConfig) (new : ServiceConfig) (ns : String) : Bool :=
  match old.bind (namespaceConfig · ns), namespaceConfig new ns with
  | some c, some c' => !differentNamespaceConfigs c c'
  | _, _ => false

/-- Whether an update keeps what is held in this place. -/
def unchanged (old : Option ServiceConfig) (new : ServiceConfig) : Slot → Bool
  | global => old.any fun c => !differentBucketConfigs c.globalDefaultBucket new.globalDefaultBucket
  | default ns => unchangedNamespace old new ns
  | named ns _ => unchangedNamespace old new ns

/-- Whether a config puts a bucket in this place. -/
def configured (cfg : ServiceConfig) : Slot → Bool
  | global => cfg.globalDefaultBucket.isSome
  | default ns => ((namespaceConfig cfg ns).bind NamespaceConfig.defaultBucket).isSome
  | named ns n => ((namespaceConfig cfg ns).bind fun c => (c.buckets.get n).join).isSome

/-- How an event of the history bears on what is in this place: the config applied so far, and the
version under which the bucket here was created. A configured bucket is created with the config
that first has it, unless the next one keeps it; a dynamic one is created when it is first asked
for. -/
def bear (slot : Slot) : Option ServiceConfig × Option ℤ → Event →
    Option ServiceConfig × Option ℤ
  | (cfgs, v), .update _ newConfig =>
    if cfgs.any fun c => newConfig.version ≤ c.version then (cfgs, v)
    else (some newConfig,
      if slot.unchanged cfgs newConfig then v
      else if slot.configured newConfig then some newConfig.version else none)
  | (cfgs, v), .find ns n =>
    (cfgs, if slot = named ns n ∧ v = none then cfgs.map ServiceConfig.version else v)

/-- The version under which the bucket in this place was created, as the history tells. -/
def bornIn (slot : Slot) (events : List Event) : Option ℤ := (events.foldl slot.bear (none, none)).2

end Slot

section Held
variable {F B : Type} {bc bc' : BucketContainer F B} {ns bucketName : String} {r : ℕ}
variable {nsp : Namespace B} {b : Bucket B}

theorem held_addBucket_self (hfetch : bc.fetch ns = some (r, nsp))
    (h : bc'.namespaces = bc.namespaces.modify r fun _ => nsp.addBucket bucketName b) :
    Slot.held bc' (.named ns bucketName) = some b := by
  rw [Slot.held, h, get?_modify_fetch_self hfetch]
  exact (lookup_addBucket ..).trans (if_pos rfl)

theorem held_addBucket_ne (hfetch : bc.fetch ns = some (r, nsp))
    (h : bc'.namespaces = bc.namespaces.modify r fun _ => nsp.addBucket bucketName b)
    (hdefault : bc'.defaultBucket = bc.defaultBucket) {slot : Slot}
    (hslot : slot ≠ .named ns bucketName) : Slot.held bc' slot = Slot.held bc slot := by
  cases slot with
  | global => exact hdefault
  | default name =>
    rw [Slot.held, Slot.held, h]
    by_cases hname : name = ns
    · rw [hname, get?_modify_fetch_self hfetch, get?_of_fetch hfetch]
      rfl
    · rw [get?_modify_fetch_ne hfetch hname]
  | named name n =>
    rw [Slot.held, Slot.held, h]
    by_cases hname : name = ns
    · have hn : n ≠ bucketName := fun hn => hslot (by rw [hname, hn])
      rw [hname, get?_modify_fetch_self hfetch, get?_of_fetch hfetch]
      exact (lookup_addBucket ..).trans (if_neg hn)
    · rw [get?_modify_fetch_ne hfetch hname]

end Held

section Factory

theorem init_version (bf : Redis.BucketFactory) (cfg : ServiceConfig) :
    (redisFactory.init bf cfg).cfg.version = cfg.version := rfl

theorem stable_version (v : ℤ) : Stable redisFactory fun bf => bf.cfg.version = v := by
  refine ⟨fun bf ns n cfg dyn h => ?_, fun bf b h => ?_⟩
  · exact (congrArg ServiceConfig.version (Redis.BucketFactory.newBucket_factory_cfg ..)).trans h
  · have hcfg : (redisFactory.destroy bf b).cfg = bf.cfg := by
      simp only [redisFactory, Redis.BucketFactory.destroy]
      split_ifs <;> rfl
    rw [hcfg]
    exact h

theorem made_keys {ns n : String} {v : ℤ} {b : Bucket Redis.RedisBucket}
    (h : Made redisFactory (fun bf => bf.cfg.version = v) ns n b) :
    b.impl.keys = Slot.keys.redisKeys ns n v := by
  obtain ⟨bf, hversion, himpl⟩ := h
  rw [himpl, ← hversion]
  exact Redis.BucketFactory.newBucket_keys ..

end Factory

/-- The history tells what the server holds in a place. -/
structure Tracks (slot : Slot) (h : Option ServiceConfig × Option ℤ) (s : RedisServer) : Prop where
  cfgs : h.1 = s.cfgs
  factory : ∀ c, s.cfgs = some c → s.bucketContainer.factory.cfg.version = c.version
  held : ∀ b, slot.held s.bucketContainer = some b →
    ∃ v, h.2 = some v ∧ b.impl.keys = slot.keys v
  /-- A bucket that was asked for and not created will not be created while its namespace lasts. -/
  full : ∀ ns n, slot = .named ns n → ∀ nsp, s.bucketContainer.namespaces.get? ns = some nsp →
    nsp.buckets.lookup n = none → h.2 ≠ none →
    nsp.cfg.dynamicBucketTemplate = none ∨ nsp.Full

theorem tracks_empty (slot : Slot) (factory : Redis.BucketFactory) :
    Tracks slot (none, none) (empty factory) := by
  refine ⟨rfl, ?_, ?_, ?_⟩
  · intro c hc
    cases hc
  · intro b hb
    cases slot <;> simp [Slot.held, empty, NewBucketContainer] at hb
  · intro ns n _ nsp hget
    simp [empty, NewBucketContainer] at hget

section Updates
variable {slot : Slot} {h : Option ServiceConfig × Option ℤ} {s : RedisServer}
variable {newConfig : ServiceConfig} {bc' : BucketContainer Redis.BucketFactory Redis.RedisBucket}

/-- What a namespace is after an update, as the history tells: the old object with its pointer
corrected, or a new one. -/
theorem Updated.namespace_cases {φ : Redis.BucketFactory → Prop} {factory : Redis.BucketFactory}
    (hinv : Inv s) (hnorm : Normalised newConfig)
    (hupd : Updated redisFactory φ newConfig { s.bucketContainer with factory := factory } bc')
    {name : String} {ns' : Namespace Redis.RedisBucket}
    (hget : bc'.namespaces.get? name = some ns') :
    (Slot.unchangedNamespace s.cfgs newConfig name = true ∧
      ∃ ns, s.bucketContainer.namespaces.get? name = some ns ∧
        SameNamespace ns.cfg ns'.cfg ∧ ns' = ns.swapCfg ns'.cfg) ∨
    (Slot.unchangedNamespace s.cfgs newConfig name = false ∧
      ∃ nsCfg, Slot.namespaceConfig newConfig name = some nsCfg ∧ nsCfg.name = name ∧
        Built redisFactory φ nsCfg ns') := by
  have hsettled := hupd.settled name
  have hname : ∀ nsCfg, newConfig.namespaces.get name = some (some nsCfg) → nsCfg.name = name :=
    fun _ hc => range_name hnorm (GoMap.mem_range_iff.mpr hc)
  -- the config that the server has applied knows exactly the namespaces that it holds
  have hold : ∀ ns, s.bucketContainer.namespaces.get? name = some ns →
      s.cfgs.bind (Slot.namespaceConfig · name) = some ns.cfg := by
    intro ns hns
    cases hinv with
    | fresh _ _ absent => simp [absent] at hns
    | running config cfgs reconciled =>
      obtain ⟨nsCfg, hcfg, hholds⟩ := reconciled.namespaces name ns hns
      simp [cfgs, Slot.namespaceConfig, hcfg, hholds.cfg]
  have hnew : s.bucketContainer.namespaces.get? name = none →
      s.cfgs.bind (Slot.namespaceConfig · name) = none := by
    intro hnone
    cases hinv with
    | fresh cfgs => simp [cfgs]
    | running config cfgs reconciled =>
      cases hcfg : config.namespaces.get name with
      | none => simp [cfgs, Slot.namespaceConfig, hcfg]
      | some c =>
        obtain ⟨ns, hns⟩ := reconciled.keys name c hcfg
        simp [hnone] at hns
  have hconfig : ∀ nsCfg, newConfig.namespaces.get name = some (some nsCfg) →
      Slot.namespaceConfig newConfig name = some nsCfg := fun _ hc => by
    rw [Slot.namespaceConfig, hc, Option.join_some]
  rw [hget] at hsettled
  generalize hcfg : newConfig.namespaces.get name = c at hsettled
  cases hbefore : s.bucketContainer.namespaces.get? name with
  | none =>
    simp only [hbefore] at hsettled
    cases hsettled with
    | created built =>
      refine Or.inr ⟨?_, _, hconfig _ hcfg, hname _ hcfg, built⟩
      rw [Slot.unchangedNamespace, hnew hbefore]
  | some ns =>
    simp only [hbefore] at hsettled
    cases hsettled with
    | kept same =>
      refine Or.inl ⟨?_, ns, rfl, same, rfl⟩
      simp only [Slot.unchangedNamespace, hold ns hbefore, hconfig _ hcfg]
      rw [differentNamespaceConfigs_eq_false.mpr same]
      rfl
    | replaced different built =>
      refine Or.inr ⟨?_, _, hconfig _ hcfg, hname _ hcfg, built⟩
      simp only [Slot.unchangedNamespace, hold ns hbefore, hconfig _ hcfg]
      simpa [← differentNamespaceConfigs_eq_false] using different

/-- What the global default bucket is after an update, as the history tells. -/
theorem Updated.global_cases {φ : Redis.BucketFactory → Prop} {factory : Redis.BucketFactory}
    (hinv : Inv s)
    (hupd : Updated redisFactory φ newConfig { s.bucketContainer with factory := factory } bc')
    {b : Bucket Redis.RedisBucket} (hb : bc'.defaultBucket = some b) :
    (Slot.unchanged s.cfgs newConfig .global = true ∧ s.bucketContainer.defaultBucket = some b) ∨
    (Slot.unchanged s.cfgs newConfig .global = false ∧
      newConfig.globalDefaultBucket = some b.cfg ∧
      Made redisFactory φ globalNamespace defaultBucketName b) := by
  have hglobal := hupd.global
  rw [hb] at hglobal
  generalize hcfg : newConfig.globalDefaultBucket = c at hglobal
  generalize hbefore : s.bucketContainer.defaultBucket = o at hglobal
  cases hinv with
  | fresh cfgs _ _ global =>
    obtain rfl : o = none := hbefore.symm.trans global
    cases hglobal with
    | replaced _ _ made => exact Or.inr ⟨by simp [Slot.unchanged, cfgs], rfl, made⟩
  | running config cfgs reconciled =>
    have hold := reconciled.global
    rw [hbefore] at hold
    have hunchanged : Slot.unchanged s.cfgs newConfig .global =
        !differentBucketConfigs (o.map Bucket.cfg) c := by
      simp only [Slot.unchanged, cfgs, Option.any_some, ← hold, hcfg]
    rw [hunchanged]
    cases hglobal with
    | kept => exact Or.inl ⟨by simp [differentBucketConfigs_eq_false.mpr], rfl⟩
    | replaced different _ made =>
      have hdiff := mt differentBucketConfigs_eq_false.mp different
      exact Or.inr ⟨by rw [Bool.eq_true_of_not_eq_false hdiff]; rfl, rfl, made⟩

/-- An update that the version guard lets pass. -/
theorem Tracks.update (hinv : Inv s) (ht : Tracks slot h s) (hnorm : Normalised newConfig)
    {order : List String} (hversion : ∀ c, s.cfgs = some c → c.version < newConfig.version)
    (hupd : Updated redisFactory (fun bf => bf.cfg.version = newConfig.version) newConfig
      { s.bucketContainer with
        factory := redisFactory.init s.bucketContainer.factory newConfig } bc') :
    Tracks slot (slot.bear h (.update order newConfig)) ⟨some newConfig, bc'⟩ := by
  obtain ⟨cfgs, v⟩ := h
  obtain rfl : cfgs = s.cfgs := ht.cfgs
  have hbear : slot.bear (s.cfgs, v) (.update order newConfig) = (some newConfig,
      if slot.unchanged s.cfgs newConfig then v
      else if slot.configured newConfig then some newConfig.version else none) := by
    simp only [Slot.bear, if_neg (not_stale hversion)]
  rw [hbear]
  refine ⟨rfl, ?_, fun b hb => ?_, ?_⟩
  · intro c hc
    cases hc
    exact hupd.factory
  · cases slot with
    | global =>
      rcases hupd.global_cases hinv hb with ⟨hsame, hbefore⟩ | ⟨hdiff, hcfg, hmade⟩
      · rw [if_pos hsame]
        exact ht.held b hbefore
      · simp only [hdiff, Slot.configured, hcfg]
        exact ⟨_, rfl, made_keys hmade⟩
    | default name =>
      obtain ⟨ns', hget, hdefault⟩ := Option.bind_eq_some_iff.mp hb
      rcases hupd.namespace_cases hinv hnorm hget with
        ⟨hsame, ns, hbefore, -, hswap⟩ | ⟨hdiff, nsCfg, hcfg, rfl, hbuilt⟩
      · rw [Slot.unchanged, if_pos hsame]
        rw [hswap] at hdefault
        exact ht.held b (Option.bind_eq_some_iff.mpr ⟨ns, hbefore, hdefault⟩)
      · have hconfigured := hbuilt.default
        rw [hdefault] at hconfigured
        simp only [Slot.unchanged, hdiff, Slot.configured, hcfg, Option.bind_some, ← hconfigured]
        exact ⟨_, rfl, made_keys (hbuilt.default_made b hdefault).2.2⟩
    | named name n =>
      obtain ⟨ns', hget, hlookup⟩ := Option.bind_eq_some_iff.mp hb
      rcases hupd.namespace_cases hinv hnorm hget with
        ⟨hsame, ns, hbefore, -, hswap⟩ | ⟨hdiff, nsCfg, hcfg, rfl, hbuilt⟩
      · rw [Slot.unchanged, if_pos hsame]
        rw [hswap] at hlookup
        exact ht.held b (Option.bind_eq_some_iff.mpr ⟨ns, hbefore, hlookup⟩)
      · have hconfigured := hbuilt.buckets n
        rw [hlookup] at hconfigured
        simp only [Slot.unchanged, hdiff, Slot.configured, hcfg, Option.bind_some, ← hconfigured]
        exact ⟨_, rfl, made_keys (hbuilt.buckets_made n b hlookup).2.2⟩
  · rintro name n rfl ns' hget hnone hborn
    rcases hupd.namespace_cases hinv hnorm hget with
      ⟨hsame, ns, hbefore, hcfg, hswap⟩ | ⟨hdiff, nsCfg, hcfg, -, hbuilt⟩
    · rw [Slot.unchanged, if_pos hsame] at hborn
      have hlookup : ns.buckets.lookup n = none := by rwa [hswap] at hnone
      have hcount : ns'.dynamicBucketCount = ns.dynamicBucketCount := by rw [hswap]; rfl
      rw [← hcfg.dynamicBucketTemplate, Namespace.Full, hcount, ← hcfg.maxDynamicBuckets]
      exact ht.full name n rfl ns hbefore hlookup hborn
    · -- a new object holds every bucket that is configured
      have hbuckets := hbuilt.buckets n
      rw [hnone] at hbuckets
      simp [Slot.unchanged, hdiff, Slot.configured, hcfg, ← hbuckets] at hborn

/-- A lookup that creates a bucket is the first one for it since its place was last cleared. -/
theorem Tracks.find (hinv : Inv s) (ht : Tracks slot h s) (ns bucketName : String) :
    Tracks slot (slot.bear h (.find ns bucketName)) { s with
      bucketContainer := (s.bucketContainer.findBucket redisFactory ns bucketName).1 } := by
  obtain ⟨cfgs, v⟩ := h
  obtain rfl : cfgs = s.cfgs := ht.cfgs
  have hbear : slot.bear (s.cfgs, v) (.find ns bucketName) = (s.cfgs,
      if slot = .named ns bucketName ∧ v = none then s.cfgs.map ServiceConfig.version else v) := rfl
  rw [hbear]
  rcases findBucket_spec (stable_version s.bucketContainer.factory.cfg.version) rfl ns bucketName with
    ⟨acts, heq, hnot⟩ | ⟨r, nsp, f, b, acts, ws, hfetch, hlookup, heq, hf, -, hmade, horigin⟩
  · rw [heq]
    refine ⟨rfl, ht.factory, fun b hb => ?_, ?_⟩
    · obtain ⟨w, hw, hkeys⟩ := ht.held b hb
      obtain rfl : v = some w := hw
      exact ⟨w, by simp, hkeys⟩
    · rintro name n rfl nsp hget hnone hborn
      by_cases hasked : v = none ∧ Slot.named name n = .named ns bucketName
      · obtain ⟨rfl, hslot⟩ := hasked
        cases hslot
        obtain ⟨r, hr⟩ := exists_fetch hget
        exact hnot r nsp hr hnone
      · rw [if_neg fun h => hasked h.symm] at hborn
        exact ht.full name n rfl nsp hget hnone hborn
  · have hget := get?_of_fetch hfetch
    obtain ⟨config, hcfgs⟩ : ∃ config, s.cfgs = some config := by
      cases hinv with
      | fresh _ _ absent => simp [absent] at hget
      | running config cfgs => exact ⟨config, cfgs⟩
    rw [ht.factory config hcfgs] at hf hmade
    obtain ⟨-, -, htemplate, hroom⟩ := (hinv.holds hget).origin hlookup horigin
    have hopen : ¬ (nsp.cfg.dynamicBucketTemplate = none ∨ nsp.Full) := by
      rintro (hnone | hfull)
      · simp [hnone] at htemplate
      · exact hroom hfull
    -- had it been asked for before, it would be there or could not be created
    have hfirst : slot = .named ns bucketName → v = none := by
      rintro rfl
      by_contra hborn
      exact hopen (ht.full ns bucketName rfl nsp hget hlookup hborn)
    have hsame : slot ≠ .named ns bucketName →
        (if slot = .named ns bucketName ∧ v = none then s.cfgs.map ServiceConfig.version else v)
          = v := fun hne => if_neg fun h => hne h.1
    rw [heq]
    refine ⟨rfl, fun c hc => ?_, fun b' hb' => ?_, ?_⟩
    · cases hcfgs.symm.trans hc
      exact hf
    · by_cases hslot : slot = .named ns bucketName
      · rw [if_pos ⟨hslot, hfirst hslot⟩, hcfgs]
        subst hslot
        cases hb'.symm.trans (held_addBucket_self hfetch rfl)
        exact ⟨_, rfl, made_keys hmade⟩
      · rw [hsame hslot]
        rw [held_addBucket_ne hfetch (by rfl) (by rfl) hslot] at hb'
        exact ht.held b' hb'
    · rintro name n rfl nsp' hget' hnone hborn
      have hslot : Slot.named name n ≠ .named ns bucketName := by
        intro hslot
        cases hslot
        cases hget'.symm.trans (get?_modify_fetch_self hfetch)
        simp [lookup_addBucket] at hnone
      rw [hsame hslot] at hborn
      by_cases hname : name = ns
      · subst hname
        have hn : n ≠ bucketName := fun hn => hslot (by rw [hn])
        cases hget'.symm.trans (get?_modify_fetch_self hfetch)
        rw [lookup_addBucket, if_neg hn] at hnone
        exact absurd (ht.full name n rfl nsp hget hnone hborn) hopen
      · exact ht.full name n rfl nsp' ((get?_modify_fetch_ne hfetch hname).symm.trans hget') hnone
          hborn

theorem step_tracks {e : Event} {s' : RedisServer} (hinv : Inv s) (ht : Tracks slot h s)
    (hnorm : ∀ order newConfig, e = .update order newConfig → Normalised newConfig)
    (hs : step redisFactory s e = some s') : Tracks slot (slot.bear h e) s' := by
  cases e with
  | update order newConfig =>
    rcases step_update_cases (stable_version newConfig.version) hinv (init_version _ _)
      (hnorm order newConfig rfl) hs with ⟨c, hc, hle, rfl⟩ | ⟨hversion, bc', rfl, hupd⟩
    · have hguard : (h.1.any fun c => newConfig.version ≤ c.version) = true := by
        simp [ht.cfgs, hc, hle]
      rwa [Slot.bear, if_pos hguard]
    · exact ht.update hinv (hnorm order newConfig rfl) hversion hupd
  | find ns bucketName =>
    cases hs
    exact ht.find hinv ns bucketName

end Updates

section Runs
variable {factory : Redis.BucketFactory} {events : List Event} {s : RedisServer}

theorem tracks_run (hevents : ∀ order cfg, Event.update order cfg ∈ events → Normalised cfg)
    (hrun : Machine.run (step redisFactory) (empty factory) events = some s) (slot : Slot) :
    Tracks slot (events.foldl slot.bear (none, none)) s := by
  have hgeneral : ∀ (events : List Event) (h : Option ServiceConfig × Option ℤ)
      (s₀ : RedisServer), (∀ order cfg, Event.update order cfg ∈ events → Normalised cfg) →
      Inv s₀ → Tracks slot h s₀ → Machine.run (step redisFactory) s₀ events = some s →
      Tracks slot (events.foldl slot.bear h) s := by
    intro events
    induction events with
    | nil =>
      rintro h s₀ - - ht hrun
      cases hrun
      exact ht
    | cons e events ih =>
      intro h s₀ hevents hinv ht hrun
      rw [Machine.run_cons] at hrun
      obtain ⟨s₁, hs₁, hrun⟩ := Option.bind_eq_some_iff.mp hrun
      have hnorm : ∀ order newConfig, e = .update order newConfig → Normalised newConfig :=
        fun order newConfig he => hevents order newConfig (he ▸ List.mem_cons_self ..)
      exact ih _ s₁ (fun order cfg hmem => hevents order cfg (List.mem_cons_of_mem _ hmem))
        (step_inv hinv hnorm hs₁) (step_tracks hinv ht hnorm hs₁) hrun
  exact hgeneral events _ _ hevents (empty_inv factory) (tracks_empty slot factory) hrun

/-- The keys of a bucket carry the version under which it was created. -/
theorem keys_of_held (hevents : ∀ order cfg, Event.update order cfg ∈ events → Normalised cfg)
    (hrun : Machine.run (step redisFactory) (empty factory) events = some s) {slot : Slot}
    {b : Bucket Redis.RedisBucket} (hb : slot.held s.bucketContainer = some b) :
    ∃ v, slot.bornIn events = some v ∧ b.impl.keys = slot.keys v :=
  (tracks_run hevents hrun slot).held b hb

end Runs

/-- Two servers use the same keys for every bucket that both hold exactly when they created each
of these buckets under the same version, whatever config they have come to. -/
theorem shared_keys_iff_born_together (factory₁ factory₂ : Redis.BucketFactory)
    (events₁ events₂ : List Event)
    (hevents₁ : ∀ order cfg, Event.update order cfg ∈ events₁ → Normalised cfg)
    (hevents₂ : ∀ order cfg, Event.update order cfg ∈ events₂ → Normalised cfg)
    (s₁ s₂ : RedisServer)
    (hrun₁ : Machine.run (step redisFactory) (empty factory₁) events₁ = some s₁)
    (hrun₂ : Machine.run (step redisFactory) (empty factory₂) events₂ = some s₂) :
    (∀ (slot : Slot) (b₁ b₂ : Bucket Redis.RedisBucket),
        slot.held s₁.bucketContainer = some b₁ → slot.held s₂.bucketContainer = some b₂ →
        b₁.impl.keys = b₂.impl.keys) ↔
      ∀ slot : Slot, (slot.held s₁.bucketContainer).isSome → (slot.held s₂.bucketContainer).isSome →
        slot.bornIn events₁ = slot.bornIn events₂ := by
  constructor
  · intro h slot h₁ h₂
    obtain ⟨b₁, hb₁⟩ := Option.isSome_iff_exists.mp h₁
    obtain ⟨b₂, hb₂⟩ := Option.isSome_iff_exists.mp h₂
    obtain ⟨v₁, hv₁, hkeys₁⟩ := keys_of_held hevents₁ hrun₁ hb₁
    obtain ⟨v₂, hv₂, hkeys₂⟩ := keys_of_held hevents₂ hrun₂ hb₂
    have hkeys : slot.keys v₁ = slot.keys v₂ := by
      rw [← hkeys₁, ← hkeys₂]
      exact h slot b₁ b₂ hb₁ hb₂
    rw [hv₁, hv₂, Slot.keys_inj.mp hkeys]
  · intro h slot b₁ b₂ hb₁ hb₂
    obtain ⟨v₁, hv₁, hkeys₁⟩ := keys_of_held hevents₁ hrun₁ hb₁
    obtain ⟨v₂, hv₂, hkeys₂⟩ := keys_of_held hevents₂ hrun₂ hb₂
    have hv : v₁ = v₂ := by
      have hborn := h slot (by simp [hb₁]) (by simp [hb₂])
      rw [hv₁, hv₂] at hborn
      exact Option.some.inj hborn
    rw [hkeys₁, hkeys₂, hv]

/-- A server that has skipped a version which replaced everything agrees with one that has not. -/
theorem shared_keys_iff_born_together_skipped :
    let d (rate : ℤ) : BucketConfig :=
      { applyBucketDefaults { fillRate := rate } with name := defaultBucketName }
    let cfg : ServiceConfig := { globalDefaultBucket := some (d 5), version := 1 }
    let cfg' : ServiceConfig := { globalDefaultBucket := some (d 7), version := 2 }
    let bf := Redis.BucketFactory.new 0
    ∃ s₁ s₂, Machine.run (step redisFactory) (empty bf) [.update [] cfg, .update [] cfg'] =
        some s₁ ∧
      Machine.run (step redisFactory) (empty bf) [.update [] cfg'] = some s₂ ∧
      ∀ (slot : Slot) (b₁ b₂ : Bucket Redis.RedisBucket),
        slot.held s₁.bucketContainer = some b₁ → slot.held s₂.bucketContainer = some b₂ →
        b₁.impl.keys = b₂.impl.keys := by
  intro d cfg cfg' bf
  have hnorm : ∀ order c, Event.update order c ∈ [.update [] cfg, .update [] cfg'] →
      Normalised c := by
    intro order c hmem
    simp only [List.mem_cons, Event.update.injEq, List.not_mem_nil, or_false] at hmem
    rcases hmem with ⟨-, rfl⟩ | ⟨-, rfl⟩
    · exact ⟨cfg, cfg, rfl, Or.inl rfl⟩
    · exact ⟨cfg', cfg', rfl, Or.inl rfl⟩
  obtain ⟨s₁, hrun₁⟩ := Option.isSome_iff_exists.mp (show (Machine.run (step redisFactory) (empty bf)
    [.update [] cfg, .update [] cfg']).isSome = true by decide)
  obtain ⟨s₂, hrun₂⟩ := Option.isSome_iff_exists.mp (show (Machine.run (step redisFactory) (empty bf)
    [.update [] cfg']).isSome = true by decide)
  refine ⟨s₁, s₂, hrun₁, hrun₂, ?_⟩
  refine (shared_keys_iff_born_together bf bf _ _ hnorm
    (fun order c hmem => hnorm order c (List.mem_cons_of_mem _ hmem)) _ _ hrun₁ hrun₂).mpr ?_
  intro slot _ _
  cases slot with
  | global => decide
  | default name => rfl
  | named name n => rfl

/-- Two servers with the same config that use different keys for a bucket of namespace `a`: one
has seen the version before namespace `b` was added, and kept its bucket; the other has not. -/
theorem late_server_has_other_keys :
    let a := applyNamespaceDefaults "a" { buckets := .table (AList.singleton "x" (some {})) }
    let b := applyNamespaceDefaults "b" {}
    let cfg : ServiceConfig := {
      namespaces := .table (AList.singleton "a" (some a)), version := 1 }
    let cfg' : ServiceConfig := {
      namespaces := .table ((AList.singleton "a" (some a)).insert "b" (some b)), version := 2 }
    let bf := Redis.BucketFactory.new 0
    Normalised cfg ∧ Normalised cfg' ∧
      ∃ s₁ s₂ b₁ b₂,
        Machine.run (step redisFactory) (empty bf) [.update [] cfg, .update ["a"] cfg'] = some s₁ ∧
        Machine.run (step redisFactory) (empty bf) [.update [] cfg'] = some s₂ ∧
        s₁.cfgs = s₂.cfgs ∧
        (Slot.named "a" "x").held s₁.bucketContainer = some b₁ ∧
        (Slot.named "a" "x").held s₂.bucketContainer = some b₂ ∧ b₁.impl.keys ≠ b₂.impl.keys := by
  intro a b cfg cfg' bf
  have hcfg : Normalised cfg := ⟨cfg, cfg, rfl, Or.inl rfl⟩
  have hcfg' : Normalised cfg' := ⟨cfg', cfg', rfl, Or.inl rfl⟩
  have hnorm : ∀ order c, Event.update order c ∈ [.update [] cfg, .update ["a"] cfg'] →
      Normalised c := by
    intro order c hmem
    simp only [List.mem_cons, Event.update.injEq, List.not_mem_nil, or_false] at hmem
    rcases hmem with ⟨-, rfl⟩ | ⟨-, rfl⟩
    · exact hcfg
    · exact hcfg'
  have hnorm' : ∀ order c, Event.update order c ∈ [.update [] cfg'] → Normalised c := by
    intro order c hmem
    simp only [List.mem_cons, Event.update.injEq, List.not_mem_nil, or_false] at hmem
    exact hmem.2 ▸ hcfg'
  let held (events : List Event) : Option (RedisServer × Bucket Redis.RedisBucket) :=
    (Machine.run (step redisFactory) (empty bf) events).bind fun s =>
      ((Slot.named "a" "x").held s.bucketContainer).map fun b => (s, b)
  obtain ⟨⟨s₁, b₁⟩, h₁⟩ := Option.isSome_iff_exists.mp (show
    (held [.update [] cfg, .update ["a"] cfg']).isSome = true by decide)
  obtain ⟨⟨s₂, b₂⟩, h₂⟩ := Option.isSome_iff_exists.mp (show
    (held [.update [] cfg']).isSome = true by decide)
  obtain ⟨_, hrun₁, h₁⟩ := Option.bind_eq_some_iff.mp h₁
  obtain ⟨_, hb₁, ⟨⟩⟩ := Option.map_eq_some_iff.mp h₁
  obtain ⟨_, hrun₂, h₂⟩ := Option.bind_eq_some_iff.mp h₂
  obtain ⟨_, hb₂, ⟨⟩⟩ := Option.map_eq_some_iff.mp h₂
  obtain ⟨v₁, hv₁, hkeys₁⟩ := keys_of_held hnorm hrun₁ hb₁
  obtain ⟨v₂, hv₂, hkeys₂⟩ := keys_of_held hnorm' hrun₂ hb₂
  refine ⟨hcfg, hcfg', s₁, s₂, b₁, b₂, hrun₁, hrun₂, ?_, hb₁, hb₂, ?_⟩
  · have h₁ := (tracks_run hnorm hrun₁ .global).cfgs
    have h₂ := (tracks_run hnorm' hrun₂ .global).cfgs
    rw [← h₁, ← h₂]
    decide
  · rw [hkeys₁, hkeys₂, Ne, Slot.keys_inj]
    have hborn : (Slot.named "a" "x").bornIn [.update [] cfg, .update ["a"] cfg'] = some 1 := by
      decide
    have hborn' : (Slot.named "a" "x").bornIn [.update [] cfg'] = some 2 := by decide
    rw [hborn] at hv₁
    rw [hborn'] at hv₂
    cases hv₁
    cases hv₂
    decide

end QuotaService.Container
