import QuotaService.Container.Update
import QuotaService.Lib.Machine

/-! Updating a container takes it to the config that a rebuild would give it. What a container
holds is determined by its config, except for the dynamic buckets, which survive where their
namespace has not changed; and everything that it does not hold any more has been destroyed. -/
namespace QuotaService.Container
open Config

variable {F B : Type} {fac : BucketFactory F B} {φ : F → Prop}

/-- What happens to a server on which nothing is reaped. -/
inductive Event
  | update (order : List String) (newConfig : ServiceConfig)
  | find («namespace» bucketName : String)

/-- The loop over the namespaces comes to each of them at some point. -/
def Covers (order : List String) (s : Server F B) : Prop :=
  ∀ name ∈ s.bucketContainer.namespaces.keys, name ∈ order

instance (order : List String) (s : Server F B) : Decidable (Covers order s) :=
  inferInstanceAs (Decidable (∀ name ∈ s.bucketContainer.namespaces.keys, _))

def step (fac : BucketFactory F B) (s : Server F B) : Event → Option (Server F B)
  | .update order newConfig =>
    if Covers order s then updateBucketContainer fac order newConfig s else none
  | .find ns bucketName =>
    some { s with bucketContainer := (s.bucketContainer.findBucket fac ns bucketName).1 }

/-- A server without a config. -/
def empty (factory : F) : Server F B := ⟨none, NewBucketContainer factory⟩

/-- A namespace holds what its config says, and dynamic buckets after its template. -/
structure Holds (nsCfg : NamespaceConfig) (ns : Namespace B) : Prop where
  cfg : ns.cfg = nsCfg
  default : ns.defaultBucket.map Bucket.cfg = nsCfg.defaultBucket
  default_static : ∀ b ∈ ns.defaultBucket, b.dynamic = false
  static : ∀ n c, nsCfg.buckets.get n = some c →
    ∃ b, ns.buckets.lookup n = some b ∧ b.dynamic = false ∧ some b.cfg = c
  dynamic : ∀ n b, ns.buckets.lookup n = some b → nsCfg.buckets.get n = none →
    b.dynamic = true ∧ nsCfg.dynamicBucketTemplate = some b.cfg

/-- The container holds what the config says. -/
structure Reconciled (config : ServiceConfig) (bc : BucketContainer F B) : Prop where
  cfg : bc.cfg = some config
  keys : ∀ name c, config.namespaces.get name = some c → ∃ ns, bc.namespaces.get? name = some ns
  namespaces : ∀ name ns, bc.namespaces.get? name = some ns →
    ∃ nsCfg, config.namespaces.get name = some (some nsCfg) ∧ Holds nsCfg ns
  global : bc.defaultBucket.map Bucket.cfg = config.globalDefaultBucket
  global_static : ∀ b ∈ bc.defaultBucket, b.dynamic = false
  balanced : bc.Balanced

section Namespaces
variable {nsCfg : NamespaceConfig} {ns : Namespace B}

theorem Built.holds (h : Built fac φ nsCfg ns) : Holds nsCfg ns := by
  refine ⟨h.cfg, h.default, fun b hb => (h.default_made b hb).1, fun n c hc => ?_, ?_⟩
  · have hbuckets := h.buckets n
    rw [hc] at hbuckets
    obtain ⟨b, hb, hcfg⟩ := Option.map_eq_some_iff.mp hbuckets
    exact ⟨b, hb, (h.buckets_made n b hb).1, hcfg⟩
  · intro n b hb hnone
    have hbuckets := h.buckets n
    rw [hb, hnone] at hbuckets
    cases hbuckets

/-- Only the values of a config matter, so its pointer can be corrected. -/
theorem Holds.swapCfg {nsCfg' : NamespaceConfig} (h : Holds nsCfg ns)
    (hsame : SameNamespace ns.cfg nsCfg') : Holds nsCfg' (ns.swapCfg nsCfg') := by
  rw [h.cfg] at hsame
  refine ⟨rfl, h.default.trans hsame.defaultBucket, h.default_static, fun n c hc => ?_, ?_⟩
  · exact h.static n c ((hsame.buckets n).trans hc)
  · intro n b hb hnone
    rw [← hsame.dynamicBucketTemplate]
    exact h.dynamic n b hb ((hsame.buckets n).trans hnone)

/-- A configured bucket is there already, so that a missing one is dynamic. -/
theorem Holds.origin {bucketName : String} {b : Bucket B} (h : Holds nsCfg ns)
    (hlookup : ns.buckets.lookup bucketName = none) (horigin : Origin ns bucketName b) :
    nsCfg.buckets.get bucketName = none ∧ b.dynamic = true ∧
      nsCfg.dynamicBucketTemplate = some b.cfg ∧ ¬ ns.Full := by
  have hnone : nsCfg.buckets.get bucketName = none := by
    cases hget : nsCfg.buckets.get bucketName with
    | none => rfl
    | some c =>
      obtain ⟨b', hb', -⟩ := h.static bucketName c hget
      simp [hlookup] at hb'
  cases horigin with
  | static configured _ =>
    rw [h.cfg, hnone] at configured
    cases configured
  | dynamic _ template dynamic room => exact ⟨hnone, dynamic, h.cfg ▸ template, room⟩

theorem Holds.addBucket {bucketName : String} {b : Bucket B} (h : Holds nsCfg ns)
    (hlookup : ns.buckets.lookup bucketName = none) (horigin : Origin ns bucketName b) :
    Holds nsCfg (ns.addBucket bucketName b) := by
  obtain ⟨hnone, hdynamic, htemplate, -⟩ := h.origin hlookup horigin
  refine ⟨h.cfg, h.default, h.default_static, fun n c hc => ?_, fun n b' hb' hn => ?_⟩
  · have hne : n ≠ bucketName := by
      rintro rfl
      simp [hnone] at hc
    rw [lookup_addBucket, if_neg hne]
    exact h.static n c hc
  · rw [lookup_addBucket] at hb'
    split_ifs at hb' with hne
    · cases hb'
      exact ⟨hdynamic, htemplate⟩
    · exact h.dynamic n b' hb' hn

end Namespaces

theorem GlobalSettled.cfg_eq {o o' : Option (Bucket B)} {c : Option BucketConfig}
    (h : GlobalSettled fac φ o c o') : o'.map Bucket.cfg = c := by
  cases h <;> rfl

theorem GlobalSettled.static {o o' : Option (Bucket B)} {c : Option BucketConfig}
    (h : GlobalSettled fac φ o c o') (hold : ∀ b ∈ o, b.dynamic = false) :
    ∀ b ∈ o', b.dynamic = false := by
  cases h with
  | kept => exact hold
  | removed => simp
  | replaced _ static _ => simpa using static

section Updates
variable {bc bc' : BucketContainer F B} {newConfig : ServiceConfig}

theorem Updated.reconciled (h : Updated fac φ newConfig bc bc')
    (hold : ∀ name ns, bc.namespaces.get? name = some ns → Holds ns.cfg ns)
    (hstatic : ∀ b ∈ bc.defaultBucket, b.dynamic = false) (hb : bc.Balanced) :
    Reconciled newConfig bc' := by
  refine ⟨h.cfg, h.present, fun name ns hget => ?_, ?_, ?_, h.balanced hb⟩
  · have hsettled := h.settled name
    rw [hget] at hsettled
    generalize hcfg : newConfig.namespaces.get name = c at hsettled
    cases hbefore : bc.namespaces.get? name with
    | none =>
      rw [hbefore] at hsettled
      cases hsettled with
      | created built => exact ⟨_, rfl, built.holds⟩
    | some ns₀ =>
      rw [hbefore] at hsettled
      cases hsettled with
      | kept same => exact ⟨_, rfl, (hold name ns₀ hbefore).swapCfg same⟩
      | replaced different built => exact ⟨_, rfl, built.holds⟩
  · exact h.global.cfg_eq
  · exact h.global.static hstatic

/-- A dynamic bucket that is there after an update was there before it, in the same place, and its
namespace has not changed. -/
theorem Updated.dynamic_survives (h : Updated fac φ newConfig bc bc') {name n : String}
    {ns' : Namespace B} {b : Bucket B} (hget : bc'.namespaces.get? name = some ns')
    (hb : ns'.buckets.lookup n = some b) (hdynamic : b.dynamic = true) :
    ∃ ns, bc.namespaces.get? name = some ns ∧ ns.buckets.lookup n = some b ∧
      SameNamespace ns.cfg ns'.cfg := by
  have hsettled := h.settled name
  rw [hget] at hsettled
  generalize newConfig.namespaces.get name = c at hsettled
  generalize hbefore : bc.namespaces.get? name = o at hsettled
  cases hsettled with
  | created built => simp [(built.buckets_made n b hb).1] at hdynamic
  | kept same => exact ⟨_, rfl, hb, same⟩
  | replaced different built => simp [(built.buckets_made n b hb).1] at hdynamic

theorem findBucket_reconciled (hφ : Stable fac φ) (hf : φ bc.factory) {cfg : ServiceConfig}
    (h : Reconciled cfg bc) (ns bucketName : String) :
    Reconciled cfg (bc.findBucket fac ns bucketName).1 := by
  rcases findBucket_spec hφ hf ns bucketName with
    ⟨acts, heq, -⟩ | ⟨r, nsp, f, b, acts, ws, hfetch, hlookup, heq, -, hid, -, horigin⟩
  · rw [heq]
    exact ⟨h.cfg, h.keys, h.namespaces, h.global, h.global_static, h.balanced⟩
  · rw [heq]
    refine ⟨h.cfg, fun name c hc => ?_, fun name ns' hns' => ?_, h.global, h.global_static,
      balanced_addBucket h.balanced hfetch hlookup hid f acts ws⟩
    · by_cases hne : name = ns
      · subst hne
        exact ⟨_, get?_modify_fetch_self hfetch⟩
      · obtain ⟨ns', hns'⟩ := h.keys name c hc
        exact ⟨ns', (get?_modify_fetch_ne hfetch hne).trans hns'⟩
    · by_cases hne : name = ns
      · subst hne
        obtain ⟨nsCfg, hcfg, hholds⟩ := h.namespaces name nsp (get?_of_fetch hfetch)
        cases hns'.symm.trans (get?_modify_fetch_self hfetch)
        exact ⟨nsCfg, hcfg, hholds.addBucket hlookup horigin⟩
      · exact h.namespaces name ns' ((get?_modify_fetch_ne hfetch hne).symm.trans hns')

end Updates

/-- A server before its first config, and after it. -/
inductive Inv (s : Server F B) : Prop
  | fresh (cfgs : s.cfgs = none) (cfg : s.bucketContainer.cfg = none)
    (absent : ∀ name, s.bucketContainer.namespaces.get? name = none)
    (global : s.bucketContainer.defaultBucket = none) (balanced : s.bucketContainer.Balanced)
  | running (config : ServiceConfig) (cfgs : s.cfgs = some config)
    (reconciled : Reconciled config s.bucketContainer)

section Servers
variable {s s' : Server F B} {newConfig : ServiceConfig} {order : List String}

theorem empty_inv (factory : F) : Inv (empty factory : Server F B) :=
  .fresh rfl rfl (fun _ => Directory.get?_empty) rfl rfl

theorem Inv.balanced (h : Inv s) : s.bucketContainer.Balanced := by
  cases h with
  | fresh _ _ _ _ balanced => exact balanced
  | running _ _ reconciled => exact reconciled.balanced

theorem Inv.holds (h : Inv s) {name : String} {ns : Namespace B}
    (hget : s.bucketContainer.namespaces.get? name = some ns) : Holds ns.cfg ns := by
  cases h with
  | fresh _ _ absent => simp [absent] at hget
  | running _ _ reconciled =>
    obtain ⟨nsCfg, -, hholds⟩ := reconciled.namespaces name ns hget
    rwa [hholds.cfg]

theorem Inv.global_static (h : Inv s) : ∀ b ∈ s.bucketContainer.defaultBucket,
    b.dynamic = false := by
  cases h with
  | fresh _ _ _ global => simp [global]
  | running _ _ reconciled => exact reconciled.global_static

theorem updateBucketContainer_ignored {c : ServiceConfig} (hc : s.cfgs = some c)
    (hversion : newConfig.version ≤ c.version) :
    updateBucketContainer fac order newConfig s = some s := by
  simp [updateBucketContainer, hc, hversion]

/-- The guard lets a newer config pass. -/
theorem not_stale {cfgs : Option ServiceConfig}
    (hversion : ∀ c, cfgs = some c → c.version < newConfig.version) :
    ¬ (cfgs.any fun c => newConfig.version ≤ c.version) = true := by
  intro hstale
  obtain ⟨c, hc, hle⟩ := (Option.any_eq_true _ _).mp hstale
  exact absurd (of_decide_eq_true hle) (not_le.mpr (hversion c hc))

theorem updateBucketContainer_applied (hφ : Stable fac φ) (h : Inv s)
    (hf : φ (fac.init s.bucketContainer.factory newConfig)) (hnorm : Normalised newConfig)
    (horder : Covers order s) (hversion : ∀ c, s.cfgs = some c → c.version < newConfig.version) :
    ∃ bc', updateBucketContainer fac order newConfig s = some ⟨some newConfig, bc'⟩ ∧
      Updated fac φ newConfig { s.bucketContainer with
        factory := fac.init s.bucketContainer.factory newConfig } bc' := by
  unfold updateBucketContainer
  rw [if_neg (not_stale hversion)]
  cases h with
  | fresh cfgs cfg absent global balanced =>
    obtain ⟨bc', hinit⟩ := initLocked_total fac (complete_of_normalised hnorm) { s.bucketContainer with
      factory := fac.init s.bucketContainer.factory newConfig }
    refine ⟨bc', ?_, initLocked_spec hφ hnorm hf absent global hinit⟩
    simp only [cfg] at hinit ⊢
    rw [hinit, nameNamespaces_normalised hnorm]
    rfl
  | running config cfgs reconciled =>
    obtain ⟨bc', hupdate⟩ := update_total fac (complete_of_normalised hnorm) { s.bucketContainer with
      factory := fac.init s.bucketContainer.factory newConfig } order
    refine ⟨bc', ?_, update_spec hφ hnorm hf horder hupdate⟩
    simp only [reconciled.cfg] at hupdate ⊢
    rw [hupdate]
    rfl

/-- An update is not newer, and changes nothing, or has been applied. -/
theorem step_update_cases (hφ : Stable fac φ) (h : Inv s)
    (hf : φ (fac.init s.bucketContainer.factory newConfig)) (hnorm : Normalised newConfig)
    (hs : step fac s (.update order newConfig) = some s') :
    (∃ c, s.cfgs = some c ∧ newConfig.version ≤ c.version ∧ s' = s) ∨
      (∀ c, s.cfgs = some c → c.version < newConfig.version) ∧
        ∃ bc', s' = ⟨some newConfig, bc'⟩ ∧ Updated fac φ newConfig { s.bucketContainer with
          factory := fac.init s.bucketContainer.factory newConfig } bc' := by
  simp only [step] at hs
  split_ifs at hs with horder
  by_cases hversion : ∀ c, s.cfgs = some c → c.version < newConfig.version
  · obtain ⟨bc', heq, hupd⟩ := updateBucketContainer_applied hφ h hf hnorm horder hversion
    cases hs.symm.trans heq
    exact Or.inr ⟨hversion, bc', rfl, hupd⟩
  · push Not at hversion
    obtain ⟨c, hc, hle⟩ := hversion
    rw [updateBucketContainer_ignored hc hle] at hs
    cases hs
    exact Or.inl ⟨c, hc, hle, rfl⟩

theorem step_inv (h : Inv s) {e : Event}
    (hnorm : ∀ order newConfig, e = .update order newConfig → Normalised newConfig)
    (hs : step fac s e = some s') : Inv s' := by
  cases e with
  | update order newConfig =>
    rcases step_update_cases (stable_true fac) h trivial (hnorm order newConfig rfl) hs with
      ⟨c, -, -, rfl⟩ | ⟨-, bc', rfl, hupd⟩
    · exact h
    · exact .running newConfig rfl
        (hupd.reconciled (fun _ _ => h.holds) h.global_static h.balanced)
  | find ns bucketName =>
    cases hs
    cases h with
    | fresh cfgs cfg absent global balanced =>
      have hfetch : s.bucketContainer.fetch ns = none := fetch_eq_none.mpr (absent ns)
      have hfind : (s.bucketContainer.findBucket fac ns bucketName).1 = s.bucketContainer := by
        simp [BucketContainer.findBucket, hfetch, global, BucketContainer.reportBucket]
      rw [hfind]
      exact .fresh cfgs cfg absent global balanced
    | running config cfgs reconciled =>
      exact .running config cfgs
        (findBucket_reconciled (stable_true fac) trivial reconciled ns bucketName)

/-- A bucket that `FindBucket` can come to. -/
def Reachable (bc : BucketContainer F B) (id : ℕ) : Prop :=
  (∃ b, bc.defaultBucket = some b ∧ b.id = id) ∨
    ∃ name ns, bc.namespaces.get? name = some ns ∧
      ((∃ b, ns.defaultBucket = some b ∧ b.id = id) ∨
        ∃ n b, ns.buckets.lookup n = some b ∧ b.id = id)

theorem mem_bucketId {o : Option (Bucket B)} {id : ℕ} :
    id ∈ bucketId o ↔ ∃ b, o = some b ∧ b.id = id := by
  cases o <;> simp [bucketId, eq_comm]

theorem mem_live {bc : BucketContainer F B} {id : ℕ} : id ∈ bc.live ↔ Reachable bc id := by
  simp only [BucketContainer.live, Namespace.ids, Multiset.mem_add, mem_bucketId,
    Directory.mem_total, AList.mem_total, Multiset.mem_singleton, Reachable, eq_comm]

/-- In a balanced container what is reachable is intact, and what is not was destroyed once. -/
theorem count_destroyed {bc : BucketContainer F B} (h : bc.Balanced) {id : ℕ}
    (hid : id < bc.nextBucket) :
    (Reachable bc id → bc.destroyed.count id = 0) ∧
      (¬ Reachable bc id → bc.destroyed.count id = 1) := by
  have hcount := congrArg (Multiset.count id) h
  rw [Multiset.count_add, Multiset.count_eq_one_of_mem (Multiset.nodup_range _)
    (Multiset.mem_range.mpr hid)] at hcount
  constructor
  · intro hreach
    have hlive : 0 < bc.live.count id := Multiset.count_pos.mpr (mem_live.mpr hreach)
    omega
  · intro hreach
    have hlive : bc.live.count id = 0 :=
      Multiset.count_eq_zero.mpr fun hmem => hreach (mem_live.mp hmem)
    omega

end Servers

/-- What an update with a larger version comes to. -/
structure Reaches (newConfig : ServiceConfig) (s s' : Server F B) : Prop where
  cfgs : s'.cfgs = some newConfig
  reconciled : Reconciled newConfig s'.bucketContainer
  dynamic_survives : ∀ name ns' n b, s'.bucketContainer.namespaces.get? name = some ns' →
    ns'.buckets.lookup n = some b → b.dynamic = true →
    ∃ ns, s.bucketContainer.namespaces.get? name = some ns ∧ ns.buckets.lookup n = some b ∧
      SameNamespace ns.cfg ns'.cfg
  destroyed : ∀ id < s'.bucketContainer.nextBucket,
    (Reachable s'.bucketContainer id → s'.bucketContainer.destroyed.count id = 0) ∧
      (¬ Reachable s'.bucketContainer id → s'.bucketContainer.destroyed.count id = 1)

/-- From every state that updates and lookups lead to, an update reaches the state that its config
describes, whatever the order of its loops, and an outdated config changes nothing. -/
theorem update_reaches_config (fac : BucketFactory F B) (factory : F) (events : List Event)
    (hevents : ∀ order cfg, Event.update order cfg ∈ events → Normalised cfg) (s : Server F B)
    (hrun : Machine.run (step fac) (empty factory) events = some s) (newConfig : ServiceConfig)
    (hnorm : Normalised newConfig) (order : List String) (horder : Covers order s) :
    (∀ c, s.cfgs = some c → newConfig.version ≤ c.version →
        updateBucketContainer fac order newConfig s = some s) ∧
      ((∀ c, s.cfgs = some c → c.version < newConfig.version) →
        ∃ s', updateBucketContainer fac order newConfig s = some s' ∧ Reaches newConfig s s') := by
  have hinv : Inv s := by
    refine Machine.run_induction Inv (fun s e s' h hnorm hs => step_inv h hnorm hs)
      (empty_inv factory) (Machine.along_of_forall ?_ _) hrun
    intro e he _ order cfg heq
    exact hevents order cfg (heq ▸ he)
  constructor
  · intro c hc hle
    exact updateBucketContainer_ignored hc hle
  · intro hversion
    obtain ⟨bc', heq, hupd⟩ := updateBucketContainer_applied (stable_true fac) hinv trivial hnorm
      horder hversion
    refine ⟨_, heq, rfl, ?_, ?_, ?_⟩
    · exact hupd.reconciled (fun _ _ => hinv.holds) hinv.global_static hinv.balanced
    · intro name ns' n b hget hb hdynamic
      exact hupd.dynamic_survives hget hb hdynamic
    · exact fun id hid => count_destroyed (hupd.balanced hinv.balanced) hid

/-- A namespace with a template keeps its dynamic bucket when another namespace is added. -/
theorem update_reaches_config_added :
    let a := applyNamespaceDefaults "a" { dynamicBucketTemplate := some {} }
    let b := applyNamespaceDefaults "b" {}
    let cfg : ServiceConfig := { namespaces := .table (AList.singleton "a" (some a)) }
    let cfg' : ServiceConfig := { cfg with
      namespaces := .table ((AList.singleton "a" (some a)).insert "b" (some b)), version := 1 }
    ∃ s s', Machine.run (step memoryFactory) (empty ()) [.update [] cfg, .find "a" "x"] = some s ∧
      updateBucketContainer memoryFactory ["a"] cfg' s = some s' ∧ Reaches cfg' s s' := by
  intro a b cfg cfg'
  have hnorm : Normalised cfg := ⟨cfg, cfg, rfl, Or.inl rfl⟩
  have hnorm' : Normalised cfg' := ⟨cfg', cfg', rfl, Or.inl rfl⟩
  have hevents : ∀ order c, Event.update order c ∈ [.update [] cfg, .find "a" "x"] →
      Normalised c := by
    intro order c hmem
    simp only [List.mem_cons, Event.update.injEq, reduceCtorEq, List.not_mem_nil, or_false] at hmem
    exact hmem.2 ▸ hnorm
  have hrun : Machine.run (step memoryFactory) (empty ()) [.update [] cfg, .find "a" "x"] =
      some ((Machine.run (step memoryFactory) (empty ()) [.update [] cfg, .find "a" "x"]).get
        (by decide)) := (Option.some_get _).symm
  obtain ⟨s', hs', hreaches⟩ := (update_reaches_config memoryFactory () _ hevents _ hrun cfg' hnorm'
    ["a"] (by decide)).2 (fun c hc => by cases hc; decide)
  exact ⟨_, s', hrun, hs', hreaches⟩

end QuotaService.Container
