import QuotaService.Config.Defaults
import QuotaService.Container.Spec

/-! The whole update, the initialisation and `FindBucket`, as relations between the container
before and after. Initialising an empty container is an update of it. -/
namespace QuotaService.Container
open Config

variable {F B : Type} {fac : BucketFactory F B} {φ : F → Prop}

/-- What becomes of the global default bucket: the old one, its new config, and the one there is
afterwards. -/
inductive GlobalSettled (fac : BucketFactory F B) (φ : F → Prop) :
    Option (Bucket B) → Option BucketConfig → Option (Bucket B) → Prop
  | kept (o : Option (Bucket B)) : GlobalSettled fac φ o (o.map Bucket.cfg) o
  | removed (b : Bucket B) : GlobalSettled fac φ (some b) none none
  | replaced {o : Option (Bucket B)} {b : Bucket B} (different : o.map Bucket.cfg ≠ some b.cfg)
    (static : b.dynamic = false) (made : Made fac φ globalNamespace defaultBucketName b) :
    GlobalSettled fac φ o (some b.cfg) (some b)

structure Updated (fac : BucketFactory F B) (φ : F → Prop) (newConfig : ServiceConfig)
    (bc bc' : BucketContainer F B) : Prop where
  factory : φ bc'.factory
  cfg : bc'.cfg = some newConfig
  settled : ∀ name, Settled fac φ (bc.namespaces.get? name) (newConfig.namespaces.get name)
    (bc'.namespaces.get? name)
  present : ∀ name c, newConfig.namespaces.get name = some c →
    ∃ ns, bc'.namespaces.get? name = some ns
  global : GlobalSettled fac φ bc.defaultBucket newConfig.globalDefaultBucket bc'.defaultBucket
  balanced : bc.Balanced → bc'.Balanced

section Update
variable {bc bc' : BucketContainer F B} {newConfig : ServiceConfig}

theorem createGlobalDefaultBucketLocked_spec (hφ : Stable fac φ) (bc : BucketContainer F B)
    (hf : φ bc.factory) (cfg : BucketConfig) :
    ∃ f b, bc.createGlobalDefaultBucketLocked fac cfg = { bc with
        factory := f, nextBucket := bc.nextBucket + 1, defaultBucket := some b } ∧ φ f ∧
      b.id = bc.nextBucket ∧ b.cfg = cfg ∧ b.dynamic = false ∧
      Made fac φ globalNamespace defaultBucketName b :=
  ⟨_, _, rfl, hφ.newBucket _ _ _ cfg false hf, rfl, rfl, rfl, bc.factory, hf, rfl⟩

/-- The global default bucket has been destroyed, if there was one. -/
theorem balanced_replaceGlobal (hb : bc.Balanced) {f : F} {b : Bucket B}
    (hid : b.id = bc.nextBucket) :
    BucketContainer.Balanced { bc with
      factory := f
      nextBucket := bc.nextBucket + 1
      defaultBucket := some b
      destroyed := bucketId bc.defaultBucket + bc.destroyed } := by
  unfold BucketContainer.Balanced BucketContainer.live at hb ⊢
  simp only [Multiset.range_succ, ← hb]
  simp only [bucketId, Option.map_some, Option.getD_some, hid, ← Multiset.singleton_add]
  abel

theorem updateGlobalDefaultBucket_spec (hφ : Stable fac φ) (bc : BucketContainer F B)
    (hf : φ bc.factory) (newConfig : ServiceConfig) :
    ∃ f m d D, bc.updateGlobalDefaultBucket fac newConfig = { bc with
        factory := f, nextBucket := m, defaultBucket := d, destroyed := D } ∧ φ f ∧
      GlobalSettled fac φ bc.defaultBucket newConfig.globalDefaultBucket d ∧
      (bc.Balanced → BucketContainer.Balanced { bc with
        factory := f, nextBucket := m, defaultBucket := d, destroyed := D }) := by
  obtain ⟨f, heq, hf'⟩ := destroyDefault_spec hφ hf bc.defaultBucket
  unfold BucketContainer.updateGlobalDefaultBucket
  split_ifs with hdiff
  · simp only [heq]
    cases hg : newConfig.globalDefaultBucket with
    | none =>
      refine ⟨f, bc.nextBucket, none, _, rfl, hf', ?_, fun hb => ?_⟩
      · cases hd : bc.defaultBucket with
        | none => exact .kept none
        | some b => exact .removed b
      · unfold BucketContainer.Balanced BucketContainer.live at hb ⊢
        rw [← hb]
        simp only [bucketId, Option.map_none, Option.getD_none]
        abel
    | some cfg =>
      obtain ⟨f', b, hcreate, hf'', hid, rfl, hstatic, hmade⟩ :=
        createGlobalDefaultBucketLocked_spec hφ { bc with
          factory := f, destroyed := bucketId bc.defaultBucket + bc.destroyed } hf' cfg
      refine ⟨f', bc.nextBucket + 1, some b, _, hcreate, hf'', ?_,
        fun hb => balanced_replaceGlobal hb hid⟩
      refine .replaced (fun hsame => ?_) hstatic hmade
      rw [hg, differentBucketConfigs_eq_false.mpr hsame] at hdiff
      cases hdiff
  · refine ⟨bc.factory, bc.nextBucket, bc.defaultBucket, bc.destroyed, rfl, hf, ?_, id⟩
    have hsame := differentBucketConfigs_eq_false.mp (by simpa using hdiff)
    rw [← hsame]
    exact .kept _

theorem range_name (h : Normalised newConfig) {name : String} {nsCfg : NamespaceConfig}
    (hmem : (name, some nsCfg) ∈ newConfig.namespaces.range) : nsCfg.name = name := by
  obtain ⟨c, hc, hnorm⟩ := h.namespace_get (GoMap.mem_range_iff.mp hmem)
  cases hc
  exact hnorm.name_eq

/-- After the loop over the old namespaces, the loop over the new config settles every name. -/
theorem settled_of_loops {bc₀ bc₁ bc₂ : BucketContainer F B}
    (h₁ : ∀ name, Settled fac φ (bc₀.namespaces.get? name) (newConfig.namespaces.get name)
      (bc₁.namespaces.get? name))
    (hother : ∀ k, k ∉ newConfig.namespaces.range.map Prod.fst →
      bc₂.namespaces.get? k = bc₁.namespaces.get? k)
    (hadded : ∀ k c, (k, c) ∈ newConfig.namespaces.range →
      (∀ ns, bc₁.namespaces.get? k = some ns → bc₂.namespaces.get? k = some ns) ∧
      (bc₁.namespaces.get? k = none → ∃ nsCfg ns', c = some nsCfg ∧ Built fac φ nsCfg ns' ∧
        bc₂.namespaces.get? k = some ns')) (name : String) :
    Settled fac φ (bc₀.namespaces.get? name) (newConfig.namespaces.get name)
        (bc₂.namespaces.get? name) ∧
      ∀ c, newConfig.namespaces.get name = some c →
        ∃ ns, bc₂.namespaces.get? name = some ns := by
  have hsettled := h₁ name
  cases hcfg : newConfig.namespaces.get name with
  | none =>
    have hnot : name ∉ newConfig.namespaces.range.map Prod.fst := by
      intro hmem
      obtain ⟨⟨k, c⟩, he, rfl⟩ := List.mem_map.mp hmem
      rw [GoMap.mem_range_iff, hcfg] at he
      cases he
    rw [hother name hnot, ← hcfg]
    exact ⟨hsettled, by simp [hcfg]⟩
  | some c =>
    obtain ⟨hsome, hnone⟩ := hadded name c (GoMap.mem_range_iff.mpr hcfg)
    cases hget : bc₁.namespaces.get? name with
    | some ns =>
      rw [hsome ns hget, ← hcfg, ← hget]
      exact ⟨hsettled, fun _ _ => ⟨ns, hget⟩⟩
    | none =>
      obtain ⟨nsCfg, ns', rfl, hbuilt, hget'⟩ := hnone hget
      rw [hcfg, hget] at hsettled
      rw [hget']
      refine ⟨?_, fun _ _ => ⟨ns', rfl⟩⟩
      cases hold : bc₀.namespaces.get? name with
      | none => exact .created hbuilt
      | some ns =>
        rw [hold] at hsettled
        cases hsettled

theorem update_spec (hφ : Stable fac φ) (hnorm : Normalised newConfig) (hf : φ bc.factory)
    {order : List String} (horder : ∀ name ∈ bc.namespaces.keys, name ∈ order)
    (h : bc.update fac order newConfig = some bc') : Updated fac φ newConfig bc bc' := by
  unfold BucketContainer.update at h
  obtain ⟨f, m, d, D, hglobal, hf', hsettled, hbalanced⟩ :=
    updateGlobalDefaultBucket_spec hφ { bc with cfg := some newConfig } hf newConfig
  simp only [hglobal, Option.bind_eq_bind] at h
  obtain ⟨bc₁, h₁, h₂⟩ := Option.bind_eq_some_iff.mp h
  obtain ⟨honly₁, hother₁, hvisited⟩ := updateNamespaces_spec hφ
    (fun name nsCfg hcfg => range_name hnorm (GoMap.mem_range_iff.mpr hcfg)) hf' h₁
  obtain ⟨honly₂, hother₂, hadded⟩ := addNamespaces_spec hφ
    (GoMap.range_keys_nodup newConfig.namespaces) (fun _ _ => range_name hnorm) honly₁.factory h₂
  have hfirst : ∀ name, Settled fac φ (bc.namespaces.get? name) (newConfig.namespaces.get name)
      (bc₁.namespaces.get? name) := by
    intro name
    by_cases hmem : name ∈ order
    · exact hvisited name hmem
    · have hget : bc.namespaces.get? name = none := by
        rw [Directory.get?_eq_none]
        cases hr : bc.namespaces.ref? name with
        | none => rfl
        | some r => exact absurd (horder name (Directory.mem_keys.mpr ⟨r, hr⟩)) hmem
      rw [hother₁ name hmem]
      simp only [hget]
      exact .absent _
  have hboth := settled_of_loops hfirst hother₂ hadded
  refine ⟨honly₂.factory, ?_, fun name => (hboth name).1, fun name => (hboth name).2, ?_,
    fun hb => honly₂.balanced (honly₁.balanced (hbalanced hb))⟩
  · rw [honly₂.cfg, honly₁.cfg]
  · rw [honly₂.defaultBucket, honly₁.defaultBucket]
    exact hsettled

/-- On an empty container, initialising namespaces is adding them. -/
theorem initNamespaces_eq (hφ : Stable fac φ) {entries : List (String × Option NamespaceConfig)}
    (hnodup : (entries.map Prod.fst).Nodup)
    (hname : ∀ name nsCfg, (name, some nsCfg) ∈ entries → nsCfg.name = name)
    (bc : BucketContainer F B) (hf : φ bc.factory)
    (habsent : ∀ e ∈ entries, bc.namespaces.get? e.1 = none) :
    entries.foldlM (BucketContainer.initNamespace fac) bc =
      entries.foldlM (BucketContainer.addNamespace fac) bc := by
  induction entries generalizing bc with
  | nil => rfl
  | cons e entries ih =>
    obtain ⟨name, c⟩ := e
    obtain ⟨hne, hrest⟩ := List.nodup_cons.mp hnodup
    have hfetch : bc.fetch name = none :=
      fetch_eq_none.mpr (habsent (name, c) (List.mem_cons_self ..))
    have hstep : bc.addNamespace fac (name, c) = bc.initNamespace fac (name, c) := by
      simp [BucketContainer.addNamespace, BucketContainer.initNamespace, hfetch]
    rw [List.foldlM_cons, List.foldlM_cons, hstep]
    cases hinit : bc.initNamespace fac (name, c) with
    | none => rfl
    | some bc₁ =>
      cases c with
      | none => cases hinit
      | some nsCfg =>
        obtain ⟨ho, hother, -, -⟩ :=
          addNamespace_spec hφ hf (hname name nsCfg (by simp)) (hstep.trans hinit)
        refine ih hrest (fun k nsCfg hmem => hname k nsCfg (List.mem_cons_of_mem _ hmem)) bc₁
          ho.factory fun e he => ?_
        have hk : e.1 ≠ name := by
          rintro rfl
          exact hne (List.mem_map.mpr ⟨e, he, rfl⟩)
        rw [hother e.1 hk]
        exact habsent e (List.mem_cons_of_mem _ he)

theorem nameNamespaces_normalised (h : Normalised newConfig) :
    nameNamespaces newConfig = newConfig :=
  nameNamespaces_eq fun _ _ hc => range_name h (GoMap.mem_range_iff.mpr hc)

theorem initLocked_spec (hφ : Stable fac φ) (hnorm : Normalised newConfig) (hf : φ bc.factory)
    (hempty : ∀ name, bc.namespaces.get? name = none) (hglobal : bc.defaultBucket = none)
    (h : bc.initLocked fac newConfig = some bc') : Updated fac φ newConfig bc bc' := by
  unfold BucketContainer.initLocked at h
  rw [nameNamespaces_normalised hnorm] at h
  have hinit : ∃ f m d, BucketContainer.initGlobalDefaultBucket fac
        { bc with cfg := some newConfig } newConfig.globalDefaultBucket = { bc with
          cfg := some newConfig, factory := f, nextBucket := m, defaultBucket := d } ∧ φ f ∧
      GlobalSettled fac φ bc.defaultBucket newConfig.globalDefaultBucket d ∧
      (bc.Balanced → BucketContainer.Balanced { bc with
        cfg := some newConfig, factory := f, nextBucket := m, defaultBucket := d }) := by
    cases hg : newConfig.globalDefaultBucket with
    | none =>
      refine ⟨bc.factory, bc.nextBucket, bc.defaultBucket, rfl, hf, ?_, id⟩
      rw [hglobal]
      exact .kept none
    | some cfg =>
      obtain ⟨f, b, hcreate, hf', hid, rfl, hstatic, hmade⟩ :=
        createGlobalDefaultBucketLocked_spec hφ { bc with cfg := some newConfig } hf cfg
      refine ⟨f, bc.nextBucket + 1, some b, hcreate, hf', ?_, fun hb => ?_⟩
      · rw [hglobal]
        exact .replaced (by simp) hstatic hmade
      · have hnew := balanced_replaceGlobal (f := f) (show BucketContainer.Balanced { bc with cfg := some newConfig } from hb) hid
        simpa [hglobal, bucketId] using hnew
  obtain ⟨f, m, d, heq, hf', hsettled, hbalanced⟩ := hinit
  simp only [heq] at h
  rw [initNamespaces_eq hφ (GoMap.range_keys_nodup _) (fun _ _ => range_name hnorm)
    { bc with cfg := some newConfig, factory := f, nextBucket := m, defaultBucket := d } hf'
    fun e _ => hempty e.1] at h
  obtain ⟨honly, hother, hadded⟩ := addNamespaces_spec hφ
    (GoMap.range_keys_nodup newConfig.namespaces) (fun _ _ => range_name hnorm) hf' h
  have hfirst : ∀ name, Settled fac φ (bc.namespaces.get? name) (newConfig.namespaces.get name)
      (bc.namespaces.get? name) := by
    intro name
    rw [hempty name]
    exact .absent _
  have hboth := settled_of_loops hfirst hother hadded
  refine ⟨honly.factory, honly.cfg, fun name => (hboth name).1, fun name => (hboth name).2, ?_,
    fun hb => honly.balanced (hbalanced hb)⟩
  rw [honly.defaultBucket]
  exact hsettled

theorem foldlM_total {σ α : Type} {step : σ → α → Option σ} {l : List α}
    (h : ∀ s, ∀ a ∈ l, ∃ s', step s a = some s') (s : σ) : ∃ s', l.foldlM step s = some s' := by
  induction l generalizing s with
  | nil => exact ⟨s, rfl⟩
  | cons a l ih =>
    obtain ⟨s₁, hs₁⟩ := h s a (List.mem_cons_self ..)
    rw [List.foldlM_cons, hs₁]
    exact ih (fun s b hb => h s b (List.mem_cons_of_mem _ hb)) s₁

/-- A config without a nil pointer to stumble over. -/
def Complete (cfg : ServiceConfig) : Prop :=
  ∀ name c, cfg.namespaces.get name = some c →
    ∃ nsCfg, c = some nsCfg ∧ ∀ n b, nsCfg.buckets.get n = some b → b ≠ none

theorem complete_of_normalised (hnorm : Normalised newConfig) : Complete newConfig := by
  intro name c hc
  obtain ⟨nsCfg, rfl, hns⟩ := hnorm.namespace_get hc
  exact ⟨nsCfg, rfl, hns.buckets_set⟩

/-- A copy has messages where the original has nil pointers. -/
theorem cloneConfig_complete (cfg : ServiceConfig) : Complete (cloneConfig cfg) := by
  intro name c hc
  rw [cloneConfig, get_cloneMap] at hc
  obtain ⟨c', -, rfl⟩ := Option.map_eq_some_iff.mp hc
  refine ⟨_, rfl, fun n b hb => ?_⟩
  rw [cloneNamespaceConfig, get_cloneMap] at hb
  obtain ⟨b', -, rfl⟩ := Option.map_eq_some_iff.mp hb
  exact Option.some_ne_none _

theorem nameNamespaces_complete (hcomplete : Complete newConfig) :
    Complete (nameNamespaces newConfig) := by
  intro name c hc
  rw [nameNamespaces, GoMap.get_map] at hc
  obtain ⟨c', hc', rfl⟩ := Option.map_eq_some_iff.mp hc
  obtain ⟨nsCfg, rfl, hbuckets⟩ := hcomplete name c' hc'
  refine ⟨nameNamespace name nsCfg, rfl, ?_⟩
  unfold nameNamespace
  split_ifs
  · exact hbuckets
  · exact hbuckets

theorem createNamespaceLocked_complete (fac : BucketFactory F B) (hcomplete : Complete newConfig)
    {name : String} {c : Option NamespaceConfig} (hc : newConfig.namespaces.get name = some c)
    (bc : BucketContainer F B) :
    ∃ nsCfg bc', c = some nsCfg ∧ bc.createNamespaceLocked fac nsCfg = some bc' := by
  obtain ⟨nsCfg, rfl, hbuckets⟩ := hcomplete name c hc
  obtain ⟨bc', h⟩ := createNamespaceLocked_total fac bc hbuckets
  exact ⟨nsCfg, bc', rfl, h⟩

theorem update_total (fac : BucketFactory F B) (hcomplete : Complete newConfig)
    (bc : BucketContainer F B) (order : List String) :
    ∃ bc', bc.update fac order newConfig = some bc' := by
  unfold BucketContainer.update
  have hvisit : ∀ bc : BucketContainer F B, ∀ name ∈ order,
      ∃ bc', bc.updateNamespace fac newConfig name = some bc' := by
    intro bc name _
    unfold BucketContainer.updateNamespace
    cases bc.fetch name with
    | none => exact ⟨bc, rfl⟩
    | some p =>
      cases hcfg : newConfig.namespaces.get name with
      | none => exact ⟨_, rfl⟩
      | some c =>
        obtain ⟨nsCfg, bc', rfl, hcreate⟩ :=
          createNamespaceLocked_complete fac hcomplete hcfg (bc.destroyNamespace fac p.2)
        dsimp only
        split_ifs
        · exact ⟨bc', hcreate⟩
        · exact ⟨_, rfl⟩
  have hadd : ∀ bc : BucketContainer F B, ∀ e ∈ newConfig.namespaces.range,
      ∃ bc', bc.addNamespace fac e = some bc' := by
    intro bc e he
    obtain ⟨nsCfg, bc', hc, hcreate⟩ :=
      createNamespaceLocked_complete fac hcomplete (GoMap.mem_range_iff.mp he) bc
    unfold BucketContainer.addNamespace
    split_ifs
    · exact ⟨bc, rfl⟩
    · exact ⟨bc', by rw [hc]; exact hcreate⟩
  obtain ⟨bc₁, h₁⟩ := foldlM_total hvisit
    (BucketContainer.updateGlobalDefaultBucket fac { bc with cfg := some newConfig } newConfig)
  obtain ⟨bc₂, h₂⟩ := foldlM_total hadd bc₁
  exact ⟨bc₂, by simp only [h₁, Option.bind_eq_bind, Option.bind_some, h₂]⟩

theorem initLocked_total (fac : BucketFactory F B) (hcomplete : Complete newConfig)
    (bc : BucketContainer F B) : ∃ bc', bc.initLocked fac newConfig = some bc' := by
  unfold BucketContainer.initLocked
  refine foldlM_total (fun bc e he => ?_) _
  obtain ⟨nsCfg, bc', hc, hcreate⟩ := createNamespaceLocked_complete fac
    (nameNamespaces_complete hcomplete) (GoMap.mem_range_iff.mp he) bc
  exact ⟨bc', by rw [BucketContainer.initNamespace, hc]; exact hcreate⟩

/-- What `updateBucketContainer` does. -/
inductive Followed (fac : BucketFactory F B) (order : List String) (newConfig : ServiceConfig)
    (s : Server F B) : Server F B → Prop
  | ignored {c : ServiceConfig} (cfgs : s.cfgs = some c) (stale : newConfig.version ≤ c.version) :
    Followed fac order newConfig s s
  | initialised {bc' : BucketContainer F B}
    (newer : ∀ c, s.cfgs = some c → c.version < newConfig.version)
    (cfg : s.bucketContainer.cfg = none)
    (init : { s.bucketContainer with
      factory := fac.init s.bucketContainer.factory newConfig }.initLocked fac newConfig = some bc') :
    Followed fac order newConfig s ⟨some (nameNamespaces newConfig), bc'⟩
  | updated {c : ServiceConfig} {bc' : BucketContainer F B}
    (newer : ∀ c, s.cfgs = some c → c.version < newConfig.version)
    (cfg : s.bucketContainer.cfg = some c)
    (update : { s.bucketContainer with
      factory := fac.init s.bucketContainer.factory newConfig }.update fac order newConfig = some bc') :
    Followed fac order newConfig s ⟨some newConfig, bc'⟩

theorem updateBucketContainer_followed {order : List String} {s s' : Server F B}
    (h : updateBucketContainer fac order newConfig s = some s') :
    Followed fac order newConfig s s' := by
  unfold updateBucketContainer at h
  split_ifs at h with hstale
  · cases h
    obtain ⟨c, hc, hle⟩ := (Option.any_eq_true _ _).mp hstale
    exact .ignored hc (of_decide_eq_true hle)
  · have hnewer : ∀ c, s.cfgs = some c → c.version < newConfig.version := by
      intro c hc
      simpa [hc] using hstale
    cases hcfg : s.bucketContainer.cfg with
    | none =>
      simp only [hcfg] at h
      obtain ⟨bc', hinit, rfl⟩ := Option.map_eq_some_iff.mp h
      refine .initialised hnewer hcfg ?_
      simpa only [hcfg] using hinit
    | some c =>
      simp only [hcfg] at h
      obtain ⟨bc', hupdate, rfl⟩ := Option.map_eq_some_iff.mp h
      refine .updated hnewer hcfg ?_
      simpa only [hcfg] using hupdate

end Update

section Find
variable {bc : BucketContainer F B} {nsp : Namespace B}

/-- There is no room for another dynamic bucket. -/
def Namespace.Full (ns : Namespace B) : Prop :=
  0 < ns.cfg.maxDynamicBuckets ∧ ns.cfg.maxDynamicBuckets ≤ ns.dynamicBucketCount

/-- How `createNewNamedBucket` comes to make a bucket of a namespace that does not hold one. -/
inductive Origin (nsp : Namespace B) (bucketName : String) (b : Bucket B) : Prop
  | static (configured : nsp.cfg.buckets.get bucketName = some (some b.cfg))
    (static : b.dynamic = false)
  | dynamic (unconfigured : (nsp.cfg.buckets.get bucketName).join = none)
    (template : nsp.cfg.dynamicBucketTemplate = some b.cfg) (dynamic : b.dynamic = true)
    (room : ¬ nsp.Full)

theorem createNewNamedBucketFromCfg_spec (hφ : Stable fac φ) (hf : φ bc.factory)
    (ns bucketName : String) (nsp : Namespace B) (bCfg : BucketConfig) (dyn : Bool) :
    ∃ f b acts ws, bc.createNewNamedBucketFromCfg fac ns bucketName nsp bCfg dyn = ({ bc with
        factory := f, nextBucket := bc.nextBucket + 1, activities := acts, newWatchers := ws },
        nsp.addBucket bucketName b, b) ∧ φ f ∧
      b.id = bc.nextBucket ∧ b.cfg = bCfg ∧ b.dynamic = dyn ∧ Made fac φ ns bucketName b := by
  have hf' := hφ.newBucket _ ns bucketName bCfg dyn hf
  unfold BucketContainer.createNewNamedBucketFromCfg BucketContainer.reportActivity
  dsimp only
  split_ifs <;> exact ⟨_, _, _, _, rfl, hf', rfl, rfl, rfl, bc.factory, hf, rfl⟩

theorem createNewNamedBucket_spec (hφ : Stable fac φ) (hf : φ bc.factory)
    (ns bucketName : String) (r : ℕ) {template : BucketConfig}
    (htemplate : nsp.cfg.dynamicBucketTemplate = some template) :
    (bc.createNewNamedBucket fac ns bucketName r nsp template = (bc, none) ∧ nsp.Full) ∨
      ∃ f b acts ws, bc.createNewNamedBucket fac ns bucketName r nsp template = ({ bc with
          factory := f, nextBucket := bc.nextBucket + 1, activities := acts, newWatchers := ws
          namespaces := bc.namespaces.modify r fun _ => nsp.addBucket bucketName b }, some b) ∧
        φ f ∧ b.id = bc.nextBucket ∧ Made fac φ ns bucketName b ∧ Origin nsp bucketName b := by
  unfold BucketContainer.createNewNamedBucket
  cases hstatic : (nsp.cfg.buckets.get bucketName).join with
  | some bCfg =>
    obtain ⟨f, b, acts, ws, heq, hf', hid, rfl, hdyn, hmade⟩ :=
      createNewNamedBucketFromCfg_spec hφ hf ns bucketName nsp bCfg false
    refine Or.inr ⟨f, b, acts, ws, ?_, hf', hid, hmade, .static ?_ hdyn⟩
    · simp only [heq]
    · exact Option.join_eq_some_iff.mp hstatic
  | none =>
    dsimp only
    split_ifs with hfull
    · exact Or.inl ⟨rfl, hfull.2, hfull.1⟩
    · obtain ⟨f, b, acts, ws, heq, hf', hid, rfl, hdyn, hmade⟩ :=
        createNewNamedBucketFromCfg_spec hφ hf ns bucketName nsp template true
      refine Or.inr ⟨f, b, acts, ws, ?_, hf', hid, hmade, .dynamic hstatic htemplate hdyn ?_⟩
      · simp only [heq]
      · exact fun h => hfull ⟨h.2, h.1⟩

theorem reportBucket_eq (bc : BucketContainer F B) (b : Option (Bucket B)) :
    ∃ acts, bc.reportBucket b = { bc with activities := acts } := by
  cases b with
  | none => exact ⟨bc.activities, rfl⟩
  | some b =>
    unfold BucketContainer.reportBucket BucketContainer.reportActivity
    dsimp only
    split_ifs
    · exact ⟨_, rfl⟩
    · exact ⟨bc.activities, rfl⟩

/-- `FindBucket` either creates nothing, as it cannot or need not, or puts a new bucket into the
namespace it has found. -/
theorem findBucket_spec (hφ : Stable fac φ) (hf : φ bc.factory) (ns bucketName : String) :
    (∃ acts, (bc.findBucket fac ns bucketName).1 = { bc with activities := acts } ∧
      ∀ r nsp, bc.fetch ns = some (r, nsp) → nsp.buckets.lookup bucketName = none →
        nsp.cfg.dynamicBucketTemplate = none ∨ nsp.Full) ∨
      ∃ r nsp f b acts ws, bc.fetch ns = some (r, nsp) ∧ nsp.buckets.lookup bucketName = none ∧
        (bc.findBucket fac ns bucketName).1 = { bc with
          factory := f, nextBucket := bc.nextBucket + 1, activities := acts, newWatchers := ws
          namespaces := bc.namespaces.modify r fun _ => nsp.addBucket bucketName b } ∧
        φ f ∧ b.id = bc.nextBucket ∧ Made fac φ ns bucketName b ∧ Origin nsp bucketName b := by
  unfold BucketContainer.findBucket
  cases hfetch : bc.fetch ns with
  | none =>
    obtain ⟨acts, hacts⟩ := reportBucket_eq bc bc.defaultBucket
    exact Or.inl ⟨acts, hacts, by simp⟩
  | some p =>
    obtain ⟨r, nsp⟩ := p
    cases hlookup : nsp.buckets.lookup bucketName with
    | some b =>
      have hheld : ∀ r' nsp', some (r, nsp) = some (r', nsp') →
          nsp'.buckets.lookup bucketName = none →
            nsp'.cfg.dynamicBucketTemplate = none ∨ nsp'.Full := by
        intro r' nsp' heq hnone
        cases heq
        cases hlookup.symm.trans hnone
      obtain ⟨acts, hacts⟩ := reportBucket_eq bc (some b)
      simp only [hlookup]
      exact Or.inl ⟨acts, hacts, hheld⟩
    | none =>
      simp only [hlookup]
      cases htemplate : nsp.cfg.dynamicBucketTemplate with
      | none =>
        obtain ⟨acts, hacts⟩ := reportBucket_eq bc nsp.defaultBucket
        refine Or.inl ⟨acts, hacts, fun r' nsp' heq _ => Or.inl ?_⟩
        cases heq
        exact htemplate
      | some template =>
        rcases createNewNamedBucket_spec hφ hf ns bucketName r htemplate with
          ⟨hnone, hfull⟩ | ⟨f, b, acts, ws, heq, hrest⟩
        · refine Or.inl ⟨bc.activities, by simp only [hnone], fun r' nsp' heq _ => Or.inr ?_⟩
          cases heq
          exact hfull
        · exact Or.inr ⟨r, nsp, f, b, acts, ws, rfl, hlookup, by simp only [heq], hrest⟩

theorem lookup_addBucket (nsp : Namespace B) (bucketName : String) (b : Bucket B) (n : String) :
    (nsp.addBucket bucketName b).buckets.lookup n =
      if n = bucketName then some b else nsp.buckets.lookup n := by
  by_cases hn : n = bucketName
  · subst hn
    rw [if_pos rfl]
    exact AList.lookup_insert _
  · rw [if_neg hn]
    exact AList.lookup_insert_ne hn

theorem ids_addBucket {bucketName : String} (b : Bucket B)
    (h : nsp.buckets.lookup bucketName = none) :
    (nsp.addBucket bucketName b).ids = {b.id} + nsp.ids := by
  unfold Namespace.ids Namespace.addBucket
  simp only [AList.total_insert_of_none _ _ h]
  abel

/-- A new bucket is held, in the namespace it was created in. -/
theorem balanced_addBucket (hb : bc.Balanced) {ns bucketName : String} {r : ℕ}
    (hfetch : bc.fetch ns = some (r, nsp)) (hlookup : nsp.buckets.lookup bucketName = none)
    {b : Bucket B} (hid : b.id = bc.nextBucket) (f : F) (acts : Finset ℕ) (ws : List Watcher) :
    BucketContainer.Balanced { bc with
      factory := f, nextBucket := bc.nextBucket + 1, activities := acts, newWatchers := ws
      namespaces := bc.namespaces.modify r fun _ => nsp.addBucket bucketName b } := by
  obtain ⟨hr, hns⟩ := fetch_eq_some.mp hfetch
  have htotal := Directory.total_modify (w := Namespace.ids)
    (f := fun _ => nsp.addBucket bucketName b) hr hns
  rw [ids_addBucket b hlookup, ← add_assoc, add_left_inj] at htotal
  unfold BucketContainer.Balanced BucketContainer.live at hb ⊢
  simp only [htotal, hid, Multiset.range_succ, ← hb, ← Multiset.singleton_add]
  abel

end Find

end QuotaService.Container
