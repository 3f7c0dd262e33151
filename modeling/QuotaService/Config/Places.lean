import QuotaService.Config.Json
import QuotaService.Config.Mutable

/-! The parts of a config that an admin call can address, and what it means that a config is
unchanged outside of one. An edit changes nothing outside of the place that it is filed under. -/
namespace QuotaService.Config

inductive Place
  | globalDefaultBucket
  | «namespace» (name : String)
  | defaultBucket (ns : String)
  | dynamicBucketTemplate (ns : String)
  | bucket (ns name : String)
deriving DecidableEq

/-- Where the edits of `config/mutable.go` file a bucket of this name. -/
def placeOf (ns name : String) : Place :=
  if ns = globalNamespace then .globalDefaultBucket
  else if name = defaultBucketName then .defaultBucket ns
  else if name = dynamicBucketTemplateName then .dynamicBucketTemplate ns
  else .bucket ns name

namespace Place

/-- A namespace without what is in the place. -/
def clearIn : Place → String → NamespaceConfig → NamespaceConfig
  | defaultBucket k, name, ns => if name = k then { ns with defaultBucket := none } else ns
  | dynamicBucketTemplate k, name, ns =>
    if name = k then { ns with dynamicBucketTemplate := none } else ns
  | bucket k n, name, ns => if name = k then { ns with buckets := ns.buckets.delete n } else ns
  | _, _, ns => ns

/-- A config without what is in the place. -/
def clear (p : Place) (cfg : ServiceConfig) : ServiceConfig :=
  match p with
  | globalDefaultBucket => { cfg with globalDefaultBucket := none }
  | .namespace name => { cfg with namespaces := cfg.namespaces.delete name }
  | p => { cfg with namespaces := cfg.namespaces.map fun name ns => ns.map (p.clearIn name) }

/-- The JSON of what is in the place. -/
def content (cfg : ServiceConfig) : Place → Option Json
  | globalDefaultBucket => cfg.globalDefaultBucket.map marshalBucket
  | .namespace name =>
    (cfg.namespaces.get name).map fun ns => (ns.map marshalNamespace).getD .null
  | defaultBucket k =>
    (findNamespace cfg k).bind fun ns => ns.defaultBucket.map marshalBucket
  | dynamicBucketTemplate k =>
    (findNamespace cfg k).bind fun ns => ns.dynamicBucketTemplate.map marshalBucket
  | bucket k n => (findNamespace cfg k).bind fun ns =>
    (ns.buckets.get n).map fun b => (b.map marshalBucket).getD .null

end Place

/-- Two configs that are the same outside of a place. -/
def SameBut (p : Place) (c1 c2 : ServiceConfig) : Prop := SameConfig (p.clear c1) (p.clear c2)

/-- A config with its defaults filled in, where `ApplyDefaults` does not panic. -/
def withDefaults (cfg : ServiceConfig) : ServiceConfig :=
  { cfg with
    globalDefaultBucket := cfg.globalDefaultBucket.map fun b =>
      { applyBucketDefaults b with name := defaultBucketName }
    namespaces := cfg.namespaces.map fun name ns => ns.map (applyNamespaceDefaults name) }

/-- The new config is the old one outside of a place, but for the defaults that are filled in, of
which there are none to fill in if the old one is normalised. -/
def Unchanged (p : Place) (clonedCfg cfg : ServiceConfig) : Prop :=
  SameBut p cfg (withDefaults clonedCfg) ∧ (Normalised clonedCfg → SameBut p cfg clonedCfg)

section Same
variable {c c1 c2 c3 : ServiceConfig}

theorem SameConfig.refl (c : ServiceConfig) : SameConfig c c :=
  ⟨rfl, fun _ => GoMap.rel_refl (GoMap.rel_refl SameNamespace.refl) _⟩

theorem SameConfig.symm (h : SameConfig c1 c2) : SameConfig c2 c1 :=
  ⟨h.globalDefaultBucket.symm, fun name =>
    GoMap.rel_symm (fun _ _ => GoMap.rel_symm fun _ _ => SameNamespace.symm) (h.namespaces name)⟩

theorem SameConfig.trans (h : SameConfig c1 c2) (h' : SameConfig c2 c3) : SameConfig c1 c3 :=
  ⟨h.globalDefaultBucket.trans h'.globalDefaultBucket, fun name =>
    GoMap.rel_trans (fun _ _ _ => GoMap.rel_trans fun _ _ _ => SameNamespace.trans)
      (h.namespaces name) (h'.namespaces name)⟩

theorem SameConfig.withDefaults (h : SameConfig c1 c2) :
    SameConfig (withDefaults c1) (withDefaults c2) := by
  constructor
  · simp only [Config.withDefaults, h.globalDefaultBucket]
  · intro name
    simp only [Config.withDefaults, GoMap.get_map]
    apply GoMap.rel_map _ (h.namespaces name)
    intro _ _ hns
    exact GoMap.rel_map (fun _ _ hsame => hsame.applyDefaults name) hns

/-- What `ApplyDefaults` returns when it returns. -/
theorem applyDefaults_eq (h : applyDefaults c1 = some c2) : c2 = Config.withDefaults c1 := by
  unfold applyDefaults at h
  split_ifs at h
  exact (Option.some.inj h).symm

/-- There are no defaults to fill in in a normalised config. -/
theorem Normalised.same_withDefaults (h : Normalised c) : SameConfig (Config.withDefaults c) c := by
  constructor
  · obtain ⟨raw, c', hraw, hc⟩ := h
    have hglobal : c.globalDefaultBucket = raw.globalDefaultBucket.map fun b =>
        { applyBucketDefaults b with name := defaultBucketName } := by
      have hc' : c'.globalDefaultBucket = raw.globalDefaultBucket.map fun b =>
          { applyBucketDefaults b with name := defaultBucketName } := by
        rw [applyDefaults_eq hraw]
        rfl
      rcases hc with rfl | rfl
      · exact hc'
      · exact hc'
    have hname : ∀ b : BucketConfig,
        applyBucketDefaults { b with name := defaultBucketName } =
          { applyBucketDefaults b with name := defaultBucketName } := fun b => rfl
    simp only [Config.withDefaults, hglobal, Option.map_map, Function.comp_def, hname,
      applyBucketDefaults_idem]
  · intro name
    simp only [Config.withDefaults, GoMap.get_map]
    cases hx : c.namespaces.get name with
    | none => exact .none
    | some x =>
      obtain ⟨ns, rfl, -⟩ := h.namespace_get hx
      exact .some (.some (h.filled hx))

end Same

section Clear
variable {p : Place} {c c1 c2 : ServiceConfig}

theorem get_clear (p : Place) (c : ServiceConfig) (name : String) :
    (p.clear c).namespaces.get name = if p = .namespace name then none
      else (c.namespaces.get name).map fun ns => ns.map (p.clearIn name) := by
  have hid : ∀ f : NamespaceConfig → NamespaceConfig, (∀ ns, f ns = ns) →
      ∀ x : Option (Option NamespaceConfig), (x.map fun ns => ns.map f) = x := by
    intro f hf x
    rw [funext hf]
    simp
  cases p with
  | globalDefaultBucket => exact (hid _ (fun ns => rfl) _).symm
  | «namespace» k =>
    by_cases hk : name = k
    · subst hk
      simp [Place.clear]
    · have hplace : Place.namespace k ≠ .namespace name := by simp [Ne.symm hk]
      rw [if_neg hplace]
      exact (GoMap.get_delete_ne _ hk).trans (hid _ (fun ns => rfl) _).symm
  | _ => simp [Place.clear]

theorem globalDefaultBucket_clear (p : Place) (c : ServiceConfig) :
    (p.clear c).globalDefaultBucket =
      if p = .globalDefaultBucket then none else c.globalDefaultBucket := by
  cases p <;> simp [Place.clear]

theorem SameNamespace.clearIn {ns1 ns2 : NamespaceConfig} (h : SameNamespace ns1 ns2)
    (p : Place) (name : String) : SameNamespace (p.clearIn name ns1) (p.clearIn name ns2) := by
  cases p with
  | globalDefaultBucket => exact h
  | «namespace» k => exact h
  | defaultBucket k =>
    simp only [Place.clearIn]
    split_ifs
    · exact ⟨h.name, h.maxDynamicBuckets, rfl, h.dynamicBucketTemplate, h.buckets⟩
    · exact h
  | dynamicBucketTemplate k =>
    simp only [Place.clearIn]
    split_ifs
    · exact ⟨h.name, h.maxDynamicBuckets, h.defaultBucket, rfl, h.buckets⟩
    · exact h
  | bucket k n =>
    simp only [Place.clearIn]
    split_ifs
    · refine ⟨h.name, h.maxDynamicBuckets, h.defaultBucket, h.dynamicBucketTemplate, fun n' => ?_⟩
      by_cases hn : n' = n
      · simp [hn]
      · simp only [GoMap.get_delete_ne _ hn, h.buckets n']
    · exact h

theorem clearIn_applyNamespaceDefaults (p : Place) (name : String) (ns : NamespaceConfig) :
    SameNamespace (p.clearIn name (applyNamespaceDefaults name ns))
      (applyNamespaceDefaults name (p.clearIn name ns)) := by
  cases p with
  | globalDefaultBucket => exact SameNamespace.refl _
  | «namespace» k => exact SameNamespace.refl _
  | defaultBucket k =>
    simp only [Place.clearIn]
    split_ifs <;> exact SameNamespace.refl _
  | dynamicBucketTemplate k =>
    simp only [Place.clearIn]
    split_ifs <;> exact SameNamespace.refl _
  | bucket k n =>
    simp only [Place.clearIn]
    split_ifs
    · refine ⟨rfl, rfl, rfl, rfl, fun n' => ?_⟩
      rw [get_applyNamespaceDefaults]
      by_cases hn : n' = n
      · simp [hn]
      · simp only [GoMap.get_delete_ne _ hn, get_applyNamespaceDefaults]
    · exact SameNamespace.refl _

theorem SameConfig.clear (h : SameConfig c1 c2) (p : Place) :
    SameConfig (p.clear c1) (p.clear c2) := by
  constructor
  · rw [globalDefaultBucket_clear, globalDefaultBucket_clear, h.globalDefaultBucket]
  · intro name
    rw [get_clear, get_clear]
    split_ifs
    · exact .none
    · apply GoMap.rel_map _ (h.namespaces name)
      intro _ _ hns
      exact GoMap.rel_map (fun _ _ hsame => hsame.clearIn p name) hns

theorem clear_withDefaults (p : Place) (c : ServiceConfig) :
    SameConfig (p.clear (withDefaults c)) (withDefaults (p.clear c)) := by
  constructor
  · simp only [withDefaults, globalDefaultBucket_clear]
    split_ifs <;> rfl
  · intro name
    rw [get_clear]
    simp only [withDefaults, GoMap.get_map, get_clear]
    split_ifs
    · exact .none
    · simp only [Option.map_map, Function.comp_def]
      cases c.namespaces.get name with
      | none => exact .none
      | some ns =>
        cases ns with
        | none => exact .some .none
        | some ns => exact .some (.some (clearIn_applyNamespaceDefaults p name ns))

/-- Filling in the defaults of both configs changes nothing outside of the place in which they
differ. -/
theorem SameBut.withDefaults (h : SameBut p c1 c2) :
    SameBut p (withDefaults c1) (withDefaults c2) :=
  ((clear_withDefaults p c1).trans (SameConfig.withDefaults h)).trans (clear_withDefaults p c2).symm

theorem SameBut.unchanged {clonedCfg edited cfg : ServiceConfig} (h : SameBut p edited clonedCfg)
    (hcfg : SameConfig cfg (Config.withDefaults edited)) : Unchanged p clonedCfg cfg := by
  have hfilled : SameBut p cfg (Config.withDefaults clonedCfg) :=
    (hcfg.clear p).trans h.withDefaults
  exact ⟨hfilled, fun hnorm => hfilled.trans (hnorm.same_withDefaults.clear p)⟩

end Clear

section Edits
variable {cfg cfg' : ServiceConfig} {k name : String}

theorem putNamespace_sameBut {p : Place} {ns : NamespaceConfig}
    (h : putNamespace cfg k ns = some (.ok cfg'))
    (hp : p ≠ .namespace k → ∃ old, findNamespace cfg k = some old ∧
      SameNamespace (p.clearIn k ns) (p.clearIn k old)) : SameBut p cfg' cfg := by
  obtain ⟨m, hm, heq⟩ := Option.map_eq_some_iff.mp h
  cases heq
  constructor
  · rw [globalDefaultBucket_clear, globalDefaultBucket_clear]
  · intro k'
    rw [get_clear, get_clear]
    by_cases hplace : p = .namespace k'
    · rw [if_pos hplace, if_pos hplace]
      exact .none
    · rw [if_neg hplace, if_neg hplace]
      by_cases hk : k' = k
      · subst hk
        obtain ⟨old, hold, hsame⟩ := hp hplace
        have hget : cfg.namespaces.get k' = some (some old) := Option.join_eq_some_iff.mp hold
        rw [GoMap.get_set_self hm, hget]
        exact .some (.some hsame)
      · rw [GoMap.get_set_ne hm hk]
        exact GoMap.rel_refl (GoMap.rel_refl SameNamespace.refl) _

theorem same_buckets (k : String) (ns : NamespaceConfig) {m : GoMap String (Option BucketConfig)}
    (hm : ∀ n, n ≠ name → m.get n = ns.buckets.get n) :
    SameNamespace ((Place.bucket k name).clearIn k { ns with buckets := m })
      ((Place.bucket k name).clearIn k ns) := by
  simp only [Place.clearIn, if_true]
  refine ⟨rfl, rfl, rfl, rfl, fun n => ?_⟩
  by_cases hn : n = name
  · simp [hn]
  · simp only [GoMap.get_delete_ne _ hn, hm n hn]

/-- An edit of a bucket changes what its name stands for in its namespace. -/
theorem BucketEdit.sameBut (h : BucketEdit k name cfg cfg') : SameBut (placeOf k name) cfg' cfg := by
  cases h with
  | globalDefault b isGlobal =>
    rw [placeOf, if_pos isGlobal]
    exact SameConfig.refl _
  | @put old ns _ notGlobal found edited written =>
    apply putNamespace_sameBut written
    intro _
    refine ⟨old, found, ?_⟩
    rw [placeOf, if_neg notGlobal]
    cases edited with
    | defaultBucket b isDefault =>
      rw [if_pos isDefault]
      simp [Place.clearIn]
    | dynamicBucketTemplate b notDefault isTemplate =>
      rw [if_neg notDefault, if_pos isTemplate]
      simp [Place.clearIn]
    | buckets m notDefault notTemplate others =>
      rw [if_neg notDefault, if_neg notTemplate]
      exact same_buckets k old others

theorem updateNamespace_sameBut {nsCfg : NamespaceConfig}
    (h : updateNamespace cfg nsCfg = some (.ok cfg')) : SameBut (.namespace nsCfg.name) cfg' cfg := by
  have hput : SameBut (.namespace nsCfg.name) cfg' { cfg with namespaces := made cfg.namespaces } :=
    putNamespace_sameBut h fun hne => absurd rfl hne
  have hmade : SameConfig { cfg with namespaces := made cfg.namespaces } cfg := by
    refine ⟨rfl, fun name => ?_⟩
    rw [get_made]
    exact GoMap.rel_refl (GoMap.rel_refl SameNamespace.refl) _
  exact SameConfig.trans hput (hmade.clear _)

theorem createNamespace_sameBut {nsCfg : NamespaceConfig}
    (h : createNamespace cfg nsCfg = some (.ok cfg')) : SameBut (.namespace nsCfg.name) cfg' cfg := by
  unfold createNamespace at h
  split_ifs at h
  · cases h
  · exact updateNamespace_sameBut h

theorem deleteNamespace_sameBut (h : deleteNamespace cfg name = some (.ok cfg')) :
    SameBut (.namespace name) cfg' cfg := by
  unfold deleteNamespace at h
  split_ifs at h
  · cases h
  · cases h
    refine ⟨rfl, fun k => ?_⟩
    rw [get_clear, get_clear]
    by_cases hk : k = name
    · subst hk
      rw [if_pos rfl, if_pos rfl]
      exact .none
    · rw [GoMap.get_delete_ne _ hk]
      exact GoMap.rel_refl (GoMap.rel_refl SameNamespace.refl) _

end Edits

end QuotaService.Config
