import QuotaService.Container.Update

/-! Namespace objects and the log of `Destroy`, for configs of any shape. An update never changes
what an object holds: it corrects its config pointer, makes new objects and lets names refer to
them. It destroys what the objects hold that a name has referred to, and where the config gives a
namespace that it replaces another name, the destroyed object stays where it was. -/
namespace QuotaService.Container
open Config

variable {F B : Type} {fac : BucketFactory F B}

section Carried

/-- An object as a new namespace starts out, without dynamic buckets. -/
structure Namespace.Pristine (ns : Namespace B) : Prop where
  count : ns.dynamicBucketCount = 0
  static : ∀ n b, ns.buckets.lookup n = some b → b.dynamic = false
  set : ∀ n, ns.cfg.buckets.get n ≠ some none

/-- Every object is carried over with what it holds, and the others are new. -/
structure Carried (bc bc' : BucketContainer F B) : Prop where
  old : ∀ r ns, bc.namespaces.deref r = some ns →
    ∃ nsCfg, bc'.namespaces.deref r = some (ns.swapCfg nsCfg) ∧ SameNamespace ns.cfg nsCfg
  new : ∀ r ns', bc'.namespaces.deref r = some ns' →
    (∃ ns, bc.namespaces.deref r = some ns) ∨ ns'.Pristine

variable {bc bc' bc'' : BucketContainer F B} {newConfig : ServiceConfig}

theorem Carried.refl (h : bc'.namespaces = bc.namespaces) : Carried bc bc' := by
  refine ⟨fun r ns hns => ⟨ns.cfg, ?_, .refl _⟩, fun r ns hns => Or.inl ⟨ns, h ▸ hns⟩⟩
  rw [h]
  exact hns

theorem Carried.trans (h : Carried bc bc') (h' : Carried bc' bc'') : Carried bc bc'' := by
  constructor
  · intro r ns hns
    obtain ⟨c, hc, hsame⟩ := h.old r ns hns
    obtain ⟨c', hc', hsame'⟩ := h'.old r _ hc
    exact ⟨c', hc', hsame.trans hsame'⟩
  · intro r ns'' hns''
    rcases h'.new r ns'' hns'' with ⟨ns', hns'⟩ | hpristine
    · rcases h.new r ns' hns' with hold | hpristine
      · exact Or.inl hold
      · obtain ⟨c, hc, hsame⟩ := h'.old r ns' hns'
        cases hns''.symm.trans hc
        exact Or.inr ⟨hpristine.count, hpristine.static, fun n => hsame.buckets n ▸ hpristine.set n⟩
    · exact Or.inr hpristine

theorem Carried.foldlM {α : Type} {f : BucketContainer F B → α → Option (BucketContainer F B)}
    (hf : ∀ bc a bc', f bc a = some bc' → Carried bc bc') {l : List α}
    (h : l.foldlM f bc = some bc') : Carried bc bc' := by
  induction l generalizing bc with
  | nil =>
    cases h
    exact .refl rfl
  | cons a l ih =>
    rw [List.foldlM_cons] at h
    obtain ⟨bc₁, h₁, h⟩ := Option.bind_eq_some_iff.mp h
    exact (hf bc a bc₁ h₁).trans (ih h)

theorem createNamespaceLocked_carried {nsCfg : NamespaceConfig}
    (h : bc.createNamespaceLocked fac nsCfg = some bc') : Carried bc bc' := by
  obtain ⟨f, m, ns', rfl, -, hbuilt, -⟩ := createNamespaceLocked_spec (stable_true fac) trivial h
  constructor
  · intro r ns hns
    refine ⟨ns.cfg, ?_, .refl _⟩
    have hr : r < bc.namespaces.objects.length := (List.getElem?_eq_some_iff.mp hns).1
    exact (Directory.deref_bind_of_lt hr).trans hns
  · intro r ns'' hns''
    rcases Directory.deref_bind_eq_some hns'' with hold | ⟨-, rfl⟩
    · exact Or.inl ⟨ns'', hold⟩
    · refine Or.inr ⟨hbuilt.count, fun n b hb => (hbuilt.buckets_made n b hb).1, fun n hn => ?_⟩
      rw [hbuilt.cfg, ← hbuilt.buckets n] at hn
      obtain ⟨b, -, hb⟩ := Option.map_eq_some_iff.mp hn
      cases hb

theorem destroyNamespace_namespaces (bc : BucketContainer F B) (ns : Namespace B) :
    (bc.destroyNamespace fac ns).namespaces = bc.namespaces := by
  obtain ⟨f, heq⟩ := destroyNamespace_eq fac bc ns
  rw [heq]

theorem updateNamespace_carried {name : String}
    (h : bc.updateNamespace fac newConfig name = some bc') : Carried bc bc' := by
  have hdestroy : ∀ ns, Carried bc (bc.destroyNamespace fac ns) := fun ns =>
    .refl (destroyNamespace_namespaces bc ns)
  cases updateNamespace_visited h with
  | absent => exact .refl rfl
  | @swapped r ns nsCfg fetched configured same =>
    obtain ⟨-, hns⟩ := fetch_eq_some.mp fetched
    constructor
    · intro r' ns' hns'
      by_cases hr : r = r'
      · subst hr
        cases hns.symm.trans hns'
        exact ⟨nsCfg, by rw [Directory.deref_modify_self, hns]; rfl, same⟩
      · exact ⟨ns'.cfg, (Directory.deref_modify_ne hr).trans hns', .refl _⟩
    · intro r' ns' hns'
      by_cases hr : r = r'
      · subst hr
        exact Or.inl ⟨ns, hns⟩
      · exact Or.inl ⟨ns', (Directory.deref_modify_ne hr).symm.trans hns'⟩
  | @replaced r ns nsCfg _ fetched configured different created =>
    exact (hdestroy ns).trans (createNamespaceLocked_carried created)
  | @removed r ns fetched gone =>
    exact (hdestroy ns).trans ⟨fun r ns hns => ⟨ns.cfg, hns, .refl _⟩,
      fun r ns hns => Or.inl ⟨ns, hns⟩⟩

theorem addNamespace_carried {e : String × Option NamespaceConfig}
    (h : bc.addNamespace fac e = some bc') : Carried bc bc' := by
  unfold BucketContainer.addNamespace at h
  split_ifs at h
  · cases h
    exact .refl rfl
  · obtain ⟨nsCfg, -, h⟩ := Option.bind_eq_some_iff.mp h
    exact createNamespaceLocked_carried h

theorem initNamespace_carried {e : String × Option NamespaceConfig}
    (h : bc.initNamespace fac e = some bc') : Carried bc bc' := by
  obtain ⟨nsCfg, -, h⟩ := Option.bind_eq_some_iff.mp h
  exact createNamespaceLocked_carried h

theorem updateGlobalDefaultBucket_namespaces (bc : BucketContainer F B) (newConfig : ServiceConfig) :
    (bc.updateGlobalDefaultBucket fac newConfig).namespaces = bc.namespaces := by
  obtain ⟨f, m, d, D, heq, -⟩ :=
    updateGlobalDefaultBucket_spec (stable_true fac) bc trivial newConfig
  rw [heq]

theorem initGlobalDefaultBucket_namespaces (bc : BucketContainer F B) (c : Option BucketConfig) :
    (bc.initGlobalDefaultBucket fac c).namespaces = bc.namespaces := by
  cases c <;> rfl

/-- No update changes what an object holds. -/
theorem updateBucketContainer_carried {order : List String} {s s' : Server F B}
    (h : updateBucketContainer fac order newConfig s = some s') :
    Carried s.bucketContainer s'.bucketContainer := by
  cases updateBucketContainer_followed h with
  | ignored => exact .refl rfl
  | initialised newer cfg init =>
    have hloop := Carried.foldlM (fun _ _ _ => initNamespace_carried) init
    refine Carried.trans (.refl ?_) hloop
    exact initGlobalDefaultBucket_namespaces ..
  | updated newer cfg update =>
    obtain ⟨bc₁, h₁, h₂⟩ := Option.bind_eq_some_iff.mp update
    have hfirst := Carried.foldlM (fun _ _ _ => updateNamespace_carried) h₁
    have hsecond := Carried.foldlM (fun _ _ _ => addNamespace_carried) h₂
    refine Carried.trans (.refl ?_) (hfirst.trans hsecond)
    exact updateGlobalDefaultBucket_namespaces ..

end Carried

end QuotaService.Container
