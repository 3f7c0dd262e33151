import QuotaService.Container.SearchOrder

/-! Where buckets are held. A bucket is held under one name only, and an update leaves it there
unless it destroys it. -/
namespace QuotaService.Container
open Config

variable {F B : Type} {fac : BucketFactory F B}

/-- The bucket that is held under a name in a namespace. -/
def BucketContainer.bucket? (bc : BucketContainer F B) («namespace» bucketName : String) :
    Option (Bucket B) :=
  (bc.namespaces.get? «namespace»).bind fun ns => ns.buckets.lookup bucketName

section Places
variable {bc bc' : BucketContainer F B} {name n name' n' bucketName : String} {nsp : Namespace B}
variable {r : ℕ} {b b' : Bucket B}

theorem bucket?_eq_some : bc.bucket? name n = some b ↔
    ∃ ns, bc.namespaces.get? name = some ns ∧ ns.buckets.lookup n = some b := by
  simp [BucketContainer.bucket?, Option.bind_eq_some_iff]

theorem bucket?_congr (h : bc'.namespaces = bc.namespaces) (name n : String) :
    bc'.bucket? name n = bc.bucket? name n := by
  rw [BucketContainer.bucket?, h, BucketContainer.bucket?]

theorem bucket?_of_get? (hget : bc.namespaces.get? name = some nsp) (n : String) :
    bc.bucket? name n = nsp.buckets.lookup n := by
  simp [BucketContainer.bucket?, hget]

theorem bucket?_of_absent (hget : bc.namespaces.get? name = none) (n : String) :
    bc.bucket? name n = none := by
  simp [BucketContainer.bucket?, hget]

theorem bucket?_modify {f : Namespace B → Namespace B} (hfetch : bc.fetch name = some (r, nsp))
    (h : bc'.namespaces = bc.namespaces.modify r f) (name' n' : String) :
    bc'.bucket? name' n' =
      if name' = name then (f nsp).buckets.lookup n' else bc.bucket? name' n' := by
  unfold BucketContainer.bucket?
  rw [h]
  split_ifs with hname
  · rw [hname, get?_modify_fetch_self hfetch]
    rfl
  · rw [get?_modify_fetch_ne hfetch hname]

theorem bucket?_bind (name : String) (nsp : Namespace B)
    (h : bc'.namespaces = bc.namespaces.bind name nsp) (name' n' : String) :
    bc'.bucket? name' n' =
      if name' = name then nsp.buckets.lookup n' else bc.bucket? name' n' := by
  unfold BucketContainer.bucket?
  rw [h]
  split_ifs with hname
  · rw [hname, Directory.get?_bind_self]
    rfl
  · rw [Directory.get?_bind_ne hname]

theorem bucket?_unbind (name : String) (h : bc'.namespaces = bc.namespaces.unbind name)
    (name' n' : String) :
    bc'.bucket? name' n' = if name' = name then none else bc.bucket? name' n' := by
  unfold BucketContainer.bucket?
  rw [h]
  split_ifs with hname
  · rw [hname, Directory.get?_unbind_self]
    rfl
  · rw [Directory.get?_unbind_ne hname]

theorem Adds.bucket? (h : Adds fac name n b bc bc') (name' n' : String) :
    bc'.bucket? name' n' = if name' = name ∧ n' = n then some b else bc.bucket? name' n' := by
  obtain ⟨r, nsp, acts, hfetch, -, rfl, -⟩ := h.added
  rw [bucket?_modify hfetch rfl, lookup_addBucket]
  by_cases hname : name' = name
  · simp only [hname, if_true, true_and, bucket?_of_get? (get?_of_fetch hfetch)]
  · simp [hname]

/-- The container after a bucket has been removed from its namespace. -/
theorem bucket?_drop (hfetch : bc.fetch name = some (r, nsp))
    (h : bc'.namespaces = bc.namespaces.modify r (Namespace.dropBucket n b)) (name' n' : String) :
    bc'.bucket? name' n' = if name' = name ∧ n' = n then none else bc.bucket? name' n' := by
  rw [bucket?_modify hfetch h]
  by_cases hname : name' = name
  · simp only [hname, if_true, true_and, bucket?_of_get? (get?_of_fetch hfetch)]
    by_cases hn : n' = n
    · rw [if_pos hn, hn]
      exact AList.lookup_erase ..
    · rw [if_neg hn]
      exact AList.lookup_erase_ne hn
  · simp [hname]

/-- A namespace holds a bucket under one name. -/
theorem lookup_inj (hnodup : nsp.ids.Nodup) (h : nsp.buckets.lookup n = some b)
    (h' : nsp.buckets.lookup n' = some b') (hid : b.id = b'.id) : n = n' := by
  by_contra hne
  rw [ids_dropBucket h, Multiset.singleton_add, Multiset.nodup_cons] at hnodup
  have hother : (nsp.dropBucket n b).buckets.lookup n' = some b' :=
    (AList.lookup_erase_ne (Ne.symm hne)).trans h'
  exact hnodup.1 (hid ▸ mem_ids_of_lookup hother)

/-- A bucket is held under one name of one namespace. -/
theorem Sound.bucket?_inj (hsound : Sound bc) (h : bc.bucket? name n = some b)
    (h' : bc.bucket? name' n' = some b') (hid : b.id = b'.id) : name = name' ∧ n = n' ∧ b = b' := by
  obtain ⟨ns, hget, hlookup⟩ := bucket?_eq_some.mp h
  obtain ⟨ns', hget', hlookup'⟩ := bucket?_eq_some.mp h'
  obtain ⟨r, hr, hns⟩ := Directory.get?_eq_some.mp hget
  obtain ⟨r', hr', hns'⟩ := Directory.get?_eq_some.mp hget'
  obtain rfl := hsound.ref_eq hns hns' (mem_ids_of_lookup hlookup)
    (hid ▸ mem_ids_of_lookup hlookup')
  cases hns.symm.trans hns'
  have hname : name = name' := by
    by_contra hne
    exact Directory.ref?_ne_of_ne hr' hne hr
  have hn : n = n' := lookup_inj (hsound.nodup_ids hns) hlookup hlookup' hid
  subst hname hn
  cases hlookup.symm.trans hlookup'
  exact ⟨rfl, rfl, rfl⟩

theorem Sound.bucket?_intact (hsound : Sound bc) (h : bc.bucket? name n = some b) :
    b.id < bc.nextBucket ∧ b.id ∉ bc.destroyed := by
  obtain ⟨ns, hget, hlookup⟩ := bucket?_eq_some.mp h
  exact hsound.intact hget (mem_ids_of_lookup hlookup)

/-- A default bucket is held under no name. -/
theorem Sound.bucket?_ne_default (hsound : Sound bc) (h : bc.bucket? name n = some b)
    (hdefault : bc.defaultBucket = some b' ∨
      ∃ name' ns, bc.namespaces.get? name' = some ns ∧ ns.defaultBucket = some b') :
    b.id ≠ b'.id := by
  intro hid
  obtain ⟨ns, hget, hlookup⟩ := bucket?_eq_some.mp h
  obtain ⟨r, -, hns⟩ := Directory.get?_eq_some.mp hget
  have hmem := mem_ids_of_lookup hlookup
  rcases hdefault with hglobal | ⟨name', ns', hget', hown⟩
  · have hb' : b'.id ∈ bucketId bc.defaultBucket := by simp [hglobal, bucketId]
    exact hsound.default_notMem hns hb' (hid ▸ hmem)
  · obtain ⟨r', -, hns'⟩ := Directory.get?_eq_some.mp hget'
    obtain rfl := hsound.ref_eq hns hns' hmem (hid ▸ mem_ids_of_default hown)
    cases hns.symm.trans hns'
    have hnodup := hsound.nodup_ids hns
    unfold Namespace.ids at hnodup
    refine Multiset.disjoint_left.mp (Multiset.nodup_add.mp hnodup).2.2 ?_
      (AList.mem_total.mpr ⟨n, b, hlookup, Multiset.mem_singleton_self _⟩)
    simp [hown, bucketId, hid]

end Places

/-- What an update leaves as it is: the channels to the reaper, and every bucket in its place unless
it has been destroyed; and all the buckets that it makes are static. -/
structure Undisturbed (bc bc' : BucketContainer F B) : Prop where
  activities : bc'.activities = bc.activities
  newWatchers : bc'.newWatchers = bc.newWatchers
  nextBucket : bc.nextBucket ≤ bc'.nextBucket
  configured : bc.cfg ≠ none → bc'.cfg ≠ none
  destroyed : ∀ id ∈ bc.destroyed, id ∈ bc'.destroyed
  kept : ∀ name n b, bc.bucket? name n = some b →
    b.id ∈ bc'.destroyed ∨ bc'.bucket? name n = some b
  made : ∀ name n b, bc'.bucket? name n = some b →
    bc.bucket? name n = some b ∨ (b.dynamic = false ∧ b.reapable = false)

namespace Undisturbed
variable {bc bc' bc'' : BucketContainer F B}

theorem refl (bc : BucketContainer F B) : Undisturbed bc bc :=
  ⟨rfl, rfl, le_rfl, id, fun _ => id, fun _ _ _ => Or.inr, fun _ _ _ => Or.inl⟩

theorem trans (h : Undisturbed bc bc') (h' : Undisturbed bc' bc'') : Undisturbed bc bc'' := by
  refine ⟨h'.activities.trans h.activities, h'.newWatchers.trans h.newWatchers,
    h.nextBucket.trans h'.nextBucket, fun hc => h'.configured (h.configured hc),
    fun id hid => h'.destroyed id (h.destroyed id hid), fun name n b hb => ?_,
    fun name n b hb => ?_⟩
  · rcases h.kept name n b hb with hgone | hkept
    · exact Or.inl (h'.destroyed _ hgone)
    · exact h'.kept name n b hkept
  · rcases h'.made name n b hb with hold | hstatic
    · exact h.made name n b hold
    · exact Or.inr hstatic

theorem foldlM {α : Type} {g : BucketContainer F B → α → Option (BucketContainer F B)}
    {l : List α} (hg : ∀ bc a bc', a ∈ l → g bc a = some bc' → Undisturbed bc bc')
    {bc : BucketContainer F B} (hloop : l.foldlM g bc = some bc') : Undisturbed bc bc' := by
  induction l generalizing bc with
  | nil =>
    cases hloop
    exact .refl _
  | cons a l ih =>
    rw [List.foldlM_cons] at hloop
    obtain ⟨bc₁, h₁, hloop⟩ := Option.bind_eq_some_iff.mp hloop
    have hrest := ih (fun bc a' bc' ha' => hg bc a' bc' (List.mem_cons_of_mem _ ha')) hloop
    exact (hg bc a bc₁ (List.mem_cons_self ..) h₁).trans hrest

end Undisturbed

section Update
variable {bc bc' : BucketContainer F B} {newConfig : ServiceConfig} {name : String}

/-- A new namespace under a name whose buckets, if there were any, have been destroyed. -/
theorem createNamespaceLocked_undisturbed {nsCfg : NamespaceConfig}
    (hgone : ∀ n b, bc.bucket? nsCfg.name n = some b → b.id ∈ bc.destroyed)
    (h : bc.createNamespaceLocked fac nsCfg = some bc') : Undisturbed bc bc' := by
  obtain ⟨f, m, ns, rfl, -, hbuilt, hids⟩ :=
    createNamespaceLocked_spec (stable_true fac) trivial h
  have hnext : bc.nextBucket ≤ m := by
    have hcard := congrArg Multiset.card hids
    simp only [Multiset.card_add, Multiset.card_range] at hcard
    omega
  refine ⟨rfl, rfl, hnext, id, fun _ => id, fun name n b hb => ?_, fun name n b hb => ?_⟩
  · rw [bucket?_bind nsCfg.name ns rfl]
    split_ifs with hname
    · exact Or.inl (hgone n b (hname ▸ hb))
    · exact Or.inr hb
  · rw [bucket?_bind nsCfg.name ns rfl] at hb
    split_ifs at hb with hname
    · obtain ⟨hdynamic, hreapable, -⟩ := hbuilt.buckets_made n b hb
      exact Or.inr ⟨hdynamic, hreapable⟩
    · exact Or.inl hb

theorem destroyNamespace_undisturbed (fac : BucketFactory F B) (bc : BucketContainer F B)
    (ns : Namespace B) : Undisturbed bc (bc.destroyNamespace fac ns) := by
  obtain ⟨f, heq⟩ := destroyNamespace_eq fac bc ns
  rw [heq]
  exact ⟨rfl, rfl, le_rfl, id, fun id hid => Multiset.mem_add.mpr (Or.inr hid),
    fun _ _ _ => Or.inr, fun _ _ _ => Or.inl⟩

/-- What a namespace holds has been destroyed with it. -/
theorem destroyNamespace_gone {ns : Namespace B} (hget : bc.namespaces.get? name = some ns)
    {n : String} {b : Bucket B} (hb : (bc.destroyNamespace fac ns).bucket? name n = some b) :
    b.id ∈ (bc.destroyNamespace fac ns).destroyed := by
  rw [bucket?_congr (destroyNamespace_namespaces bc ns), bucket?_of_get? hget] at hb
  obtain ⟨f, heq⟩ := destroyNamespace_eq fac bc ns
  rw [heq]
  exact Multiset.mem_add.mpr (Or.inl (mem_ids_of_lookup hb))

theorem updateNamespace_undisturbed
    (hname : ∀ nsCfg, newConfig.namespaces.get name = some (some nsCfg) → nsCfg.name = name)
    (h : bc.updateNamespace fac newConfig name = some bc') : Undisturbed bc bc' := by
  cases updateNamespace_visited h with
  | absent => exact .refl bc
  | @swapped r ns nsCfg fetched =>
    have hsame : ∀ name' n', BucketContainer.bucket? { bc with
        namespaces := bc.namespaces.modify r (Namespace.swapCfg nsCfg) } name' n' =
          bc.bucket? name' n' := by
      intro name' n'
      rw [bucket?_modify fetched rfl]
      split_ifs with hname'
      · rw [hname', bucket?_of_get? (get?_of_fetch fetched)]
        rfl
      · rfl
    refine ⟨rfl, rfl, le_rfl, id, fun _ => id, fun name' n' b hb => ?_, fun name' n' b hb => ?_⟩
    · exact Or.inr ((hsame name' n').trans hb)
    · exact Or.inl ((hsame name' n').symm.trans hb)
  | @replaced r ns nsCfg _ fetched configured different created =>
    refine (destroyNamespace_undisturbed fac bc ns).trans
      (createNamespaceLocked_undisturbed (fun n b hb => ?_) created)
    rw [hname nsCfg configured] at hb
    exact destroyNamespace_gone (get?_of_fetch fetched) hb
  | @removed r ns fetched =>
    refine (destroyNamespace_undisturbed fac bc ns).trans
      ⟨rfl, rfl, le_rfl, id, fun _ => id, fun name' n' b hb => ?_, fun name' n' b hb => ?_⟩
    · rw [bucket?_unbind name rfl]
      split_ifs with hname'
      · subst hname'
        exact Or.inl (destroyNamespace_gone (get?_of_fetch fetched) hb)
      · exact Or.inr hb
    · rw [bucket?_unbind name rfl] at hb
      split_ifs at hb
      exact Or.inl hb

theorem addNamespace_undisturbed {e : String × Option NamespaceConfig}
    (hname : ∀ nsCfg, e.2 = some nsCfg → nsCfg.name = e.1)
    (h : bc.addNamespace fac e = some bc') : Undisturbed bc bc' := by
  unfold BucketContainer.addNamespace at h
  split_ifs at h with hfetch
  · cases h
    exact .refl bc
  · obtain ⟨nsCfg, hcfg, h⟩ := Option.bind_eq_some_iff.mp h
    refine createNamespaceLocked_undisturbed (fun n b hb => ?_) h
    rw [Option.not_isSome_iff_eq_none, fetch_eq_none] at hfetch
    rw [hname nsCfg hcfg, bucket?_of_absent hfetch] at hb
    cases hb

theorem updateGlobalDefaultBucket_undisturbed (fac : BucketFactory F B) (bc : BucketContainer F B)
    (newConfig : ServiceConfig) : Undisturbed bc (bc.updateGlobalDefaultBucket fac newConfig) := by
  obtain ⟨f, heq⟩ := destroyDefault_eq fac bc bc.defaultBucket
  have hmem : ∀ id ∈ bc.destroyed, id ∈ bucketId bc.defaultBucket + bc.destroyed :=
    fun id hid => Multiset.mem_add.mpr (Or.inr hid)
  unfold BucketContainer.updateGlobalDefaultBucket
  split_ifs
  · rw [heq]
    cases newConfig.globalDefaultBucket with
    | none => exact ⟨rfl, rfl, le_rfl, id, hmem, fun _ _ _ => Or.inr, fun _ _ _ => Or.inl⟩
    | some cfg =>
      exact ⟨rfl, rfl, Nat.le_succ _, id, hmem, fun _ _ _ => Or.inr, fun _ _ _ => Or.inl⟩
  · exact .refl bc

/-- The first config finds no namespaces, and a later one leaves what it keeps in place. -/
theorem updateBucketContainer_undisturbed {order : List String} {s s' : Server F B}
    (hnorm : Normalised newConfig)
    (hfresh : s.bucketContainer.cfg = none → ∀ name, s.bucketContainer.namespaces.get? name = none)
    (hupdate : updateBucketContainer fac order newConfig s = some s') :
    Undisturbed s.bucketContainer s'.bucketContainer ∧
      (s' = s ∨ s'.bucketContainer.cfg ≠ none) := by
  have hset : Undisturbed s.bucketContainer { s.bucketContainer with
      factory := fac.init s.bucketContainer.factory newConfig, cfg := some newConfig } :=
    ⟨rfl, rfl, le_rfl, fun _ => Option.some_ne_none _, fun _ => id, fun _ _ _ => Or.inr,
      fun _ _ _ => Or.inl⟩
  have hadd : ∀ (bc : BucketContainer F B) e bc', e ∈ newConfig.namespaces.range →
      bc.addNamespace fac e = some bc' → Undisturbed bc bc' := by
    intro bc e bc' he hadd
    refine addNamespace_undisturbed (fun nsCfg hcfg => ?_) hadd
    exact range_name hnorm (hcfg ▸ he)
  cases updateBucketContainer_followed hupdate with
  | ignored => exact ⟨.refl _, Or.inl rfl⟩
  | @initialised bc' newer cfg init =>
    have hglobal : Undisturbed { s.bucketContainer with
        factory := fac.init s.bucketContainer.factory newConfig, cfg := some newConfig }
        (BucketContainer.initGlobalDefaultBucket fac { s.bucketContainer with
          factory := fac.init s.bucketContainer.factory newConfig, cfg := some newConfig }
            newConfig.globalDefaultBucket) := by
      cases newConfig.globalDefaultBucket with
      | none => exact .refl _
      | some cfg =>
        exact ⟨rfl, rfl, Nat.le_succ _, id, fun _ => id, fun _ _ _ => Or.inr, fun _ _ _ => Or.inl⟩
    unfold BucketContainer.initLocked at init
    rw [nameNamespaces_normalised hnorm] at init
    dsimp only at init
    rw [initNamespaces_eq (stable_true fac) (GoMap.range_keys_nodup _)
      (fun _ _ => range_name hnorm) _ trivial fun e _ => ?_] at init
    · have hupdated := (hset.trans hglobal).trans (Undisturbed.foldlM hadd init)
      have hrest := hglobal.trans (Undisturbed.foldlM hadd init)
      exact ⟨hupdated, Or.inr (hrest.configured (Option.some_ne_none _))⟩
    · rw [initGlobalDefaultBucket_namespaces]
      exact hfresh cfg e.1
  | @updated c bc' newer cfg update =>
    obtain ⟨bc₁, h₁, h₂⟩ := Option.bind_eq_some_iff.mp update
    have hvisit : ∀ (bc : BucketContainer F B) name bc', name ∈ order →
        bc.updateNamespace fac newConfig name = some bc' → Undisturbed bc bc' := by
      intro bc name bc' _ hvisit
      refine updateNamespace_undisturbed (fun nsCfg hcfg => ?_) hvisit
      exact range_name hnorm (GoMap.mem_range_iff.mpr hcfg)
    have hrest := (updateGlobalDefaultBucket_undisturbed fac _ newConfig).trans
      ((Undisturbed.foldlM hvisit h₁).trans (Undisturbed.foldlM hadd h₂))
    exact ⟨hset.trans hrest, Or.inr (hrest.configured (Option.some_ne_none _))⟩

end Update

end QuotaService.Container
