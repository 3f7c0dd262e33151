import QuotaService.Container.Model
import Mathlib.Algebra.Order.Group.Multiset
import Mathlib.Tactic.Abel

/-! What each operation of the container does to it, in terms that the later modules can use
without unfolding it: which fields it leaves alone, how the namespaces it makes look, and which
buckets are created and destroyed. `φ` is any property of the factory that creating and destroying
buckets keeps; every bucket is made by a factory that has it. -/
namespace QuotaService.Container
open Config

variable {F B : Type} {fac : BucketFactory F B} {φ : F → Prop}

/-- Creating and destroying buckets keeps `φ`. -/
structure Stable (fac : BucketFactory F B) (φ : F → Prop) : Prop where
  newBucket : ∀ f ns n cfg dyn, φ f → φ (fac.newBucket f ns n cfg dyn).1
  destroy : ∀ f b, φ f → φ (fac.destroy f b)

theorem stable_true (fac : BucketFactory F B) : Stable fac fun _ => True :=
  ⟨fun _ _ _ _ _ _ => trivial, fun _ _ _ => trivial⟩

/-- The bucket was made for this name by a factory with `φ`. -/
def Made (fac : BucketFactory F B) (φ : F → Prop) (ns n : String) (b : Bucket B) : Prop :=
  ∃ f, φ f ∧ b.impl = (fac.newBucket f ns n b.cfg b.dynamic).2

def bucketId (o : Option (Bucket B)) : Multiset ℕ := (o.map fun b => {b.id}).getD 0

/-- The numbers of the buckets that a namespace holds. -/
def Namespace.ids (ns : Namespace B) : Multiset ℕ :=
  bucketId ns.defaultBucket + ns.buckets.total fun _ b => {b.id}

/-- A namespace object as it is made from its config: the default bucket and the static buckets
that are configured, and nothing else. -/
structure Built (fac : BucketFactory F B) (φ : F → Prop) (nsCfg : NamespaceConfig)
    (ns : Namespace B) : Prop where
  name : ns.name = nsCfg.name
  cfg : ns.cfg = nsCfg
  count : ns.dynamicBucketCount = 0
  default : ns.defaultBucket.map Bucket.cfg = nsCfg.defaultBucket
  default_made : ∀ b ∈ ns.defaultBucket, b.dynamic = false ∧ b.reapable = false ∧
    Made fac φ nsCfg.name defaultBucketName b
  buckets : ∀ n, (ns.buckets.lookup n).map (fun b => some b.cfg) = nsCfg.buckets.get n
  buckets_made : ∀ n b, ns.buckets.lookup n = some b →
    b.dynamic = false ∧ b.reapable = false ∧ Made fac φ nsCfg.name n b

section Creation
variable {bc bc' : BucketContainer F B} {nsCfg : NamespaceConfig}

theorem createNewNamedBucketFromCfg_static (bc : BucketContainer F B) (ns n : String)
    (nsp : Namespace B) (bCfg : BucketConfig) :
    bc.createNewNamedBucketFromCfg fac ns n nsp bCfg false =
      ((bc.newBucket fac ns n bCfg false false).1,
        { nsp with buckets := nsp.buckets.insert n (bc.newBucket fac ns n bCfg false false).2 },
        (bc.newBucket fac ns n bCfg false false).2) := rfl

/-- The loop over the configured buckets. -/
theorem createStaticBuckets_spec (hφ : Stable fac φ) (nsName : String)
    {entries : List (String × Option BucketConfig)} (hnodup : (entries.map Prod.fst).Nodup)
    {bc : BucketContainer F B} {nsp : Namespace B}
    (hfresh : ∀ e ∈ entries, nsp.buckets.lookup e.1 = none) (hf : φ bc.factory)
    {r : BucketContainer F B × Namespace B}
    (h : entries.foldlM (BucketContainer.createStaticBucket fac nsName) (bc, nsp) = some r) :
    ∃ f m buckets, r = ({ bc with factory := f, nextBucket := m },
        { nsp with buckets := buckets }) ∧ φ f ∧
      (∀ n, n ∉ entries.map Prod.fst → buckets.lookup n = nsp.buckets.lookup n) ∧
      (∀ e ∈ entries, ∃ b, buckets.lookup e.1 = some b ∧ e.2 = some b.cfg ∧
        b.dynamic = false ∧ b.reapable = false ∧ Made fac φ nsName e.1 b) ∧
      (buckets.total fun _ b => {b.id}) + Multiset.range bc.nextBucket =
        (nsp.buckets.total fun _ b => {b.id}) + Multiset.range m := by
  induction entries generalizing bc nsp with
  | nil =>
    cases h
    exact ⟨bc.factory, bc.nextBucket, nsp.buckets, rfl, hf, fun _ _ => rfl, by simp, rfl⟩
  | cons e entries ih =>
    obtain ⟨hne, hnodup⟩ := List.nodup_cons.mp hnodup
    rw [List.foldlM_cons] at h
    obtain ⟨s, hs, h⟩ := Option.bind_eq_some_iff.mp h
    obtain ⟨bCfg, hcfg, rfl⟩ := Option.map_eq_some_iff.mp hs
    rw [createNewNamedBucketFromCfg_static] at h
    have hfresh' : ∀ e' ∈ entries, (nsp.buckets.insert e.1
        (bc.newBucket fac nsName e.1 bCfg false false).2).lookup e'.1 = none := by
      intro e' he'
      have hne' : e'.1 ≠ e.1 := fun heq => hne (heq ▸ List.mem_map_of_mem he')
      rw [AList.lookup_insert_ne hne']
      exact hfresh e' (List.mem_cons_of_mem _ he')
    obtain ⟨f, m, buckets, hr, hf', hother, hmade, htotal⟩ :=
      ih hnodup hfresh' (hφ.newBucket _ nsName e.1 bCfg false hf) h
    refine ⟨f, m, buckets, hr, hf', ?_, ?_, ?_⟩
    · intro n hn
      rw [List.map_cons, List.mem_cons, not_or] at hn
      rw [hother n hn.2, AList.lookup_insert_ne hn.1]
    · intro e' he'
      rcases List.mem_cons.mp he' with rfl | he'
      · refine ⟨_, (hother e'.1 hne).trans (AList.lookup_insert _), hcfg, rfl, rfl, ?_⟩
        exact ⟨bc.factory, hf, rfl⟩
      · exact hmade e' he'
    · rw [AList.total_insert_of_none _ _ (hfresh e (List.mem_cons_self ..))] at htotal
      have hnext : (bc.newBucket fac nsName e.1 bCfg false false).1.nextBucket =
        bc.nextBucket + 1 := rfl
      have hid : (bc.newBucket fac nsName e.1 bCfg false false).2.id = bc.nextBucket := rfl
      rw [hnext, hid, Multiset.range_succ, Multiset.add_cons, add_assoc,
        Multiset.singleton_add, Multiset.cons_inj_right] at htotal
      exact htotal

theorem newNamespace_spec (hφ : Stable fac φ) (hf : φ bc.factory) (nsCfg : NamespaceConfig) :
    ∃ f m d, bc.newNamespace fac nsCfg = ({ bc with factory := f, nextBucket := m },
        ⟨nsCfg.name, nsCfg, ∅, 0, d⟩) ∧ φ f ∧
      d.map Bucket.cfg = nsCfg.defaultBucket ∧
      (∀ b ∈ d, b.dynamic = false ∧ b.reapable = false ∧
        Made fac φ nsCfg.name defaultBucketName b) ∧
      bucketId d + Multiset.range bc.nextBucket = Multiset.range m := by
  unfold BucketContainer.newNamespace
  cases hdef : nsCfg.defaultBucket with
  | none => exact ⟨bc.factory, bc.nextBucket, none, rfl, hf, rfl, by simp, by simp [bucketId]⟩
  | some cfg =>
    refine ⟨_, _, _, rfl, hφ.newBucket _ nsCfg.name defaultBucketName cfg false hf, rfl, ?_, ?_⟩
    · intro b hb
      cases hb
      exact ⟨rfl, rfl, bc.factory, hf, rfl⟩
    · simp [bucketId, BucketContainer.newBucket, Multiset.range_succ]

/-- What `createNamespaceLocked` binds under the name in the config. -/
theorem createNamespaceLocked_spec (hφ : Stable fac φ) (hf : φ bc.factory)
    (h : bc.createNamespaceLocked fac nsCfg = some bc') :
    ∃ f m ns, bc' = { bc with
        factory := f, nextBucket := m, namespaces := bc.namespaces.bind nsCfg.name ns } ∧
      φ f ∧ Built fac φ nsCfg ns ∧
      ns.ids + Multiset.range bc.nextBucket = Multiset.range m := by
  obtain ⟨s, hs, rfl⟩ := Option.map_eq_some_iff.mp h
  obtain ⟨f₀, m₀, d, hnew, hf₀, hd, hdmade, hids⟩ := newNamespace_spec hφ hf nsCfg
  rw [hnew] at hs
  obtain ⟨f, m, buckets, rfl, hf', hother, hmade, htotal⟩ :=
    createStaticBuckets_spec hφ nsCfg.name (GoMap.range_keys_nodup nsCfg.buckets)
      (fun e _ => AList.lookup_empty e.1) hf₀ hs
  refine ⟨f, m, _, rfl, hf', ⟨rfl, rfl, rfl, hd, hdmade, ?_, ?_⟩, ?_⟩
  · intro n
    cases hn : nsCfg.buckets.get n with
    | none =>
      have hnot : n ∉ nsCfg.buckets.range.map Prod.fst := by
        intro hmem
        obtain ⟨⟨n', b⟩, he, rfl⟩ := List.mem_map.mp hmem
        rw [GoMap.mem_range_iff, hn] at he
        cases he
      have hlookup : buckets.lookup n = none := (hother n hnot).trans (AList.lookup_empty n)
      simp [hlookup]
    | some b₀ =>
      obtain ⟨b, hb, hcfg, -⟩ := hmade (n, b₀) (GoMap.mem_range_iff.mpr hn)
      simpa [hb] using hcfg.symm
  · intro n b hb
    have hmem : n ∈ nsCfg.buckets.range.map Prod.fst := by
      by_contra hnot
      rw [hother n hnot, AList.lookup_empty] at hb
      cases hb
    obtain ⟨e, he, rfl⟩ := List.mem_map.mp hmem
    obtain ⟨b', hb', -, hstatic⟩ := hmade e he
    cases hb.symm.trans hb'
    exact hstatic
  · simp only [AList.total_empty, zero_add] at htotal
    rw [Namespace.ids, add_right_comm, hids, add_comm]
    exact htotal

theorem createStaticBuckets_total (fac : BucketFactory F B) (nsName : String)
    {entries : List (String × Option BucketConfig)}
    (hset : ∀ e ∈ entries, e.2 ≠ none) (s : BucketContainer F B × Namespace B) :
    ∃ r, entries.foldlM (BucketContainer.createStaticBucket fac nsName) s = some r := by
  induction entries generalizing s with
  | nil => exact ⟨s, rfl⟩
  | cons e entries ih =>
    obtain ⟨bCfg, hcfg⟩ := Option.ne_none_iff_exists'.mp (hset e (List.mem_cons_self ..))
    rw [List.foldlM_cons, BucketContainer.createStaticBucket, hcfg]
    exact ih (fun e' he' => hset e' (List.mem_cons_of_mem _ he')) _

theorem createNamespaceLocked_total (fac : BucketFactory F B) (bc : BucketContainer F B)
    (hset : ∀ n b, nsCfg.buckets.get n = some b → b ≠ none) :
    ∃ bc', bc.createNamespaceLocked fac nsCfg = some bc' := by
  obtain ⟨r, hr⟩ := createStaticBuckets_total fac nsCfg.name
    (fun e he => hset e.1 e.2 (GoMap.mem_range_iff.mp he)) (bc.newNamespace fac nsCfg)
  exact ⟨_, by rw [BucketContainer.createNamespaceLocked, hr]; rfl⟩

end Creation

section Destruction

theorem destroyBuckets_spec (hφ : Stable fac φ) (entries : List (Sigma fun _ : String => Bucket B))
    (bc : BucketContainer F B) (hf : φ bc.factory) :
    ∃ f, entries.foldl (fun bc e => bc.destroyBucket fac e.2) bc = { bc with
        factory := f
        destroyed := (entries.map fun e => ({e.2.id} : Multiset ℕ)).sum + bc.destroyed } ∧ φ f := by
  induction entries generalizing bc with
  | nil => exact ⟨bc.factory, by simp, hf⟩
  | cons e entries ih =>
    obtain ⟨f, heq, hf'⟩ := ih (bc.destroyBucket fac e.2) (hφ.destroy _ _ hf)
    refine ⟨f, ?_, hf'⟩
    rw [List.foldl_cons, heq]
    simp [BucketContainer.destroyBucket]

theorem destroyDefault_spec (hφ : Stable fac φ) {bc : BucketContainer F B} (hf : φ bc.factory)
    (o : Option (Bucket B)) :
    ∃ f, bc.destroyDefault fac o = { bc with
        factory := f, destroyed := bucketId o + bc.destroyed } ∧ φ f := by
  cases o with
  | none => exact ⟨bc.factory, by simp [BucketContainer.destroyDefault, bucketId], hf⟩
  | some b => exact ⟨_, rfl, hφ.destroy _ b.impl hf⟩

theorem destroyDefault_eq (fac : BucketFactory F B) (bc : BucketContainer F B)
    (o : Option (Bucket B)) :
    ∃ f, bc.destroyDefault fac o = { bc with
      factory := f, destroyed := bucketId o + bc.destroyed } := by
  obtain ⟨f, heq, -⟩ := destroyDefault_spec (stable_true fac) trivial o
  exact ⟨f, heq⟩

/-- Destroying a namespace destroys what it holds, each bucket once. -/
theorem destroyNamespace_spec (hφ : Stable fac φ) {bc : BucketContainer F B} (hf : φ bc.factory)
    (ns : Namespace B) :
    ∃ f, bc.destroyNamespace fac ns = { bc with
        factory := f, destroyed := ns.ids + bc.destroyed } ∧ φ f := by
  obtain ⟨f₀, heq₀, hf₀⟩ := destroyDefault_spec hφ hf ns.defaultBucket
  obtain ⟨f, heq, hf'⟩ := destroyBuckets_spec hφ ns.buckets.entries
    (bc.destroyDefault fac ns.defaultBucket) (by rw [heq₀]; exact hf₀)
  refine ⟨f, ?_, hf'⟩
  rw [BucketContainer.destroyNamespace, heq, heq₀]
  simp [Namespace.ids, AList.total, add_left_comm, add_assoc]

theorem destroyNamespace_eq (fac : BucketFactory F B) (bc : BucketContainer F B)
    (ns : Namespace B) :
    ∃ f, bc.destroyNamespace fac ns = { bc with
      factory := f, destroyed := ns.ids + bc.destroyed } := by
  obtain ⟨f, heq, -⟩ := destroyNamespace_spec (stable_true fac) trivial ns
  exact ⟨f, heq⟩

end Destruction

/-- The numbers of the buckets that can be reached through the container. -/
def BucketContainer.live (bc : BucketContainer F B) : Multiset ℕ :=
  bucketId bc.defaultBucket + bc.namespaces.total Namespace.ids

/-- Every bucket created so far is either held in one place and not destroyed, or destroyed once
and no longer held. -/
def BucketContainer.Balanced (bc : BucketContainer F B) : Prop :=
  bc.live + bc.destroyed = Multiset.range bc.nextBucket

/-- What becomes of the object under a name: the old one, the new config of the name, and the
object there is afterwards. -/
inductive Settled (fac : BucketFactory F B) (φ : F → Prop) :
    Option (Namespace B) → Option (Option NamespaceConfig) → Option (Namespace B) → Prop
  | absent (cfg : Option (Option NamespaceConfig)) : Settled fac φ none cfg none
  | created {nsCfg : NamespaceConfig} {ns' : Namespace B} (built : Built fac φ nsCfg ns') :
    Settled fac φ none (some (some nsCfg)) (some ns')
  | removed (ns : Namespace B) : Settled fac φ (some ns) none none
  | kept {ns : Namespace B} {nsCfg : NamespaceConfig} (same : SameNamespace ns.cfg nsCfg) :
    Settled fac φ (some ns) (some (some nsCfg)) (some (ns.swapCfg nsCfg))
  | replaced {ns ns' : Namespace B} {nsCfg : NamespaceConfig}
    (different : ¬ SameNamespace ns.cfg nsCfg) (built : Built fac φ nsCfg ns') :
    Settled fac φ (some ns) (some (some nsCfg)) (some ns')

/-- A step that leaves everything but the namespaces and the ledger alone. -/
structure NamespacesOnly (φ : F → Prop) (bc bc' : BucketContainer F B) : Prop where
  factory : φ bc'.factory
  cfg : bc'.cfg = bc.cfg
  defaultBucket : bc'.defaultBucket = bc.defaultBucket
  activities : bc'.activities = bc.activities
  newWatchers : bc'.newWatchers = bc.newWatchers
  balanced : bc.Balanced → bc'.Balanced

theorem NamespacesOnly.refl {bc : BucketContainer F B} (hf : φ bc.factory) :
    NamespacesOnly φ bc bc := ⟨hf, rfl, rfl, rfl, rfl, id⟩

theorem NamespacesOnly.trans {bc bc' bc'' : BucketContainer F B} (h : NamespacesOnly φ bc bc')
    (h' : NamespacesOnly φ bc' bc'') : NamespacesOnly φ bc bc'' :=
  ⟨h'.factory, h'.cfg.trans h.cfg, h'.defaultBucket.trans h.defaultBucket,
    h'.activities.trans h.activities, h'.newWatchers.trans h.newWatchers,
    fun hb => h'.balanced (h.balanced hb)⟩

/-- A second visit of a name by the same update changes nothing more. -/
theorem Settled.trans {o o' o'' : Option (Namespace B)} {cfg : Option (Option NamespaceConfig)}
    (h : Settled fac φ o cfg o') (h' : Settled fac φ o' cfg o'') : Settled fac φ o cfg o'' := by
  have hagain : ∀ {ns : Namespace B} {nsCfg : NamespaceConfig} {o : Option (Namespace B)},
      ns.cfg = nsCfg → Settled fac φ (some ns) (some (some nsCfg)) o → o = some ns := by
    intro ns nsCfg o hcfg hs
    cases hs with
    | kept same => rw [Namespace.swapCfg, ← hcfg]
    | replaced different built => exact absurd (hcfg ▸ SameNamespace.refl _) different
  cases h with
  | absent => exact h'
  | created built =>
    rw [hagain built.cfg h']
    exact .created built
  | removed ns =>
    cases h'
    exact .removed ns
  | kept same =>
    rw [hagain rfl h']
    exact .kept same
  | replaced different built =>
    rw [hagain built.cfg h']
    exact .replaced different built

section Update
variable {bc bc' : BucketContainer F B} {newConfig : ServiceConfig} {name : String}

theorem fetch_eq_some {r : ℕ} {ns : Namespace B} :
    bc.fetch name = some (r, ns) ↔
      bc.namespaces.ref? name = some r ∧ bc.namespaces.deref r = some ns := by
  unfold BucketContainer.fetch
  simp only [Option.bind_eq_some_iff, Option.map_eq_some_iff, Prod.mk.injEq]
  constructor
  · rintro ⟨r', hr', ns', hns', rfl, rfl⟩
    exact ⟨hr', hns'⟩
  · exact fun h => ⟨r, h.1, ns, h.2, rfl, rfl⟩

theorem fetch_eq_none : bc.fetch name = none ↔ bc.namespaces.get? name = none := by
  rw [Directory.get?_eq_none]
  unfold BucketContainer.fetch
  cases hr : bc.namespaces.ref? name with
  | none => simp
  | some r =>
    obtain ⟨ns, hns⟩ := Directory.exists_deref hr
    simp [hns]

theorem get?_of_fetch {r : ℕ} {ns : Namespace B} (h : bc.fetch name = some (r, ns)) :
    bc.namespaces.get? name = some ns :=
  Directory.get?_eq_some.mpr ⟨r, fetch_eq_some.mp h⟩

theorem exists_fetch {ns : Namespace B} (h : bc.namespaces.get? name = some ns) :
    ∃ r, bc.fetch name = some (r, ns) := by
  obtain ⟨r, hr⟩ := Directory.get?_eq_some.mp h
  exact ⟨r, fetch_eq_some.mpr hr⟩

theorem get?_modify_fetch_self {r : ℕ} {ns : Namespace B} {f : Namespace B → Namespace B}
    (h : bc.fetch name = some (r, ns)) : (bc.namespaces.modify r f).get? name = some (f ns) := by
  rw [Directory.get?_modify_self (fetch_eq_some.mp h).1, get?_of_fetch h]
  rfl

theorem get?_modify_fetch_ne {r : ℕ} {ns : Namespace B} {f : Namespace B → Namespace B}
    (h : bc.fetch name = some (r, ns)) {k : String} (hk : k ≠ name) :
    (bc.namespaces.modify r f).get? k = bc.namespaces.get? k :=
  Directory.get?_modify_ne (Directory.ref?_ne_of_ne (fetch_eq_some.mp h).1 hk)

@[simp] theorem total_swapCfg (d : Directory String (Namespace B)) (r : ℕ) (nsCfg : NamespaceConfig) :
    (d.modify r (Namespace.swapCfg nsCfg)).total Namespace.ids = d.total Namespace.ids :=
  Directory.total_modify_congr fun _ => rfl

/-- Moving the buckets of a namespace from the held ones to the destroyed ones. -/
theorem balanced_drop {ns : Namespace B} (hget : bc.namespaces.get? name = some ns)
    (hb : bc.Balanced) :
    bucketId bc.defaultBucket + (bc.namespaces.unbind name).total Namespace.ids +
      (ns.ids + bc.destroyed) = Multiset.range bc.nextBucket := by
  unfold BucketContainer.Balanced BucketContainer.live at hb
  rw [Directory.total_unbind hget] at hb
  rw [← hb]
  abel

/-- Binding a new namespace where there was none, or where the old one has been destroyed. -/
theorem createNamespaceLocked_namespacesOnly (hφ : Stable fac φ) (hf : φ bc.factory)
    {nsCfg : NamespaceConfig} (h : bc.createNamespaceLocked fac nsCfg = some bc') :
    ∃ ns', Built fac φ nsCfg ns' ∧ bc'.namespaces = bc.namespaces.bind nsCfg.name ns' ∧
      φ bc'.factory ∧ bc'.cfg = bc.cfg ∧ bc'.defaultBucket = bc.defaultBucket ∧
      bc'.activities = bc.activities ∧ bc'.newWatchers = bc.newWatchers ∧
      (bucketId bc.defaultBucket + (bc.namespaces.unbind nsCfg.name).total Namespace.ids +
        bc.destroyed = Multiset.range bc.nextBucket → bc'.Balanced) := by
  obtain ⟨f, m, ns', rfl, hf', hbuilt, hids⟩ := createNamespaceLocked_spec hφ hf h
  refine ⟨ns', hbuilt, rfl, hf', rfl, rfl, rfl, rfl, fun hb => ?_⟩
  unfold BucketContainer.Balanced BucketContainer.live
  simp only [Directory.total_bind]
  rw [← hids, ← hb, add_left_comm, add_assoc, add_assoc]

/-- What a visit of the loop over the container's namespaces does. -/
inductive Visited (fac : BucketFactory F B) (newConfig : ServiceConfig) (name : String)
    (bc : BucketContainer F B) : BucketContainer F B → Prop
  | absent (fetched : bc.fetch name = none) : Visited fac newConfig name bc bc
  | swapped {r : ℕ} {ns : Namespace B} {nsCfg : NamespaceConfig}
    (fetched : bc.fetch name = some (r, ns))
    (configured : newConfig.namespaces.get name = some (some nsCfg))
    (same : SameNamespace ns.cfg nsCfg) :
    Visited fac newConfig name bc
      { bc with namespaces := bc.namespaces.modify r (Namespace.swapCfg nsCfg) }
  | replaced {r : ℕ} {ns : Namespace B} {nsCfg : NamespaceConfig} {bc' : BucketContainer F B}
    (fetched : bc.fetch name = some (r, ns))
    (configured : newConfig.namespaces.get name = some (some nsCfg))
    (different : ¬ SameNamespace ns.cfg nsCfg)
    (created : (bc.destroyNamespace fac ns).createNamespaceLocked fac nsCfg = some bc') :
    Visited fac newConfig name bc bc'
  | removed {r : ℕ} {ns : Namespace B} (fetched : bc.fetch name = some (r, ns))
    (gone : newConfig.namespaces.get name = none) :
    Visited fac newConfig name bc { bc.destroyNamespace fac ns with
      namespaces := (bc.destroyNamespace fac ns).namespaces.unbind name }

theorem updateNamespace_visited (h : bc.updateNamespace fac newConfig name = some bc') :
    Visited fac newConfig name bc bc' := by
  unfold BucketContainer.updateNamespace at h
  cases hfetch : bc.fetch name with
  | none =>
    simp only [hfetch, Option.some.injEq] at h
    exact h ▸ .absent hfetch
  | some p =>
    obtain ⟨r, ns⟩ := p
    simp only [hfetch] at h
    cases hcfg : newConfig.namespaces.get name with
    | none =>
      simp only [hcfg, Option.some.injEq] at h
      exact h ▸ .removed hfetch hcfg
    | some c =>
      cases c with
      | none => simp [hcfg] at h
      | some nsCfg =>
        simp only [hcfg] at h
        split_ifs at h with hdiff
        · refine .replaced hfetch hcfg (fun hsame => ?_) h
          rw [differentNamespaceConfigs_eq_false.mpr hsame] at hdiff
          cases hdiff
        · cases h
          exact .swapped hfetch hcfg (differentNamespaceConfigs_eq_false.mp (by simpa using hdiff))

/-- One visit of the loop over the container's namespaces, a replaced one keeping its name. -/
theorem updateNamespace_spec (hφ : Stable fac φ) (hf : φ bc.factory)
    (hname : ∀ ns nsCfg, bc.namespaces.get? name = some ns →
      newConfig.namespaces.get name = some (some nsCfg) → ¬ SameNamespace ns.cfg nsCfg →
      nsCfg.name = name)
    (h : bc.updateNamespace fac newConfig name = some bc') :
    NamespacesOnly φ bc bc' ∧
      (∀ k, k ≠ name → bc'.namespaces.get? k = bc.namespaces.get? k) ∧
      Settled fac φ (bc.namespaces.get? name) (newConfig.namespaces.get name)
        (bc'.namespaces.get? name) := by
  cases updateNamespace_visited h with
  | absent fetched =>
    rw [fetch_eq_none.mp fetched]
    exact ⟨.refl hf, fun _ _ => rfl, .absent _⟩
  | @swapped r ns nsCfg fetched configured same =>
    have hget := get?_of_fetch fetched
    refine ⟨⟨hf, rfl, rfl, rfl, rfl, fun hb => ?_⟩, fun k hk => ?_, ?_⟩
    · unfold BucketContainer.Balanced BucketContainer.live at hb ⊢
      simp only [total_swapCfg]
      exact hb
    · exact get?_modify_fetch_ne fetched hk
    · rw [get?_modify_fetch_self fetched, hget, configured]
      exact .kept same
  | @replaced r ns nsCfg _ fetched configured different created =>
    have hget := get?_of_fetch fetched
    obtain ⟨f, hdestroy, hf'⟩ := destroyNamespace_spec hφ hf ns
    have hkey : nsCfg.name = name := hname ns nsCfg hget configured different
    rw [hdestroy] at created
    obtain ⟨ns', hbuilt, hnamespaces, hf'', h1, h2, h3, h4, hbalanced⟩ :=
      createNamespaceLocked_namespacesOnly hφ hf' created
    rw [hkey] at hnamespaces hbalanced
    refine ⟨⟨hf'', h1, h2, h3, h4, fun hb => hbalanced (balanced_drop hget hb)⟩,
      fun k hk => ?_, ?_⟩
    · rw [hnamespaces, Directory.get?_bind_ne hk]
    · rw [hget, hnamespaces, Directory.get?_bind_self, configured]
      exact .replaced different hbuilt
  | @removed r ns fetched gone =>
    have hget := get?_of_fetch fetched
    obtain ⟨f, hdestroy, hf'⟩ := destroyNamespace_spec hφ hf ns
    rw [hdestroy]
    refine ⟨⟨hf', rfl, rfl, rfl, rfl, fun hb => ?_⟩, fun k hk => Directory.get?_unbind_ne hk, ?_⟩
    · exact balanced_drop hget hb
    · rw [hget, Directory.get?_unbind_self, gone]
      exact .removed ns

/-- The loop over the container's namespaces, in whatever order. -/
theorem updateNamespaces_spec (hφ : Stable fac φ)
    (hname : ∀ name nsCfg, newConfig.namespaces.get name = some (some nsCfg) → nsCfg.name = name)
    {order : List String} {bc bc' : BucketContainer F B} (hf : φ bc.factory)
    (h : order.foldlM (BucketContainer.updateNamespace fac newConfig) bc = some bc') :
    NamespacesOnly φ bc bc' ∧
      (∀ k, k ∉ order → bc'.namespaces.get? k = bc.namespaces.get? k) ∧
      ∀ k, k ∈ order → Settled fac φ (bc.namespaces.get? k) (newConfig.namespaces.get k)
        (bc'.namespaces.get? k) := by
  induction order generalizing bc with
  | nil =>
    cases h
    exact ⟨.refl hf, fun _ _ => rfl, by simp⟩
  | cons name order ih =>
    rw [List.foldlM_cons] at h
    obtain ⟨bc₁, h₁, h⟩ := Option.bind_eq_some_iff.mp h
    obtain ⟨honly₁, hother₁, hsettled₁⟩ :=
      updateNamespace_spec hφ hf (fun _ nsCfg _ hcfg _ => hname name nsCfg hcfg) h₁
    obtain ⟨honly, hother, hsettled⟩ := ih honly₁.factory h
    refine ⟨honly₁.trans honly, fun k hk => ?_, fun k hk => ?_⟩
    · rw [List.mem_cons, not_or] at hk
      rw [hother k hk.2, hother₁ k hk.1]
    · by_cases hname : k = name
      · subst hname
        by_cases hmem : k ∈ order
        · exact hsettled₁.trans (hsettled k hmem)
        · rwa [hother k hmem]
      · have hmem : k ∈ order := (List.mem_cons.mp hk).resolve_left hname
        rw [← hother₁ k hname]
        exact hsettled k hmem

/-- One visit of the loop over the namespaces of the new config. -/
theorem addNamespace_spec (hφ : Stable fac φ) (hf : φ bc.factory) {nsCfg : NamespaceConfig}
    (hname : nsCfg.name = name) (h : bc.addNamespace fac (name, some nsCfg) = some bc') :
    NamespacesOnly φ bc bc' ∧
      (∀ k, k ≠ name → bc'.namespaces.get? k = bc.namespaces.get? k) ∧
      (∀ ns, bc.namespaces.get? name = some ns → bc'.namespaces.get? name = some ns) ∧
      (bc.namespaces.get? name = none →
        ∃ ns', Built fac φ nsCfg ns' ∧ bc'.namespaces.get? name = some ns') := by
  unfold BucketContainer.addNamespace at h
  cases hfetch : bc.fetch name with
  | some p =>
    simp only [hfetch, Option.isSome_some, if_true, Option.some.injEq] at h
    subst h
    have hget := get?_of_fetch hfetch
    exact ⟨.refl hf, fun _ _ => rfl, fun _ => id, fun hnone => by simp [hget] at hnone⟩
  | none =>
    have hget := fetch_eq_none.mp hfetch
    simp only [hfetch, Option.isSome_none, Bool.false_eq_true, if_false, Option.bind_some] at h
    obtain ⟨ns', hbuilt, hnamespaces, hf', h1, h2, h3, h4, hbalanced⟩ :=
      createNamespaceLocked_namespacesOnly hφ hf h
    rw [hname] at hnamespaces hbalanced
    refine ⟨⟨hf', h1, h2, h3, h4, fun hb => hbalanced ?_⟩, fun k hk => ?_, ?_, fun _ => ?_⟩
    · rwa [Directory.unbind_of_none hget]
    · rw [hnamespaces, Directory.get?_bind_ne hk]
    · intro ns hns
      simp [hget] at hns
    · exact ⟨ns', hbuilt, by rw [hnamespaces, Directory.get?_bind_self]⟩

/-- The loop over the namespaces of the new config. -/
theorem addNamespaces_spec (hφ : Stable fac φ) {entries : List (String × Option NamespaceConfig)}
    (hnodup : (entries.map Prod.fst).Nodup)
    (hname : ∀ name nsCfg, (name, some nsCfg) ∈ entries → nsCfg.name = name)
    {bc bc' : BucketContainer F B} (hf : φ bc.factory)
    (h : entries.foldlM (BucketContainer.addNamespace fac) bc = some bc') :
    NamespacesOnly φ bc bc' ∧
      (∀ k, k ∉ entries.map Prod.fst → bc'.namespaces.get? k = bc.namespaces.get? k) ∧
      ∀ k c, (k, c) ∈ entries →
        (∀ ns, bc.namespaces.get? k = some ns → bc'.namespaces.get? k = some ns) ∧
        (bc.namespaces.get? k = none → ∃ nsCfg ns', c = some nsCfg ∧ Built fac φ nsCfg ns' ∧
          bc'.namespaces.get? k = some ns') := by
  induction entries generalizing bc with
  | nil =>
    cases h
    exact ⟨.refl hf, fun _ _ => rfl, by simp⟩
  | cons e entries ih =>
    obtain ⟨name, c⟩ := e
    obtain ⟨hne, hnodup⟩ := List.nodup_cons.mp hnodup
    rw [List.foldlM_cons] at h
    obtain ⟨bc₁, h₁, h⟩ := Option.bind_eq_some_iff.mp h
    have hfirst : NamespacesOnly φ bc bc₁ ∧
        (∀ k, k ≠ name → bc₁.namespaces.get? k = bc.namespaces.get? k) ∧
        (∀ ns, bc.namespaces.get? name = some ns → bc₁.namespaces.get? name = some ns) ∧
        (bc.namespaces.get? name = none → ∃ nsCfg ns', c = some nsCfg ∧ Built fac φ nsCfg ns' ∧
          bc₁.namespaces.get? name = some ns') := by
      cases c with
      | some nsCfg =>
        obtain ⟨ho, hk, hs, hn⟩ := addNamespace_spec hφ hf (hname name nsCfg (by simp)) h₁
        exact ⟨ho, hk, hs, fun hnone => (hn hnone).elim fun ns' h => ⟨nsCfg, ns', rfl, h⟩⟩
      | none =>
        unfold BucketContainer.addNamespace at h₁
        split_ifs at h₁ with hsome
        · cases h₁
          obtain ⟨p, hp⟩ := Option.isSome_iff_exists.mp hsome
          exact ⟨.refl hf, fun _ _ => rfl, fun _ => id,
            fun hnone => by simp [get?_of_fetch hp] at hnone⟩
        · cases h₁
    obtain ⟨honly₁, hother₁, hsome₁, hnone₁⟩ := hfirst
    obtain ⟨honly, hother, hadded⟩ := ih hnodup
      (fun k nsCfg hmem => hname k nsCfg (List.mem_cons_of_mem _ hmem)) honly₁.factory h
    refine ⟨honly₁.trans honly, fun k hk => ?_, fun k c' hmem => ?_⟩
    · rw [List.map_cons, List.mem_cons, not_or] at hk
      rw [hother k hk.2, hother₁ k hk.1]
    · rcases List.mem_cons.mp hmem with heq | hrest
      · cases heq
        rw [hother name hne]
        exact ⟨hsome₁, hnone₁⟩
      · have hk : k ≠ name := by
          rintro rfl
          exact hne (List.mem_map.mpr ⟨(k, c'), hrest, rfl⟩)
        rw [← hother₁ k hk]
        exact hadded k c' hrest

end Update

end QuotaService.Container
