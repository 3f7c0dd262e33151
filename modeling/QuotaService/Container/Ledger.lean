import QuotaService.Lib.Machine
import QuotaService.Container.Objects
import Mathlib.Data.Multiset.OrderedMonoid

/-! Which buckets have been destroyed, for configs of any shape. As long as every namespace that an
update replaces gets a config with its own name, what names refer to is intact. -/
namespace QuotaService.Container
open Config

variable {F B : Type} {fac : BucketFactory F B}

/-- The numbers of the buckets that the global default and the namespace objects hold, those
included that no name refers to any more. -/
def BucketContainer.held (bc : BucketContainer F B) : Multiset ℕ :=
  bucketId bc.defaultBucket + bc.namespaces.heap Namespace.ids

/-- No bucket is in two places, and those that names refer to are not destroyed. -/
structure Sound (bc : BucketContainer F B) : Prop where
  distinct : bc.held ≤ Multiset.range bc.nextBucket
  destroyed_lt : ∀ id ∈ bc.destroyed, id < bc.nextBucket
  namespaces : ∀ name ns, bc.namespaces.get? name = some ns → ∀ id ∈ ns.ids, id ∉ bc.destroyed
  default : ∀ id ∈ bucketId bc.defaultBucket, id ∉ bc.destroyed

/-- Every namespace that the config replaces gets a config with its own name. -/
def Keyed (newConfig : ServiceConfig) (bc : BucketContainer F B) : Prop :=
  ∀ name ∈ bc.namespaces.keys, ∀ ns ∈ bc.namespaces.get? name,
    ∀ c ∈ (newConfig.namespaces.get name).join,
      differentNamespaceConfigs ns.cfg c = true → c.name = name

instance (newConfig : ServiceConfig) (bc : BucketContainer F B) : Decidable (Keyed newConfig bc) :=
  inferInstanceAs (Decidable (∀ name ∈ bc.namespaces.keys, _))

/-- The config keeps the namespace that the name refers to. -/
def Keeps (newConfig : ServiceConfig) (name : String) (ns : Namespace B) : Prop :=
  ∃ c ∈ (newConfig.namespaces.get name).join, differentNamespaceConfigs ns.cfg c = false

instance (newConfig : ServiceConfig) (name : String) (ns : Namespace B) :
    Decidable (Keeps newConfig name ns) :=
  inferInstanceAs (Decidable (∃ c ∈ (newConfig.namespaces.get name).join, _))

/-- A bucket that the update leaves alone. -/
structure Spared (newConfig : ServiceConfig) (id : ℕ) (bc : BucketContainer F B) : Prop where
  lt : id < bc.nextBucket
  default : id ∉ bucketId bc.defaultBucket
  namespaces : ∀ name ns, bc.namespaces.get? name = some ns → id ∈ ns.ids →
    Keeps newConfig name ns
  intact : id ∉ bc.destroyed

/-- What a part of an update does to the ledger. -/
structure Purged (newConfig : ServiceConfig) (bc bc' : BucketContainer F B) : Prop where
  sound : Sound bc'
  once : bc.destroyed.Nodup → bc'.destroyed.Nodup
  spared : ∀ id, Spared newConfig id bc → Spared newConfig id bc'

section Sound
variable {bc bc' : BucketContainer F B} {r r' : ℕ} {ns ns' : Namespace B} {id : ℕ}

theorem mem_keys_of_get? {name : String} (h : bc.namespaces.get? name = some ns) :
    name ∈ bc.namespaces.keys := by
  obtain ⟨r, hr, -⟩ := Directory.get?_eq_some.mp h
  exact Directory.mem_keys.mpr ⟨r, hr⟩

theorem keeps_iff {newConfig : ServiceConfig} {name : String} :
    Keeps newConfig name ns ↔
      ∃ c, newConfig.namespaces.get name = some (some c) ∧ SameNamespace ns.cfg c := by
  simp only [Keeps, Option.mem_def, Option.join_eq_some_iff, differentNamespaceConfigs_eq_false]

theorem Keyed.name_eq {newConfig : ServiceConfig} (h : Keyed newConfig bc) {name : String}
    {c : NamespaceConfig} (hget : bc.namespaces.get? name = some ns)
    (hc : newConfig.namespaces.get name = some (some c)) (hdiff : ¬ SameNamespace ns.cfg c) :
    c.name = name := by
  refine h name (mem_keys_of_get? hget) ns hget c (by simp [hc]) ?_
  exact Bool.eq_true_of_not_eq_false (mt differentNamespaceConfigs_eq_false.mp hdiff)

theorem Sound.lt_of_mem (h : Sound bc) (hns : bc.namespaces.deref r = some ns) (hid : id ∈ ns.ids) :
    id < bc.nextBucket := by
  have hle : ns.ids ≤ bc.held := (Directory.le_heap hns).trans le_add_self
  exact Multiset.mem_range.mp (Multiset.mem_of_le (hle.trans h.distinct) hid)

theorem Sound.nodup_ids (h : Sound bc) (hns : bc.namespaces.deref r = some ns) : ns.ids.Nodup :=
  Multiset.nodup_of_le (((Directory.le_heap hns).trans le_add_self).trans h.distinct)
    (Multiset.nodup_range _)

/-- A bucket is in one object. -/
theorem Sound.ref_eq (h : Sound bc) (hns : bc.namespaces.deref r = some ns)
    (hns' : bc.namespaces.deref r' = some ns') (hid : id ∈ ns.ids) (hid' : id ∈ ns'.ids) :
    r = r' := by
  by_contra hne
  have hle : ns.ids + ns'.ids ≤ Multiset.range bc.nextBucket :=
    ((Directory.add_le_heap hns hns' hne).trans le_add_self).trans h.distinct
  have hnodup := Multiset.nodup_of_le hle (Multiset.nodup_range _)
  exact Multiset.disjoint_left.mp (Multiset.nodup_add.mp hnodup).2.2 hid hid'

/-- The global default bucket is in no object. -/
theorem Sound.default_notMem (h : Sound bc) (hns : bc.namespaces.deref r = some ns)
    (hid : id ∈ bucketId bc.defaultBucket) : id ∉ ns.ids := by
  intro hid'
  have hle : bucketId bc.defaultBucket + ns.ids ≤ Multiset.range bc.nextBucket :=
    (add_le_add_right (Directory.le_heap hns) _).trans h.distinct
  have hnodup := Multiset.nodup_of_le hle (Multiset.nodup_range _)
  exact Multiset.disjoint_left.mp (Multiset.nodup_add.mp hnodup).2.2 hid hid'

theorem Sound.default_lt (h : Sound bc) (hid : id ∈ bucketId bc.defaultBucket) :
    id < bc.nextBucket :=
  Multiset.mem_range.mp (Multiset.mem_of_le (le_self_add.trans h.distinct) hid)

end Sound

section Parts
variable {bc bc' bc'' : BucketContainer F B} {newConfig : ServiceConfig} {name : String}
variable {ns : Namespace B} {f : F}

theorem Purged.trans (h : Purged newConfig bc bc') (h' : Purged newConfig bc' bc'') :
    Purged newConfig bc bc'' :=
  ⟨h'.sound, fun hd => h'.once (h.once hd), fun id hid => h'.spared id (h.spared id hid)⟩

theorem Sound.purged_refl (h : Sound bc) : Purged newConfig bc bc := ⟨h, id, fun _ => id⟩

/-- The config and the factory do not matter. -/
theorem Sound.purged_set (h : Sound bc) (c : Option ServiceConfig) :
    Purged newConfig bc { bc with cfg := c, factory := f } :=
  ⟨⟨h.distinct, h.destroyed_lt, h.namespaces, h.default⟩, id,
    fun _ hid => ⟨hid.lt, hid.default, hid.namespaces, hid.intact⟩⟩

/-- Destroying a namespace and removing its name. -/
theorem Sound.purged_drop (h : Sound bc) (hget : bc.namespaces.get? name = some ns)
    (hnot : ¬ Keeps newConfig name ns) :
    Purged newConfig bc { bc with
      factory := f
      destroyed := ns.ids + bc.destroyed
      namespaces := bc.namespaces.unbind name } := by
  obtain ⟨r, hr, hns⟩ := Directory.get?_eq_some.mp hget
  have hother : ∀ name' ns', (bc.namespaces.unbind name).get? name' = some ns' →
      bc.namespaces.get? name' = some ns' ∧ ∀ id ∈ ns'.ids, id ∉ ns.ids := by
    intro name' ns' hget'
    by_cases hne : name' = name
    · rw [hne, Directory.get?_unbind_self] at hget'
      cases hget'
    · rw [Directory.get?_unbind_ne hne] at hget'
      obtain ⟨r', hr', hns'⟩ := Directory.get?_eq_some.mp hget'
      refine ⟨hget', fun id hid hid' => ?_⟩
      have hrr : r' = r := h.ref_eq hns' hns hid hid'
      exact Directory.ref?_ne_of_ne hr hne (hrr ▸ hr')
  refine ⟨⟨h.distinct, ?_, ?_, ?_⟩, fun hd => ?_, fun id hid => ⟨hid.lt, hid.default, ?_, ?_⟩⟩
  · intro id hid
    rcases Multiset.mem_add.mp hid with hid | hid
    · exact h.lt_of_mem hns hid
    · exact h.destroyed_lt id hid
  · intro name' ns' hget' id hid hmem
    obtain ⟨hold, hdisj⟩ := hother name' ns' hget'
    rcases Multiset.mem_add.mp hmem with hmem | hmem
    · exact hdisj id hid hmem
    · exact h.namespaces name' ns' hold id hid hmem
  · intro id hid hmem
    rcases Multiset.mem_add.mp hmem with hmem | hmem
    · exact h.default_notMem hns hid hmem
    · exact h.default id hid hmem
  · refine Multiset.nodup_add.mpr ⟨h.nodup_ids hns, hd, Multiset.disjoint_left.mpr ?_⟩
    exact fun hid => h.namespaces name ns hget _ hid
  · intro name' ns' hget' hmem
    exact hid.namespaces name' ns' (hother name' ns' hget').1 hmem
  · intro hmem
    rcases Multiset.mem_add.mp hmem with hmem | hmem
    · exact hnot (hid.namespaces name ns hget hmem)
    · exact hid.intact hmem

/-- Letting a name refer to a new object; an object that it referred to before is lost. -/
theorem Sound.purged_bind (h : Sound bc) {m : ℕ}
    (hids : ns.ids + Multiset.range bc.nextBucket = Multiset.range m) :
    Purged newConfig bc { bc with
      factory := f
      nextBucket := m
      namespaces := bc.namespaces.bind name ns } := by
  have hnodup : (ns.ids + Multiset.range bc.nextBucket).Nodup := hids ▸ Multiset.nodup_range m
  have hfresh : ∀ id ∈ ns.ids, ¬ id < bc.nextBucket := by
    intro id hid hlt
    exact Multiset.disjoint_left.mp (Multiset.nodup_add.mp hnodup).2.2 hid
      (Multiset.mem_range.mpr hlt)
  have hlt : ∀ {id}, id < bc.nextBucket → id < m := by
    intro id hid
    rw [← Multiset.mem_range, ← hids, Multiset.mem_add]
    exact Or.inr (Multiset.mem_range.mpr hid)
  have hnew : ∀ name' ns', (bc.namespaces.bind name ns).get? name' = some ns' →
      ns' = ns ∨ bc.namespaces.get? name' = some ns' := by
    intro name' ns' hget'
    by_cases hne : name' = name
    · rw [hne, Directory.get?_bind_self] at hget'
      exact Or.inl (Option.some.inj hget').symm
    · rw [Directory.get?_bind_ne hne] at hget'
      exact Or.inr hget'
  refine ⟨⟨?_, fun id hid => hlt (h.destroyed_lt id hid), ?_, h.default⟩, id,
    fun id hid => ⟨hlt hid.lt, hid.default, ?_, hid.intact⟩⟩
  · have hle := h.distinct
    unfold BucketContainer.held at hle ⊢
    simp only [Directory.heap_bind, ← hids, ← add_assoc]
    rw [add_comm ns.ids]
    exact add_le_add_left hle _
  · intro name' ns' hget' id hid hmem
    rcases hnew name' ns' hget' with rfl | hold
    · exact hfresh id hid (h.destroyed_lt id hmem)
    · exact h.namespaces name' ns' hold id hid hmem
  · intro name' ns' hget' hmem
    rcases hnew name' ns' hget' with rfl | hold
    · exact absurd hid.lt (hfresh id hmem)
    · exact hid.namespaces name' ns' hold hmem

/-- Correcting the config pointer of a namespace. -/
theorem Sound.purged_swap (h : Sound bc) {r : ℕ} (hfetch : bc.fetch name = some (r, ns))
    {nsCfg : NamespaceConfig} (hcfg : newConfig.namespaces.get name = some (some nsCfg)) :
    Purged newConfig bc { bc with
      namespaces := bc.namespaces.modify r (Namespace.swapCfg nsCfg) } := by
  have hnew : ∀ name' ns', (bc.namespaces.modify r (Namespace.swapCfg nsCfg)).get? name' = some ns' →
      (name' = name ∧ ns' = ns.swapCfg nsCfg) ∨ bc.namespaces.get? name' = some ns' := by
    intro name' ns' hget'
    by_cases hne : name' = name
    · subst hne
      cases hget'.symm.trans (get?_modify_fetch_self hfetch)
      exact Or.inl ⟨rfl, rfl⟩
    · exact Or.inr ((get?_modify_fetch_ne hfetch hne).symm.trans hget')
  have hget := get?_of_fetch hfetch
  refine ⟨⟨?_, h.destroyed_lt, ?_, h.default⟩, id,
    fun id hid => ⟨hid.lt, hid.default, ?_, hid.intact⟩⟩
  · have hheap : (bc.namespaces.modify r (Namespace.swapCfg nsCfg)).heap Namespace.ids =
        bc.namespaces.heap Namespace.ids := Directory.heap_modify_congr fun _ => rfl
    unfold BucketContainer.held
    simp only [hheap]
    exact h.distinct
  · intro name' ns' hget' id hid
    rcases hnew name' ns' hget' with ⟨-, rfl⟩ | hold
    · exact h.namespaces name ns hget id hid
    · exact h.namespaces name' ns' hold id hid
  · intro name' ns' hget' hmem
    rcases hnew name' ns' hget' with ⟨rfl, rfl⟩ | hold
    · exact keeps_iff.mpr ⟨nsCfg, hcfg, .refl _⟩
    · exact hid.namespaces name' ns' hold hmem

theorem Sound.purged_dropDefault (h : Sound bc) :
    Purged newConfig bc { bc with
      factory := f
      destroyed := bucketId bc.defaultBucket + bc.destroyed
      defaultBucket := none } := by
  refine ⟨⟨?_, ?_, ?_, ?_⟩, fun hd => ?_, fun id hid => ⟨hid.lt, ?_, hid.namespaces, ?_⟩⟩
  · refine le_trans ?_ h.distinct
    unfold BucketContainer.held
    exact add_le_add_left (Multiset.zero_le _) _
  · intro id hid
    rcases Multiset.mem_add.mp hid with hid | hid
    · exact h.default_lt hid
    · exact h.destroyed_lt id hid
  · intro name ns hget id hid hmem
    obtain ⟨r, -, hns⟩ := Directory.get?_eq_some.mp hget
    rcases Multiset.mem_add.mp hmem with hmem | hmem
    · exact h.default_notMem hns hmem hid
    · exact h.namespaces name ns hget id hid hmem
  · simp [bucketId]
  · have hle : bucketId bc.defaultBucket ≤ Multiset.range bc.nextBucket :=
      le_self_add.trans h.distinct
    refine Multiset.nodup_add.mpr ⟨Multiset.nodup_of_le hle (Multiset.nodup_range _), hd, ?_⟩
    exact Multiset.disjoint_left.mpr fun hid => h.default _ hid
  · simp [bucketId]
  · intro hmem
    rcases Multiset.mem_add.mp hmem with hmem | hmem
    · exact hid.default hmem
    · exact hid.intact hmem

theorem Sound.purged_createDefault (h : Sound bc) {b : Bucket B} (hid : b.id = bc.nextBucket) :
    Purged newConfig bc { bc with
      factory := f
      nextBucket := bc.nextBucket + 1
      defaultBucket := some b } := by
  have hlt : ∀ {id}, id < bc.nextBucket → id < bc.nextBucket + 1 := fun h => by omega
  have hmem : ∀ {id}, id ∈ bucketId (some b) → id = bc.nextBucket := fun hmem =>
    (Multiset.mem_singleton.mp hmem).trans hid
  refine ⟨⟨?_, fun id hid => hlt (h.destroyed_lt id hid), h.namespaces, ?_⟩, id,
    fun id hid => ⟨hlt hid.lt, ?_, hid.namespaces, hid.intact⟩⟩
  · have hle : bc.namespaces.heap Namespace.ids ≤ Multiset.range bc.nextBucket :=
      le_add_self.trans h.distinct
    have hb : bucketId (some b) = {bc.nextBucket} := by rw [← hid]; rfl
    unfold BucketContainer.held
    simp only [hb, Multiset.range_succ, ← Multiset.singleton_add]
    exact add_le_add_right hle _
  · intro id hid hdestroyed
    have hdlt := h.destroyed_lt id hdestroyed
    rw [hmem hid] at hdlt
    exact lt_irrefl _ hdlt
  · intro hdefault
    have hidlt := hid.lt
    rw [hmem hdefault] at hidlt
    exact lt_irrefl _ hidlt

end Parts

section Update
variable {bc bc' : BucketContainer F B} {newConfig : ServiceConfig} {name : String}

theorem createNamespaceLocked_purged (h : Sound bc) {nsCfg : NamespaceConfig}
    (hcreate : bc.createNamespaceLocked fac nsCfg = some bc') : Purged newConfig bc bc' := by
  obtain ⟨f, m, ns', rfl, -, -, hids⟩ := createNamespaceLocked_spec (stable_true fac) trivial hcreate
  exact h.purged_bind hids

theorem Keyed.congr (h : Keyed newConfig bc) (heq : bc'.namespaces = bc.namespaces) :
    Keyed newConfig bc' := by
  unfold Keyed
  rw [heq]
  exact h

/-- What is kept or new after a visit has the config that it is compared with. -/
theorem Keyed.visit (h : Keyed newConfig bc)
    (hother : ∀ k, k ≠ name → bc'.namespaces.get? k = bc.namespaces.get? k)
    (hsettled : Settled fac (fun _ => True) (bc.namespaces.get? name)
      (newConfig.namespaces.get name) (bc'.namespaces.get? name)) : Keyed newConfig bc' := by
  intro k hk ns hget c hc hdiff
  by_cases hne : k = name
  · subst hne
    rw [show bc'.namespaces.get? k = some ns from hget] at hsettled
    have hcfg : newConfig.namespaces.get k = some (some c) := Option.join_eq_some_iff.mp hc
    rw [hcfg] at hsettled
    have hsame : SameNamespace ns.cfg c := by
      cases hbefore : bc.namespaces.get? k with
      | none =>
        rw [hbefore] at hsettled
        cases hsettled with
        | created built => exact built.cfg ▸ .refl _
      | some ns₀ =>
        rw [hbefore] at hsettled
        cases hsettled with
        | kept same => exact .refl _
        | replaced _ built => exact built.cfg ▸ .refl _
    rw [differentNamespaceConfigs_eq_false.mpr hsame] at hdiff
    cases hdiff
  · rw [Option.mem_def, hother k hne] at hget
    exact h k (mem_keys_of_get? hget) ns hget c hc hdiff

theorem updateNamespace_purged (h : Sound bc) (hkeyed : Keyed newConfig bc)
    (hupdate : bc.updateNamespace fac newConfig name = some bc') : Purged newConfig bc bc' := by
  cases updateNamespace_visited hupdate with
  | absent => exact h.purged_refl
  | @swapped r ns nsCfg fetched configured same => exact h.purged_swap fetched configured
  | @replaced r ns nsCfg _ fetched configured different created =>
    -- the new object takes the place of the destroyed one
    have hget := get?_of_fetch fetched
    obtain ⟨f, hdestroy⟩ := destroyNamespace_eq fac bc ns
    have hname := hkeyed.name_eq hget configured different
    have hdropped : ¬ Keeps newConfig name ns := fun hkeeps => by
      obtain ⟨c, hc, hsame⟩ := keeps_iff.mp hkeeps
      cases configured.symm.trans hc
      exact different hsame
    have hdrop := h.purged_drop (f := f) hget hdropped
    rw [hdestroy] at created
    obtain ⟨f', m, ns', rfl, -, -, hids⟩ :=
      createNamespaceLocked_spec (stable_true fac) trivial created
    have hbind : bc.namespaces.bind nsCfg.name ns' =
        (bc.namespaces.unbind name).bind name ns' := by rw [hname, Directory.bind_unbind]
    apply hdrop.trans
    simp only [hbind]
    exact hdrop.sound.purged_bind hids
  | @removed r ns fetched gone =>
    obtain ⟨f, hdestroy⟩ := destroyNamespace_eq fac bc ns
    rw [hdestroy]
    refine h.purged_drop (get?_of_fetch fetched) fun hkeeps => ?_
    obtain ⟨c, hc, -⟩ := keeps_iff.mp hkeeps
    cases gone.symm.trans hc

theorem updateNamespace_keyed (hkeyed : Keyed newConfig bc)
    (hupdate : bc.updateNamespace fac newConfig name = some bc') : Keyed newConfig bc' := by
  obtain ⟨-, hother, hsettled⟩ := updateNamespace_spec (stable_true fac) trivial
    (fun _ _ hget hcfg hnot => hkeyed.name_eq hget hcfg hnot) hupdate
  exact hkeyed.visit hother hsettled

theorem updateNamespaces_purged {order : List String} {bc : BucketContainer F B} (h : Sound bc)
    (hkeyed : Keyed newConfig bc)
    (hupdate : order.foldlM (BucketContainer.updateNamespace fac newConfig) bc = some bc') :
    Purged newConfig bc bc' := by
  induction order generalizing bc with
  | nil =>
    cases hupdate
    exact h.purged_refl
  | cons name order ih =>
    rw [List.foldlM_cons] at hupdate
    obtain ⟨bc₁, h₁, hupdate⟩ := Option.bind_eq_some_iff.mp hupdate
    have hpurged := updateNamespace_purged h hkeyed h₁
    exact hpurged.trans (ih hpurged.sound (updateNamespace_keyed hkeyed h₁) hupdate)

/-- A loop whose body only makes new objects. -/
theorem creations_purged {α : Type} {g : BucketContainer F B → α → Option (BucketContainer F B)}
    (hg : ∀ bc a bc', Sound bc → g bc a = some bc' → Purged newConfig bc bc') {l : List α}
    {bc : BucketContainer F B} (h : Sound bc) (hloop : l.foldlM g bc = some bc') :
    Purged newConfig bc bc' := by
  induction l generalizing bc with
  | nil =>
    cases hloop
    exact h.purged_refl
  | cons a l ih =>
    rw [List.foldlM_cons] at hloop
    obtain ⟨bc₁, h₁, hloop⟩ := Option.bind_eq_some_iff.mp hloop
    have hpurged := hg bc a bc₁ h h₁
    exact hpurged.trans (ih hpurged.sound hloop)

theorem addNamespace_purged (h : Sound bc) {e : String × Option NamespaceConfig}
    (hadd : bc.addNamespace fac e = some bc') : Purged newConfig bc bc' := by
  unfold BucketContainer.addNamespace at hadd
  split_ifs at hadd
  · cases hadd
    exact h.purged_refl
  · obtain ⟨nsCfg, -, hadd⟩ := Option.bind_eq_some_iff.mp hadd
    exact createNamespaceLocked_purged h hadd

theorem initNamespace_purged (h : Sound bc) {e : String × Option NamespaceConfig}
    (hinit : bc.initNamespace fac e = some bc') : Purged newConfig bc bc' := by
  obtain ⟨nsCfg, -, hinit⟩ := Option.bind_eq_some_iff.mp hinit
  exact createNamespaceLocked_purged h hinit

theorem createGlobalDefaultBucketLocked_purged (fac : BucketFactory F B) (h : Sound bc)
    (cfg : BucketConfig) :
    Purged newConfig bc (bc.createGlobalDefaultBucketLocked fac cfg) := by
  obtain ⟨f, b, heq, -, hid, -⟩ :=
    createGlobalDefaultBucketLocked_spec (stable_true fac) bc trivial cfg
  exact heq ▸ h.purged_createDefault hid

theorem initGlobalDefaultBucket_purged (fac : BucketFactory F B) (h : Sound bc)
    (c : Option BucketConfig) :
    Purged newConfig bc (bc.initGlobalDefaultBucket fac c) := by
  cases c with
  | none => exact h.purged_refl
  | some cfg => exact createGlobalDefaultBucketLocked_purged fac h cfg

theorem updateGlobalDefaultBucket_purged (fac : BucketFactory F B) (h : Sound bc)
    (c : ServiceConfig) :
    Purged newConfig bc (bc.updateGlobalDefaultBucket fac c) := by
  obtain ⟨f, hdestroy⟩ := destroyDefault_eq fac bc bc.defaultBucket
  unfold BucketContainer.updateGlobalDefaultBucket
  split_ifs
  · have hdrop : Purged newConfig bc _ := h.purged_dropDefault (f := f)
    simp only [hdestroy]
    cases c.globalDefaultBucket with
    | none => exact hdrop
    | some cfg => exact hdrop.trans (createGlobalDefaultBucketLocked_purged fac hdrop.sound cfg)
  · exact h.purged_refl

/-- An update keeps what names refer to intact, destroys nothing twice, and spares what it keeps. -/
theorem updateBucketContainer_purged {order : List String} {s s' : Server F B}
    (h : Sound s.bucketContainer) (hkeyed : Keyed newConfig s.bucketContainer)
    (hupdate : updateBucketContainer fac order newConfig s = some s') :
    Purged newConfig s.bucketContainer s'.bucketContainer := by
  cases updateBucketContainer_followed hupdate with
  | ignored => exact h.purged_refl
  | @initialised bc' newer cfg init =>
    have hset : Purged newConfig s.bucketContainer _ :=
      h.purged_set (f := fac.init s.bucketContainer.factory newConfig)
        (some (nameNamespaces newConfig))
    have hglobal : Purged newConfig _ _ :=
      initGlobalDefaultBucket_purged fac hset.sound (nameNamespaces newConfig).globalDefaultBucket
    have hloop : Purged newConfig _ bc' :=
      creations_purged (fun _ _ _ h hinit => initNamespace_purged h hinit) hglobal.sound init
    exact (hset.trans hglobal).trans hloop
  | @updated c bc' newer cfg update =>
    obtain ⟨bc₁, h₁, h₂⟩ := Option.bind_eq_some_iff.mp update
    have hset : Purged newConfig s.bucketContainer _ :=
      h.purged_set (f := fac.init s.bucketContainer.factory newConfig) (some newConfig)
    have hglobal : Purged newConfig _ _ := updateGlobalDefaultBucket_purged fac hset.sound newConfig
    have hkeyed' : Keyed newConfig (BucketContainer.updateGlobalDefaultBucket fac
        { s.bucketContainer with
          cfg := some newConfig
          factory := fac.init s.bucketContainer.factory newConfig } newConfig) :=
      hkeyed.congr (updateGlobalDefaultBucket_namespaces ..)
    have hfirst := updateNamespaces_purged hglobal.sound hkeyed' h₁
    have hsecond : Purged newConfig bc₁ bc' :=
      creations_purged (fun _ _ _ h hadd => addNamespace_purged h hadd) hfirst.sound h₂
    exact ((hset.trans hglobal).trans hfirst).trans hsecond

end Update

section Buckets
variable {bc : BucketContainer F B} {ns : Namespace B} {bucketName name : String} {b : Bucket B}
variable {r : ℕ}

theorem mem_ids_of_lookup (h : ns.buckets.lookup bucketName = some b) : b.id ∈ ns.ids :=
  Multiset.mem_add.mpr (Or.inr (AList.mem_total.mpr ⟨bucketName, b, h, Multiset.mem_singleton_self _⟩))

theorem mem_ids_of_default (h : ns.defaultBucket = some b) : b.id ∈ ns.ids :=
  Multiset.mem_add.mpr (Or.inl (by simp [h, bucketId]))

theorem ids_dropBucket (h : ns.buckets.lookup bucketName = some b) :
    ns.ids = {b.id} + (ns.dropBucket bucketName b).ids := by
  unfold Namespace.ids Namespace.dropBucket
  rw [AList.total_erase _ h, add_left_comm]

theorem Sound.intact (h : Sound bc) (hget : bc.namespaces.get? name = some ns) {id : ℕ}
    (hid : id ∈ ns.ids) : id < bc.nextBucket ∧ id ∉ bc.destroyed := by
  obtain ⟨r, -, hns⟩ := Directory.get?_eq_some.mp hget
  exact ⟨h.lt_of_mem hns hid, h.namespaces name ns hget id hid⟩

theorem Sound.quiet (h : Sound bc) (acts : Finset ℕ) (ws : List Watcher) :
    Sound { bc with activities := acts, newWatchers := ws } :=
  ⟨h.distinct, h.destroyed_lt, h.namespaces, h.default⟩

/-- An object of which a bucket has been added or removed is the only one that has changed. -/
theorem get?_modify_cases {f : Namespace B → Namespace B}
    (hns : bc.namespaces.deref r = some ns) {ns' : Namespace B}
    (hget : (bc.namespaces.modify r f).get? name = some ns') :
    (bc.namespaces.get? name = some ns ∧ ns' = f ns) ∨
      (bc.namespaces.get? name = some ns' ∧ bc.namespaces.ref? name ≠ some r) := by
  by_cases hr : bc.namespaces.ref? name = some r
  · have hold : bc.namespaces.get? name = some ns := Directory.get?_eq_some.mpr ⟨r, hr, hns⟩
    rw [Directory.get?_modify_self hr, hold] at hget
    exact Or.inl ⟨hold, (Option.some.inj hget).symm⟩
  · rw [Directory.get?_modify_ne hr] at hget
    exact Or.inr ⟨hget, hr⟩

theorem Sound.addBucket (h : Sound bc) (hns : bc.namespaces.deref r = some ns)
    (hlookup : ns.buckets.lookup bucketName = none) (hid : b.id = bc.nextBucket) (f : F)
    (acts : Finset ℕ) (ws : List Watcher) :
    Sound { bc with
      factory := f, nextBucket := bc.nextBucket + 1, activities := acts, newWatchers := ws
      namespaces := bc.namespaces.modify r fun _ => ns.addBucket bucketName b } := by
  have hids := ids_addBucket b hlookup
  have hfresh : b.id ∉ bc.destroyed := fun hmem => by
    have hlt := h.destroyed_lt _ hmem
    omega
  refine ⟨?_, fun id hmem => (h.destroyed_lt id hmem).trans (Nat.lt_succ_self _), ?_, h.default⟩
  · have hheap := Directory.heap_modify (w := Namespace.ids)
      (f := fun _ => ns.addBucket bucketName b) hns
    rw [hids, ← add_assoc, add_left_inj] at hheap
    have hle := h.distinct
    unfold BucketContainer.held at hle ⊢
    simp only [hheap, hid, Multiset.range_succ, ← Multiset.singleton_add, ← add_assoc]
    rw [add_comm]
    exact add_le_add_right hle _
  · intro name ns' hget id hmem
    rcases get?_modify_cases hns hget with ⟨hold, rfl⟩ | ⟨hold, -⟩
    · rw [hids, Multiset.mem_add, Multiset.mem_singleton] at hmem
      rcases hmem with rfl | hmem
      · exact hfresh
      · exact h.namespaces name ns hold id hmem
    · exact h.namespaces name ns' hold id hmem

theorem removeBucket_of_lookup (fac : BucketFactory F B) (hns : bc.namespaces.deref r = some ns)
    (hlookup : ns.buckets.lookup bucketName = some b) :
    bc.removeBucket fac r bucketName = { bc with
      factory := fac.destroy bc.factory b.impl
      destroyed := b.id ::ₘ bc.destroyed
      namespaces := bc.namespaces.modify r (Namespace.dropBucket bucketName b) } := by
  simp [BucketContainer.removeBucket, hns, hlookup, BucketContainer.destroyBucket]

theorem removeBucket_of_none (fac : BucketFactory F B)
    (h : ((bc.namespaces.deref r).bind fun ns => ns.buckets.lookup bucketName) = none) :
    bc.removeBucket fac r bucketName = bc := by
  simp [BucketContainer.removeBucket, h]

/-- Removing a bucket keeps what names refer to intact, even from an object that was destroyed. -/
theorem Sound.removeBucket (fac : BucketFactory F B) (h : Sound bc) (r : ℕ) (bucketName : String) :
    Sound (bc.removeBucket fac r bucketName) := by
  cases hfound : (bc.namespaces.deref r).bind fun ns => ns.buckets.lookup bucketName with
  | none => rwa [removeBucket_of_none fac hfound]
  | some b =>
    obtain ⟨ns, hns, hlookup⟩ := Option.bind_eq_some_iff.mp hfound
    have hmem := mem_ids_of_lookup hlookup
    have hids := ids_dropBucket hlookup
    have hnodup := h.nodup_ids hns
    rw [hids, Multiset.singleton_add, Multiset.nodup_cons] at hnodup
    rw [removeBucket_of_lookup fac hns hlookup]
    refine ⟨?_, ?_, ?_, ?_⟩
    · have hheap := Directory.heap_modify (w := Namespace.ids)
        (f := Namespace.dropBucket bucketName b) hns
      rw [hids, ← add_assoc, add_left_inj] at hheap
      refine le_trans ?_ h.distinct
      unfold BucketContainer.held
      rw [← hheap, ← add_assoc]
      exact le_self_add
    · intro id hid
      rcases Multiset.mem_cons.mp hid with rfl | hid
      · exact h.lt_of_mem hns hmem
      · exact h.destroyed_lt id hid
    · intro name ns' hget id hid hdestroyed
      rcases get?_modify_cases hns hget with ⟨hold, rfl⟩ | ⟨hold, hr⟩
      · rcases Multiset.mem_cons.mp hdestroyed with rfl | hdestroyed
        · exact hnodup.1 hid
        · refine h.namespaces name ns hold id ?_ hdestroyed
          rw [hids]
          exact Multiset.mem_add.mpr (Or.inr hid)
      · rcases Multiset.mem_cons.mp hdestroyed with rfl | hdestroyed
        · obtain ⟨r', hr', hns'⟩ := Directory.get?_eq_some.mp hold
          exact hr (h.ref_eq hns' hns hid hmem ▸ hr')
        · exact h.namespaces name ns' hold id hid hdestroyed
    · intro id hid hdestroyed
      rcases Multiset.mem_cons.mp hdestroyed with rfl | hdestroyed
      · exact h.default_notMem hns hid hmem
      · exact h.default id hid hdestroyed

end Buckets

section Destroyed
variable {F B : Type} {fac : BucketFactory F B} {bc bc' : BucketContainer F B} {id : ℕ}

theorem createNamespaceLocked_destroyed {nsCfg : NamespaceConfig}
    (h : bc.createNamespaceLocked fac nsCfg = some bc') : bc'.destroyed = bc.destroyed := by
  obtain ⟨f, m, ns, rfl, -⟩ := createNamespaceLocked_spec (stable_true fac) trivial h
  rfl

theorem destroyNamespace_destroyed (fac : BucketFactory F B) (ns : Namespace B)
    (h : id ∈ bc.destroyed) : id ∈ (bc.destroyNamespace fac ns).destroyed := by
  obtain ⟨f, heq⟩ := destroyNamespace_eq fac bc ns
  rw [heq]
  exact Multiset.mem_add.mpr (Or.inr h)

theorem updateNamespace_destroyed {newConfig : ServiceConfig} {name : String}
    (hupdate : bc.updateNamespace fac newConfig name = some bc') (h : id ∈ bc.destroyed) :
    id ∈ bc'.destroyed := by
  cases updateNamespace_visited hupdate with
  | absent | swapped => exact h
  | @replaced r ns nsCfg _ fetched configured different created =>
    rw [createNamespaceLocked_destroyed created]
    exact destroyNamespace_destroyed fac ns h
  | @removed r ns => exact destroyNamespace_destroyed fac ns h

theorem updateGlobalDefaultBucket_destroyed (fac : BucketFactory F B) (newConfig : ServiceConfig)
    (h : id ∈ bc.destroyed) : id ∈ (bc.updateGlobalDefaultBucket fac newConfig).destroyed := by
  obtain ⟨f, heq⟩ := destroyDefault_eq fac bc bc.defaultBucket
  have hmem : id ∈ bucketId bc.defaultBucket + bc.destroyed := Multiset.mem_add.mpr (Or.inr h)
  unfold BucketContainer.updateGlobalDefaultBucket
  split_ifs
  · rw [heq]
    cases newConfig.globalDefaultBucket <;> exact hmem
  · exact h

theorem addNamespace_destroyed {e : String × Option NamespaceConfig}
    (hadd : bc.addNamespace fac e = some bc') : bc'.destroyed = bc.destroyed := by
  unfold BucketContainer.addNamespace at hadd
  split_ifs at hadd
  · cases hadd
    rfl
  · obtain ⟨nsCfg, -, hadd⟩ := Option.bind_eq_some_iff.mp hadd
    exact createNamespaceLocked_destroyed hadd

/-- What every round of a loop leaves among the destroyed is among them after the loop. -/
theorem foldlM_destroyed {α : Type} {g : BucketContainer F B → α → Option (BucketContainer F B)}
    (hg : ∀ bc a bc', id ∈ bc.destroyed → g bc a = some bc' → id ∈ bc'.destroyed) {l : List α}
    (hloop : l.foldlM g bc = some bc') (h : id ∈ bc.destroyed) : id ∈ bc'.destroyed :=
  Machine.run_invariant (fun bc => id ∈ bc.destroyed) hg h hloop

theorem updateBucketContainer_destroyed {order : List String} {newConfig : ServiceConfig}
    {s s' : Server F B} (hupdate : updateBucketContainer fac order newConfig s = some s')
    (h : id ∈ s.bucketContainer.destroyed) : id ∈ s'.bucketContainer.destroyed := by
  cases updateBucketContainer_followed hupdate with
  | ignored => exact h
  | initialised newer cfg init =>
    refine foldlM_destroyed (fun bc e bc' h hinit => ?_) init ?_
    · obtain ⟨nsCfg, -, hcreate⟩ := Option.bind_eq_some_iff.mp hinit
      rwa [createNamespaceLocked_destroyed hcreate]
    · cases (nameNamespaces newConfig).globalDefaultBucket <;> exact h
  | updated newer cfg update =>
    obtain ⟨bc₁, h₁, h₂⟩ := Option.bind_eq_some_iff.mp update
    have hdestroyed : id ∈ { s.bucketContainer with
        cfg := some newConfig
        factory := fac.init s.bucketContainer.factory newConfig }.destroyed := h
    have hglobal := updateGlobalDefaultBucket_destroyed fac newConfig hdestroyed
    have hfirst := foldlM_destroyed (fun _ _ _ h hs => updateNamespace_destroyed hs h) h₁ hglobal
    exact foldlM_destroyed (fun _ _ _ h hs => (addNamespace_destroyed hs).symm ▸ h) h₂ hfirst

end Destroyed

end QuotaService.Container
