import QuotaService.Container.Idleness

/-! Which buckets the reaper watches. It watches the live reapable buckets, as long as no update
destroys one of them and no two of them go by one identifier: a watcher learns from a closed channel
only that there is activity, and one that is received takes the place of any other of its
identifier. -/
namespace QuotaService.Container
open Config

namespace Watched
variable {F B : Type}

/-- The reaper watches every bucket that reports to it, and none that has been destroyed. -/
structure Watchful (s : Watched F B) : Prop where
  watched : ∀ ns bucketName b, s.server.bucketContainer.bucket? ns bucketName = some b →
    b.reapable = true → b.id ∈ s.ids
  intact : ∀ x ∈ s.ids, x ∉ s.server.bucketContainer.destroyed

/-- An update keeps every namespace in which there is a reapable bucket, and a watcher that is
received does not take the place of one whose bucket is still there. -/
def Careful (s : Watched F B) : Deed → Prop
  | .update _ newConfig => (s.system []).Applies newConfig →
    ∀ name ∈ s.server.bucketContainer.namespaces.keys,
      ∀ ns ∈ s.server.bucketContainer.namespaces.get? name,
        (∃ e ∈ ns.buckets.entries, e.2.reapable = true) → Keeps newConfig name ns
  | .addNewWatcher => ∀ w ∈ s.server.bucketContainer.newWatchers.head?,
    ∀ w' ∈ s.watchers.lookup w.identifier, w'.activities ∈ s.server.bucketContainer.destroyed
  | _ => True

instance (s : Watched F B) : ∀ d, Decidable (s.Careful d)
  | .update _ newConfig => inferInstanceAs (Decidable ((s.system []).Applies newConfig → _))
  | .addNewWatcher =>
    inferInstanceAs (Decidable (∀ w ∈ s.server.bucketContainer.newWatchers.head?, _))
  | .find _ _ | .report _ _ | .checkExpirations _ => isTrue trivial

section Watchful
variable {fac : BucketFactory F B} {s s' : Watched F B} {d : Deed} {id : String} {w : Watcher}

/-- The state of the reaper depends on the places and the numbers only. -/
theorem Watchful.congr (h : Watchful s) (hids : s'.ids = s.ids)
    (hplaces : ∀ ns bucketName, s'.server.bucketContainer.bucket? ns bucketName =
      s.server.bucketContainer.bucket? ns bucketName)
    (hdestroyed : s'.server.bucketContainer.destroyed = s.server.bucketContainer.destroyed) :
    Watchful s' := by
  refine ⟨fun ns bucketName b hb hreapable => ?_, fun x hx => ?_⟩
  · rw [hids]
    exact h.watched ns bucketName b ((hplaces ns bucketName).symm.trans hb) hreapable
  · rw [hdestroyed]
    exact h.intact x (hids ▸ hx)

theorem Watchful.guards (h : Watchful s) (hattended : Attended s) (hw : s.Watches w) :
    s.Guards w :=
  (hattended.placed w hw).resolve_left (h.intact _ (mem_ids.mpr ⟨w, hw, rfl⟩))

theorem Checked.watchful (hchecked : Checked fac s id s') (hattended : Attended s)
    (h : Watchful s) : Watchful s' := by
  cases hchecked with
  | unknown => exact h
  | active registered =>
    refine h.congr ?_ (fun _ _ => rfl) rfl
    exact congrArg (· + _) (total_reinsert registered _)
  | @waiting w registered =>
    refine h.congr ?_ (fun _ _ => rfl) rfl
    exact congrArg (· + _) (total_reinsert registered w.lastActivity)
  | @removed w r ns b registered idle quiet fetched held reapable guards =>
    have hdistinct := hattended.distinct
    rw [ids_of_lookup registered, Multiset.nodup_cons] at hdistinct
    have hid : w.activities = b.id := activities_of_watcher guards
    have hb : s.server.bucketContainer.bucket? w.ns w.bucketName = some b :=
      (bucket?_of_get? (get?_of_fetch fetched) _).trans held
    refine ⟨fun ns' n' b' hb' hreapable => ?_, fun x hx hgone => ?_⟩
    · have hdrop := (bucket?_drop fetched rfl ns' n').symm.trans hb'
      split_ifs at hdrop with hplace
      have hmem := h.watched ns' n' b' hdrop hreapable
      rw [ids_of_lookup registered, Multiset.mem_cons] at hmem
      rcases hmem with hsame | hmem
      · -- another bucket cannot have this number
        obtain ⟨hns, hname, -⟩ := hattended.sound.bucket?_inj hdrop hb (hsame.trans hid)
        exact absurd ⟨hns, hname⟩ hplace
      · exact hmem
    · rcases Multiset.mem_cons.mp hgone with rfl | hgone
      · exact hdistinct.1 (hid ▸ hx)
      · refine h.intact x ?_ hgone
        rw [ids_of_lookup registered]
        exact Multiset.mem_cons_of_mem hx

/-- No check gets rid of the watcher of a bucket that has been destroyed. -/
theorem Checked.gone {id' : String} (hchecked : Checked fac s id' s') (hattended : Attended s)
    (hw : s.watchers.lookup id = some w)
    (hgone : w.activities ∈ s.server.bucketContainer.destroyed) :
    ∃ t, s'.watchers.lookup id = some { w with lastActivity := t } := by
  by_cases hid : id = id'
  · subst hid
    cases hchecked with
    | unknown unregistered => cases unregistered.symm.trans hw
    | active registered =>
      cases registered.symm.trans hw
      exact ⟨_, AList.lookup_insert _⟩
    | waiting registered =>
      cases registered.symm.trans hw
      exact ⟨_, AList.lookup_insert _⟩
    | @removed w₀ r ns b registered idle quiet fetched held reapable guards =>
      cases registered.symm.trans hw
      have hid : w.activities = b.id := activities_of_watcher guards
      have hb := (bucket?_of_get? (get?_of_fetch fetched) w.bucketName).trans held
      exact absurd (hid ▸ hgone) (hattended.sound.bucket?_intact hb).2
  · exact ⟨w.lastActivity, (hchecked.other hid).trans hw⟩

theorem checkExpirations_watchful (hattended : Attended s) (h : Watchful s)
    (order : List String) : Watchful (s.checkExpirations fac order) :=
  hattended.checkExpirations_induction
    (fun _ _ _ hattended hchecked h => hchecked.watchful hattended h) h order

theorem watchful_add {ns bucketName : String} {b : Bucket B} {bc : BucketContainer F B}
    (hattended : Attended s) (h : Watchful s)
    (adds : Adds fac ns bucketName b s.server.bucketContainer bc) :
    Watchful (s.setContainer bc) := by
  have hdestroyed : bc.destroyed = s.server.bucketContainer.destroyed := by
    obtain ⟨r, nsp, acts, -, -, rfl, -⟩ := adds.added
    rfl
  refine ⟨fun ns' n' b' hb' hreapable => ?_, fun x hx hgone => ?_⟩
  · have hplace := (adds.bucket? ns' n').symm.trans hb'
    rw [ids_add adds, Multiset.mem_add]
    split_ifs at hplace
    · cases hplace
      rw [if_pos hreapable]
      exact Or.inl (Multiset.mem_singleton_self _)
    · exact Or.inr (h.watched ns' n' b' hplace hreapable)
  · have hgone : x ∈ s.server.bucketContainer.destroyed := hdestroyed ▸ hgone
    rw [ids_add adds, Multiset.mem_add] at hx
    rcases hx with hnew | hold
    · split_ifs at hnew
      · -- the number of the new bucket has not been given out before
        have hlt := hattended.sound.destroyed_lt x hgone
        have hid := adds.id
        rw [Multiset.mem_singleton.mp hnew, hid] at hlt
        exact absurd hlt (lt_irrefl _)
      · cases hnew
    · exact h.intact x hold hgone

end Watchful

section Updates
variable {fac : BucketFactory F B} {s : Watched F B} {order : List String}
variable {newConfig : ServiceConfig} {server : Server F B}

/-- A bucket that reports to the reaper is spared by an update that keeps its namespace. -/
theorem Guards.spared (hattended : Attended s) {w : Watcher} (hguards : s.Guards w)
    (hkeeps : ∀ ns bucketName b nsp, s.server.bucketContainer.namespaces.get? ns = some nsp →
      nsp.buckets.lookup bucketName = some b → b.reapable = true → Keeps newConfig ns nsp) :
    Spared newConfig w.activities s.server.bucketContainer := by
  obtain ⟨b, hb, hreapable, hw⟩ := hguards
  have hid : w.activities = b.id := activities_of_watcher hw
  obtain ⟨nsp, hget, hlookup⟩ := bucket?_eq_some.mp hb
  obtain ⟨r, hr, hnsp⟩ := Directory.get?_eq_some.mp hget
  have hmem := mem_ids_of_lookup hlookup
  obtain ⟨hlt, hintact⟩ := hattended.sound.bucket?_intact hb
  rw [hid]
  refine ⟨hlt, fun hdefault => hattended.sound.default_notMem hnsp hdefault hmem,
    fun name ns hget' hmem' => ?_, hintact⟩
  -- the bucket is in one object only
  obtain ⟨r', hr', hns⟩ := Directory.get?_eq_some.mp hget'
  obtain rfl := hattended.sound.ref_eq hnsp hns hmem hmem'
  cases hnsp.symm.trans hns
  have hname : name = w.ns := by
    by_contra hne
    exact Directory.ref?_ne_of_ne hr hne hr'
  exact hname ▸ hkeeps w.ns w.bucketName b nsp hget hlookup hreapable

/-- What an update does not keep, it takes out of its place. -/
theorem not_kept_replaced (hattended : Attended s) (hnorm : Normalised newConfig)
    (hcovers : Covers order s.server) (happlies : (s.system []).Applies newConfig)
    (hupdate : updateBucketContainer fac order newConfig s.server = some server)
    {name bucketName : String} {nsp : Namespace B} {b : Bucket B}
    (hget : s.server.bucketContainer.namespaces.get? name = some nsp)
    (hnot : ¬ Keeps newConfig name nsp)
    (hb : server.bucketContainer.bucket? name bucketName = some b) : b.reapable = false := by
  cases updateBucketContainer_followed hupdate with
  | @ignored c cfgs stale => exact absurd (happlies c cfgs) (not_lt.mpr stale)
  | initialised newer cfg =>
    rw [hattended.fresh cfg name] at hget
    cases hget
  | @updated c bc' newer cfg update =>
    have hupdated := update_spec (stable_true fac) hnorm trivial (by exact hcovers) update
    have hsettled := hupdated.settled name
    obtain ⟨nsp', hget', hlookup⟩ := bucket?_eq_some.mp hb
    dsimp only at hget' hsettled
    rw [hget, hget'] at hsettled
    generalize hcfg : newConfig.namespaces.get name = c at hsettled
    cases hsettled with
    | kept same => exact absurd (keeps_iff.mpr ⟨_, hcfg, same⟩) hnot
    | replaced different built => exact (built.buckets_made bucketName b hlookup).2.1

theorem update_watchful_iff (hattended : Attended s) (h : Watchful s)
    (hnorm : Normalised newConfig) (hcovers : Covers order s.server)
    (hupdate : updateBucketContainer fac order newConfig s.server = some server) :
    Watchful { s with server := server } ↔ s.Careful (.update order newConfig) := by
  obtain ⟨hundisturbed, -⟩ := updateBucketContainer_undisturbed hnorm hattended.fresh hupdate
  have hids : ({ s with server := server } : Watched F B).ids = s.ids := by
    unfold ids
    rw [hundisturbed.newWatchers]
  constructor
  · intro hwatchful happlies name _ nsp hget
    rintro ⟨⟨bucketName, b⟩, hentry, hreapable⟩
    by_contra hnot
    have hlookup : nsp.buckets.lookup bucketName = some b := AList.mem_lookup_iff.mpr hentry
    have hb := (bucket?_of_get? hget bucketName).trans hlookup
    have hmem := h.watched name bucketName b hb hreapable
    rcases hundisturbed.kept name bucketName b hb with hgone | hkept
    · exact hwatchful.intact b.id (hids ▸ hmem) hgone
    · have hfalse := not_kept_replaced hattended hnorm hcovers happlies hupdate hget hnot hkept
      rw [hfalse] at hreapable
      cases hreapable
  · intro hcareful
    by_cases happlies : (s.system []).Applies newConfig
    · have hpurged := updateBucketContainer_purged hattended.sound
        (keyed_of_normalised hnorm s.server.bucketContainer) hupdate
      refine ⟨fun ns bucketName b hb hreapable => ?_, fun x hx => ?_⟩
      · rw [hids]
        rcases hundisturbed.made ns bucketName b hb with hold | ⟨-, hstatic⟩
        · exact h.watched ns bucketName b hold hreapable
        · rw [hstatic] at hreapable
          cases hreapable
      · obtain ⟨w, hw, rfl⟩ := mem_ids.mp (hids ▸ hx)
        refine (hpurged.spared _ ((h.guards hattended hw).spared hattended ?_)).intact
        intro ns bucketName b nsp hget hlookup hreapable
        exact hcareful happlies ns (mem_keys_of_get? hget) nsp hget
          ⟨⟨bucketName, b⟩, AList.mem_lookup_iff.mp hlookup, hreapable⟩
    · have hsame : updateBucketContainer fac order newConfig s.server = some s.server :=
        System.update_of_not_applies happlies
      cases hsame.symm.trans hupdate
      exact h

end Updates

section Receipts
variable {s : Watched F B} {w : Watcher} {ws : List Watcher}

theorem receive_watchful_iff (hattended : Attended s) (h : Watchful s)
    (queued : s.server.bucketContainer.newWatchers = w :: ws) :
    Watchful (s.receive w ws) ↔ s.Careful .addNewWatcher := by
  have hids := ids_receive queued
  constructor
  · intro hwatchful w₀ hw₀ w' hw'
    rw [queued] at hw₀
    cases hw₀
    -- the bucket of the watcher that is lost has no other
    obtain ⟨b, hb, hreapable, hguards⟩ := h.guards hattended (Or.inl ⟨_, hw'⟩)
    have hid : w'.activities = b.id := activities_of_watcher hguards
    have hmem := hwatchful.watched _ _ b hb hreapable
    have hdistinct := hattended.distinct
    rw [ids_of_lookup hw', Multiset.nodup_cons, ← hids, hid] at hdistinct
    exact absurd hmem hdistinct.1
  · intro hcareful
    have hfree : s.watchers.lookup w.identifier = none := by
      cases hlookup : s.watchers.lookup w.identifier with
      | none => rfl
      | some w' =>
        have hgone := hcareful w (by rw [queued]; rfl) w' hlookup
        exact absurd hgone (h.intact _ (mem_ids.mpr ⟨w', Or.inl ⟨_, hlookup⟩, rfl⟩))
    refine h.congr ?_ (fun _ _ => rfl) rfl
    rw [hids, AList.erase_of_lookup_none hfree]
    rfl

end Receipts

section Steps
variable {fac : BucketFactory F B} {s s' : Watched F B} {t : ℤ} {d : Deed}

/-- From a state in which the reaper watches the reapable buckets, a step leads to such a state
exactly if it is careful. -/
theorem step_watchful_iff (hattended : Attended s) (h : Watchful s)
    (hnorm : ∀ order newConfig, d = .update order newConfig → Normalised newConfig)
    (hs : s.step fac (t, d) = some s') : Watchful s' ↔ s.Careful d := by
  have hlater : Watchful { s with now := t } := ⟨h.watched, h.intact⟩
  obtain ⟨-, hhappened⟩ := step_happened hs
  cases hhappened with
  | found reported | reported reported =>
    obtain ⟨acts, -, rfl⟩ := reported
    exact iff_of_true ⟨h.watched, h.intact⟩ trivial
  | created adds => exact iff_of_true (watchful_add (hattended.later t) hlater adds) trivial
  | updated covers updated =>
    exact update_watchful_iff (hattended.later t) hlater (hnorm _ _ rfl) covers updated
  | received queued => exact receive_watchful_iff (hattended.later t) hlater queued
  | passed => exact iff_of_true (checkExpirations_watchful (hattended.later t) hlater _) trivial

end Steps

section Runs
variable {fac : BucketFactory F B} {s : Watched F B} {id : String} {w : Watcher}

theorem watchful_init (factory : F) (now : ℤ) : Watchful (init factory now : Watched F B) := by
  refine ⟨fun ns bucketName b hb => ?_, fun x hx => ?_⟩
  · cases (bucket?_of_absent Directory.get?_empty bucketName).symm.trans hb
  · cases hx

/-- No pass gets rid of the watcher of a bucket that has been destroyed. -/
theorem checkExpirations_gone (hattended : Attended s) (hw : s.watchers.lookup id = some w)
    (hgone : w.activities ∈ s.server.bucketContainer.destroyed) (order : List String) :
    ∃ t, (s.checkExpirations fac order).watchers.lookup id =
      some { w with lastActivity := t } := by
  have hpass : w.activities ∈ (s.checkExpirations fac order).server.bucketContainer.destroyed ∧
      ∃ t, (s.checkExpirations fac order).watchers.lookup id =
        some { w with lastActivity := t } := by
    refine hattended.checkExpirations_induction
      (P := fun s => w.activities ∈ s.server.bucketContainer.destroyed ∧
        ∃ t, s.watchers.lookup id = some { w with lastActivity := t })
      (fun s id' s' hattended hchecked h => ?_) ⟨hgone, w.lastActivity, hw⟩ order
    obtain ⟨hgone, t, hw⟩ := h
    obtain ⟨t', hkept⟩ := hchecked.gone hattended hw hgone
    exact ⟨hchecked.destroyed hgone, t', hkept⟩
  exact hpass.2

end Runs

/-- In every run whose steps are careful, every dynamic bucket with a time to be idle has a watcher
in every state that is reached, no watcher of a destroyed bucket is registered, and there are no
more watchers than live buckets; and a further step leaves it so exactly if it is careful, too. -/
theorem reaper_watches_live_buckets (fac : BucketFactory F B) (factory : F) (now : ℤ)
    (moments : List (ℤ × Deed)) (hnorm : Normal moments)
    (hcareful : Machine.Along (step fac) (fun s e => s.Careful e.2) (init factory now) moments)
    (s : Watched F B) (hrun : Machine.run (step fac) (init factory now) moments = some s) :
    (∀ ns bucketName b, s.server.bucketContainer.bucket? ns bucketName = some b →
      b.dynamic = true → 0 < b.cfg.maxIdleMillis → ∃ w, s.Watches w ∧ w.activities = b.id) ∧
    (∀ id w, s.watchers.lookup id = some w →
      w.activities ∉ s.server.bucketContainer.destroyed) ∧
    s.watchers.keys.length + s.server.bucketContainer.newWatchers.length ≤
      s.server.bucketContainer.live.card ∧
    ∀ t d s', (∀ order newConfig, d = .update order newConfig → Normalised newConfig) →
      s.step fac (t, d) = some s' → (Watchful s' ↔ s.Careful d) := by
  have h : Attended s ∧ Watchful s := by
    refine Machine.run_induction (fun s => Attended s ∧ Watchful s) (fun s e s' h hok hs => ?_)
      ⟨attended_init factory now, watchful_init factory now⟩ (Machine.along_and (hnorm.along _)
        hcareful) hrun
    exact ⟨step_attended (t := e.1) (d := e.2) h.1 hok.1 hs,
      (step_watchful_iff (t := e.1) (d := e.2) h.1 h.2 hok.1 hs).mpr hok.2⟩
  obtain ⟨hattended, hwatchful⟩ := h
  refine ⟨fun ns bucketName b hb hdynamic hidle => ?_, fun id w hw => ?_, ?_,
    fun t d s' hnormal hs => step_watchful_iff hattended hwatchful hnormal hs⟩
  · have hreapable := hattended.reapable ns bucketName b hb
    rw [hdynamic, decide_eq_true hidle] at hreapable
    exact mem_ids.mp (hwatchful.watched ns bucketName b hb hreapable)
  · exact hwatchful.intact _ (mem_ids.mpr ⟨w, Or.inl ⟨id, hw⟩, rfl⟩)
  · rw [← card_ids]
    apply Multiset.card_le_card
    rw [Multiset.le_iff_subset hattended.distinct]
    intro x hx
    obtain ⟨w, hw, rfl⟩ := mem_ids.mp hx
    obtain ⟨b, hb, -, hguards⟩ := hwatchful.guards hattended hw
    obtain ⟨ns, hget, hlookup⟩ := bucket?_eq_some.mp hb
    have hid : b.id = w.activities := (activities_of_watcher hguards).symm
    exact mem_live.mpr (Or.inr ⟨w.ns, ns, hget, Or.inr ⟨w.bucketName, b, hlookup, hid⟩⟩)

/-- A config that keeps the namespace of the bucket. -/
def kept : ServiceConfig := { System.shortLived with version := 1 }

/-- The bucket is created, watched, checked, and kept by an update. -/
theorem reaper_watches_live_buckets_kept :
    ∃ s b, Machine.run (step memoryFactory) (init () 0) (idling ++ [(6, .update ["a"] kept)]) =
        some s ∧ s.server.bucketContainer.bucket? "a" "x" = some b ∧
      (∃ w, s.Watches w ∧ w.activities = b.id) ∧ s.watchers.keys.length ≤ 1 := by
  have hnorm : Normal (idling ++ [(6, .update ["a"] kept)]) := by
    intro t order newConfig hmem
    rcases List.mem_append.mp hmem with hmem | hmem
    · exact normal_idling t order newConfig hmem
    · simp only [List.mem_singleton, Prod.mk.injEq, Deed.update.injEq] at hmem
      exact hmem.2.2 ▸ ⟨kept, kept, rfl, Or.inl rfl⟩
  have hrun := (Option.some_get (show (Machine.run (step memoryFactory) (init () 0)
    (idling ++ [(6, .update ["a"] kept)])).isSome = true by decide)).symm
  obtain ⟨hwatched, -, hcount, -⟩ := reaper_watches_live_buckets memoryFactory () 0 _ hnorm
    (by decide) _ hrun
  refine ⟨_, _, hrun, rfl, hwatched "a" "x" _ rfl rfl (by decide), ?_⟩
  exact (Nat.le_of_add_right_le hcount).trans (by decide)

/-- The namespace of the bucket is removed. Its watcher is still registered after a pass that runs
more than a second later, while there is no bucket left. -/
theorem reaper_keeps_dead_watcher :
    let removed : ServiceConfig := { version := 1 }
    Normalised System.shortLived ∧ Normalised removed ∧
      ∃ s w s' w', Machine.run (step memoryFactory) (init () 0)
          (idling ++ [(6, .update ["a"] removed)]) = some s ∧
        s.watchers.lookup "a:x" = some w ∧
        w.activities ∈ s.server.bucketContainer.destroyed ∧ w.maxIdle < 2000000000 - 6 ∧
        s.step memoryFactory (2000000000, .checkExpirations ["a:x"]) = some s' ∧
        s'.watchers.lookup "a:x" = some w' ∧ w'.activities = w.activities ∧
        s'.server.bucketContainer.live.card < s'.watchers.keys.length := by
  intro removed
  refine ⟨normalised_shortLived, ⟨removed, removed, rfl, Or.inl rfl⟩, ?_⟩
  have hrun := (Option.some_get (show (Machine.run (step memoryFactory) (init () 0)
    (idling ++ [(6, .update ["a"] removed)])).isSome = true by decide)).symm
  have hpass := (Option.some_get (show (step memoryFactory (Option.get _ (show (Machine.run
    (step memoryFactory) (init () 0) (idling ++ [(6, .update ["a"] removed)])).isSome = true
      by decide)) (2000000000, .checkExpirations ["a:x"])).isSome = true by decide)).symm
  exact ⟨_, _, _, _, hrun, rfl, by decide, by decide, hpass, rfl, rfl, by decide⟩

/-- Two buckets go by the identifier `a:b:c`, and the first of them has lost its watcher. -/
example :
    let namespaces := (AList.singleton "a" (some (applyNamespaceDefaults "a"
      { dynamicBucketTemplate := some { maxIdleMillis := 1000 } }))).insert "a:b" (some
        (applyNamespaceDefaults "a:b" { dynamicBucketTemplate := some { maxIdleMillis := 1000 } }))
    ((Machine.run (step memoryFactory) (init () 0)
      [(0, .update [] { namespaces := .table namespaces }), (1, .find "a:b" "c"),
        (2, .addNewWatcher), (3, .find "a" "b:c"), (4, .addNewWatcher)]).any fun s =>
      (s.server.bucketContainer.bucket? "a:b" "c").isSome && decide (0 ∉ s.ids)) = true := by
  decide

end Watched

end QuotaService.Container
