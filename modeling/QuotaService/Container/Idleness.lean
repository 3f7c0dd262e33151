import QuotaService.Container.Watching

/-! What the reaper removes. A report of activity is a token without a time, which a pass dates to
itself; no bucket is removed before it has been idle for its time, and none stays that a pass finds
idle for longer. -/
namespace QuotaService.Container
open Config

namespace Watched
variable {F B : Type} (fac : BucketFactory F B)

/-- The bucket on which a deed calls `ReportActivity`. -/
def reported (s : Watched F B) : Deed → Option (Bucket B)
  | .find ns bucketName =>
    (s.server.bucketContainer.findBucket fac ns bucketName).2.toOption.join
  | .report ns bucketName => s.server.bucketContainer.bucket? ns bucketName
  | _ => none

/-- The calls of `ReportActivity` in a run: when, and on which bucket. -/
def reports (s : Watched F B) (moments : List (ℤ × Deed)) : List (ℤ × ℕ) :=
  Machine.collect (step fac) (fun s e => (s.reported fac e.2).map fun b => (e.1, b.id)) s moments

/-- A report at time `a` on the bucket `x` has left a token, unless it has been read at that time or
later. -/
structure Seen (x : ℕ) (a : ℤ) (s : Watched F B) : Prop where
  past : a ≤ s.now
  recorded : ∀ id w, s.watchers.lookup id = some w → w.activities = x →
    x ∈ s.server.bucketContainer.activities ∨ x ∈ s.server.bucketContainer.destroyed ∨
      a ≤ w.lastActivity

/-- No watcher has been idle for longer than its time. -/
def Rested (s : Watched F B) (id : String) : Prop :=
  ∀ w, s.watchers.lookup id = some w → w.activities ∉ s.server.bucketContainer.destroyed →
    0 < w.maxIdle → s.now - w.maxIdle ≤ w.lastActivity

section Passes
variable {fac : BucketFactory F B} {s s' : Watched F B} {id id' : String} {x : ℕ} {a : ℤ}

theorem Checked.now (h : Checked fac s id s') : s'.now = s.now := by
  cases h <;> rfl

theorem Checked.destroyed (h : Checked fac s id s') (hx : x ∈ s.server.bucketContainer.destroyed) :
    x ∈ s'.server.bucketContainer.destroyed := by
  cases h with
  | unknown | active | waiting => exact hx
  | removed => exact Multiset.mem_cons_of_mem hx

/-- A check makes no bucket. -/
theorem Checked.bucket? (h : Checked fac s id s') {ns bucketName : String} {b : Bucket B}
    (hb : s'.server.bucketContainer.bucket? ns bucketName = some b) :
    s.server.bucketContainer.bucket? ns bucketName = some b := by
  cases h with
  | unknown | active | waiting => exact hb
  | removed registered idle quiet fetched =>
    have hdrop := (bucket?_drop fetched rfl ns bucketName).symm.trans hb
    split_ifs at hdrop
    exact hdrop

/-- A check of another watcher does not touch the watcher. -/
theorem Checked.other (h : Checked fac s id s') (hid : id' ≠ id) :
    s'.watchers.lookup id' = s.watchers.lookup id' := by
  cases h with
  | unknown => rfl
  | active | waiting => exact AList.lookup_insert_ne hid
  | removed => exact AList.lookup_erase_ne hid

/-- A check that reads the token of a report dates the report to the time of the pass. -/
theorem Checked.seen (hchecked : Checked fac s id s') (h : Attended s) (hseen : Seen x a s) :
    Seen x a s' := by
  refine ⟨hseen.past.trans (le_of_eq hchecked.now.symm), fun id' w' hw' hx => ?_⟩
  cases hchecked with
  | unknown => exact hseen.recorded id' w' hw' hx
  | @active w registered =>
    rcases AList.lookup_insert_cases hw' with ⟨-, rfl⟩ | ⟨hid, hold⟩
    · exact Or.inr (Or.inr hseen.past)
    · rcases hseen.recorded id' w' hold hx with htoken | hrest
      · have hne : x ≠ w.activities := by
          rintro rfl
          exact hid (h.lookup_inj registered hold hx)
        exact Or.inl (Finset.mem_erase.mpr ⟨hne, htoken⟩)
      · exact Or.inr hrest
  | @waiting w registered =>
    rcases AList.lookup_insert_cases hw' with ⟨-, rfl⟩ | ⟨-, hold⟩
    · exact hseen.recorded id w' registered hx
    · exact hseen.recorded id' w' hold hx
  | removed =>
    rcases hseen.recorded id' w' (AList.lookup_erase_cases hw').2 hx with htoken | hgone | hdated
    · exact Or.inl htoken
    · exact Or.inr (Or.inl (Multiset.mem_cons_of_mem hgone))
    · exact Or.inr (Or.inr hdated)

/-- What a check destroys has not been reported on for its time. -/
theorem Checked.removes (hchecked : Checked fac s id s')
    (hold : x ∉ s.server.bucketContainer.destroyed)
    (hnew : x ∈ s'.server.bucketContainer.destroyed) :
    ∃ ns bucketName b, s.server.bucketContainer.bucket? ns bucketName = some b ∧ b.id = x ∧
      b.reapable = true ∧ ∀ a, Seen x a s → a < s.now - idleTime b.cfg := by
  cases hchecked with
  | unknown | active | waiting => exact absurd hnew hold
  | @removed w r ns b registered idle quiet fetched held reapable guards =>
    have hx : x = b.id := (Multiset.mem_cons.mp hnew).resolve_right hold
    have hactivities : w.activities = x := (activities_of_watcher guards).trans hx.symm
    have hidle : w.maxIdle = idleTime b.cfg := maxIdle_of_watcher guards
    refine ⟨w.ns, w.bucketName, b, ?_, hx.symm, reapable, fun a hseen => ?_⟩
    · rw [bucket?_of_get? (get?_of_fetch fetched), held]
    · rcases hseen.recorded id w registered hactivities with htoken | hgone | hdated
      · exact absurd htoken (hactivities ▸ quiet)
      · exact absurd hgone hold
      · omega

theorem Checked.rested_self (h : Checked fac s id s') : Rested s' id := by
  intro w' hw' hintact hpos
  cases h with
  | unknown unregistered => cases unregistered.symm.trans hw'
  | active =>
    cases (AList.lookup_insert _).symm.trans hw'
    exact Int.sub_le_self _ hpos.le
  | waiting registered recent =>
    cases (AList.lookup_insert _).symm.trans hw'
    dsimp only
    omega
  | removed => exact absurd rfl (AList.lookup_erase_cases hw').1

theorem Checked.rested (h : Checked fac s id s') (hid : id' ≠ id) (hrested : Rested s id') :
    Rested s' id' := by
  intro w hw hintact hpos
  rw [h.now]
  exact hrested w ((h.other hid).symm.trans hw) (fun hgone => hintact (h.destroyed hgone)) hpos

/-- A check of an idle watcher destroys its bucket, unless that is gone. -/
theorem Checked.idle_self (h : Checked fac s id s') {w : Watcher}
    (hw : s.watchers.lookup id = some w)
    (hquiet : w.activities ∉ s.server.bucketContainer.activities)
    (hidle : w.lastActivity < s.now - w.maxIdle) :
    w.activities ∈ s'.server.bucketContainer.destroyed := by
  cases h with
  | unknown unregistered => cases unregistered.symm.trans hw
  | active registered detected =>
    cases registered.symm.trans hw
    exact detected.resolve_left hquiet
  | waiting registered recent =>
    cases registered.symm.trans hw
    omega
  | removed registered idle quiet fetched held reapable guards =>
    cases registered.symm.trans hw
    rw [activities_of_watcher guards]
    exact Multiset.mem_cons_self _ _

/-- A check reports nothing. -/
theorem Checked.quiet (h : Checked fac s id s') :
    s'.server.bucketContainer.activities ⊆ s.server.bucketContainer.activities := by
  cases h with
  | unknown | waiting | removed => exact subset_rfl
  | active => exact Finset.erase_subset _ _

theorem checkExpirations_now (h : Attended s) (order : List String) :
    (s.checkExpirations fac order).now = s.now :=
  h.checkExpirations_induction (P := fun s' => s'.now = s.now)
    (fun _ _ _ _ hchecked hnow => hchecked.now.trans hnow) rfl order

theorem checkExpirations_seen (h : Attended s) (order : List String) (hseen : Seen x a s) :
    Seen x a (s.checkExpirations fac order) :=
  h.checkExpirations_induction (fun _ _ _ h hchecked hseen => hchecked.seen h hseen) hseen order

theorem checkExpirations_removes (h : Attended s) (order : List String)
    (hold : x ∉ s.server.bucketContainer.destroyed)
    (hnew : x ∈ (s.checkExpirations fac order).server.bucketContainer.destroyed) :
    ∃ ns bucketName b, s.server.bucketContainer.bucket? ns bucketName = some b ∧ b.id = x ∧
      b.reapable = true ∧ ∀ a, Seen x a s → a < s.now - idleTime b.cfg := by
  induction order generalizing s with
  | nil => exact absurd hnew hold
  | cons id order ih =>
    have hchecked := h.checked fac id
    by_cases hfirst : x ∈ (s.check fac id).server.bucketContainer.destroyed
    · exact hchecked.removes hold hfirst
    · obtain ⟨ns, bucketName, b, hb, hid, hreapable, hseen⟩ := ih (h.check fac id) hfirst hnew
      refine ⟨ns, bucketName, b, hchecked.bucket? hb, hid, hreapable, fun a ha => ?_⟩
      rw [← hchecked.now]
      exact hseen a (hchecked.seen h ha)

theorem checkExpirations_rested (h : Attended s) (order : List String)
    (hrested : ∀ id, id ∉ order → Rested s id) (id : String) :
    Rested (s.checkExpirations fac order) id := by
  induction order generalizing s with
  | nil => exact hrested id List.not_mem_nil
  | cons id₀ order ih =>
    refine ih (h.check fac id₀) fun id' hid' => ?_
    have hchecked := h.checked fac id₀
    by_cases hid : id' = id₀
    · exact hid ▸ hchecked.rested_self
    · refine hchecked.rested hid (hrested id' ?_)
      rw [List.mem_cons, not_or]
      exact ⟨hid, hid'⟩

theorem checkExpirations_destroyed (h : Attended s) (order : List String)
    (hx : x ∈ s.server.bucketContainer.destroyed) :
    x ∈ (s.checkExpirations fac order).server.bucketContainer.destroyed :=
  h.checkExpirations_induction
    (P := fun s' => x ∈ s'.server.bucketContainer.destroyed) (fun _ _ _ _ hchecked hx => hchecked.destroyed hx) hx order

/-- A pass over an idle watcher destroys its bucket. -/
theorem checkExpirations_idle (h : Attended s) {order : List String} (hid : id ∈ order) {w : Watcher}
    (hw : s.watchers.lookup id = some w)
    (hquiet : w.activities ∉ s.server.bucketContainer.activities)
    (hidle : w.lastActivity < s.now - w.maxIdle) :
    w.activities ∈ (s.checkExpirations fac order).server.bucketContainer.destroyed := by
  induction order generalizing s with
  | nil => cases hid
  | cons id₀ order ih =>
    have hchecked := h.checked fac id₀
    by_cases hfirst : id = id₀
    · subst hfirst
      exact checkExpirations_destroyed (h.check fac id) order (hchecked.idle_self hw hquiet hidle)
    · have hlater := (List.mem_cons.mp hid).resolve_left hfirst
      refine ih (h.check fac id₀) hlater ((hchecked.other hfirst).trans hw)
        (fun hx => hquiet (hchecked.quiet hx)) ?_
      rw [hchecked.now]
      exact hidle

end Passes

section Reports
variable {fac : BucketFactory F B} {s s' : Watched F B} {x : ℕ} {a : ℤ} {d : Deed}

theorem Seen.later (h : Seen x a s) {t : ℤ} (ht : s.now ≤ t) : Seen x a { s with now := t } :=
  ⟨h.past.trans ht, h.recorded⟩

theorem happened_seen (h : Attended s)
    (hnorm : ∀ order newConfig, d = .update order newConfig → Normalised newConfig)
    (hseen : Seen x a s) (hs : Happened fac s d s') : Seen x a s' := by
  cases hs with
  | found reported | reported reported =>
    obtain ⟨acts, hacts, rfl⟩ := reported
    exact ⟨hseen.past, fun id w hw hx => (hseen.recorded id w hw hx).imp_left fun hx => hacts hx⟩
  | created adds =>
    obtain ⟨r, nsp, acts, -, -, rfl, -, hacts⟩ := adds.added
    exact ⟨hseen.past, fun id w hw hx => (hseen.recorded id w hw hx).imp_left fun hx => hacts hx⟩
  | updated covers updated =>
    obtain ⟨hundisturbed, -⟩ :=
      updateBucketContainer_undisturbed (hnorm _ _ rfl) h.fresh updated
    refine ⟨hseen.past, fun id w hw hx => ?_⟩
    rcases hseen.recorded id w hw hx with htoken | hgone | hdated
    · exact Or.inl (hundisturbed.activities ▸ htoken)
    · exact Or.inr (Or.inl (hundisturbed.destroyed x hgone))
    · exact Or.inr (Or.inr hdated)
  | received =>
    refine ⟨hseen.past, fun id w' hw' hx => ?_⟩
    rcases AList.lookup_insert_cases hw' with ⟨-, rfl⟩ | ⟨-, hold⟩
    · exact Or.inr (Or.inr hseen.past)
    · exact hseen.recorded id w' hold hx
  | passed => exact checkExpirations_seen h _ hseen

/-- A report on a bucket that is held leaves a token, if the bucket has a watcher. -/
theorem Attended.reported_token (h : Attended s) {ns bucketName : String} {b : Bucket B}
    (hb : s.server.bucketContainer.bucket? ns bucketName = some b) {w : Watcher}
    (hw : s.Watches w) (hx : w.activities = b.id) :
    b.id ∈ (s.server.bucketContainer.reportActivity b).activities := by
  have hreapable : b.reapable = true := by
    rcases h.placed w hw with hgone | ⟨b', hb', hreapable, hguards⟩
    · exact absurd (hx ▸ hgone) (h.sound.bucket?_intact hb).2
    · have hid : b.id = b'.id := hx.symm.trans (activities_of_watcher hguards)
      obtain ⟨-, -, rfl⟩ := h.sound.bucket?_inj hb hb' hid
      exact hreapable
  unfold BucketContainer.reportActivity
  rw [if_pos hreapable]
  exact Finset.mem_insert_self _ _

/-- No watcher is of a default bucket. -/
theorem Attended.default_gone (h : Attended s) {b : Bucket B} {w : Watcher}
    (hw : s.Watches w) (hx : w.activities = b.id)
    (hdefault : s.server.bucketContainer.defaultBucket = some b ∨
      ∃ name ns, s.server.bucketContainer.namespaces.get? name = some ns ∧
        ns.defaultBucket = some b) : b.id ∈ s.server.bucketContainer.destroyed := by
  rcases h.placed w hw with hgone | ⟨b', hb', -, hguards⟩
  · exact hx ▸ hgone
  · have hid : b'.id = b.id := (activities_of_watcher hguards).symm.trans hx
    exact absurd hid (h.sound.bucket?_ne_default hb' hdefault)

/-- A report is seen from the moment that it is made. -/
theorem reported_seen (h : Attended s) {b : Bucket B} (hb : s.reported fac d = some b)
    (hs : s.perform fac d = some s') : Seen b.id s.now s' := by
  cases d with
  | find ns bucketName =>
    cases hs
    refine ⟨le_rfl, fun id w hw hx => ?_⟩
    have hwatches : s.Watches w := Or.inl ⟨id, hw⟩
    have hb : (s.server.bucketContainer.findBucket fac ns bucketName).2.toOption.join = some b := hb
    have hsought := findBucket_sought fac s.server.bucketContainer ns bucketName
    generalize s.server.bucketContainer.findBucket fac ns bucketName = out at hsought hb ⊢
    cases hsought with
    | global missing reported =>
      obtain ⟨acts, -, rfl⟩ := reported
      exact Or.inr (Or.inl (h.default_gone hwatches hx (Or.inl hb)))
    | existing get held =>
      cases hb
      exact Or.inl (h.reported_token (bucket?_eq_some.mpr ⟨_, get, held⟩) hwatches hx)
    | default get absent static reported =>
      obtain ⟨acts, -, rfl⟩ := reported
      exact Or.inr (Or.inl (h.default_gone hwatches hx (Or.inr ⟨ns, _, get, hb⟩)))
    | full => cases hb
    | created get absent template origin adds =>
      cases hb
      have hlt := h.issued w hwatches
      have hid := adds.id
      omega
  | report ns bucketName =>
    obtain ⟨b', hb', rfl⟩ := Option.map_eq_some_iff.mp hs
    cases hb'.symm.trans hb
    refine ⟨le_rfl, fun id w hw hx => Or.inl ?_⟩
    exact h.reported_token hb' (Or.inl ⟨id, hw⟩) hx
  | update | addNewWatcher | checkExpirations => cases hb

end Reports

section Runs
variable {fac : BucketFactory F B} {s s' s₀ : Watched F B} {moments : List (ℤ × Deed)}
variable {t a : ℤ} {d : Deed} {x : ℕ}

theorem step_seen (hnorm : ∀ order newConfig, d = .update order newConfig → Normalised newConfig)
    (h : Attended s) (hseen : Seen x a s) (hs : s.step fac (t, d) = some s') : Seen x a s' := by
  obtain ⟨ht, hhappened⟩ := step_happened hs
  exact happened_seen (h.later t) hnorm (hseen.later ht) hhappened

/-- Every report of a run is seen at its end. -/
theorem run_seen (hnorm : Normal moments) (h₀ : Attended s₀)
    (hrun : Machine.run (step fac) s₀ moments = some s)
    (hreport : (a, x) ∈ reports fac s₀ moments) : Seen x a s := by
  obtain ⟨before, ⟨t, d⟩, after, s₁, s₂, rfl, hbefore, hstep, hout, hafter⟩ :=
    Machine.exists_of_mem_collect hrun hreport
  obtain ⟨b, hb, heq⟩ := Option.map_eq_some_iff.mp hout
  cases heq
  have h₁ : Attended s₁ := run_attended (hnorm.mono fun e he => by simp [he]) h₀ hbefore
  have hnormal : ∀ e ∈ (t, d) :: after, ∀ order newConfig, e.2 = .update order newConfig →
      Normalised newConfig := fun e he order newConfig hd =>
    hnorm e.1 order newConfig (List.mem_append.mpr (Or.inr (hd ▸ he)))
  have h₂ : Attended s₂ := step_attended h₁ (hnormal (t, d) (List.mem_cons_self ..)) hstep
  have hseen : Seen b.id t s₂ := by
    unfold step at hstep
    split_ifs at hstep
    exact reported_seen (h₁.later t) hb hstep
  refine (Machine.run_induction (fun s => Attended s ∧ Seen b.id t s)
    (fun s e s' h hnorm hs => ⟨step_attended (t := e.1) (d := e.2) h.1 hnorm hs,
      step_seen (t := e.1) (d := e.2) hnorm h.1 h.2 hs⟩) ⟨h₂, hseen⟩
    (Machine.along_of_forall (fun e he _ => hnormal e (List.mem_cons_of_mem _ he)) s₂) hafter).2

end Runs

/-- A pass removes only buckets on which there was no report for as long as they may be idle; it
destroys every bucket without an unread report that it finds idle for longer, and leaves none such in
its place. -/
theorem reaper_removes_only_idle (fac : BucketFactory F B) (factory : F) (now : ℤ)
    (moments : List (ℤ × Deed)) (hnorm : Normal moments) (s : Watched F B)
    (hrun : Machine.run (step fac) (init factory now) moments = some s) (t : ℤ)
    (order : List String) (s' : Watched F B)
    (hpass : s.step fac (t, .checkExpirations order) = some s') :
    (∀ x ∈ s'.server.bucketContainer.destroyed, x ∉ s.server.bucketContainer.destroyed →
      ∃ ns bucketName b, s.server.bucketContainer.bucket? ns bucketName = some b ∧ b.id = x ∧
        b.reapable = true ∧
        ∀ a, (a, x) ∈ reports fac (init factory now) moments → a < t - idleTime b.cfg) ∧
    (∀ id w, s.watchers.lookup id = some w →
      w.activities ∉ s.server.bucketContainer.activities → w.lastActivity < t - w.maxIdle →
      w.activities ∈ s'.server.bucketContainer.destroyed) ∧
    ∀ id w, s'.watchers.lookup id = some w →
      w.activities ∉ s'.server.bucketContainer.destroyed → 0 < w.maxIdle →
      t - w.maxIdle ≤ w.lastActivity := by
  have h : Attended s := run_attended hnorm (attended_init factory now) hrun
  obtain ⟨ht, hhappened⟩ := step_happened hpass
  have hlater := h.later t
  cases hhappened with
  | passed perm =>
    have hvisited : ∀ id w, s.watchers.lookup id = some w → id ∈ order := by
      intro id w hw
      rw [perm.mem_iff]
      exact AList.mem_keys.mpr (AList.lookup_isSome.mp (Option.isSome_iff_exists.mpr ⟨w, hw⟩))
    refine ⟨fun x hnew hold => ?_, fun id w hw hquiet hidle => ?_, fun id w hw hintact hpos => ?_⟩
    · obtain ⟨ns, bucketName, b, hb, hid, hreapable, hseen⟩ :=
        checkExpirations_removes hlater order hold hnew
      refine ⟨ns, bucketName, b, hb, hid, hreapable, fun a hreport => ?_⟩
      exact hseen a ((run_seen hnorm (attended_init factory now) hrun hreport).later ht)
    · exact checkExpirations_idle hlater (hvisited id w hw) hw hquiet hidle
    · have hrested : Rested ({ s with now := t }.checkExpirations fac order) id :=
        checkExpirations_rested hlater order
          (fun id hid w hw => absurd (hvisited id w hw) hid) id
      have hrest := hrested w hw hintact hpos
      rwa [checkExpirations_now hlater] at hrest

theorem normalised_shortLived : Normalised System.shortLived :=
  ⟨System.shortLived, System.shortLived, rfl, Or.inl rfl⟩

/-- A bucket is created, and a pass sees the report of its creation. -/
def idling : List (ℤ × Deed) :=
  [(0, .update [] System.shortLived), (1, .find "a" "x"), (2, .addNewWatcher),
    (5, .checkExpirations ["a:x"])]

theorem normal_idling : Normal idling := by
  intro t order newConfig hmem
  simp only [idling, List.mem_cons, Prod.mk.injEq, Deed.update.injEq, reduceCtorEq, and_false,
    List.not_mem_nil, or_false] at hmem
  exact hmem.2.2 ▸ normalised_shortLived

/-- The second pass removes the bucket, more than a second after the first. -/
theorem reaper_removes_only_idle_second_pass :
    ∃ s s', Machine.run (step memoryFactory) (init () 0) idling = some s ∧
      s.step memoryFactory (1000000006, .checkExpirations ["a:x"]) = some s' ∧
      0 ∈ s'.server.bucketContainer.destroyed ∧
      (1, 0) ∈ reports memoryFactory (init () 0) idling ∧
      ∃ ns bucketName b, s.server.bucketContainer.bucket? ns bucketName = some b ∧ b.id = 0 ∧
        ∀ a, (a, 0) ∈ reports memoryFactory (init () 0) idling →
          a < 1000000006 - idleTime b.cfg := by
  have hrun := (Option.some_get (show (Machine.run (step memoryFactory) (init () 0)
    idling).isSome = true by decide)).symm
  have hpass := (Option.some_get (show (step memoryFactory (Option.get _ (show (Machine.run
    (step memoryFactory) (init () 0) idling).isSome = true by decide))
      (1000000006, .checkExpirations ["a:x"])).isSome = true by decide)).symm
  obtain ⟨hremoves, -, -⟩ := reaper_removes_only_idle memoryFactory () 0 idling normal_idling _ hrun
    _ _ _ hpass
  obtain ⟨ns, bucketName, b, hb, hid, -, hreports⟩ := hremoves 0 (by decide) (by decide)
  exact ⟨_, _, hrun, hpass, by decide, by decide, ns, bucketName, b, hb, hid, hreports⟩

end Watched

end QuotaService.Container
