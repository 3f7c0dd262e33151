import QuotaService.Container.Placement
import QuotaService.Container.Reaping

/-! The reaper on the clock. A lookup, an update, the receipt of a watcher and a pass over all
watchers each happen at once, at times that do not decrease; what they do is a run of the
interleaved system. -/
namespace QuotaService.Container
open Config

/-- A server and its reaper at a time. -/
structure Watched (F B : Type) where
  server : Server F B
  watchers : AList fun _ : String => Watcher
  now : ℤ

/-- What can happen at a time; `report` is a call of `ReportActivity` on a bucket that is held. -/
inductive Deed
  | find («namespace» bucketName : String)
  | report («namespace» bucketName : String)
  | update (order : List String) (newConfig : ServiceConfig)
  | addNewWatcher
  | checkExpirations (order : List String)

namespace Watched
variable {F B : Type} (fac : BucketFactory F B)

def init (factory : F) (now : ℤ) : Watched F B := ⟨empty factory, ∅, now⟩

def setContainer (s : Watched F B) (bc : BucketContainer F B) : Watched F B :=
  { s with server := { s.server with bucketContainer := bc } }

def addNewWatcher (s : Watched F B) (w : Watcher) : Watched F B :=
  { s with watchers := s.watchers.insert w.identifier { w with lastActivity := s.now } }

/-- A watcher is received, and others are left in the channel. -/
def receive (s : Watched F B) (w : Watcher) (ws : List Watcher) : Watched F B :=
  (s.setContainer { s.server.bucketContainer with newWatchers := ws }).addNewWatcher w

/-- The check of one watcher, with the removal of its bucket. -/
def check (s : Watched F B) (id : String) : Watched F B :=
  match s.watchers.lookup id with
  | none => s
  | some w =>
    let (bc, w, idle) := s.server.bucketContainer.tooIdle s.now w
    let watchers := s.watchers.insert id w
    if idle then
      let (bc, removed) := bc.removeNamedBucket fac w.ns w.bucketName
      { s.setContainer bc with watchers := if removed then watchers.erase id else watchers }
    else { s.setContainer bc with watchers := watchers }

def checkExpirations (s : Watched F B) (order : List String) : Watched F B :=
  order.foldl (check fac) s

def perform (s : Watched F B) : Deed → Option (Watched F B)
  | .find ns bucketName =>
    some (s.setContainer (s.server.bucketContainer.findBucket fac ns bucketName).1)
  | .report ns bucketName => (s.server.bucketContainer.bucket? ns bucketName).map fun b =>
    s.setContainer (s.server.bucketContainer.reportActivity b)
  | .update order newConfig =>
    (Container.step fac s.server (.update order newConfig)).map fun server =>
      { s with server := server }
  | .addNewWatcher =>
    match s.server.bucketContainer.newWatchers with
    | [] => none
    | w :: ws => some (s.receive w ws)
  | .checkExpirations order =>
    if order.Perm s.watchers.keys then some (s.checkExpirations fac order) else none

/-- A deed at a time that is not in the past. -/
def step (s : Watched F B) (e : ℤ × Deed) : Option (Watched F B) :=
  if s.now ≤ e.1 then { s with now := e.1 }.perform fac e.2 else none

/-- The watcher is registered, or waits to be. -/
def Watches (s : Watched F B) (w : Watcher) : Prop :=
  (∃ id, s.watchers.lookup id = some w) ∨ w ∈ s.server.bucketContainer.newWatchers

/-- The numbers of the buckets whose watchers are registered or wait to be. -/
def ids (s : Watched F B) : Multiset ℕ :=
  AList.total (fun _ w => {w.activities}) s.watchers +
    (s.server.bucketContainer.newWatchers.map Watcher.activities : List ℕ)

/-- The bucket that the watcher was made for is in its place. -/
def Guards (s : Watched F B) (w : Watcher) : Prop :=
  ∃ b, s.server.bucketContainer.bucket? w.ns w.bucketName = some b ∧ b.reapable = true ∧
    w = { b.watcher w.ns w.bucketName with lastActivity := w.lastActivity }

/-- Every watcher is the only one of its bucket, which is in its place as long as it has not been
destroyed, and the buckets that report to the reaper are those with a time to be idle. -/
structure Attended (s : Watched F B) : Prop where
  sound : Sound s.server.bucketContainer
  fresh : s.server.bucketContainer.cfg = none →
    ∀ name, s.server.bucketContainer.namespaces.get? name = none
  keyed : ∀ id w, s.watchers.lookup id = some w → w.identifier = id
  distinct : s.ids.Nodup
  issued : ∀ w, s.Watches w → w.activities < s.server.bucketContainer.nextBucket
  placed : ∀ w, s.Watches w → w.activities ∈ s.server.bucketContainer.destroyed ∨ s.Guards w
  reapable : ∀ ns bucketName b, s.server.bucketContainer.bucket? ns bucketName = some b →
    b.reapable = (b.dynamic && decide (0 < b.cfg.maxIdleMillis))

section Ids
variable {s s' : Watched F B} {w w' : Watcher} {id id' : String}

theorem mem_ids {x : ℕ} : x ∈ s.ids ↔ ∃ w, s.Watches w ∧ w.activities = x := by
  unfold ids
  simp only [Multiset.mem_add, AList.mem_total, Multiset.mem_singleton, Multiset.mem_coe,
    List.mem_map, Watches]
  constructor
  · rintro (⟨id, w, hw, rfl⟩ | ⟨w, hw, rfl⟩)
    · exact ⟨w, Or.inl ⟨id, hw⟩, rfl⟩
    · exact ⟨w, Or.inr hw, rfl⟩
  · rintro ⟨w, ⟨id, hw⟩ | hw, rfl⟩
    · exact Or.inl ⟨id, w, hw, rfl⟩
    · exact Or.inr ⟨w, hw, rfl⟩

theorem card_ids (s : Watched F B) : s.ids.card =
    s.watchers.keys.length + s.server.bucketContainer.newWatchers.length := by
  have hcard : ∀ l : List (Sigma fun _ : String => Watcher),
      (l.map fun e => ({e.2.activities} : Multiset ℕ)).sum.card = l.length := by
    intro l
    induction l with
    | nil => rfl
    | cons e l ih => simp [ih, add_comm]
  have hkeys : s.watchers.keys.length = s.watchers.entries.length := by
    simp [AList.keys, List.keys]
  rw [ids, Multiset.card_add, AList.total, hcard, hkeys]
  simp

theorem ids_of_lookup (h : s.watchers.lookup id = some w) : s.ids = w.activities ::ₘ
    (AList.total (fun _ w => {w.activities}) (s.watchers.erase id) +
      (s.server.bucketContainer.newWatchers.map Watcher.activities : List ℕ)) := by
  unfold ids
  rw [AList.total_erase _ h, Multiset.singleton_add, Multiset.cons_add]

theorem activities_of_watcher {b : Bucket B}
    (h : w = { b.watcher w.ns w.bucketName with lastActivity := w.lastActivity }) :
    w.activities = b.id := by
  rw [h]
  rfl

theorem maxIdle_of_watcher {b : Bucket B}
    (h : w = { b.watcher w.ns w.bucketName with lastActivity := w.lastActivity }) :
    w.maxIdle = idleTime b.cfg := by
  rw [h]
  rfl

/-- No two registered watchers are of the same bucket. -/
theorem Attended.lookup_inj (h : Attended s) (hw : s.watchers.lookup id = some w)
    (hw' : s.watchers.lookup id' = some w') (hsame : w'.activities = w.activities) : id' = id := by
  by_contra hne
  have hdistinct := h.distinct
  rw [ids_of_lookup hw, Multiset.nodup_cons, Multiset.mem_add, not_or] at hdistinct
  refine hdistinct.1.1 (AList.mem_total.mpr ⟨id', w', ?_, ?_⟩)
  · exact (AList.lookup_erase_ne hne).trans hw'
  · rw [hsame]
    exact Multiset.mem_singleton_self _

end Ids

section Checks
variable {fac : BucketFactory F B} {s s' : Watched F B} {id : String}

/-- What the check of a watcher comes to, as long as its bucket is in its place. -/
inductive Checked (fac : BucketFactory F B) (s : Watched F B) (id : String) : Watched F B → Prop
  | unknown (unregistered : s.watchers.lookup id = none) : Checked fac s id s
  | active {w : Watcher} (registered : s.watchers.lookup id = some w)
    (detected : w.activities ∈ s.server.bucketContainer.activities ∨
      w.activities ∈ s.server.bucketContainer.destroyed) :
    Checked fac s id { s.setContainer { s.server.bucketContainer with
        activities := s.server.bucketContainer.activities.erase w.activities } with
      watchers := s.watchers.insert id { w with lastActivity := s.now } }
  | waiting {w : Watcher} (registered : s.watchers.lookup id = some w)
    (recent : s.now - w.lastActivity ≤ w.maxIdle) :
    Checked fac s id { s with watchers := s.watchers.insert id w }
  | removed {w : Watcher} {r : ℕ} {ns : Namespace B} {b : Bucket B}
    (registered : s.watchers.lookup id = some w)
    (idle : w.maxIdle < s.now - w.lastActivity)
    (quiet : w.activities ∉ s.server.bucketContainer.activities)
    (fetched : s.server.bucketContainer.fetch w.ns = some (r, ns))
    (held : ns.buckets.lookup w.bucketName = some b) (reapable : b.reapable = true)
    (guards : w = { b.watcher w.ns w.bucketName with lastActivity := w.lastActivity }) :
    Checked fac s id { s.setContainer { s.server.bucketContainer with
        factory := fac.destroy s.server.bucketContainer.factory b.impl
        destroyed := b.id ::ₘ s.server.bucketContainer.destroyed
        namespaces :=
          s.server.bucketContainer.namespaces.modify r (Namespace.dropBucket w.bucketName b) } with
      watchers := s.watchers.erase id }

theorem Attended.checked (h : Attended s) (fac : BucketFactory F B) (id : String) :
    Checked fac s id (s.check fac id) := by
  unfold check
  cases hw : s.watchers.lookup id with
  | none => exact .unknown hw
  | some w =>
    unfold BucketContainer.tooIdle BucketContainer.activityDetected
    by_cases hdetected : w.activities ∈ s.server.bucketContainer.activities ∨
        w.activities ∈ s.server.bucketContainer.destroyed
    · simp only [hdetected, decide_true, if_true, Bool.false_eq_true, if_false]
      exact .active hw hdetected
    · obtain ⟨hquiet, hintact⟩ := not_or.mp hdetected
      simp only [hdetected, decide_false, Bool.false_eq_true, if_false, decide_eq_true_eq]
      by_cases hidle : w.maxIdle < s.now - w.lastActivity
      · obtain ⟨b, hb, hreapable, hguards⟩ := (h.placed w (Or.inl ⟨id, hw⟩)).resolve_left hintact
        obtain ⟨ns, hget, hlookup⟩ := bucket?_eq_some.mp hb
        obtain ⟨r, hfetch⟩ := exists_fetch hget
        obtain ⟨hr, hns⟩ := fetch_eq_some.mp hfetch
        have herase : (s.watchers.insert id w).erase id = s.watchers.erase id :=
          AList.ext (List.kerase_cons_eq rfl)
        simp only [hidle, if_true, BucketContainer.removeNamedBucket, hr,
          removeBucket_of_lookup fac hns hlookup, herase]
        exact .removed hw hidle hquiet hfetch hlookup hreapable hguards
      · simp only [hidle, if_false]
        exact .waiting hw (not_lt.mp hidle)

end Checks

section Attended
variable {fac : BucketFactory F B} {s s' : Watched F B} {w : Watcher}

/-- What is known of a watcher does not depend on when it last saw activity. -/
theorem Guards.renew (h : s.Guards w) (t : ℤ) : s.Guards { w with lastActivity := t } := by
  obtain ⟨b, hb, hreapable, hw⟩ := h
  exact ⟨b, hb, hreapable, congrArg (fun w' : Watcher => { w' with lastActivity := t }) hw⟩

/-- A step that makes no watcher, and leaves buckets in their places or destroys them. -/
theorem Attended.carry (h : Attended s) (hsound : Sound s'.server.bucketContainer)
    (hfresh : s'.server.bucketContainer.cfg = none →
      ∀ name, s'.server.bucketContainer.namespaces.get? name = none)
    (hkeyed : ∀ id w, s'.watchers.lookup id = some w → w.identifier = id)
    (hids : s'.ids ≤ s.ids)
    (hnext : s.server.bucketContainer.nextBucket ≤ s'.server.bucketContainer.nextBucket)
    (hwatches : ∀ w', s'.Watches w' → ∃ w t, s.Watches w ∧ w' = { w with lastActivity := t })
    (hdestroyed : ∀ x ∈ s.server.bucketContainer.destroyed,
      x ∈ s'.server.bucketContainer.destroyed)
    (hplaced : ∀ w, s.Watches w → s.Guards w →
      w.activities ∈ s'.server.bucketContainer.destroyed ∨ s'.Guards w)
    (hmade : ∀ ns bucketName b, s'.server.bucketContainer.bucket? ns bucketName = some b →
      s.server.bucketContainer.bucket? ns bucketName = some b ∨
        (b.dynamic = false ∧ b.reapable = false)) : Attended s' := by
  refine ⟨hsound, hfresh, hkeyed, Multiset.nodup_of_le hids h.distinct, fun w' hw' => ?_,
    fun w' hw' => ?_, fun ns bucketName b hb => ?_⟩
  · obtain ⟨w, t, hw, rfl⟩ := hwatches w' hw'
    exact (h.issued w hw).trans_le hnext
  · obtain ⟨w, t, hw, rfl⟩ := hwatches w' hw'
    rcases h.placed w hw with hgone | hguards
    · exact Or.inl (hdestroyed _ hgone)
    · rcases hplaced w hw hguards with hgone | hguards'
      · exact Or.inl hgone
      · exact Or.inr (hguards'.renew t)
  · rcases hmade ns bucketName b hb with hold | ⟨hdynamic, hreapable⟩
    · exact h.reapable ns bucketName b hold
    · simp [hdynamic, hreapable]

/-- The watchers after one of them has been registered anew. -/
theorem watches_insert {w' : Watcher} {id : String} {t : ℤ} (hw' : s'.Watches w')
    (hw : s.Watches w)
    (hwatchers : s'.watchers = s.watchers.insert id { w with lastActivity := t })
    (hqueue : ∀ w' ∈ s'.server.bucketContainer.newWatchers,
      w' ∈ s.server.bucketContainer.newWatchers) :
    ∃ w t, s.Watches w ∧ w' = { w with lastActivity := t } := by
  rcases hw' with ⟨id', hw'⟩ | hw'
  · rw [hwatchers] at hw'
    rcases AList.lookup_insert_cases hw' with ⟨-, rfl⟩ | ⟨-, hold⟩
    · exact ⟨w, t, hw, rfl⟩
    · exact ⟨w', w'.lastActivity, Or.inl ⟨id', hold⟩, rfl⟩
  · exact ⟨w', w'.lastActivity, Or.inr (hqueue w' hw'), rfl⟩

theorem keyed_insert {watchers : AList fun _ : String => Watcher} {id : String}
    (h : ∀ id w, watchers.lookup id = some w → w.identifier = id) (hw : w.identifier = id) :
    ∀ id' w', (watchers.insert id w).lookup id' = some w' → w'.identifier = id' := by
  intro id' w' hw'
  rcases AList.lookup_insert_cases hw' with ⟨rfl, rfl⟩ | ⟨-, hold⟩
  · exact hw
  · exact h id' w' hold

/-- Putting a watcher back in its place changes no number. -/
theorem total_reinsert {watchers : AList fun _ : String => Watcher} {id : String}
    (hw : watchers.lookup id = some w) (t : ℤ) :
    AList.total (fun _ w => ({w.activities} : Multiset ℕ))
        (watchers.insert id { w with lastActivity := t }) =
      AList.total (fun _ w => {w.activities}) watchers := by
  rw [AList.total_insert, AList.total_erase _ hw]

/-- Activity that is reported or read touches no watcher and no bucket. -/
theorem Attended.quiet (h : Attended s) (acts : Finset ℕ) :
    Attended (s.setContainer { s.server.bucketContainer with activities := acts }) :=
  ⟨h.sound.quiet _ _, h.fresh, h.keyed, h.distinct, h.issued, h.placed, h.reapable⟩

/-- A watcher is put back in its place. -/
theorem Attended.reinsert (h : Attended s) {id : String} (hw : s.watchers.lookup id = some w)
    (t : ℤ) : Attended { s with watchers := s.watchers.insert id { w with lastActivity := t } } := by
  have hkeyed := keyed_insert (w := { w with lastActivity := t }) h.keyed (h.keyed id w hw)
  have hids : ({ s with watchers := s.watchers.insert id { w with lastActivity := t } } :
      Watched F B).ids = s.ids := by
    unfold ids
    exact congrArg (· + _) (total_reinsert hw t)
  refine h.carry h.sound h.fresh hkeyed (le_of_eq hids) le_rfl (fun w' hw' => ?_)
    (fun _ hx => hx) (fun w' _ hguards => Or.inr hguards) fun _ _ _ => Or.inl
  exact watches_insert hw' (Or.inl ⟨id, hw⟩) rfl fun _ hx => hx

theorem Attended.check (h : Attended s) (fac : BucketFactory F B) (id : String) :
    Attended (s.check fac id) := by
  have hchecked := h.checked fac id
  generalize s.check fac id = s' at hchecked ⊢
  cases hchecked with
  | unknown => exact h
  | @active w registered =>
    have hquiet := h.quiet (s.server.bucketContainer.activities.erase w.activities)
    exact hquiet.reinsert registered s.now
  | @waiting w registered recent => exact h.reinsert registered w.lastActivity
  | @removed w r ns b registered idle quiet fetched held reapable guards =>
    have hr := (fetch_eq_some.mp fetched).2
    have hsound := h.sound.removeBucket fac r w.bucketName
    rw [removeBucket_of_lookup fac hr held] at hsound
    refine h.carry hsound (fun hcfg => ?_) (fun id' w' hw' => ?_) ?_ le_rfl (fun w' hw' => ?_)
      (fun x hx => Multiset.mem_cons_of_mem hx) (fun w' hw' hguards => ?_)
      fun ns' n' b' hb' => ?_
    · have hnone := h.fresh hcfg w.ns
      rw [get?_of_fetch fetched] at hnone
      cases hnone
    · exact h.keyed id' w' (AList.lookup_erase_cases hw').2
    · rw [ids_of_lookup registered]
      exact Multiset.le_cons_self _ _
    · rcases hw' with ⟨id', hw'⟩ | hw'
      · have hold := (AList.lookup_erase_cases hw').2
        exact ⟨w', w'.lastActivity, Or.inl ⟨id', hold⟩, rfl⟩
      · exact ⟨w', w'.lastActivity, Or.inr hw', rfl⟩
    · obtain ⟨b', hb', hreapable', hw⟩ := hguards
      by_cases hplace : w'.ns = w.ns ∧ w'.bucketName = w.bucketName
      · rw [hplace.1, hplace.2, bucket?_of_get? (get?_of_fetch fetched)] at hb'
        cases held.symm.trans hb'
        left
        rw [activities_of_watcher hw]
        exact Multiset.mem_cons_self _ _
      · right
        refine ⟨b', ?_, hreapable', hw⟩
        exact (bucket?_drop fetched rfl _ _).trans ((if_neg hplace).trans hb')
    · have hdrop := (bucket?_drop fetched rfl ns' n').symm.trans hb'
      split_ifs at hdrop
      exact Or.inl hdrop

theorem Attended.checkExpirations (h : Attended s) (fac : BucketFactory F B)
    (order : List String) : Attended (s.checkExpirations fac order) :=
  List.foldlRecOn order _ h fun _ h id _ => h.check fac id

/-- What every check keeps is kept by a pass. -/
theorem Attended.checkExpirations_induction {P : Watched F B → Prop}
    (hcheck : ∀ s id s', Attended s → Checked fac s id s' → P s → P s')
    (hattended : Attended s) (h : P s) (order : List String) :
    P (s.checkExpirations fac order) := by
  have hpass : Attended (s.checkExpirations fac order) ∧ P (s.checkExpirations fac order) := by
    refine List.foldlRecOn (motive := fun s => Attended s ∧ P s) order _ ⟨hattended, h⟩
      fun s hs id _ => ?_
    obtain ⟨hattended, h⟩ := hs
    exact ⟨hattended.check fac id, hcheck s id _ hattended (hattended.checked fac id) h⟩
  exact hpass.2

end Attended

section Steps
variable {fac : BucketFactory F B} {s s' : Watched F B} {t : ℤ} {d : Deed}

/-- What a deed comes to. -/
inductive Happened (fac : BucketFactory F B) (s : Watched F B) : Deed → Watched F B → Prop
  | found {ns bucketName : String} {bc : BucketContainer F B}
    (reported : Reported s.server.bucketContainer bc) :
    Happened fac s (.find ns bucketName) (s.setContainer bc)
  | created {ns bucketName : String} {b : Bucket B} {bc : BucketContainer F B}
    (adds : Adds fac ns bucketName b s.server.bucketContainer bc) :
    Happened fac s (.find ns bucketName) (s.setContainer bc)
  | reported {ns bucketName : String} {bc : BucketContainer F B}
    (reported : Reported s.server.bucketContainer bc) :
    Happened fac s (.report ns bucketName) (s.setContainer bc)
  | updated {order : List String} {newConfig : ServiceConfig} {server : Server F B}
    (covers : Covers order s.server)
    (updated : updateBucketContainer fac order newConfig s.server = some server) :
    Happened fac s (.update order newConfig) { s with server := server }
  | received {w : Watcher} {ws : List Watcher}
    (queued : s.server.bucketContainer.newWatchers = w :: ws) :
    Happened fac s .addNewWatcher (s.receive w ws)
  | passed {order : List String} (perm : order.Perm s.watchers.keys) :
    Happened fac s (.checkExpirations order) (s.checkExpirations fac order)

theorem perform_happened (h : s.perform fac d = some s') : Happened fac s d s' := by
  cases d with
  | find ns bucketName =>
    cases h
    have hsought := findBucket_sought fac s.server.bucketContainer ns bucketName
    generalize s.server.bucketContainer.findBucket fac ns bucketName = out at hsought ⊢
    cases hsought with
    | global missing reported => exact .found reported
    | existing => exact .found (reported_reportActivity _ _)
    | default get absent static reported => exact .found reported
    | full => exact .found ⟨_, subset_rfl, rfl⟩
    | created get absent template origin adds => exact .created adds
  | report ns bucketName =>
    obtain ⟨b, -, rfl⟩ := Option.map_eq_some_iff.mp h
    exact .reported (reported_reportActivity _ _)
  | update order newConfig =>
    obtain ⟨server, hserver, rfl⟩ := Option.map_eq_some_iff.mp h
    simp only [Container.step] at hserver
    split_ifs at hserver with hcovers
    exact .updated hcovers hserver
  | addNewWatcher =>
    simp only [perform] at h
    cases hqueue : s.server.bucketContainer.newWatchers with
    | nil => simp [hqueue] at h
    | cons w ws =>
      simp only [hqueue, Option.some.injEq] at h
      exact h ▸ .received hqueue
  | checkExpirations order =>
    simp only [perform] at h
    split_ifs at h with hperm
    cases h
    exact .passed hperm

theorem step_happened (h : s.step fac (t, d) = some s') :
    s.now ≤ t ∧ Happened fac { s with now := t } d s' := by
  unfold step at h
  split_ifs at h with ht
  exact ⟨ht, perform_happened h⟩

theorem keyed_of_normalised {newConfig : ServiceConfig} (hnorm : Normalised newConfig)
    (bc : BucketContainer F B) : Keyed newConfig bc := by
  intro name _ ns _ c hc _
  exact range_name hnorm (GoMap.mem_range_iff.mpr (Option.join_eq_some_iff.mp hc))

/-- The same system, with the calls that it has answered. -/
def system (s : Watched F B) (calls : List (Call B)) : System F B :=
  ⟨s.server, calls, s.watchers, s.now, .waiting⟩

theorem attended_init (factory : F) (now : ℤ) : Attended (init factory now : Watched F B) := by
  have hwatches : ∀ w, ¬ (init factory now : Watched F B).Watches w := by
    rintro w (⟨id, hw⟩ | hw)
    · cases hw
    · cases hw
  refine ⟨(System.intact_init factory now).sound, fun _ _ => Directory.get?_empty, ?_, ?_,
    fun w hw => absurd hw (hwatches w), fun w hw => absurd hw (hwatches w), fun ns n b hb => ?_⟩
  · intro id w hw
    cases hw
  · exact Multiset.nodup_zero
  · cases (bucket?_of_absent Directory.get?_empty n).symm.trans hb

theorem newWatchers_of_adds {ns bucketName : String} {b : Bucket B} {bc bc' : BucketContainer F B}
    (adds : Adds fac ns bucketName b bc bc') : bc'.newWatchers =
      bc.newWatchers ++ if b.reapable then [b.watcher ns bucketName] else [] := by
  obtain ⟨r, nsp, acts, -, -, rfl, -⟩ := adds.added
  rfl

theorem watches_add {ns bucketName : String} {b : Bucket B} {bc : BucketContainer F B}
    (adds : Adds fac ns bucketName b s.server.bucketContainer bc) {w : Watcher}
    (hw : (s.setContainer bc).Watches w) :
    s.Watches w ∨ (w = b.watcher ns bucketName ∧ b.reapable = true) := by
  rcases hw with hw | hw
  · exact Or.inl (Or.inl hw)
  · have hqueue : w ∈ bc.newWatchers := hw
    rw [newWatchers_of_adds adds] at hqueue
    rcases List.mem_append.mp hqueue with hold | hnew
    · exact Or.inl (Or.inr hold)
    · split_ifs at hnew with hreapable
      · exact Or.inr ⟨List.mem_singleton.mp hnew, hreapable⟩
      · cases hnew

theorem ids_add {ns bucketName : String} {b : Bucket B} {bc : BucketContainer F B}
    (adds : Adds fac ns bucketName b s.server.bucketContainer bc) :
    (s.setContainer bc).ids = (if b.reapable then {b.id} else 0) + s.ids := by
  have hqueue : (s.setContainer bc).server.bucketContainer.newWatchers =
      s.server.bucketContainer.newWatchers ++
        if b.reapable then [b.watcher ns bucketName] else [] := newWatchers_of_adds adds
  unfold ids
  rw [hqueue, List.map_append, ← Multiset.coe_add, ← add_assoc, add_comm]
  congr 1
  split_ifs
  · rfl
  · rfl

/-- A bucket that is added has its watcher, if it needs one, and the others keep theirs. -/
theorem Attended.add {ns bucketName : String} {b : Bucket B} {bc : BucketContainer F B}
    (h : Attended s) (adds : Adds fac ns bucketName b s.server.bucketContainer bc) :
    Attended (s.setContainer bc) := by
  have hplaces := adds.bucket?
  have hid := adds.id
  have hreap := adds.reapable
  have hwatches : ∀ w, (s.setContainer bc).Watches w →
      s.Watches w ∨ (w = b.watcher ns bucketName ∧ b.reapable = true) := fun _ => watches_add adds
  have hfresh : b.id ∉ s.ids := by
    intro hmem
    obtain ⟨w, hw, hwid⟩ := mem_ids.mp hmem
    have hlt := h.issued w hw
    omega
  have hdistinct : (s.setContainer bc).ids.Nodup := by
    rw [ids_add adds]
    split_ifs
    · rw [Multiset.singleton_add]
      exact Multiset.nodup_cons.mpr ⟨hfresh, h.distinct⟩
    · rw [zero_add]
      exact h.distinct
  obtain ⟨r, nsp, acts, hfetch, habsent, rfl, -⟩ := adds.added
  have hobject := (fetch_eq_some.mp hfetch).2
  refine ⟨h.sound.addBucket hobject habsent hid _ _ _, fun hcfg => ?_, h.keyed, hdistinct,
    fun w hw => ?_, fun w hw => ?_, fun ns' n' b' hb' => ?_⟩
  · have hnone := h.fresh hcfg ns
    rw [get?_of_fetch hfetch] at hnone
    cases hnone
  · rcases hwatches w hw with hold | ⟨rfl, -⟩
    · exact (h.issued w hold).trans (Nat.lt_succ_self _)
    · exact hid ▸ Nat.lt_succ_self _
  · rcases hwatches w hw with hold | ⟨rfl, hreapable⟩
    · rcases h.placed w hold with hgone | ⟨b', hb', hguards⟩
      · exact Or.inl hgone
      · refine Or.inr ⟨b', (hplaces _ _).trans ?_, hguards⟩
        rw [if_neg]
        · exact hb'
        · rintro ⟨hns, hname⟩
          rw [hns, hname, bucket?_of_get? (get?_of_fetch hfetch), habsent] at hb'
          cases hb'
    · exact Or.inr ⟨b, (hplaces _ _).trans (if_pos ⟨rfl, rfl⟩), hreapable, rfl⟩
  · have hplace := (hplaces ns' n').symm.trans hb'
    split_ifs at hplace
    · cases hplace
      exact hreap
    · exact h.reapable ns' n' b' hplace

theorem ids_receive {w : Watcher} {ws : List Watcher}
    (queued : s.server.bucketContainer.newWatchers = w :: ws) : (s.receive w ws).ids =
      AList.total (fun _ w => {w.activities}) (s.watchers.erase w.identifier) +
        (s.server.bucketContainer.newWatchers.map Watcher.activities : List ℕ) := by
  unfold ids receive addNewWatcher setContainer
  rw [AList.total_insert, queued, List.map_cons, ← Multiset.cons_coe, Multiset.singleton_add,
    Multiset.cons_add, Multiset.add_cons]

theorem happened_attended (h : Attended s)
    (hnorm : ∀ order newConfig, d = .update order newConfig → Normalised newConfig)
    (hs : Happened fac s d s') : Attended s' := by
  cases hs with
  | found reported | reported reported =>
    obtain ⟨acts, -, rfl⟩ := reported
    exact h.quiet acts
  | created adds => exact h.add adds
  | @updated order newConfig server covers updated =>
    have hnormalised := hnorm order newConfig rfl
    obtain ⟨hundisturbed, hsame⟩ :=
      updateBucketContainer_undisturbed hnormalised h.fresh updated
    have hsound := System.update_sound (s := s.system []) h.sound
      (fun _ => keyed_of_normalised hnormalised _) updated
    refine h.carry hsound (fun hcfg => ?_) h.keyed (le_of_eq ?_) hundisturbed.nextBucket
      (fun w hw => ⟨w, w.lastActivity, ?_, rfl⟩) hundisturbed.destroyed (fun w _ hguards => ?_)
      hundisturbed.made
    · rcases hsame with rfl | hconfigured
      · exact h.fresh hcfg
      · exact absurd hcfg hconfigured
    · unfold ids
      rw [hundisturbed.newWatchers]
    · unfold Watches at hw ⊢
      rwa [hundisturbed.newWatchers] at hw
    · obtain ⟨b, hb, hreapable, hw⟩ := hguards
      rcases hundisturbed.kept _ _ b hb with hgone | hkept
      · left
        rw [activities_of_watcher hw]
        exact hgone
      · exact Or.inr ⟨b, hkept, hreapable, hw⟩
  | @received w ws queued =>
    have hwatches : s.Watches w := Or.inr (by rw [queued]; exact List.mem_cons_self ..)
    refine h.carry (h.sound.quiet _ _) h.fresh (keyed_insert h.keyed rfl) ?_ le_rfl
      (fun w' hw' => watches_insert hw' hwatches rfl fun w'' hw'' => ?_) (fun _ hx => hx)
      (fun w' _ hguards => Or.inr hguards) fun _ _ _ => Or.inl
    · have hle : AList.total (fun _ w => ({w.activities} : Multiset ℕ))
          (s.watchers.erase w.identifier) ≤ AList.total (fun _ w => {w.activities}) s.watchers := by
        cases hold : s.watchers.lookup w.identifier with
        | none => rw [AList.erase_of_lookup_none hold]
        | some w' =>
          rw [AList.total_erase _ hold]
          exact le_add_self
      rw [ids_receive queued]
      exact add_le_add_left hle _
    · rw [queued]
      exact List.mem_cons_of_mem _ hw''
  | passed => exact h.checkExpirations fac _

theorem Attended.later (h : Attended s) (t : ℤ) : Attended { s with now := t } :=
  ⟨h.sound, h.fresh, h.keyed, h.distinct, h.issued, h.placed, h.reapable⟩

theorem step_attended (h : Attended s)
    (hnorm : ∀ order newConfig, d = .update order newConfig → Normalised newConfig)
    (hs : s.step fac (t, d) = some s') : Attended s' :=
  happened_attended (h.later t) hnorm (step_happened hs).2

end Steps

section Interleaved
variable {fac : BucketFactory F B} {s s' : Watched F B} {calls : List (Call B)}

/-- The check of a watcher that nothing interrupts. -/
theorem run_check (h : Attended s) (calls : List (Call B)) (id : String) (ids : List String) :
    ∃ actions, Machine.run (System.step fac)
        { s.system calls with pass := .checking s.now (id :: ids) } actions =
      some { (s.check fac id).system calls with pass := .checking s.now ids } := by
  unfold check
  cases hw : s.watchers.lookup id with
  | none =>
    refine ⟨[.check], ?_⟩
    simp [System.step, system, hw]
  | some w =>
    obtain ⟨acts, w', idle, heq⟩ := System.tooIdle_eq s.server.bucketContainer s.now w
    have hkey : w'.identifier = id := by
      have hsame : (s.server.bucketContainer.tooIdle s.now w).2.1.identifier = w.identifier := by
        unfold BucketContainer.tooIdle
        split_ifs <;> rfl
      rw [heq] at hsame
      exact hsame.trans (h.keyed id w hw)
    cases idle with
    | false =>
      refine ⟨[.check], ?_⟩
      simp [System.step, system, hw, heq, System.setContainer, setContainer]
    | true =>
      cases hr : s.server.bucketContainer.namespaces.ref? w'.ns with
      | none =>
        refine ⟨[.check, .removeBucket], ?_⟩
        simp [System.step, system, hw, heq, System.setContainer, setContainer,
          BucketContainer.removeNamedBucket, hr]
      | some r =>
        refine ⟨[.check, .removeBucket, .removeFromNamespace], ?_⟩
        simp [System.step, system, hw, heq, System.setContainer, setContainer,
          BucketContainer.removeNamedBucket, hr, hkey]

theorem run_checks (h : Attended s) (calls : List (Call B)) (order : List String) :
    ∃ actions, Machine.run (System.step fac)
        { s.system calls with pass := .checking s.now order } actions =
      some { (s.checkExpirations fac order).system calls with pass := .checking s.now [] } := by
  induction order generalizing s with
  | nil => exact ⟨[], rfl⟩
  | cons id order ih =>
    obtain ⟨actions, hrun⟩ := run_check h calls id order
    obtain ⟨actions', hrun'⟩ := ih (h.check fac id)
    refine ⟨actions ++ actions', ?_⟩
    rw [Machine.run_append, hrun]
    have hnow : (s.check fac id).now = s.now := by
      unfold check
      split
      · rfl
      · dsimp only
        split_ifs <;> rfl
    rw [hnow] at hrun'
    exact hrun'

theorem run_find (hreturned : ∀ c ∈ calls, c.phase.isReturned = true) (ns bucketName : String) :
    ∃ actions calls', (∀ c ∈ calls', c.phase.isReturned = true) ∧
      Machine.run (System.step fac) (s.system calls) actions = some
        ((s.setContainer (s.server.bucketContainer.findBucket fac ns bucketName).1).system
          calls') := by
  obtain ⟨last, -, hrun⟩ := System.run_call fac (s.system calls) ns bucketName
  refine ⟨_, _, fun c hc => ?_, hrun⟩
  rcases List.mem_append.mp hc with hc | hc
  · exact hreturned c hc
  · rw [List.mem_singleton.mp hc]
    rfl

/-- A deed is a run of the interleaved system, in which no call is left under way. -/
theorem perform_system (h : Attended s) {d : Deed}
    (hreturned : ∀ c ∈ calls, c.phase.isReturned = true) (hs : s.perform fac d = some s') :
    ∃ actions calls', (∀ c ∈ calls', c.phase.isReturned = true) ∧
      Machine.run (System.step fac) (s.system calls) actions = some (s'.system calls') := by
  cases d with
  | find ns bucketName =>
    cases hs
    exact run_find hreturned ns bucketName
  | report ns bucketName =>
    obtain ⟨b, hb, rfl⟩ := Option.map_eq_some_iff.mp hs
    obtain ⟨nsp, hget, hlookup⟩ := bucket?_eq_some.mp hb
    obtain ⟨r, hfetch⟩ := exists_fetch hget
    -- a call that finds the bucket does nothing but report on it
    have hfind : (s.server.bucketContainer.findBucket fac ns bucketName).1 =
        s.server.bucketContainer.reportActivity b := by
      simp [BucketContainer.findBucket, hfetch, hlookup, BucketContainer.reportBucket]
    rw [← hfind]
    exact run_find hreturned ns bucketName
  | update order newConfig =>
    obtain ⟨server, hserver, rfl⟩ := Option.map_eq_some_iff.mp hs
    simp only [Container.step] at hserver
    split_ifs at hserver with hcovers
    refine ⟨[.update order newConfig], calls, hreturned, ?_⟩
    have hguard : (∀ c ∈ (s.system calls).calls, c.phase.isReturned = true) ∧
        Covers order (s.system calls).server := ⟨hreturned, hcovers⟩
    have hupdated : updateBucketContainer fac order newConfig (s.system calls).server =
        some server := hserver
    rw [Machine.run_cons]
    simp only [System.step]
    rw [if_pos hguard, hupdated]
    rfl
  | addNewWatcher =>
    simp only [perform] at hs
    cases hqueue : s.server.bucketContainer.newWatchers with
    | nil => simp [hqueue] at hs
    | cons w ws =>
      simp only [hqueue, Option.some.injEq] at hs
      refine ⟨[.addNewWatcher], calls, hreturned, ?_⟩
      rw [← hs]
      simp [System.step, system, hqueue, System.setContainer, receive, addNewWatcher, setContainer]
  | checkExpirations order =>
    simp only [perform] at hs
    split_ifs at hs with hperm
    cases hs
    obtain ⟨actions, hrun⟩ := run_checks h calls order
    refine ⟨.checkExpirations order :: (actions ++ [.endPass]), calls, hreturned, ?_⟩
    have hstart : System.step fac (s.system calls) (.checkExpirations order) =
        some { s.system calls with pass := .checking s.now order } := by
      simp [System.step, system, hperm]
    rw [Machine.run_cons, hstart]
    dsimp only [Option.bind_some]
    rw [Machine.run_append, hrun]
    rfl

/-- What happens on the clock is a run of the interleaved system. -/
theorem step_system (h : Attended s) {e : ℤ × Deed}
    (hreturned : ∀ c ∈ calls, c.phase.isReturned = true) (hs : s.step fac e = some s') :
    ∃ actions calls', (∀ c ∈ calls', c.phase.isReturned = true) ∧
      Machine.run (System.step fac) (s.system calls) actions = some (s'.system calls') := by
  unfold step at hs
  split_ifs at hs with ht
  obtain ⟨actions, calls', hreturned', hrun⟩ := perform_system (h.later e.1) hreturned hs
  refine ⟨.elapse (e.1 - s.now).toNat :: actions, calls', hreturned', ?_⟩
  have hnow : s.now + ((e.1 - s.now).toNat : ℤ) = e.1 := by omega
  have helapse : System.step fac (s.system calls) (.elapse (e.1 - s.now).toNat) =
      some (system { s with now := e.1 } calls) := by
    simp only [System.step, system, hnow]
  rw [Machine.run_cons, helapse]
  exact hrun

end Interleaved

section Runs
variable {fac : BucketFactory F B} {s s₀ : Watched F B} {moments : List (ℤ × Deed)}

/-- Configs are brought into their normal form before they get to the container. -/
def Normal (moments : List (ℤ × Deed)) : Prop :=
  ∀ t order newConfig, (t, .update order newConfig) ∈ moments → Normalised newConfig

theorem Normal.mono {moments' : List (ℤ × Deed)} (h : Normal moments)
    (hsub : ∀ e ∈ moments', e ∈ moments) : Normal moments' :=
  fun t order newConfig hmem => h t order newConfig (hsub _ hmem)

theorem Normal.along (h : Normal moments) (s₀ : Watched F B) :
    Machine.Along (step fac) (fun _ e => ∀ order newConfig, e.2 = .update order newConfig →
      Normalised newConfig) s₀ moments := by
  apply Machine.along_of_forall
  intro e he _ order newConfig hd
  exact h e.1 order newConfig (hd ▸ he)

theorem run_attended (hnorm : Normal moments) (h₀ : Attended s₀)
    (hrun : Machine.run (step fac) s₀ moments = some s) : Attended s := by
  refine Machine.run_induction Attended (fun s e s' h hnorm hs => ?_) h₀ (hnorm.along s₀) hrun
  exact step_attended (t := e.1) (d := e.2) h hnorm hs

/-- A run on the clock is a run of the interleaved system. -/
theorem run_system {factory : F} {now : ℤ} (hnorm : Normal moments)
    (hrun : Machine.run (step fac) (init factory now) moments = some s) :
    ∃ actions calls, Machine.run (System.step fac) (System.init factory now) actions =
      some (s.system calls) := by
  have h : Attended s ∧ ∃ actions calls, (∀ c ∈ calls, c.phase.isReturned = true) ∧
      Machine.run (System.step fac) (System.init factory now) actions = some (s.system calls) := by
    refine Machine.run_induction (fun s => Attended s ∧ ∃ actions calls,
        (∀ c ∈ calls, c.phase.isReturned = true) ∧
          Machine.run (System.step fac) (System.init factory now) actions = some (s.system calls))
      (fun s e s' h hnorm hs => ?_) ⟨attended_init factory now, [], [], by simp, rfl⟩
      (hnorm.along _) hrun
    obtain ⟨hattended, actions, calls, hreturned, hbefore⟩ := h
    obtain ⟨actions', calls', hreturned', hafter⟩ := step_system hattended hreturned hs
    refine ⟨step_attended (t := e.1) (d := e.2) hattended hnorm hs, actions ++ actions', calls',
      hreturned', ?_⟩
    rw [Machine.run_append, hbefore]
    exact hafter
  obtain ⟨-, actions, calls, -, hsystem⟩ := h
  exact ⟨actions, calls, hsystem⟩

end Runs

end Watched

end QuotaService.Container
