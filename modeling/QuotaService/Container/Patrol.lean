import QuotaService.Container.Idleness

/-! The reaper on its ticker. A pass comes with a tick, and says how long the reaper is to sleep. When
no tick is left waiting for long, no bucket that is watched stays for long after its last activity. -/
namespace QuotaService.Container
open Config

/-- What the reaper is configured with, in nanoseconds. -/
structure ReaperConfig where
  initSleep : ℤ
  minFrequency : ℤ

/-- The longest that the reaper sleeps. -/
def ReaperConfig.longest (cfg : ReaperConfig) : ℤ := max cfg.initSleep cfg.minFrequency

/-- A server and its reaper, with the duration of the reaper's ticker, and when it ticks next; a tick
that has not been received yet is in the past. -/
structure Patrol (F B : Type) where
  watched : Watched F B
  sleep : ℤ
  tick : ℤ

namespace Watched
variable {F B : Type} (fac : BucketFactory F B)

/-- The body of the loop of `checkExpirations`, with the sleep so far. -/
def checkSleep (p : Watched F B × ℤ) (id : String) : Watched F B × ℤ :=
  (p.1.check fac id, match p.1.watchers.lookup id with
    | none => p.2
    | some w =>
      if (p.1.server.bucketContainer.tooIdle p.1.now w).2.2 then p.2
      else if w.maxIdle < p.2 then w.maxIdle else p.2)

/-- What `checkExpirations` returns. -/
def newSleep (minFrequency : ℤ) (s : Watched F B) (order : List String) : ℤ :=
  (order.foldl (checkSleep fac) (s, minFrequency)).2

/-- What a deed is an activity of: the bucket that is reported on, or that whose watcher is received. -/
def stirred (s : Watched F B) : Deed → Option ℕ
  | .addNewWatcher => s.server.bucketContainer.newWatchers.head?.map Watcher.activities
  | d => (s.reported fac d).map Bucket.id

end Watched

namespace Patrol
variable {F B : Type} (fac : BucketFactory F B) (cfg : ReaperConfig)

def init (factory : F) (now : ℤ) : Patrol F B :=
  ⟨.init factory now, cfg.initSleep, now + cfg.initSleep⟩

/-- The first tick after a time, of the ticker that the reaper has. -/
def nextTick (p : Patrol F B) (now : ℤ) : ℤ := now + p.sleep - (now - p.tick) % p.sleep

/-- One step of the loop of `reapIdleBuckets`, or of the server. A ticker cannot be made with a
duration that is not positive, which ends the program. -/
def step (p : Patrol F B) (e : ℤ × Deed) : Option (Patrol F B) :=
  match e.2 with
  | .checkExpirations order =>
    if p.tick ≤ e.1 then (p.watched.step fac e).bind fun watched =>
      let newSleep := { p.watched with now := e.1 }.newSleep fac cfg.minFrequency order
      if newSleep = p.sleep then some ⟨watched, p.sleep, p.nextTick e.1⟩
      else if 0 < newSleep then some ⟨watched, newSleep, e.1 + newSleep⟩
      else none
    else none
  | _ => (p.watched.step fac e).map fun watched => { p with watched := watched }

/-- Nothing happens while a tick has been waiting for longer. -/
def Prompt (lag : ℤ) (p : Patrol F B) (e : ℤ × Deed) : Prop := e.1 ≤ p.tick + lag

instance (lag : ℤ) (p : Patrol F B) (e : ℤ × Deed) : Decidable (Prompt lag p e) :=
  inferInstanceAs (Decidable (_ ≤ _))

/-- The activities of a run: when, and of which bucket. -/
def activities (p : Patrol F B) (moments : List (ℤ × Deed)) : List (ℤ × ℕ) :=
  Machine.collect (step fac cfg)
    (fun p e => (p.watched.stirred fac e.2).map fun x => (e.1, x)) p moments

end Patrol

namespace Watched
variable {F B : Type} {fac : BucketFactory F B} {s s' : Watched F B}

section Tokens

theorem mem_reportBucket {bc : BucketContainer F B} {o : Option (Bucket B)} {x : ℕ}
    (hx : x ∈ (bc.reportBucket o).activities) : x ∈ bc.activities ∨ o.map Bucket.id = some x := by
  cases o with
  | none => exact Or.inl hx
  | some b =>
    unfold BucketContainer.reportBucket BucketContainer.reportActivity at hx
    dsimp only at hx
    split_ifs at hx
    · rcases Finset.mem_insert.mp hx with rfl | hx
      · exact Or.inr rfl
      · exact Or.inl hx
    · exact Or.inl hx

theorem mem_createNewNamedBucket {bc bc' : BucketContainer F B} {ns bucketName : String} {r : ℕ}
    {nsp : Namespace B} {template : BucketConfig} {o : Option (Bucket B)} {x : ℕ}
    (hs : bc.createNewNamedBucket fac ns bucketName r nsp template = (bc', o))
    (hx : x ∈ bc'.activities) : x ∈ bc.activities ∨ o.map Bucket.id = some x := by
  have hcreate : ∀ bCfg dyn, x ∈
      (bc.createNewNamedBucketFromCfg fac ns bucketName nsp bCfg dyn).1.activities →
      x ∈ bc.activities ∨
        x = (bc.createNewNamedBucketFromCfg fac ns bucketName nsp bCfg dyn).2.2.id := by
    intro bCfg dyn hx
    unfold BucketContainer.createNewNamedBucketFromCfg BucketContainer.reportActivity at hx ⊢
    dsimp only [BucketContainer.newBucket] at hx ⊢
    split_ifs at hx
    · exact (Finset.mem_insert.mp hx).symm
    · exact Or.inl hx
  unfold BucketContainer.createNewNamedBucket at hs
  dsimp only at hs
  split at hs
  · cases hs
    exact (hcreate _ _ hx).imp_right fun h => congrArg some h.symm
  · split_ifs at hs
    · cases hs
      exact Or.inl hx
    · cases hs
      exact (hcreate _ _ hx).imp_right fun h => congrArg some h.symm

theorem checkExpirations_quiet (h : Attended s) (order : List String) :
    (s.checkExpirations fac order).server.bucketContainer.activities ⊆
      s.server.bucketContainer.activities := by
  have hcheck : ∀ (s₁ : Watched F B) (id : String) (s₂ : Watched F B), Attended s₁ →
      Checked fac s₁ id s₂ →
      s₁.server.bucketContainer.activities ⊆ s.server.bucketContainer.activities →
      s₂.server.bucketContainer.activities ⊆ s.server.bucketContainer.activities :=
    fun _ _ _ _ hchecked hsub => hchecked.quiet.trans hsub
  exact h.checkExpirations_induction hcheck subset_rfl order

/-- Only a report leaves a token. -/
theorem mem_perform (h : Attended s) {d : Deed}
    (hnorm : ∀ order newConfig, d = .update order newConfig → Normalised newConfig)
    (hs : s.perform fac d = some s') {x : ℕ} (hx : x ∈ s'.server.bucketContainer.activities) :
    x ∈ s.server.bucketContainer.activities ∨ s.stirred fac d = some x := by
  cases d with
  | find ns bucketName =>
    cases hs
    unfold stirred reported BucketContainer.findBucket
    dsimp only [setContainer] at hx ⊢
    unfold BucketContainer.findBucket at hx
    cases hfetch : s.server.bucketContainer.fetch ns with
    | none =>
      simp only [hfetch] at hx ⊢
      exact mem_reportBucket hx
    | some p =>
      obtain ⟨r, nsp⟩ := p
      cases hlookup : nsp.buckets.lookup bucketName with
      | some b =>
        simp only [hfetch, hlookup] at hx ⊢
        exact mem_reportBucket hx
      | none =>
        cases htemplate : nsp.cfg.dynamicBucketTemplate with
        | none =>
          simp only [hfetch, hlookup, htemplate] at hx ⊢
          exact mem_reportBucket hx
        | some template =>
          simp only [hfetch, hlookup, htemplate] at hx ⊢
          cases hcreate : s.server.bucketContainer.createNewNamedBucket fac ns bucketName r nsp
              template with
          | mk bc o =>
            simp only [hcreate] at hx ⊢
            cases o with
            | none => exact (mem_createNewNamedBucket hcreate hx).imp_right nofun
            | some b => exact mem_createNewNamedBucket hcreate hx
  | report ns bucketName =>
    obtain ⟨b, hb, rfl⟩ := Option.map_eq_some_iff.mp hs
    have hstirred : s.stirred fac (.report ns bucketName) = some b.id := by
      simp only [stirred, reported, hb, Option.map_some]
    rw [hstirred]
    have hreport : x ∈ (s.server.bucketContainer.reportBucket (some b)).activities := hx
    exact mem_reportBucket hreport
  | update order newConfig =>
    cases perform_happened hs with
    | updated covers updated =>
      have hundisturbed := (updateBucketContainer_undisturbed (hnorm _ _ rfl) h.fresh updated).1
      exact Or.inl (hundisturbed.activities ▸ hx)
  | addNewWatcher =>
    cases perform_happened hs with
    | received => exact Or.inl hx
  | checkExpirations order =>
    cases perform_happened hs with
    | passed => exact Or.inl (checkExpirations_quiet h order hx)

end Tokens

section Checks
variable {id id' : String} {w : Watcher} {grace sleep : ℤ} {xs : List (ℤ × ℕ)}

/-- The last activity of a watched bucket, which has been dated, or will be, to at most `grace` after
it. -/
def Pending (grace : ℤ) (xs : List (ℤ × ℕ)) (s : Watched F B) (id : String) : Prop :=
  ∀ w, s.watchers.lookup id = some w → w.activities ∉ s.server.bucketContainer.destroyed →
    0 < w.maxIdle → ∃ a, (a, w.activities) ∈ xs ∧ w.lastActivity ≤ a + grace ∧
      (s.now ≤ a + grace ∨ w.activities ∉ s.server.bucketContainer.activities)

/-- A pass has found that the bucket has not been idle for too long, and the reaper will not sleep for
longer than it may be idle. -/
def Inspected (grace : ℤ) (xs : List (ℤ × ℕ)) (s : Watched F B) (sleep : ℤ) (id : String) : Prop :=
  ∀ w, s.watchers.lookup id = some w → w.activities ∉ s.server.bucketContainer.destroyed →
    0 < w.maxIdle → sleep ≤ w.maxIdle ∧ s.now ≤ w.lastActivity + w.maxIdle ∧
      w.activities ∉ s.server.bucketContainer.activities ∧
      ∃ a, (a, w.activities) ∈ xs ∧ w.lastActivity ≤ a + grace

/-- What a check does to the watcher, and whether it is found idle. -/
theorem Attended.check_cases (h : Attended s) (fac : BucketFactory F B)
    (hw : s.watchers.lookup id = some w)
    (hintact : w.activities ∉ s.server.bucketContainer.destroyed) :
    ((w.activities ∈ s.server.bucketContainer.activities ∧
        (s.server.bucketContainer.tooIdle s.now w).2.2 = false ∧
        s.check fac id = { s.setContainer { s.server.bucketContainer with
            activities := s.server.bucketContainer.activities.erase w.activities } with
          watchers := s.watchers.insert id { w with lastActivity := s.now } }) ∨
      (w.activities ∉ s.server.bucketContainer.activities ∧ s.now - w.lastActivity ≤ w.maxIdle ∧
        (s.server.bucketContainer.tooIdle s.now w).2.2 = false ∧
        s.check fac id = { s with watchers := s.watchers.insert id w }) ∨
      (s.check fac id).watchers.lookup id = none) := by
  unfold Watched.check BucketContainer.tooIdle BucketContainer.activityDetected
  by_cases hactive : w.activities ∈ s.server.bucketContainer.activities
  · simp [hw, hactive]
  · by_cases hidle : w.maxIdle < s.now - w.lastActivity
    · right
      right
      obtain ⟨b, hb, -, -⟩ := (h.placed w (Or.inl ⟨id, hw⟩)).resolve_left hintact
      obtain ⟨ns, hget, hlookup⟩ := bucket?_eq_some.mp hb
      obtain ⟨r, hfetch⟩ := exists_fetch hget
      obtain ⟨hr, hns⟩ := fetch_eq_some.mp hfetch
      simp [hw, hactive, hintact, hidle, BucketContainer.removeNamedBucket, hr,
        removeBucket_of_lookup fac hns hlookup]
    · right
      left
      have hrecent := not_lt.mp hidle
      refine ⟨hactive, hrecent, ?_, ?_⟩
      · simp [hactive, hintact, hidle]
      · simp [hw, hactive, hintact, hidle, setContainer]

/-- The watcher that is left by a check, if its bucket is not destroyed, was there before. -/
theorem Checked.before (h : Checked fac s id s') (hw : s'.watchers.lookup id = some w) :
    ∃ w₀, s.watchers.lookup id = some w₀ ∧ w₀.activities = w.activities := by
  cases h with
  | unknown => exact ⟨w, hw, rfl⟩
  | active registered | waiting registered =>
    cases (AList.lookup_insert _).symm.trans hw
    exact ⟨_, registered, rfl⟩
  | removed => exact absurd rfl (AList.lookup_erase_cases hw).1

theorem Pending.check (hattended : Attended s) (h : Pending grace xs s id) :
    Inspected grace xs (checkSleep fac (s, sleep) id).1 (checkSleep fac (s, sleep) id).2 id := by
  intro w hw hintact hpos
  have hchecked := hattended.checked fac id
  obtain ⟨w₀, hw₀, hsame⟩ := hchecked.before hw
  have hintact₀ : w₀.activities ∉ s.server.bucketContainer.destroyed := by
    rw [hsame]
    exact fun hgone => hintact (hchecked.destroyed hgone)
  unfold checkSleep at hw hintact ⊢
  dsimp only at hw hintact ⊢
  rcases hattended.check_cases fac hw₀ hintact₀ with
    ⟨hactive, hidle, hcheck⟩ | ⟨hquiet, hrecent, hidle, hcheck⟩ | hnone
  · rw [hcheck] at hw hintact ⊢
    cases (AList.lookup_insert _).symm.trans hw
    obtain ⟨a, ha, -, hdated⟩ := h w₀ hw₀ hintact₀ hpos
    have hnow : s.now ≤ a + grace := hdated.resolve_right (not_not.mpr hactive)
    simp only [hw₀, hidle, Bool.false_eq_true, if_false]
    refine ⟨?_, ?_, Finset.notMem_erase _ _, a, ha, hnow⟩
    · split_ifs <;> omega
    · have hpos₀ : 0 < w₀.maxIdle := hpos
      dsimp only [setContainer]
      omega
  · rw [hcheck] at hw ⊢
    cases (AList.lookup_insert _).symm.trans hw
    obtain ⟨a, ha, hlast, -⟩ := h w hw₀ hintact₀ hpos
    simp only [hw₀, hidle, Bool.false_eq_true, if_false]
    refine ⟨?_, ?_, hquiet, a, ha, hlast⟩
    · split_ifs <;> omega
    · omega
  · cases hnone.symm.trans hw

theorem Pending.other (hattended : Attended s) (h : Pending grace xs s id') (hid : id' ≠ id) :
    Pending grace xs (s.check fac id) id' := by
  intro w hw hintact hpos
  have hchecked := hattended.checked fac id
  obtain ⟨a, ha, hlast, hdated⟩ := h w ((hchecked.other hid).symm.trans hw)
    (fun hgone => hintact (hchecked.destroyed hgone)) hpos
  refine ⟨a, ha, hlast, ?_⟩
  rw [hchecked.now]
  exact hdated.imp_right fun hquiet htoken => hquiet (hchecked.quiet htoken)

theorem checkSleep_le (fac : BucketFactory F B) (s : Watched F B) (sleep : ℤ) (id : String) :
    (checkSleep fac (s, sleep) id).2 ≤ sleep := by
  unfold checkSleep
  dsimp only
  split
  · exact le_refl _
  · split_ifs <;> omega

theorem Inspected.other (hattended : Attended s) (h : Inspected grace xs s sleep id')
    (hid : id' ≠ id) :
    Inspected grace xs (checkSleep fac (s, sleep) id).1 (checkSleep fac (s, sleep) id).2 id' := by
  intro w hw hintact hpos
  have hchecked : Checked fac s id (checkSleep fac (s, sleep) id).1 := hattended.checked fac id
  obtain ⟨hsleep, hnow, hquiet, hdated⟩ := h w ((hchecked.other hid).symm.trans hw)
    (fun hgone => hintact (hchecked.destroyed hgone)) hpos
  refine ⟨(checkSleep_le fac s sleep id).trans hsleep, ?_, fun htoken => ?_, hdated⟩
  · rw [hchecked.now]
    exact hnow
  · exact hquiet (hchecked.quiet htoken)

/-- A pass over all watchers. -/
theorem pass_inspected (hattended : Attended s) (order : List String) (hdistinct : order.Nodup)
    (hpending : ∀ id ∈ order, Pending grace xs s id)
    (hdone : ∀ id, id ∉ order → Inspected grace xs s sleep id) (id : String) :
    Inspected grace xs (order.foldl (checkSleep fac) (s, sleep)).1
      (order.foldl (checkSleep fac) (s, sleep)).2 id := by
  induction order generalizing s sleep with
  | nil => exact hdone id List.not_mem_nil
  | cons id₀ order ih =>
    obtain ⟨hnot, hdistinct⟩ := List.nodup_cons.mp hdistinct
    obtain ⟨hfirst, hrest⟩ := List.forall_mem_cons.mp hpending
    refine ih (hattended.check fac id₀) hdistinct (fun id' hid' => ?_) fun id' hid' => ?_
    · have hne : id' ≠ id₀ := fun heq => hnot (heq ▸ hid')
      exact (hrest id' hid').other hattended hne
    · by_cases hid : id' = id₀
      · subst hid
        exact hfirst.check hattended
      · refine (hdone id' ?_).other hattended hid
        rw [List.mem_cons, not_or]
        exact ⟨hid, hid'⟩

theorem fst_foldl_checkSleep (s : Watched F B) (sleep : ℤ) (order : List String) :
    (order.foldl (checkSleep fac) (s, sleep)).1 = s.checkExpirations fac order := by
  induction order generalizing s sleep with
  | nil => rfl
  | cons id order ih => exact ih _ _

theorem newSleep_le (minFrequency : ℤ) (s : Watched F B) (order : List String) :
    s.newSleep fac minFrequency order ≤ minFrequency := by
  unfold newSleep
  induction order generalizing s minFrequency with
  | nil => exact le_refl _
  | cons id order ih => exact (ih _ _).trans (checkSleep_le fac s minFrequency id)

end Checks

section Deeds
variable {d : Deed}

theorem happened_destroyed (h : Attended s)
    (hnorm : ∀ order newConfig, d = .update order newConfig → Normalised newConfig)
    (hs : Happened fac s d s') {x : ℕ} (hx : x ∈ s.server.bucketContainer.destroyed) :
    x ∈ s'.server.bucketContainer.destroyed := by
  cases hs with
  | found reported | reported reported =>
    obtain ⟨acts, -, rfl⟩ := reported
    exact hx
  | created adds =>
    obtain ⟨r, nsp, acts, -, -, rfl, -, -⟩ := adds.added
    exact hx
  | updated covers updated =>
    exact (updateBucketContainer_undisturbed (hnorm _ _ rfl) h.fresh updated).1.destroyed x hx
  | received => exact hx
  | passed =>
    refine h.checkExpirations_induction
      (P := fun s' => x ∈ s'.server.bucketContainer.destroyed) (fun _ _ _ _ hchecked hx => ?_) hx _
    exact hchecked.destroyed hx

/-- Apart from passes, only a watcher that is received changes what is registered. -/
theorem lookup_perform (hs : s.perform fac d = some s') (hpass : ∀ order, d ≠ .checkExpirations order)
    {id : String} {w : Watcher} (hw : s'.watchers.lookup id = some w) :
    s.watchers.lookup id = some w ∨
      (w.lastActivity = s.now ∧ s.stirred fac d = some w.activities) := by
  cases perform_happened hs with
  | found | created | reported | updated => exact Or.inl hw
  | received queued =>
    rcases AList.lookup_insert_cases hw with ⟨-, rfl⟩ | ⟨-, hold⟩
    · exact Or.inr ⟨rfl, by simp [stirred, queued]⟩
    · exact Or.inl hold
  | passed => exact absurd rfl (hpass _)

theorem perform_now (hs : s.perform fac d = some s') (hpass : ∀ order, d ≠ .checkExpirations order) :
    s'.now = s.now := by
  cases perform_happened hs with
  | found | created | reported | updated | received => rfl
  | passed => exact absurd rfl (hpass _)

theorem checkExpirations_past (h : Attended s) (order : List String)
    (hpast : ∀ id w, s.watchers.lookup id = some w → w.lastActivity ≤ s.now) (id : String)
    (w : Watcher) (hw : (s.checkExpirations fac order).watchers.lookup id = some w) :
    w.lastActivity ≤ s.now := by
  have hcheck : ∀ (s₁ : Watched F B) (id₀ : String) (s₂ : Watched F B), Attended s₁ →
      Checked fac s₁ id₀ s₂ →
      (s₁.now = s.now ∧ ∀ id w, s₁.watchers.lookup id = some w → w.lastActivity ≤ s.now) →
      s₂.now = s.now ∧ ∀ id w, s₂.watchers.lookup id = some w → w.lastActivity ≤ s.now := by
    rintro s₁ id₀ s₂ - hchecked ⟨hnow, hpast⟩
    refine ⟨hchecked.now.trans hnow, fun id w hw => ?_⟩
    cases hchecked with
    | unknown => exact hpast id w hw
    | active registered =>
      rcases AList.lookup_insert_cases hw with ⟨-, rfl⟩ | ⟨-, hold⟩
      · exact hnow.le
      · exact hpast id w hold
    | waiting registered recent =>
      rcases AList.lookup_insert_cases hw with ⟨-, rfl⟩ | ⟨-, hold⟩
      · exact hpast id₀ w registered
      · exact hpast id w hold
    | removed => exact hpast id w (AList.lookup_erase_cases hw).2
  exact (h.checkExpirations_induction hcheck ⟨rfl, hpast⟩ order).2 id w hw

end Deeds

end Watched

namespace Patrol
variable {F B : Type} {fac : BucketFactory F B} {cfg : ReaperConfig} {p p' : Patrol F B}
variable {lag t : ℤ} {d : Deed} {xs : List (ℤ × ℕ)}

/-- Every watched bucket has been active lately: since its last activity there has been no tick, or the
pass after it has seen that activity, and the next pass comes in time. -/
structure Attentive (cfg : ReaperConfig) (lag : ℤ) (p : Patrol F B) (xs : List (ℤ × ℕ)) : Prop where
  attended : p.watched.Attended
  sleep_pos : 0 < p.sleep
  sleep_le : p.sleep ≤ cfg.longest
  tick_le : p.tick ≤ p.watched.now + p.sleep
  past : ∀ id w, p.watched.watchers.lookup id = some w → w.lastActivity ≤ p.watched.now
  due : ∀ id w, p.watched.watchers.lookup id = some w →
    w.activities ∉ p.watched.server.bucketContainer.destroyed → 0 < w.maxIdle →
    ∃ a, (a, w.activities) ∈ xs ∧ w.lastActivity ≤ a + (cfg.longest + lag) ∧
      (p.tick ≤ a + cfg.longest ∨
        (w.activities ∉ p.watched.server.bucketContainer.activities ∧
          p.tick ≤ w.lastActivity + 2 * w.maxIdle)) ∧
      p.watched.now ≤ a + cfg.longest + 2 * w.maxIdle + 2 * lag

/-- What a step comes to. -/
inductive Stepped (fac : BucketFactory F B) (cfg : ReaperConfig) (p : Patrol F B) (t : ℤ) :
    Deed → Patrol F B → Prop
  | pass {order : List String} {s' : Watched F B} {tick : ℤ}
    (step : p.watched.step fac (t, .checkExpirations order) = some s')
    (positive : 0 < { p.watched with now := t }.newSleep fac cfg.minFrequency order)
    (soon : tick ≤ t + { p.watched with now := t }.newSleep fac cfg.minFrequency order) :
    Stepped fac cfg p t (.checkExpirations order)
      ⟨s', { p.watched with now := t }.newSleep fac cfg.minFrequency order, tick⟩
  | other {d : Deed} {s' : Watched F B} (pass : ∀ order, d ≠ .checkExpirations order)
    (step : p.watched.step fac (t, d) = some s') : Stepped fac cfg p t d { p with watched := s' }

theorem step_stepped (hsleep : 0 < p.sleep) (hs : p.step fac cfg (t, d) = some p') :
    Stepped fac cfg p t d p' := by
  cases d with
  | checkExpirations order =>
    have hguard : (p.watched.step fac (t, .checkExpirations order)).bind (fun watched =>
        let newSleep := { p.watched with now := t }.newSleep fac cfg.minFrequency order
        if newSleep = p.sleep then some ⟨watched, p.sleep, p.nextTick t⟩
        else if 0 < newSleep then some ⟨watched, newSleep, t + newSleep⟩
        else none) = some p' := by
      by_cases htick : p.tick ≤ t
      · simpa only [step, htick, if_true] using hs
      · simp only [step, htick, if_false] at hs
        cases hs
    obtain ⟨s', hs', hsleep'⟩ := Option.bind_eq_some_iff.mp hguard
    dsimp only at hsleep'
    by_cases hsame : { p.watched with now := t }.newSleep fac cfg.minFrequency order = p.sleep
    · have hmod := Int.emod_nonneg (t - p.tick) hsleep.ne'
      have hsoon : p.nextTick t ≤ t + p.sleep := by
        unfold nextTick
        omega
      rw [if_pos hsame] at hsleep'
      cases hsleep'
      have hpass : Stepped fac cfg p t (.checkExpirations order) ⟨s',
          { p.watched with now := t }.newSleep fac cfg.minFrequency order, p.nextTick t⟩ :=
        .pass hs' (hsame ▸ hsleep) (hsame.symm ▸ hsoon)
      rwa [hsame] at hpass
    · rw [if_neg hsame] at hsleep'
      split_ifs at hsleep' with hpos
      cases hsleep'
      exact .pass hs' hpos (le_refl _)
  | find | report | update | addNewWatcher =>
    obtain ⟨s', hs', rfl⟩ := Option.map_eq_some_iff.mp hs
    exact .other nofun hs'

/-- The buckets whose last activity is to be dated by a pass. -/
theorem Attentive.pending (h : Attentive cfg lag p xs) (hprompt : t ≤ p.tick + lag) (id : String) :
    Watched.Pending (cfg.longest + lag) xs { p.watched with now := t } id := by
  intro w hw hintact hpos
  obtain ⟨a, ha, hlast, htick, -⟩ := h.due id w hw hintact hpos
  refine ⟨a, ha, hlast, ?_⟩
  rcases htick with htick | ⟨hquiet, -⟩
  · left
    dsimp only
    omega
  · exact Or.inr hquiet

theorem Attentive.pass (h : Attentive cfg lag p xs) (hlag : 0 ≤ lag) (hprompt : t ≤ p.tick + lag)
    {order : List String} {s' : Watched F B} {tick : ℤ}
    (step : p.watched.step fac (t, .checkExpirations order) = some s')
    (positive : 0 < { p.watched with now := t }.newSleep fac cfg.minFrequency order)
    (soon : tick ≤ t + { p.watched with now := t }.newSleep fac cfg.minFrequency order) :
    Attentive cfg lag
      ⟨s', { p.watched with now := t }.newSleep fac cfg.minFrequency order, tick⟩ xs := by
  obtain ⟨ht, hhappened⟩ := Watched.step_happened step
  have hattended := h.attended.later t
  cases hhappened with
  | passed perm =>
    have hnow : ({ p.watched with now := t }.checkExpirations fac order).now = t :=
      Watched.checkExpirations_now hattended order
    have hregistered : ∀ id, id ∉ order → p.watched.watchers.lookup id = none := by
      intro id hid
      rw [AList.lookup_eq_none]
      exact fun hmem => hid (perm.mem_iff.mpr (AList.mem_keys.mp hmem))
    have hdone : ∀ id, id ∉ order →
        Watched.Inspected (cfg.longest + lag) xs { p.watched with now := t } cfg.minFrequency id :=
      fun id hid w hw => by cases (hregistered id hid).symm.trans hw
    have hinspected : ∀ id, Watched.Inspected (cfg.longest + lag) xs
        (order.foldl (Watched.checkSleep fac) ({ p.watched with now := t }, cfg.minFrequency)).1
        (order.foldl (Watched.checkSleep fac) ({ p.watched with now := t }, cfg.minFrequency)).2 id :=
      Watched.pass_inspected hattended order (perm.nodup_iff.mpr (AList.keys_nodup _))
        (fun id _ => h.pending hprompt id) hdone
    simp only [Watched.fst_foldl_checkSleep] at hinspected
    have hpast : ∀ id w, ({ p.watched with now := t } : Watched F B).watchers.lookup id = some w →
        w.lastActivity ≤ t := fun id w hw => (h.past id w hw).trans ht
    refine ⟨hattended.checkExpirations fac order, positive, ?_, ?_, fun id w hw => ?_,
      fun id w hw hintact hpos => ?_⟩
    · exact (Watched.newSleep_le _ _ _).trans (le_max_right _ _)
    · rw [hnow]
      exact soon
    · rw [hnow]
      exact Watched.checkExpirations_past hattended order hpast id w hw
    · obtain ⟨hsleep, hrecent, hquiet, a, ha, hlast⟩ := hinspected id w hw hintact hpos
      rw [hnow] at hrecent ⊢
      have hsleep' : { p.watched with now := t }.newSleep fac cfg.minFrequency order ≤ w.maxIdle :=
        hsleep
      have hrecent' : t ≤ w.lastActivity + w.maxIdle := hrecent
      refine ⟨a, ha, hlast, Or.inr ⟨hquiet, ?_⟩, ?_⟩
      · dsimp only
        omega
      · omega

theorem Attentive.other (h : Attentive cfg lag p xs) (hlag : 0 ≤ lag) (hprompt : t ≤ p.tick + lag)
    (hnorm : ∀ order newConfig, d = .update order newConfig → Normalised newConfig)
    (hpass : ∀ order, d ≠ .checkExpirations order) {s' : Watched F B}
    (step : p.watched.step fac (t, d) = some s') :
    Attentive cfg lag { p with watched := s' }
      (xs ++ ((p.watched.stirred fac d).map fun x => (t, x)).toList) := by
  have hstep := step
  obtain ⟨ht, hhappened⟩ := Watched.step_happened step
  have hattended := h.attended.later t
  have hperform : Watched.perform fac { p.watched with now := t } d = some s' := by
    unfold Watched.step at step
    rwa [if_pos ht] at step
  have hnow : s'.now = t := Watched.perform_now hperform hpass
  have hsleep := h.sleep_le
  have hlongest : 0 ≤ cfg.longest := h.sleep_pos.le.trans hsleep
  have htick := h.tick_le
  refine ⟨Watched.step_attended h.attended hnorm hstep, h.sleep_pos, hsleep, ?_, fun id w hw => ?_,
    fun id w hw hintact hpos => ?_⟩
  · dsimp only
    omega
  · rcases Watched.lookup_perform hperform hpass hw with hold | ⟨hdated, -⟩
    · have hpast := h.past id w hold
      dsimp only
      omega
    · exact hdated.le.trans hnow.ge
  · have hstirred : ∀ x, p.watched.stirred fac d = some x →
        (t, x) ∈ xs ++ ((p.watched.stirred fac d).map fun x => (t, x)).toList := by
      intro x hx
      rw [hx]
      exact List.mem_append_right _ (List.mem_singleton_self _)
    -- an activity now starts the time anew
    have hrenew : p.watched.stirred fac d = some w.activities → w.lastActivity ≤ t →
        ∃ a, (a, w.activities) ∈ xs ++ ((p.watched.stirred fac d).map fun x => (t, x)).toList ∧
          w.lastActivity ≤ a + (cfg.longest + lag) ∧
          (p.tick ≤ a + cfg.longest ∨ (w.activities ∉ s'.server.bucketContainer.activities ∧
            p.tick ≤ w.lastActivity + 2 * w.maxIdle)) ∧
          s'.now ≤ a + cfg.longest + 2 * w.maxIdle + 2 * lag := by
      intro hx hlast
      exact ⟨t, hstirred _ hx, by omega, Or.inl (by omega), by omega⟩
    rcases Watched.lookup_perform hperform hpass hw with hold | ⟨hdated, hx⟩
    · by_cases hx : p.watched.stirred fac d = some w.activities
      · exact hrenew hx ((h.past id w hold).trans ht)
      · have hintact₀ : w.activities ∉ p.watched.server.bucketContainer.destroyed :=
          fun hgone => hintact (Watched.happened_destroyed hattended hnorm hhappened hgone)
        obtain ⟨a, ha, hlast, hdue, -⟩ := h.due id w hold hintact₀ hpos
        refine ⟨a, List.mem_append_left _ ha, hlast, ?_, ?_⟩
        · refine hdue.imp_right (And.imp_left fun hquiet htoken => ?_)
          exact (Watched.mem_perform hattended hnorm hperform htoken).elim hquiet hx
        · dsimp only
          rcases hdue with hdue | ⟨-, hdue⟩ <;> omega
    · exact hrenew hx hdated.le

theorem step_attentive (hlag : 0 ≤ lag) {e : ℤ × Deed} (h : Attentive cfg lag p xs)
    (hnorm : ∀ order newConfig, e.2 = .update order newConfig → Normalised newConfig)
    (hprompt : Prompt lag p e) (hs : p.step fac cfg e = some p') :
    Attentive cfg lag p' (xs ++ ((p.watched.stirred fac e.2).map fun x => (e.1, x)).toList) := by
  obtain ⟨t, d⟩ := e
  cases step_stepped h.sleep_pos hs with
  | @pass order s' tick step positive soon =>
    have hquiet : p.watched.stirred fac (.checkExpirations order) = none := rfl
    dsimp only
    rw [hquiet, Option.map_none, Option.toList_none, List.append_nil]
    exact h.pass hlag hprompt step positive soon
  | other pass step => exact h.other hlag hprompt hnorm pass step

theorem attentive_init (cfg : ReaperConfig) (hinit : 0 < cfg.initSleep) (lag : ℤ) (factory : F)
    (now : ℤ) : Attentive cfg lag (init cfg factory now : Patrol F B) [] :=
  ⟨Watched.attended_init factory now, hinit, le_max_left _ _, le_refl _, nofun, nofun⟩

/-- In a run in which no tick is left waiting for longer than `lag`, a bucket that is watched and has not
been removed has been active within twice the time that it may be idle, the longest sleep and twice
the lag. -/
theorem idle_buckets_removed (fac : BucketFactory F B) (cfg : ReaperConfig)
    (hinit : 0 < cfg.initSleep) {lag : ℤ} (hlag : 0 ≤ lag) (factory : F) (now : ℤ)
    (moments : List (ℤ × Deed)) (hnorm : Watched.Normal moments)
    (hprompt : Machine.Along (step fac cfg) (Prompt lag) (init cfg factory now) moments)
    (p : Patrol F B) (hrun : Machine.run (step fac cfg) (init cfg factory now) moments = some p)
    (id : String) (w : Watcher) (hw : p.watched.watchers.lookup id = some w)
    (hintact : w.activities ∉ p.watched.server.bucketContainer.destroyed) (hpos : 0 < w.maxIdle) :
    ∃ a, (a, w.activities) ∈ activities fac cfg (init cfg factory now) moments ∧
      p.watched.now ≤ a + cfg.longest + 2 * w.maxIdle + 2 * lag := by
  have hnormal : Machine.Along (step fac cfg) (fun _ e => ∀ order newConfig,
      e.2 = .update order newConfig → Normalised newConfig) (init cfg factory now) moments := by
    refine Machine.along_of_forall (fun e he p order newConfig hd => ?_) _
    exact hnorm e.1 order newConfig (hd ▸ he)
  have hattentive : Attentive cfg lag p ([] ++ activities fac cfg (init cfg factory now) moments) :=
    Machine.collect_run_induction (Attentive cfg lag)
      (fun _ _ _ _ h hok hs => step_attentive hlag h hok.2 hok.1 hs)
      (attentive_init cfg hinit lag factory now) (Machine.along_and hprompt hnormal) hrun
  obtain ⟨a, ha, -, -, hnow⟩ := hattentive.due id w hw hintact hpos
  exact ⟨a, ha, hnow⟩

/-- The reaper's defaults: it sleeps for ten seconds first, and never for longer than ten minutes. -/
def defaults : ReaperConfig := ⟨10000000000, 600000000000⟩

/-- A bucket is created, the first pass sees the report of its creation, and the second finds it idle
for no longer than the second that it may be. -/
def lingering : List (ℤ × Deed) :=
  [(0, .update [] System.shortLived), (1, .find "a" "x"), (2, .addNewWatcher),
    (10000000000, .checkExpirations ["a:x"]), (11000000000, .checkExpirations ["a:x"])]

theorem normal_lingering : Watched.Normal lingering := by
  intro t order newConfig hmem
  simp only [lingering, List.mem_cons, Prod.mk.injEq, Deed.update.injEq, reduceCtorEq, and_false,
    List.not_mem_nil, or_false] at hmem
  exact hmem.2.2 ▸ Watched.normalised_shortLived

theorem idle_buckets_removed_lingering :
    ∃ p w, Machine.run (step memoryFactory defaults) (init defaults () 0) lingering = some p ∧
      p.watched.watchers.lookup "a:x" = some w ∧ p.sleep = 1000000000 ∧
      ∃ a, (a, w.activities) ∈
          activities memoryFactory defaults (init defaults () 0) lingering ∧
        p.watched.now ≤ a + defaults.longest + 2 * w.maxIdle + 2 * 0 := by
  have hrun : ∃ p, Machine.run (step memoryFactory defaults) (init defaults () 0) lingering =
      some p ∧ (p.sleep = 1000000000 ∧ ∃ w ∈ p.watched.watchers.lookup "a:x",
        w.activities ∉ p.watched.server.bucketContainer.destroyed ∧ 0 < w.maxIdle) :=
    Machine.exists_run (by decide +kernel)
  obtain ⟨p, hp, hsleep, w, hw, hintact, hpos⟩ := hrun
  exact ⟨p, w, hp, hw, hsleep, idle_buckets_removed memoryFactory defaults (by decide) (le_refl 0) () 0
    lingering normal_lingering (by decide +kernel) p hp "a:x" w hw hintact hpos⟩

end Patrol

end QuotaService.Container
