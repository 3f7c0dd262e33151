import QuotaService.Container.Reaping

/-! The lock of a namespace and the channel of new watchers. A creation of a dynamic bucket that can
expire sends its watcher to the reaper while it holds the lock, and blocks when the channel is full;
the reaper, which alone receives from the channel, takes the lock to remove an idle bucket. -/
namespace QuotaService.Container
open Config

/-- The object whose lock the reaper is about to take. -/
def Pass.awaits : Pass → Option ℕ
  | removing _ _ _ r => some r
  | _ => none

namespace BucketContainer
variable {F B : Type}

/-- The creation of a bucket in a locked namespace comes to the send of a watcher. -/
def sendsWatcher (bc : BucketContainer F B) (bucketName : String) (r : ℕ) : Bool :=
  match bc.namespaces.deref r with
  | none => false
  | some nsp =>
    match nsp.buckets.lookup bucketName, nsp.cfg.dynamicBucketTemplate with
    | none, some template =>
      (nsp.cfg.buckets.get bucketName).join.isNone &&
        !decide (nsp.cfg.maxDynamicBuckets ≤ nsp.dynamicBucketCount ∧
          0 < nsp.cfg.maxDynamicBuckets) && decide (0 < template.maxIdleMillis)
    | _, _ => false

end BucketContainer

/-- A server with the creations that hold the lock of a namespace and are sending their watcher: the
call and the object. -/
structure Locked (F B : Type) where
  sys : System F B
  holders : List (ℕ × ℕ)

/-- The steps of the server, in which a creation that sends a watcher is taken apart into the taking
of the lock and the send. Without a buffer the send hands the watcher to the waiting reaper. -/
inductive LockAction
  | base (a : Action)
  | lock (i : ℕ)
  | send (i : ℕ)
  | handoff (i : ℕ)

namespace System
variable {F B : Type}

/-- The object in which a call is to create its bucket. -/
def missedRef (s : System F B) (i : ℕ) : Option ℕ :=
  s.calls[i]?.bind fun c => match c.phase with
    | .missed r => some r
    | _ => none

/-- Whether the creation of a call sends a watcher. -/
def sends (s : System F B) (i : ℕ) : Bool :=
  s.calls[i]?.any fun c => match c.phase with
    | .missed r => s.server.bucketContainer.sendsWatcher c.bucketName r
    | _ => false

/-- The object whose lock a step takes, for reading or writing. -/
def needs (s : System F B) : Action → Option ℕ
  | .look i => s.calls[i]?.bind fun c => match c.phase with
    | .fetched r => r
    | _ => none
  | .create i => s.missedRef i
  | .removeFromNamespace => s.pass.awaits
  | _ => none

/-- The creation is one that goes through without a send. -/
def Quick (s : System F B) : Action → Prop
  | .create i => s.sends i = false
  | _ => True

instance (s : System F B) : ∀ a, Decidable (s.Quick a)
  | .create i => inferInstanceAs (Decidable (s.sends i = false))
  | .enter _ _ | .look _ | .report _ | .update _ _ | .addNewWatcher | .checkExpirations _ | .check
  | .removeBucket | .removeFromNamespace | .endPass | .elapse _ => isTrue trivial

end System

namespace Locked
variable {F B : Type} (fac : BucketFactory F B) (capacity : ℕ)

def Held (s : Locked F B) (r : ℕ) : Prop := ∃ h ∈ s.holders, h.2 = r

instance (s : Locked F B) (r : ℕ) : Decidable (s.Held r) :=
  inferInstanceAs (Decidable (∃ h ∈ s.holders, h.2 = r))

def queued (s : Locked F B) : ℕ := s.sys.server.bucketContainer.newWatchers.length

/-- The send is over, and the lock is released. -/
def release (s : Locked F B) (i : ℕ) (sys : System F B) : Locked F B :=
  ⟨sys, s.holders.filter (·.1 ≠ i)⟩

def step (s : Locked F B) : LockAction → Option (Locked F B)
  | .base a =>
    if (∀ r ∈ s.sys.needs a, ¬ s.Held r) ∧ s.sys.Quick a then
      (s.sys.step fac a).map fun sys => { s with sys := sys }
    else none
  | .lock i => (s.sys.missedRef i).bind fun r =>
    if s.sys.sends i = true ∧ ¬ s.Held r then some { s with holders := (i, r) :: s.holders } else none
  | .send i =>
    if (∃ h ∈ s.holders, h.1 = i) ∧ s.queued < capacity then
      (s.sys.step fac (.create i)).map (s.release i)
    else none
  | .handoff i =>
    if (∃ h ∈ s.holders, h.1 = i) ∧ capacity = 0 then
      (Machine.run (System.step fac) s.sys [.create i, .addNewWatcher]).map (s.release i)
    else none

/-- A creation blocks on the full channel with the lock that the reaper blocks on. -/
def Deadlocked (s : Locked F B) : Prop :=
  ∃ h ∈ s.holders, capacity ≤ s.queued ∧ s.sys.pass.awaits = some h.2

instance (s : Locked F B) : Decidable (s.Deadlocked capacity) :=
  inferInstanceAs (Decidable (∃ h ∈ s.holders, _ ∧ _))

/-- The channel has room where the reaper and a creation meet: when a creation takes the lock that
the reaper is about to take, when the reaper goes for a lock that a creation holds, and after the
send of another creation meanwhile. -/
def Room (s : Locked F B) : LockAction → Prop
  | .lock i => ∀ r ∈ s.sys.missedRef i, s.sys.sends i = true → ¬ s.Held r →
      s.sys.pass.awaits = some r → s.queued < capacity
  | .base .removeBucket => ∀ now ids w r, s.sys.pass = .expired now ids w →
      s.sys.server.bucketContainer.namespaces.ref? w.ns = some r → s.Held r → s.queued < capacity
  | .send i => (∃ h ∈ s.holders, h.1 = i) → s.queued < capacity →
      (∃ h ∈ s.holders, h.1 ≠ i ∧ s.sys.pass.awaits = some h.2) → s.queued + 1 < capacity
  | _ => True

end Locked

section Channel
variable {F B : Type} {fac : BucketFactory F B}

/-- A creation adds a watcher to the channel exactly when it comes to the send of one. -/
theorem createLocked_newWatchers {bc bc' : BucketContainer F B} {ns bucketName : String} {r : ℕ}
    {result : Except String (Option (Bucket B))}
    (h : bc.createLocked fac ns bucketName r = some (bc', result)) :
    bc'.newWatchers.length =
      bc.newWatchers.length + if bc.sendsWatcher bucketName r = true then 1 else 0 := by
  obtain ⟨nsp, hnsp, h⟩ := Option.bind_eq_some_iff.mp h
  have hreport : ∀ (bc : BucketContainer F B) b,
      (bc.reportActivity b).newWatchers = bc.newWatchers := by
    intro bc b
    unfold BucketContainer.reportActivity
    split_ifs <;> rfl
  unfold BucketContainer.sendsWatcher
  simp only [hnsp]
  cases hlookup : nsp.buckets.lookup bucketName with
  | some b =>
    simp only [hlookup] at h
    cases h
    simp [hreport]
  | none =>
    simp only [hlookup] at h
    obtain ⟨template, htemplate, h⟩ := Option.map_eq_some_iff.mp h
    unfold BucketContainer.createNewNamedBucket at h
    cases hcfg : (nsp.cfg.buckets.get bucketName).join with
    | some bCfg =>
      simp only [hcfg, BucketContainer.createNewNamedBucketFromCfg] at h
      cases h
      simp [hreport, htemplate, BucketContainer.newBucket]
    | none =>
      simp only [hcfg] at h
      by_cases hfull : nsp.cfg.maxDynamicBuckets ≤ nsp.dynamicBucketCount ∧
          0 < nsp.cfg.maxDynamicBuckets
      · rw [if_pos hfull] at h
        cases h
        simp [htemplate, hfull]
      · rw [if_neg hfull] at h
        by_cases hidle : 0 < template.maxIdleMillis
        · simp only [BucketContainer.createNewNamedBucketFromCfg, hidle, decide_true,
            Bool.and_self, if_true] at h
          cases h
          simp [hreport, htemplate, hfull, hidle, BucketContainer.newBucket]
        · simp only [BucketContainer.createNewNamedBucketFromCfg, hidle, decide_false,
            Bool.and_false, Bool.false_eq_true, if_false] at h
          cases h
          simp [hreport, htemplate, hidle, BucketContainer.newBucket]

theorem exists_createLocked (fac : BucketFactory F B) {bc : BucketContainer F B} (ns : String)
    {bucketName : String} {r : ℕ} (h : bc.sendsWatcher bucketName r = true) :
    ∃ p, bc.createLocked fac ns bucketName r = some p := by
  unfold BucketContainer.sendsWatcher at h
  unfold BucketContainer.createLocked
  cases hnsp : bc.namespaces.deref r with
  | none => simp [hnsp] at h
  | some nsp =>
    cases hlookup : nsp.buckets.lookup bucketName with
    | some b => simp [hnsp, hlookup] at h
    | none =>
      cases htemplate : nsp.cfg.dynamicBucketTemplate with
      | none => simp [hnsp, hlookup, htemplate] at h
      | some template => simp [hlookup, htemplate]

namespace System
variable {s s' : System F B} {a : Action}

theorem missedRef_eq_some {i r : ℕ} :
    s.missedRef i = some r ↔ ∃ c, s.calls[i]? = some c ∧ c.phase = .missed r := by
  simp only [missedRef, Option.bind_eq_some_iff]
  refine exists_congr fun c => and_congr_right fun _ => ?_
  cases c.phase <;> simp

theorem sends_eq {i r : ℕ} {c : Call B} (hc : s.calls[i]? = some c) (hphase : c.phase = .missed r) :
    s.sends i = s.server.bucketContainer.sendsWatcher c.bucketName r := by
  simp [sends, hc, hphase]

/-- The creation of a call, with what it adds to the channel. -/
theorem create_newWatchers {i : ℕ} (hs : s.step fac (.create i) = some s') :
    s'.pass = s.pass ∧ s'.server.bucketContainer.newWatchers.length =
      s.server.bucketContainer.newWatchers.length + if s.sends i = true then 1 else 0 := by
  obtain ⟨c, hc, hs⟩ := Option.bind_eq_some_iff.mp hs
  cases hphase : c.phase with
  | fetched r => simp [hphase] at hs
  | reporting b => simp [hphase] at hs
  | returned result => simp [hphase] at hs
  | missed r =>
    simp only [hphase] at hs
    obtain ⟨⟨bc, result⟩, hcreate, rfl⟩ := Option.map_eq_some_iff.mp hs
    rw [sends_eq hc hphase]
    exact ⟨rfl, createLocked_newWatchers hcreate⟩

/-- No other step adds to the channel, and only the fetch of `removeBucket` makes the reaper go for
a lock. -/
theorem step_channel (hcreate : ∀ i, a ≠ .create i) (hupdate : ∀ order newConfig,
    a ≠ .update order newConfig) (hs : s.step fac a = some s') :
    s'.server.bucketContainer.newWatchers.length ≤ s.server.bucketContainer.newWatchers.length ∧
      (a ≠ .removeBucket → ∀ r, s'.pass.awaits = some r → s.pass.awaits = some r) := by
  cases a with
  | create i => exact absurd rfl (hcreate i)
  | update order newConfig => exact absurd rfl (hupdate order newConfig)
  | enter ns bucketName =>
    cases hs
    exact ⟨le_rfl, fun _ _ h => h⟩
  | elapse d =>
    cases hs
    exact ⟨le_rfl, fun _ _ h => h⟩
  | look i =>
    obtain ⟨c, -, hs⟩ := Option.bind_eq_some_iff.mp hs
    split at hs
    · obtain ⟨phase, -, rfl⟩ := Option.map_eq_some_iff.mp hs
      exact ⟨le_rfl, fun _ _ h => h⟩
    · cases hs
  | report i =>
    obtain ⟨c, -, hs⟩ := Option.bind_eq_some_iff.mp hs
    split at hs
    · rename_i b _
      cases hs
      obtain ⟨acts, heq⟩ := reportBucket_eq s.server.bucketContainer b
      rw [heq]
      exact ⟨le_rfl, fun _ _ h => h⟩
    · cases hs
  | addNewWatcher =>
    simp only [step] at hs
    split at hs
    · rename_i hwatchers
      cases hs
      refine ⟨?_, fun _ _ h => h⟩
      rw [hwatchers]
      exact Nat.le_succ _
    · cases hs
  | checkExpirations order =>
    simp only [step] at hs
    split at hs
    · split_ifs at hs
      cases hs
      refine ⟨le_rfl, fun _ r h => ?_⟩
      cases h
    · cases hs
  | check =>
    simp only [step] at hs
    split at hs
    · split at hs
      · cases hs
        refine ⟨le_rfl, fun _ r h => ?_⟩
        cases h
      · rename_i w _
        obtain ⟨acts, w', idle, heq⟩ := tooIdle_eq s.server.bucketContainer ‹ℤ› w
        rw [heq] at hs
        cases hs
        refine ⟨le_rfl, fun _ r h => ?_⟩
        cases idle <;> cases h
    · cases hs
  | removeBucket =>
    refine ⟨?_, fun hne => absurd rfl hne⟩
    simp only [step] at hs
    split at hs
    · split at hs <;> cases hs <;> exact le_rfl
    · cases hs
  | removeFromNamespace =>
    simp only [step] at hs
    split at hs
    · cases hs
      constructor
      · unfold BucketContainer.removeBucket
        split
        · exact le_rfl
        · exact le_rfl
      · intro _ r h
        cases h
    · cases hs
  | endPass =>
    simp only [step] at hs
    split at hs
    · cases hs
      refine ⟨le_rfl, fun _ r h => ?_⟩
      cases h
    · cases hs

/-- A step that does not take the lock of an object leaves alone the object and the creation that
holds the lock. -/
theorem step_frame {i r : ℕ} {c : Call B} (hc : s.calls[i]? = some c) (hphase : c.phase = .missed r)
    (hneeds : s.needs a ≠ some r) (hs : s.step fac a = some s') :
    s'.calls[i]? = some c ∧ s'.server.bucketContainer.namespaces.deref r =
      s.server.bucketContainer.namespaces.deref r := by
  have hset : ∀ {j : ℕ} {c' : Call B} {phase : Phase B}, s.calls[j]? = some c' →
      c'.phase ≠ .missed r → (s.calls.set j { c' with phase := phase })[i]? = some c := by
    intro j c' phase hc' hne
    have hij : j ≠ i := by
      rintro rfl
      cases hc.symm.trans hc'
      exact hne hphase
    rw [List.getElem?_set_ne hij, hc]
  cases step_moved hs with
  | enter ns bucketName =>
    refine ⟨?_, rfl⟩
    rw [List.getElem?_append_left (List.getElem?_eq_some_iff.mp hc).1, hc]
  | look call fetched looked => exact ⟨hset call (by simp [fetched]), rfl⟩
  | @create j c' r' bc result call missed created =>
    have hne : r' ≠ r := by
      rintro rfl
      exact hneeds (missedRef_eq_some.mpr ⟨c', call, missed⟩)
    refine ⟨hset call (by simpa [missed] using hne), ?_⟩
    cases createLocked_created created with
    | found | full => rfl
    | created => exact Directory.deref_modify_ne hne
  | report call reporting => exact ⟨hset call (by simp [reporting]), rfl⟩
  | update returned covers updated =>
    have hreturned := returned c (List.mem_of_getElem? hc)
    rw [hphase] at hreturned
    cases hreturned
  | reaper read => exact ⟨hc, rfl⟩
  | @remove w r' watchers now ids removing =>
    refine ⟨hc, ?_⟩
    obtain ⟨now', ids', hpass⟩ := removing
    have hne : r' ≠ r := by
      rintro rfl
      exact hneeds (by simp [needs, hpass, Pass.awaits])
    rcases remove_cases fac ⟨now', ids', hpass⟩ with ⟨heq, -⟩ | ⟨nsp, b, -, -, -, heq⟩
    · simp only [setContainer, heq]
    · simp only [setContainer, heq]
      exact Directory.deref_modify_ne hne

end System

namespace Locked
variable {capacity : ℕ} {s s' : Locked F B}

/-- What holds a lock is the creation of a call that comes to the send of a watcher, and no two
creations hold the same lock. -/
structure Inv (s : Locked F B) : Prop where
  holds : ∀ h ∈ s.holders, ∃ c, s.sys.calls[h.1]? = some c ∧ c.phase = .missed h.2 ∧
    s.sys.server.bucketContainer.sendsWatcher c.bucketName h.2 = true
  exclusive : ∀ h ∈ s.holders, ∀ h' ∈ s.holders, h.2 = h'.2 → h = h'

theorem Inv.missedRef (h : Inv s) {i r : ℕ} (hr : (i, r) ∈ s.holders) :
    s.sys.missedRef i = some r := by
  obtain ⟨c, hc, hphase, -⟩ := h.holds _ hr
  exact System.missedRef_eq_some.mpr ⟨c, hc, hphase⟩

theorem Inv.sends (h : Inv s) {i r : ℕ} (hr : (i, r) ∈ s.holders) : s.sys.sends i = true := by
  obtain ⟨c, hc, hphase, hsends⟩ := h.holds _ hr
  rw [System.sends_eq hc hphase]
  exact hsends

/-- A step that takes none of the locks leaves the creations that hold them where they are. -/
theorem holds_step {holders : List (ℕ × ℕ)} {sys sys' : System F B} {a : Action}
    (hneeds : ∀ h ∈ holders, sys.needs a ≠ some h.2) (hs : sys.step fac a = some sys')
    (h : Inv ⟨sys, holders⟩) : Inv ⟨sys', holders⟩ := by
  refine ⟨fun x hx => ?_, h.exclusive⟩
  obtain ⟨c, hc, hphase, hsends⟩ := h.holds x hx
  obtain ⟨hc', hderef⟩ := System.step_frame hc hphase (hneeds x hx) hs
  refine ⟨c, hc', hphase, ?_⟩
  unfold BucketContainer.sendsWatcher at hsends ⊢
  rw [hderef]
  exact hsends

theorem sublist_inv {holders holders' : List (ℕ × ℕ)} {sys : System F B}
    (hsub : holders' ⊆ holders) (h : Inv ⟨sys, holders⟩) : Inv ⟨sys, holders'⟩ :=
  ⟨fun x hx => h.holds x (hsub hx), fun x hx y hy => h.exclusive x (hsub hx) y (hsub hy)⟩

/-- A creation that holds its lock takes none of the others. -/
theorem create_needs (h : Inv s) {i : ℕ} (hi : ∃ x ∈ s.holders, x.1 = i) :
    ∀ x ∈ s.holders.filter (·.1 ≠ i), s.sys.needs (.create i) ≠ some x.2 := by
  obtain ⟨⟨j, r⟩, hr, rfl⟩ := hi
  intro x hx hneeds
  obtain ⟨hx, hne⟩ := List.mem_filter.mp hx
  have hsame : r = x.2 := Option.some.inj ((h.missedRef hr).symm.trans hneeds)
  have heq := h.exclusive _ hr x hx hsame
  rw [← heq] at hne
  simp at hne

/-- What a send to a reaper that receives does: the creation goes on, and the reaper adds its watcher
at once. -/
theorem step_handoff {i : ℕ} (hs : s.step fac capacity (.handoff i) = some s') :
    (∃ x ∈ s.holders, x.1 = i) ∧ ∃ sys sys', s.sys.step fac (.create i) = some sys ∧
      sys.step fac .addNewWatcher = some sys' ∧ s' = s.release i sys' := by
  simp only [step] at hs
  split_ifs at hs with hguard
  obtain ⟨sys', hrun, rfl⟩ := Option.map_eq_some_iff.mp hs
  rw [Machine.run_cons] at hrun
  obtain ⟨sys, hsys, hrun⟩ := Option.bind_eq_some_iff.mp hrun
  rw [Machine.run_cons] at hrun
  obtain ⟨sys'', hsys', hrun⟩ := Option.bind_eq_some_iff.mp hrun
  cases hrun
  exact ⟨hguard.1, sys, sys', hsys, hsys', rfl⟩

theorem step_inv (h : Inv s) {a : LockAction} (hs : s.step fac capacity a = some s') : Inv s' := by
  cases a with
  | base a =>
    simp only [step] at hs
    split_ifs at hs with hguard
    obtain ⟨sys, hsys, rfl⟩ := Option.map_eq_some_iff.mp hs
    exact holds_step (fun x hx hneeds => hguard.1 _ hneeds ⟨x, hx, rfl⟩) hsys h
  | lock i =>
    obtain ⟨r, hr, hs⟩ := Option.bind_eq_some_iff.mp hs
    split_ifs at hs with hguard
    cases hs
    obtain ⟨c, hc, hphase⟩ := System.missedRef_eq_some.mp hr
    constructor
    · intro x hx
      rcases List.mem_cons.mp hx with rfl | hx
      · exact ⟨c, hc, hphase, by rw [← System.sends_eq hc hphase]; exact hguard.1⟩
      · exact h.holds x hx
    · intro x hx y hy hxy
      rcases List.mem_cons.mp hx with rfl | hx <;> rcases List.mem_cons.mp hy with rfl | hy
      · rfl
      · exact absurd ⟨y, hy, hxy.symm⟩ hguard.2
      · exact absurd ⟨x, hx, hxy⟩ hguard.2
      · exact h.exclusive x hx y hy hxy
  | send i =>
    simp only [step] at hs
    split_ifs at hs with hguard
    obtain ⟨sys, hsys, rfl⟩ := Option.map_eq_some_iff.mp hs
    exact holds_step (create_needs h hguard.1) hsys (sublist_inv (List.filter_subset_self _) h)
  | handoff i =>
    obtain ⟨hholds, sys, sys', hsys, hsys', rfl⟩ := step_handoff hs
    apply holds_step (fun _ _ => by simp [System.needs]) hsys'
    exact holds_step (create_needs h hholds) hsys (sublist_inv (List.filter_subset_self _) h)

/-- A step of the server that is not the fetch of the reaper makes no deadlock. -/
theorem base_not_deadlocked (h : Inv s) (hno : ¬ s.Deadlocked capacity) {a : Action}
    (hquick : s.sys.Quick a) (hfetch : a ≠ .removeBucket) {sys : System F B}
    (hs : s.sys.step fac a = some sys) :
    ¬ Deadlocked capacity { s with sys := sys } := by
  rintro ⟨x, hx, hfull, hawaits⟩
  by_cases hcreate : ∃ i, a = .create i
  · obtain ⟨i, rfl⟩ := hcreate
    obtain ⟨hpass, hlength⟩ := System.create_newWatchers hs
    rw [show s.sys.sends i = false from hquick] at hlength
    refine hno ⟨x, hx, ?_, hpass ▸ hawaits⟩
    simpa [queued, hlength] using hfull
  · by_cases hupdate : ∃ order newConfig, a = .update order newConfig
    · -- a call that holds a lock has not returned
      obtain ⟨order, newConfig, rfl⟩ := hupdate
      obtain ⟨c, hc, hphase, -⟩ := h.holds x hx
      simp only [System.step] at hs
      split_ifs at hs with hguard
      have hreturned := hguard.1 c (List.mem_of_getElem? hc)
      rw [hphase] at hreturned
      cases hreturned
    · have hchannel := System.step_channel (fun i heq => hcreate ⟨i, heq⟩)
        (fun order newConfig heq => hupdate ⟨order, newConfig, heq⟩) hs
      exact hno ⟨x, hx, hfull.trans hchannel.1, hchannel.2 hfetch _ hawaits⟩

theorem fetch_room_iff :
    s.Room capacity (.base .removeBucket) ↔
      ∀ s', s.step fac capacity (.base .removeBucket) = some s' → ¬ s'.Deadlocked capacity := by
  have hguard : (∀ r ∈ s.sys.needs .removeBucket, ¬ s.Held r) ∧ s.sys.Quick .removeBucket :=
    ⟨fun r hr => (nomatch hr), trivial⟩
  simp only [Room, step, if_pos hguard, System.step]
  cases hpass : s.sys.pass with
  | waiting => simp
  | checking now ids => simp
  | removing now ids w r => simp
  | expired now ids w =>
    cases href : s.sys.server.bucketContainer.namespaces.ref? w.ns with
    | none =>
      refine iff_of_true ?_ (by simp [href, Deadlocked, Pass.awaits])
      rintro now' ids' w' r heq href' -
      cases heq
      cases href.symm.trans href'
    | some r =>
      simp only [href, Option.map_some, Option.some.injEq, forall_eq', Pass.expired.injEq]
      constructor
      · rintro hroom ⟨x, hx, hfull, hawaits⟩
        cases hawaits
        exact absurd (hroom now ids w x.2 ⟨rfl, rfl, rfl⟩ href ⟨x, hx, rfl⟩) (not_lt.mpr hfull)
      · rintro hdeadlock now' ids' w' r' ⟨rfl, rfl, rfl⟩ href' ⟨x, hx, rfl⟩
        cases href.symm.trans href'
        exact not_le.mp fun hfull => hdeadlock ⟨x, hx, hfull, rfl⟩

theorem lock_room_iff (hno : ¬ s.Deadlocked capacity) (i : ℕ) :
    s.Room capacity (.lock i) ↔
      ∀ s', s.step fac capacity (.lock i) = some s' → ¬ s'.Deadlocked capacity := by
  simp only [Room, step]
  cases hr : s.sys.missedRef i with
  | none => simp
  | some r =>
    simp only [Option.mem_def, Option.some.injEq, forall_eq', Option.bind_some]
    by_cases hguard : s.sys.sends i = true ∧ ¬ s.Held r
    · simp only [if_pos hguard, Option.some.injEq, forall_eq']
      constructor
      · rintro hroom ⟨x, hx, hfull, hawaits⟩
        rcases List.mem_cons.mp hx with rfl | hx
        · exact absurd (hroom hguard.1 hguard.2 hawaits) (not_lt.mpr hfull)
        · exact hno ⟨x, hx, hfull, hawaits⟩
      · intro hdeadlock _ _ hawaits
        exact not_le.mp fun hfull => hdeadlock ⟨(i, r), List.mem_cons_self, hfull, hawaits⟩
    · simp only [if_neg hguard]
      refine iff_of_true (fun hsends hheld _ => absurd ⟨hsends, hheld⟩ hguard) ?_
      intro s' hs
      cases hs

theorem send_room_iff (h : Inv s) (i : ℕ) :
    s.Room capacity (.send i) ↔
      ∀ s', s.step fac capacity (.send i) = some s' → ¬ s'.Deadlocked capacity := by
  by_cases hguard : (∃ x ∈ s.holders, x.1 = i) ∧ s.queued < capacity
  · obtain ⟨⟨j, r⟩, hr, rfl⟩ := hguard.1
    obtain ⟨c, hc, hphase, hsends⟩ := h.holds _ hr
    obtain ⟨p, hp⟩ := exists_createLocked fac c.namespace hsends
    obtain ⟨sys, hsys⟩ : ∃ sys, s.sys.step fac (.create j) = some sys := by
      simp [System.step, hc, hphase, hp]
    have hstep : s.step fac capacity (.send j) = some (s.release j sys) := by
      simp only [step, if_pos hguard, hsys, Option.map_some]
    obtain ⟨hpass, hlength⟩ := System.create_newWatchers hsys
    rw [h.sends hr, if_pos rfl] at hlength
    constructor
    · rintro hroom s' hs ⟨x, hx, hfull, hawaits⟩
      cases hstep.symm.trans hs
      obtain ⟨hx, hne⟩ := List.mem_filter.mp hx
      have hlt := hroom hguard.1 hguard.2 ⟨x, hx, by simpa using hne, hpass ▸ hawaits⟩
      simp only [release, queued, hlength] at hfull hlt
      omega
    · rintro hdeadlock - - ⟨x, hx, hne, hawaits⟩
      refine not_le.mp fun hfull => hdeadlock _ hstep ⟨x, ?_, ?_, ?_⟩
      · exact List.mem_filter.mpr ⟨hx, by simpa using hne⟩
      · simpa only [release, queued, hlength] using hfull
      · exact hpass.symm ▸ hawaits
  · refine iff_of_true (fun hi hlt _ => absurd ⟨hi, hlt⟩ hguard) fun s' hs => ?_
    simp only [step, if_neg hguard] at hs
    cases hs

theorem handoff_not_deadlocked {i : ℕ} (hs : s.step fac capacity (.handoff i) = some s') :
    ¬ s'.Deadlocked capacity := by
  obtain ⟨-, sys, sys', hsys, hsys', rfl⟩ := step_handoff hs
  rintro ⟨x, -, -, hawaits⟩
  simp only [System.step] at hsys'
  split at hsys'
  · rename_i hpass _
    cases hsys'
    simp [release, hpass, System.setContainer, Pass.awaits] at hawaits
  · cases hsys'

/-- One step: the room in the channel is exactly what keeps the creations and the reaper going. -/
theorem step_room_iff (h : Inv s) (hno : ¬ s.Deadlocked capacity) (a : LockAction) :
    s.Room capacity a ↔ ∀ s', s.step fac capacity a = some s' → ¬ s'.Deadlocked capacity := by
  cases a with
  | lock i => exact lock_room_iff hno i
  | send i => exact send_room_iff h i
  | handoff i => exact iff_of_true trivial fun s' hs => handoff_not_deadlocked hs
  | base a =>
    by_cases hfetch : a = .removeBucket
    · subst hfetch
      exact fetch_room_iff
    · have hroom : s.Room capacity (.base a) := by
        cases a <;> trivial
      refine iff_of_true hroom fun s' hs => ?_
      simp only [step] at hs
      split_ifs at hs with hguard
      obtain ⟨sys, hsys, rfl⟩ := Option.map_eq_some_iff.mp hs
      exact base_not_deadlocked h hno hguard.2 hfetch hsys

/-- A deadlock is for good: the send has no room, and the reaper neither gets its lock nor receives. -/
theorem deadlocked_step (h : Inv s) (hdeadlock : s.Deadlocked capacity) {a : LockAction}
    (hs : s.step fac capacity a = some s') : s'.Deadlocked capacity := by
  obtain ⟨x, hx, hfull, hawaits⟩ := hdeadlock
  obtain ⟨now, ids, w, hpass⟩ : ∃ now ids w, s.sys.pass = .removing now ids w x.2 := by
    cases hpass : s.sys.pass with
    | removing now ids w r =>
      rw [hpass] at hawaits
      cases hawaits
      exact ⟨now, ids, w, rfl⟩
    | waiting | checking | expired => simp [hpass, Pass.awaits] at hawaits
  cases a with
  | lock i =>
    obtain ⟨r, -, hs⟩ := Option.bind_eq_some_iff.mp hs
    split_ifs at hs
    cases hs
    exact ⟨x, List.mem_cons_of_mem _ hx, hfull, hawaits⟩
  | send i =>
    simp only [step] at hs
    rw [if_neg fun hguard => absurd hguard.2 (not_lt.mpr hfull)] at hs
    cases hs
  | handoff i =>
    obtain ⟨-, sys, sys', hsys, hsys', rfl⟩ := step_handoff hs
    simp [System.step, (System.create_newWatchers hsys).1, hpass] at hsys'
  | base a =>
    simp only [step] at hs
    split_ifs at hs with hguard
    obtain ⟨sys, hsys, rfl⟩ := Option.map_eq_some_iff.mp hs
    suffices hstays : s.queued ≤ sys.server.bucketContainer.newWatchers.length ∧
        sys.pass = s.sys.pass from
      ⟨x, hx, hfull.trans hstays.1, hstays.2 ▸ hawaits⟩
    cases a with
    | create i =>
      obtain ⟨hpass', hlength⟩ := System.create_newWatchers hsys
      exact ⟨hlength ▸ Nat.le_add_right _ _, hpass'⟩
    | update order newConfig =>
      obtain ⟨c, hc, hphase, -⟩ := h.holds x hx
      simp only [System.step] at hsys
      split_ifs at hsys with hreturned
      have hreturned' := hreturned.1 c (List.mem_of_getElem? hc)
      rw [hphase] at hreturned'
      cases hreturned'
    | removeFromNamespace => exact absurd ⟨x, hx, rfl⟩ (hguard.1 x.2 hawaits)
    | enter ns bucketName =>
      cases hsys
      exact ⟨le_rfl, rfl⟩
    | elapse d =>
      cases hsys
      exact ⟨le_rfl, rfl⟩
    | look i =>
      obtain ⟨c, -, hsys⟩ := Option.bind_eq_some_iff.mp hsys
      split at hsys
      · obtain ⟨phase, -, rfl⟩ := Option.map_eq_some_iff.mp hsys
        exact ⟨le_rfl, rfl⟩
      · cases hsys
    | report i =>
      obtain ⟨c, -, hsys⟩ := Option.bind_eq_some_iff.mp hsys
      split at hsys
      · rename_i b _
        cases hsys
        obtain ⟨acts, heq⟩ := reportBucket_eq s.sys.server.bucketContainer b
        rw [heq]
        exact ⟨le_rfl, rfl⟩
      · cases hsys
    | addNewWatcher | checkExpirations | check | removeBucket | endPass =>
      simp [System.step, hpass] at hsys

end Locked

end Channel

/-- A server with no calls and a reaper that waits. -/
def Locked.init {F B : Type} (factory : F) (now : ℤ) : Locked F B := ⟨System.init factory now, []⟩

/-- The runs on which the reaper and the creations never deadlock are those on which the channel has
room where they meet. -/
theorem no_deadlock_iff_room {F B : Type} (fac : BucketFactory F B) (factory : F) (now : ℤ)
    (capacity : ℕ) (actions : List LockAction) :
    Machine.Along (Locked.step fac capacity)
        (fun s a => ∀ s', s.step fac capacity a = some s' → ¬ s'.Deadlocked capacity)
        (Locked.init factory now) actions ↔
      Machine.Along (Locked.step fac capacity) (Locked.Room capacity) (Locked.init factory now)
        actions := by
  refine Machine.along_congr (fun s => s.Inv ∧ ¬ s.Deadlocked capacity)
    (fun s a h => (Locked.step_room_iff h.1 h.2 a).symm) ?_ ?_
  · intro s a s' h hno hs
    exact ⟨Locked.step_inv h.1 hs, hno s' hs⟩
  · constructor
    · exact ⟨List.forall_mem_nil _, List.forall_mem_nil _⟩
    · rintro ⟨x, hx, -⟩
      cases hx

/-- A channel for one watcher: a bucket goes idle while the watcher of a second one is in the
channel and a third one is created. -/
theorem reaper_deadlocks :
    let create (bucketName : String) (i : ℕ) : List LockAction :=
      [.base (.enter "a" bucketName), .base (.look i), .lock i]
    let check : List LockAction := [.base (.checkExpirations ["a:x"]), .base .check]
    ∃ s, Machine.run (Locked.step memoryFactory 1) (Locked.init () 0)
        ([.base (.update [] System.shortLived)] ++ create "x" 0 ++ [.send 0, .base .addNewWatcher] ++
          check ++ [.base .endPass, .base (.elapse 2000000000)] ++ create "y" 1 ++ [.send 1] ++
          create "z" 2 ++ check ++ [.base .removeBucket]) = some s ∧ s.Deadlocked 1 := by
  intro create check
  exact Machine.exists_run (by decide)

end QuotaService.Container
