import QuotaService.Container.Concurrent
import QuotaService.Container.Ledger

/-! What the reaper and the updates destroy while calls are under way: no activity is reported on a
closed channel as long as the reaper removes no bucket that a call has just found, and no bucket is
destroyed twice as long as no update drops the namespace that the reaper has just read. -/
namespace QuotaService.Container
open Config

/-- The bucket that a call has found and is to report. -/
def Phase.found {B : Type} : Phase B → Option (Bucket B)
  | reporting b => b
  | _ => none

theorem Created.sound {F B : Type} {bc bc' : BucketContainer F B} {bucketName : String} {r : ℕ}
    {result : Except String (Option (Bucket B))} (hcreated : Created bc bucketName r bc' result) (h : Sound bc) :
    Sound bc' := by
  cases hcreated with
  | found acts => exact h.quiet acts bc.newWatchers
  | full => exact h
  | created f acts ws object absent template id => exact h.addBucket object absent id f acts ws

namespace System
variable {F B : Type}

/-- The bucket of the container that a step calls `ReportActivity` on; a bucket that it creates
does not count. -/
def reported (s : System F B) : Action → Option (Bucket B)
  | .report i => s.calls[i]?.bind fun c => c.phase.found
  | .create i => s.calls[i]?.bind fun c =>
    match c.phase with
    | .missed r => (s.server.bucketContainer.namespaces.deref r).bind fun ns =>
      ns.buckets.lookup c.bucketName
    | _ => none
  | _ => none

/-- The step sends on an activity channel that `Destroy` has closed. -/
def SendsOnClosed (s : System F B) (a : Action) : Prop :=
  ∃ b ∈ s.reported a, b.reapable = true ∧ b.id ∈ s.server.bucketContainer.destroyed

/-- Whether the version guard lets a config pass. -/
def Applies (s : System F B) (newConfig : ServiceConfig) : Prop :=
  ∀ c ∈ s.server.cfgs, c.version < newConfig.version

/-- The step does not take a bucket away from a call that has found it and has not reported on it
yet, and replaces no namespace by one of another name. -/
def Considerate (s : System F B) : Action → Prop
  | .removeFromNamespace => ∀ d ∈ s.doomed, ∀ c ∈ s.calls, ∀ b ∈ c.phase.found,
    b.reapable = true → b.id ≠ d.bucket.id
  | .update _ newConfig => s.Applies newConfig → Keyed newConfig s.server.bucketContainer
  | _ => True

/-- The step does not drop the namespace from which the reaper is about to remove a bucket, and
replaces no namespace by one of another name. -/
def Patient (s : System F B) : Action → Prop
  | .update _ newConfig => s.Applies newConfig → Keyed newConfig s.server.bucketContainer ∧
    ∀ d ∈ s.doomed, ∀ name ∈ s.server.bucketContainer.namespaces.keys,
      s.server.bucketContainer.namespaces.ref? name = some d.ref →
      ∀ ns ∈ s.server.bucketContainer.namespaces.get? name, Keeps newConfig name ns
  | _ => True

instance (s : System F B) (a : Action) : Decidable (s.SendsOnClosed a) :=
  inferInstanceAs (Decidable (∃ b ∈ s.reported a, _))

instance (s : System F B) (newConfig : ServiceConfig) : Decidable (s.Applies newConfig) :=
  inferInstanceAs (Decidable (∀ c ∈ s.server.cfgs, _))

instance (s : System F B) : ∀ a, Decidable (s.Considerate a)
  | .removeFromNamespace => inferInstanceAs (Decidable (∀ d ∈ s.doomed, ∀ c ∈ s.calls, _))
  | .update _ newConfig => inferInstanceAs (Decidable (s.Applies newConfig → _))
  | .enter _ _ | .look _ | .create _ | .report _ | .addNewWatcher | .checkExpirations _ | .check
  | .removeBucket | .endPass | .elapse _ => isTrue trivial

instance (s : System F B) : ∀ a, Decidable (s.Patient a)
  | .update _ newConfig => inferInstanceAs (Decidable (s.Applies newConfig → _))
  | .enter _ _ | .look _ | .create _ | .report _ | .addNewWatcher | .checkExpirations _ | .check
  | .removeBucket | .removeFromNamespace | .endPass | .elapse _ => isTrue trivial

/-- What both need: what names refer to is intact, also for the calls under way. -/
structure Intact (s : System F B) : Prop where
  sound : Sound s.server.bucketContainer
  current : Current s

section Intact
variable {fac : BucketFactory F B} {s s' : System F B} {a : Action}

theorem intact_init (factory : F) (now : ℤ) : Intact (init factory now : System F B) := by
  refine ⟨⟨?_, ?_, ?_, ?_⟩, current_init factory now⟩
  · simp [BucketContainer.held, init, empty, NewBucketContainer, bucketId]
  · simp [init, empty, NewBucketContainer]
  · simp [init, empty, NewBucketContainer]
  · simp [init, empty, NewBucketContainer, bucketId]

/-- A config that the guard does not let pass changes nothing. -/
theorem update_of_not_applies {order : List String} {newConfig : ServiceConfig}
    (h : ¬ s.Applies newConfig) :
    updateBucketContainer fac order newConfig s.server = some s.server := by
  unfold Applies at h
  push Not at h
  obtain ⟨c, hc, hle⟩ := h
  exact updateBucketContainer_ignored hc hle

theorem update_sound {order : List String} {newConfig : ServiceConfig} {server : Server F B}
    (h : Sound s.server.bucketContainer)
    (hkeyed : s.Applies newConfig → Keyed newConfig s.server.bucketContainer)
    (hupdate : updateBucketContainer fac order newConfig s.server = some server) :
    Sound server.bucketContainer := by
  by_cases happlies : s.Applies newConfig
  · exact (updateBucketContainer_purged h (hkeyed happlies) hupdate).sound
  · rw [update_of_not_applies happlies] at hupdate
    cases hupdate
    exact h

theorem step_intact (h : Intact s) (hkeyed : ∀ order newConfig, a = .update order newConfig →
      s.Applies newConfig → Keyed newConfig s.server.bucketContainer)
    (hs : s.step fac a = some s') : Intact s' := by
  refine ⟨?_, step_current h.current hs⟩
  cases step_moved hs with
  | enter | look => exact h.sound
  | create call missed created => exact (createLocked_created created).sound h.sound
  | report | reaper => exact h.sound.quiet _ _
  | update returned covers updated => exact update_sound h.sound (hkeyed _ _ rfl) updated
  | remove removing => exact h.sound.removeBucket fac _ _

end Intact

section Reports
variable {fac : BucketFactory F B} {s s' : System F B} {a : Action}

/-- Whoever has found a bucket can still report on it. -/
structure Reportable (s : System F B) : Prop where
  intact : Intact s
  found : ∀ c ∈ s.calls, ∀ b, c.phase.found = some b → b.reapable = true →
    b.id < s.server.bucketContainer.nextBucket ∧ b.id ∉ s.server.bucketContainer.destroyed

theorem Intact.get? (h : Intact s) {c : Call B} (hc : c ∈ s.calls) {r : ℕ} {ns : Namespace B}
    (hread : c.phase.read = some (some r))
    (hns : s.server.bucketContainer.namespaces.deref r = some ns) :
    s.server.bucketContainer.namespaces.get? c.namespace = some ns :=
  Directory.get?_eq_some.mpr ⟨r, h.current c hc _ hread, hns⟩

/-- What a call finds has not been destroyed. -/
theorem Intact.looked (h : Intact s) {c : Call B} (hc : c ∈ s.calls) {r : Option ℕ}
    (hphase : c.phase = .fetched r) {phase : Phase B}
    (hlooked : Looked s.server.bucketContainer c.bucketName r phase) {b : Bucket B}
    (hb : phase.found = some b) :
    b.id < s.server.bucketContainer.nextBucket ∧ b.id ∉ s.server.bucketContainer.destroyed := by
  cases hlooked with
  | global =>
    have hid : b.id ∈ bucketId s.server.bucketContainer.defaultBucket :=
      mem_bucketId.mpr ⟨b, hb, rfl⟩
    exact ⟨h.sound.default_lt hid, h.sound.default _ hid⟩
  | found object held =>
    cases hb
    exact h.sound.intact (h.get? hc (by rw [hphase]; rfl) object) (mem_ids_of_lookup held)
  | default object =>
    exact h.sound.intact (h.get? hc (by rw [hphase]; rfl) object) (mem_ids_of_default hb)
  | missed => cases hb

theorem step_reportable (h : Reportable s) (hok : s.Considerate a) (hs : s.step fac a = some s') :
    Reportable s' := by
  have hintact : Intact s' := by
    refine step_intact h.intact (fun order newConfig ha => ?_) hs
    subst ha
    exact hok
  refine ⟨hintact, fun c' hc' b hb hreapable => ?_⟩
  cases step_moved hs with
  | enter ns bucketName =>
    rcases List.mem_append.mp hc' with hc' | hc'
    · exact h.found c' hc' b hb hreapable
    · rw [List.mem_singleton] at hc'
      subst hc'
      cases hb
  | look call fetched looked =>
    rcases mem_setPhase hc' with hc' | rfl
    · exact h.found c' hc' b hb hreapable
    · exact h.intact.looked (List.mem_of_getElem? call) fetched (look_looked looked) hb
  | create call missed created =>
    rcases mem_setPhase hc' with hc' | rfl
    · obtain ⟨hlt, hnot⟩ := h.found c' hc' b hb hreapable
      cases createLocked_created created with
      | found | full => exact ⟨hlt, hnot⟩
      | created => exact ⟨hlt.trans (Nat.lt_succ_self _), hnot⟩
    · cases hb
  | report call reporting =>
    rcases mem_setPhase hc' with hc' | rfl
    · exact h.found c' hc' b hb hreapable
    · cases hb
  | update returned covers updated =>
    have hreturned := returned c' hc'
    cases hphase : c'.phase <;> simp [hphase, Phase.isReturned, Phase.found] at hreturned hb
  | reaper read => exact h.found c' hc' b hb hreapable
  | remove removing =>
    obtain ⟨hlt, hnot⟩ := h.found c' hc' b hb hreapable
    rcases remove_cases fac removing with ⟨heq, -⟩ | ⟨ns, b₀, -, -, hdoomed, heq⟩
    · simp only [setContainer, heq]
      exact ⟨hlt, hnot⟩
    · simp only [setContainer, heq]
      refine ⟨hlt, fun hmem => ?_⟩
      rcases Multiset.mem_cons.mp hmem with hid | hmem
      · exact hok _ hdoomed c' hc' b hb hreapable hid
      · exact hnot hmem

theorem Reportable.not_sendsOnClosed (h : Reportable s) (a : Action) : ¬ s.SendsOnClosed a := by
  rintro ⟨b, hb, hreapable, hclosed⟩
  cases a with
  | report i =>
    obtain ⟨c, hc, hb⟩ := Option.bind_eq_some_iff.mp hb
    exact (h.found c (List.mem_of_getElem? hc) b hb hreapable).2 hclosed
  | create i =>
    obtain ⟨c, hc, hb⟩ := Option.bind_eq_some_iff.mp hb
    cases hphase : c.phase with
    | missed r =>
      simp only [hphase] at hb
      obtain ⟨ns, hns, hlookup⟩ := Option.bind_eq_some_iff.mp hb
      have hget := h.intact.get? (List.mem_of_getElem? hc) (by rw [hphase]; rfl) hns
      exact (h.intact.sound.intact hget (mem_ids_of_lookup hlookup)).2 hclosed
    | fetched | reporting | returned => simp [hphase] at hb
  | enter | look | update | addNewWatcher | checkExpirations | check | removeBucket
  | removeFromNamespace | endPass | elapse => cases hb

end Reports

/-- A config whose dynamic buckets may be idle for a second. -/
def shortLived : ServiceConfig where
  namespaces := .table (AList.singleton "a" (some
    (applyNamespaceDefaults "a" { dynamicBucketTemplate := some { maxIdleMillis := 1000 } })))

/-- A bucket is created, a pass sees the report of its creation, and two seconds go by. -/
def expiring : List Action :=
  [.update [] shortLived, .enter "a" "x", .look 0, .create 0, .addNewWatcher,
    .checkExpirations ["a:x"], .check, .endPass, .elapse 2000000000]

/-- In every run whose steps are considerate, no step from any state that is reached reports
activity on a closed channel, whatever the order of calls, passes and updates. -/
theorem no_send_on_closed (fac : BucketFactory F B) (factory : F) (now : ℤ) (actions : List Action)
    (hok : Machine.Along (step fac) Considerate (init factory now) actions) (s : System F B)
    (hrun : Machine.run (step fac) (init factory now) actions = some s) (a : Action) :
    ¬ s.SendsOnClosed a := by
  have h : Reportable s := by
    refine Machine.run_induction Reportable (fun _ _ _ => step_reportable)
      ⟨intact_init factory now, by simp [init]⟩ hok hrun
  exact h.not_sendsOnClosed a

/-- A bucket that no call has found is removed, and created again. -/
theorem no_send_on_closed_recreated :
    ∃ s, Machine.run (step memoryFactory) (init () 0) (expiring ++ [.checkExpirations ["a:x"],
        .check, .removeBucket, .removeFromNamespace, .enter "a" "x", .look 1]) = some s ∧
      ∀ a, ¬ s.SendsOnClosed a := by
  have hrun := (Option.some_get (show (Machine.run (step memoryFactory) (init () 0)
    (expiring ++ [.checkExpirations ["a:x"], .check, .removeBucket, .removeFromNamespace,
      .enter "a" "x", .look 1])).isSome = true by decide)).symm
  exact ⟨_, hrun, no_send_on_closed memoryFactory () 0 _ (by decide) _ hrun⟩

/-- A call finds an expired bucket just before the reaper removes it, and then reports on it. -/
theorem report_after_removal :
    Normalised shortLived ∧
      ∃ s, Machine.run (step memoryFactory) (init () 0) (expiring ++ [.enter "a" "x", .look 1,
          .checkExpirations ["a:x"], .check, .removeBucket, .removeFromNamespace]) = some s ∧
        (s.step memoryFactory (.report 1)).isSome = true ∧ s.SendsOnClosed (.report 1) := by
  refine ⟨⟨shortLived, shortLived, rfl, Or.inl rfl⟩, ?_⟩
  have hrun : ((Machine.run (step memoryFactory) (init () 0) (expiring ++ [.enter "a" "x", .look 1,
      .checkExpirations ["a:x"], .check, .removeBucket, .removeFromNamespace])).any fun s =>
        (s.step memoryFactory (.report 1)).isSome && s.SendsOnClosed (.report 1)) = true := by
    decide
  obtain ⟨s, hs, h⟩ := (Option.any_eq_true _ _).mp hrun
  rw [Bool.and_eq_true, decide_eq_true_eq] at h
  exact ⟨s, hs, h⟩

section Removals
variable {fac : BucketFactory F B} {s s' : System F B} {a : Action}

/-- Nothing was destroyed twice, nor will be by the removal that the reaper is about to do. -/
structure Single (s : System F B) : Prop where
  intact : Intact s
  once : s.server.bucketContainer.destroyed.Nodup
  doomed : ∀ w r, Removing s.pass w r → ∃ ns, s.server.bucketContainer.namespaces.deref r = some ns ∧
    ∀ b, ns.buckets.lookup w.bucketName = some b → b.id ∉ s.server.bucketContainer.destroyed

/-- An update spares the bucket that the reaper is about to remove. -/
theorem Single.update {order : List String} {newConfig : ServiceConfig} {server : Server F B}
    (h : Single s) (hok : s.Patient (.update order newConfig))
    (hupdate : updateBucketContainer fac order newConfig s.server = some server) :
    server.bucketContainer.destroyed.Nodup ∧ ∀ w r, Removing s.pass w r →
      ∃ ns, server.bucketContainer.namespaces.deref r = some ns ∧
        ∀ b, ns.buckets.lookup w.bucketName = some b →
          b.id ∉ server.bucketContainer.destroyed := by
  by_cases happlies : s.Applies newConfig
  · obtain ⟨hkeyed, hkeeps⟩ := hok happlies
    have hpurged := updateBucketContainer_purged h.intact.sound hkeyed hupdate
    refine ⟨hpurged.once h.once, fun w r hremoving => ?_⟩
    obtain ⟨ns, hns, hnot⟩ := h.doomed w r hremoving
    obtain ⟨nsCfg, hns', -⟩ := (updateBucketContainer_carried hupdate).old r ns hns
    refine ⟨_, hns', fun b hb => ?_⟩
    have hlookup : ns.buckets.lookup w.bucketName = some b := hb
    have hid := mem_ids_of_lookup hlookup
    have hdoomed : ⟨r, w.bucketName, b⟩ ∈ s.doomed := by
      obtain ⟨now, ids, hpass⟩ := hremoving
      simp [System.doomed, hpass, hns, hlookup]
    refine (hpurged.spared b.id ⟨h.intact.sound.lt_of_mem hns hid,
      fun hdefault => h.intact.sound.default_notMem hns hdefault hid, ?_, hnot b hlookup⟩).intact
    intro name ns' hget hid'
    -- the bucket is in one object only, so this is the one that the reaper has read
    obtain ⟨r', hr', hderef⟩ := Directory.get?_eq_some.mp hget
    obtain rfl := h.intact.sound.ref_eq hderef hns hid' hid
    exact hkeeps _ hdoomed name (mem_keys_of_get? hget) hr' ns' hget
  · rw [update_of_not_applies happlies] at hupdate
    cases hupdate
    exact ⟨h.once, h.doomed⟩

theorem step_single (h : Single s) (hok : s.Patient a) (hs : s.step fac a = some s') :
    Single s' := by
  have hintact : Intact s' := by
    refine step_intact h.intact (fun order newConfig ha happlies => ?_) hs
    subst ha
    exact (hok happlies).1
  cases step_moved hs with
  | enter | look => exact ⟨hintact, h.once, h.doomed⟩
  | report => exact ⟨hintact, h.once, h.doomed⟩
  | @create i c r bc result call missed created =>
    cases createLocked_created created with
    | found | full => exact ⟨hintact, h.once, h.doomed⟩
    | @created ns b f acts ws object absent template hid =>
      refine ⟨hintact, h.once, fun w r' hremoving => ?_⟩
      obtain ⟨ns', hns', hnot⟩ := h.doomed w r' hremoving
      by_cases hr : r = r'
      · subst hr
        cases object.symm.trans hns'
        refine ⟨ns.addBucket c.bucketName b, ?_, fun b' hb' => ?_⟩
        · exact Directory.deref_modify_self.trans (by rw [hns']; rfl)
        · rw [lookup_addBucket] at hb'
          split_ifs at hb'
          · cases hb'
            exact fun hmem => absurd (h.intact.sound.destroyed_lt _ hmem) (by rw [hid]; exact lt_irrefl _)
          · exact hnot b' hb'
      · exact ⟨ns', (Directory.deref_modify_ne hr).trans hns', hnot⟩
  | update returned covers updated =>
    obtain ⟨honce, hdoomed⟩ := h.update hok updated
    exact ⟨hintact, honce, hdoomed⟩
  | reaper read =>
    refine ⟨hintact, h.once, fun w r hremoving => ?_⟩
    rcases read with rfl | hread
    · exact h.doomed w r hremoving
    · have hr := hread w r hremoving
      obtain ⟨ns, hns⟩ := Directory.exists_deref hr
      refine ⟨ns, hns, fun b hb => ?_⟩
      have hget := Directory.get?_eq_some.mpr ⟨r, hr, hns⟩
      exact (h.intact.sound.intact hget (mem_ids_of_lookup hb)).2
  | remove removing =>
    refine ⟨hintact, ?_, ?_⟩
    · obtain ⟨ns₁, hns₁, hnot⟩ := h.doomed _ _ removing
      rcases remove_cases fac removing with ⟨heq, -⟩ | ⟨ns, b, hns, hlookup, -, heq⟩
      · simp only [setContainer, heq]
        exact h.once
      · simp only [setContainer, heq]
        cases hns₁.symm.trans hns
        exact Multiset.nodup_cons.mpr ⟨hnot b hlookup, h.once⟩
    · rintro w r ⟨now, ids, hpass⟩
      cases hpass

end Removals

/-- In every run whose steps are patient, no bucket is destroyed twice, whatever the order of calls,
passes and updates. -/
theorem destroyed_at_most_once (fac : BucketFactory F B) (factory : F) (now : ℤ)
    (actions : List Action)
    (hok : Machine.Along (step fac) Patient (init factory now) actions) (s : System F B)
    (hrun : Machine.run (step fac) (init factory now) actions = some s) (id : ℕ) :
    s.server.bucketContainer.destroyed.count id ≤ 1 := by
  have hinit : Single (init factory now : System F B) := by
    refine ⟨intact_init factory now, Multiset.nodup_zero, ?_⟩
    rintro w r ⟨now, ids, hpass⟩
    cases hpass
  have h : Single s := Machine.run_induction Single (fun _ _ _ => step_single) hinit hok hrun
  exact Multiset.nodup_iff_count_le_one.mp h.once id

/-- The reaper has read a namespace that an update then keeps. -/
theorem destroyed_at_most_once_kept :
    let cfg : ServiceConfig := { shortLived with version := 1 }
    ∃ s, Machine.run (step memoryFactory) (init () 0) (expiring ++ [.checkExpirations ["a:x"],
        .check, .removeBucket, .update ["a"] cfg, .removeFromNamespace]) = some s ∧
      s.server.bucketContainer.destroyed.count 0 ≤ 1 := by
  intro cfg
  have hrun := (Option.some_get (show (Machine.run (step memoryFactory) (init () 0)
    (expiring ++ [.checkExpirations ["a:x"], .check, .removeBucket, .update ["a"] cfg,
      .removeFromNamespace])).isSome = true by decide)).symm
  exact ⟨_, hrun, destroyed_at_most_once memoryFactory () 0 _ (by decide) _ hrun 0⟩

/-- The reaper has read a namespace that an update then destroys. -/
theorem destroyed_twice :
    let cfg : ServiceConfig := { version := 1 }
    Normalised shortLived ∧ Normalised cfg ∧
      ∃ s, Machine.run (step memoryFactory) (init () 0) (expiring ++ [.checkExpirations ["a:x"],
          .check, .removeBucket, .update ["a"] cfg, .removeFromNamespace]) = some s ∧
        s.server.bucketContainer.destroyed.count 0 = 2 := by
  intro cfg
  refine ⟨⟨shortLived, shortLived, rfl, Or.inl rfl⟩, ⟨cfg, cfg, rfl, Or.inl rfl⟩, ?_⟩
  have hrun : ((Machine.run (step memoryFactory) (init () 0) (expiring ++ [.checkExpirations ["a:x"],
      .check, .removeBucket, .update ["a"] cfg, .removeFromNamespace])).any fun s =>
        s.server.bucketContainer.destroyed.count 0 = 2) = true := by decide
  obtain ⟨s, hs, h⟩ := (Option.any_eq_true _ _).mp hrun
  exact ⟨s, hs, of_decide_eq_true h⟩

end System

end QuotaService.Container
