import QuotaService.Container.Concurrent
import QuotaService.Container.Objects

/-! Dynamic buckets under any interleaving of calls, reaping passes and updates with any configs: a
namespace counts them right and holds no more than it may, and while a namespace is not replaced
and a bucket of it not removed, all calls that look the bucket up get the same one. -/
namespace QuotaService.Container
open Config

variable {F B : Type} {fac : BucketFactory F B}

/-- The number of dynamic buckets in the map of a namespace. -/
def Namespace.numDynamic (ns : Namespace B) : ℕ :=
  ns.buckets.total fun _ b => if b.dynamic then 1 else 0

/-- The namespace counts its dynamic buckets right, holds no more of them than it may (the limit is
an `int32`), and none under the name of a configured bucket. -/
structure Accounted (ns : Namespace B) : Prop where
  counted : ns.dynamicBucketCount = ns.countDynamicBuckets
  max : 0 < ns.cfg.maxDynamicBuckets → ns.cfg.maxDynamicBuckets < 2 ^ 31 →
    ns.numDynamic ≤ ns.cfg.maxDynamicBuckets
  static : ∀ n b, ns.buckets.lookup n = some b → (ns.cfg.buckets.get n).isSome → b.dynamic = false
  set : ∀ n, ns.cfg.buckets.get n ≠ some none

section Objects
variable {ns : Namespace B} {bucketName : String} {b : Bucket B}

theorem countDynamicBuckets_eq (ns : Namespace B) :
    ns.countDynamicBuckets = Arith.int32.wrap ns.numDynamic := by
  have h : ∀ (l : List (Sigma fun _ : String => Bucket B)) (n : ℕ),
      l.foldl (fun c e => if e.2.dynamic then Arith.int32.wrap (c + 1) else c)
          (Arith.int32.wrap n) =
        Arith.int32.wrap (n + (l.map fun e => if e.2.dynamic then 1 else 0).sum : ℕ) := by
    intro l
    induction l with
    | nil =>
      intro n
      rw [List.foldl_nil, List.map_nil, List.sum_nil, Nat.add_zero]
    | cons e l ih =>
      intro n
      simp only [List.foldl_cons, List.map_cons, List.sum_cons]
      cases e.2.dynamic with
      | false => simpa using ih n
      | true =>
        rw [if_pos rfl, if_pos rfl, Arith.int32_wrap_add, ← add_assoc, ← ih (n + 1), Nat.cast_add,
          Nat.cast_one]
  have hzero := h ns.buckets.entries 0
  rw [Nat.zero_add, Nat.cast_zero, Arith.int32_wrap_of_nonneg le_rfl (by norm_num)] at hzero
  unfold Namespace.countDynamicBuckets Namespace.numDynamic AList.total
  exact hzero

/-- As long as an `int32` can tell it, the count is the number of dynamic buckets. -/
theorem Accounted.count_eq (h : Accounted ns) (hlt : ns.numDynamic < 2 ^ 31) :
    ns.dynamicBucketCount = ns.numDynamic := by
  rw [h.counted, countDynamicBuckets_eq]
  exact Arith.int32_wrap_of_nonneg (by omega) (by exact_mod_cast hlt)

theorem numDynamic_addBucket (h : ns.buckets.lookup bucketName = none) :
    (ns.addBucket bucketName b).numDynamic = (if b.dynamic then 1 else 0) + ns.numDynamic :=
  AList.total_insert_of_none _ _ h

theorem numDynamic_dropBucket (h : ns.buckets.lookup bucketName = some b) :
    ns.numDynamic = (if b.dynamic then 1 else 0) + (ns.dropBucket bucketName b).numDynamic :=
  AList.total_erase _ h

theorem numDynamic_eq_zero (h : ∀ n b, ns.buckets.lookup n = some b → b.dynamic = false) :
    ns.numDynamic = 0 := by
  have hcongr : ns.numDynamic = ns.buckets.total fun _ _ => 0 :=
    AList.total_congr fun n b hb => by simp [h n b hb]
  rw [hcongr]
  simp [AList.total]

theorem Namespace.Pristine.accounted (h : ns.Pristine) : Accounted ns := by
  have hnum := numDynamic_eq_zero h.static
  refine ⟨?_, fun hpos _ => by rw [hnum]; exact hpos.le, fun n b hb _ => h.static n b hb, h.set⟩
  rw [h.count, countDynamicBuckets_eq, hnum, Nat.cast_zero,
    Arith.int32_wrap_of_nonneg le_rfl (by norm_num)]

theorem Accounted.swapCfg {nsCfg : NamespaceConfig} (h : Accounted ns)
    (hsame : SameNamespace ns.cfg nsCfg) : Accounted (ns.swapCfg nsCfg) := by
  refine ⟨h.counted, ?_, fun n b hb hn => ?_, fun n => hsame.buckets n ▸ h.set n⟩
  · simp only [Namespace.swapCfg, ← hsame.maxDynamicBuckets]
    exact h.max
  · apply h.static n b hb
    rw [hsame.buckets n]
    exact hn

theorem Accounted.addBucket (h : Accounted ns) (hlookup : ns.buckets.lookup bucketName = none)
    (horigin : Origin ns bucketName b) : Accounted (ns.addBucket bucketName b) := by
  have hnum := numDynamic_addBucket (b := b) hlookup
  have hcounted := h.counted
  rw [countDynamicBuckets_eq] at hcounted
  cases horigin with
  | static configured static =>
    simp only [static, Bool.false_eq_true, if_false, zero_add] at hnum
    refine ⟨?_, ?_, fun n b' hb' hn => ?_, h.set⟩
    · rw [countDynamicBuckets_eq, hnum, ← hcounted]
      simp [Namespace.addBucket, static]
    · rw [hnum]
      exact h.max
    · rw [lookup_addBucket] at hb'
      split_ifs at hb' with hname
      · exact Option.some.inj hb' ▸ static
      · exact h.static n b' hb' hn
  | dynamic unconfigured template dynamic room =>
    simp only [dynamic, if_true] at hnum
    refine ⟨?_, fun hpos hmax => ?_, fun n b' hb' hn => ?_, h.set⟩
    · rw [countDynamicBuckets_eq, hnum]
      simp only [Namespace.addBucket, dynamic, if_true, hcounted, Arith.int32_wrap_add]
      rw [add_comm]
      norm_cast
    · replace hpos : 0 < ns.cfg.maxDynamicBuckets := hpos
      replace hmax : ns.cfg.maxDynamicBuckets < 2 ^ 31 := hmax
      have hle := h.max hpos hmax
      have hcount := h.count_eq (by omega)
      have hroom : ns.dynamicBucketCount < ns.cfg.maxDynamicBuckets := by
        by_contra hfull
        exact room ⟨hpos, not_lt.mp hfull⟩
      rw [hnum]
      show ((1 + ns.numDynamic : ℕ) : ℤ) ≤ ns.cfg.maxDynamicBuckets
      omega
    · rw [lookup_addBucket] at hb'
      split_ifs at hb' with hname
      · subst hname
        -- a configured bucket is never nil, so this one is not configured
        obtain ⟨c, hc⟩ := Option.isSome_iff_exists.mp hn
        have hc' : ns.cfg.buckets.get n = some c := hc
        rw [hc', Option.join_some] at unconfigured
        exact absurd (hc'.trans (congrArg some unconfigured)) (h.set n)
      · exact h.static n b' hb' hn

theorem Accounted.dropBucket (h : Accounted ns) (hlookup : ns.buckets.lookup bucketName = some b) :
    Accounted (ns.dropBucket bucketName b) := by
  have hnum := numDynamic_dropBucket hlookup
  have hcounted := h.counted
  rw [countDynamicBuckets_eq, hnum] at hcounted
  refine ⟨?_, fun hpos hmax => ?_, fun n b' hb' hn => ?_, h.set⟩
  · have hcount : (ns.dropBucket bucketName b).dynamicBucketCount =
        if b.dynamic then Arith.int32.wrap (ns.dynamicBucketCount - 1) else ns.dynamicBucketCount :=
      rfl
    rw [countDynamicBuckets_eq, hcount, hcounted]
    cases b.dynamic with
    | false => simp
    | true =>
      simp only [if_true, Arith.int32_wrap_sub]
      congr 1
      push_cast
      omega
  · have hle := h.max hpos hmax
    show ((ns.dropBucket bucketName b).numDynamic : ℤ) ≤ ns.cfg.maxDynamicBuckets
    omega
  · exact h.static n b' (AList.lookup_erase_cases hb').2 hn

/-- Every object stays accounted for when one of them is changed into one that is. -/
theorem accounted_modify {d : Directory String (Namespace B)} {r : ℕ}
    (h : ∀ r ns, d.deref r = some ns → Accounted ns) (hns : d.deref r = some ns)
    {f : Namespace B → Namespace B} (hf : Accounted (f ns)) :
    ∀ r' ns', (d.modify r f).deref r' = some ns' → Accounted ns' := by
  intro r' ns' hns'
  by_cases hr : r = r'
  · subst hr
    rw [Directory.deref_modify_self, hns] at hns'
    cases hns'
    exact hf
  · exact h r' ns' ((Directory.deref_modify_ne hr).symm.trans hns')

end Objects

/-- What a lookup of a bucket in a namespace can come to, besides creating it. -/
def Namespace.answer (ns : Namespace B) (bucketName : String) : Option (Bucket B) :=
  (ns.buckets.lookup bucketName).or ns.defaultBucket

/-- No bucket is created under the name while the namespace is as it is. -/
def Namespace.Decided (ns : Namespace B) (bucketName : String) : Prop :=
  ns.buckets.lookup bucketName ≠ none ∨ ns.cfg.dynamicBucketTemplate = none

/-- The bucket that a call returns, or will return. -/
def Phase.answer {B : Type} : Phase B → Option (Option (Bucket B))
  | reporting b => some b
  | returned (.ok b) => some b
  | _ => none

namespace System
variable {s s' : System F B} {a : Action}

/-- The step removes the bucket, or lets the name of its namespace refer to another object. -/
def Severs (fac : BucketFactory F B) («namespace» bucketName : String) (s : System F B) :
    Action → Prop
  | .removeFromNamespace => ∃ d ∈ s.doomed, d.bucketName = bucketName ∧
    s.server.bucketContainer.namespaces.ref? «namespace» = some d.ref
  | .update order newConfig => ∃ server ∈ updateBucketContainer fac order newConfig s.server,
    server.bucketContainer.namespaces.ref? «namespace» ≠
      s.server.bucketContainer.namespaces.ref? «namespace»
  | _ => False

/-- The step is one of a call for the bucket, which creates it. -/
def Creates (fac : BucketFactory F B) («namespace» bucketName : String) (s : System F B) :
    Action → Prop
  | .create i => ∃ c ∈ s.calls[i]?, c.namespace = «namespace» ∧ c.bucketName = bucketName ∧
    ∃ s' ∈ s.step fac (.create i),
      s.server.bucketContainer.nextBucket < s'.server.bucketContainer.nextBucket
  | _ => False

instance (fac : BucketFactory F B) (ns bucketName : String) (s : System F B) :
    ∀ a, Decidable (s.Creates fac ns bucketName a)
  | .create i => inferInstanceAs (Decidable (∃ c ∈ s.calls[i]?, _))
  | .enter _ _ | .look _ | .update _ _ | .report _ | .addNewWatcher | .checkExpirations _ | .check
  | .removeBucket | .removeFromNamespace | .endPass | .elapse _ => isFalse id

instance (fac : BucketFactory F B) (ns bucketName : String) (s : System F B) :
    ∀ a, Decidable (s.Severs fac ns bucketName a)
  | .removeFromNamespace => inferInstanceAs (Decidable (∃ d ∈ s.doomed, _))
  | .update order newConfig =>
    inferInstanceAs (Decidable (∃ server ∈ updateBucketContainer fac order newConfig s.server, _))
  | .enter _ _ | .look _ | .create _ | .report _ | .addNewWatcher | .checkExpirations _ | .check
  | .removeBucket | .endPass | .elapse _ => isFalse id

/-- How often calls create the bucket in a run. -/
def creations (fac : BucketFactory F B) («namespace» bucketName : String) :
    System F B → List Action → ℕ
  | _, [] => 0
  | s, a :: as => (if s.Creates fac «namespace» bucketName a then 1 else 0) +
    match s.step fac a with
    | none => 0
    | some s' => creations fac «namespace» bucketName s' as

/-- A call for the bucket that has looked it up since the state `s₀`, with its answer. -/
structure Answered (s₀ s : System F B) («namespace» bucketName : String) (i : ℕ)
    (b : Option (Bucket B)) : Prop where
  call : ∃ c, s.calls[i]? = some c ∧ c.namespace = «namespace» ∧ c.bucketName = bucketName ∧
    c.phase.answer = some b
  since : ∀ c, s₀.calls[i]? = some c → c.phase.read ≠ none

section Accounts

/-- Every namespace object is accounted for. -/
theorem step_accounted (h : ∀ r ns, s.server.bucketContainer.namespaces.deref r = some ns →
      Accounted ns) (hs : s.step fac a = some s') :
    ∀ r ns, s'.server.bucketContainer.namespaces.deref r = some ns → Accounted ns := by
  cases step_moved hs with
  | enter | look => exact h
  | create call missed created =>
    cases createLocked_created created with
    | found | full => exact h
    | created f acts ws object absent template id origin =>
      exact accounted_modify h object ((h _ _ object).addBucket absent origin)
  | report | reaper => exact h
  | update returned covers updated =>
    intro r ns' hns'
    have hcarried := updateBucketContainer_carried updated
    rcases hcarried.new r ns' hns' with ⟨ns, hns⟩ | hpristine
    · obtain ⟨c, hc, hsame⟩ := hcarried.old r ns hns
      cases hns'.symm.trans hc
      exact (h r ns hns).swapCfg hsame
    · exact hpristine.accounted
  | remove removing =>
    rcases remove_cases fac removing with ⟨heq, -⟩ | ⟨ns, b, hns, hlookup, -, heq⟩
    · simp only [setContainer, heq]
      exact h
    · simp only [setContainer, heq]
      exact accounted_modify h hns ((h _ _ hns).dropBucket hlookup)

end Accounts

/-- What a step leaves of a namespace for a lookup of the bucket, unless it severs them. -/
structure Steady (bucketName : String) (nsp nsp' : Namespace B) : Prop where
  default : nsp'.defaultBucket = nsp.defaultBucket
  held : ∀ b, nsp.buckets.lookup bucketName = some b → nsp'.buckets.lookup bucketName = some b
  static : nsp.cfg.dynamicBucketTemplate = none → nsp'.cfg.dynamicBucketTemplate = none ∧
    nsp'.buckets.lookup bucketName = nsp.buckets.lookup bucketName

section Stretch
variable {ns bucketName : String} {r : ℕ} {nsp nsp' : Namespace B}

theorem Steady.refl (bucketName : String) (nsp : Namespace B) : Steady bucketName nsp nsp :=
  ⟨rfl, fun _ => id, fun h => ⟨h, rfl⟩⟩

theorem Steady.decided (h : Steady bucketName nsp nsp') (hdecided : nsp.Decided bucketName) :
    nsp'.Decided bucketName ∧ nsp'.answer bucketName = nsp.answer bucketName := by
  unfold Namespace.Decided Namespace.answer at *
  cases hlookup : nsp.buckets.lookup bucketName with
  | some b => simp [h.held b hlookup]
  | none =>
    obtain ⟨htemplate, hsame⟩ := h.static (hdecided.resolve_left fun hne => hne hlookup)
    exact ⟨Or.inr htemplate, by rw [hsame, hlookup, h.default]⟩

theorem step_steady (hs : s.step fac a = some s') (hsevers : ¬ s.Severs fac ns bucketName a)
    (hr : s.server.bucketContainer.namespaces.ref? ns = some r)
    (hnsp : s.server.bucketContainer.namespaces.deref r = some nsp) :
    s'.server.bucketContainer.namespaces.ref? ns = some r ∧
      ∃ nsp', s'.server.bucketContainer.namespaces.deref r = some nsp' ∧
        Steady bucketName nsp nsp' := by
  cases step_moved hs with
  | enter | look | report | reaper => exact ⟨hr, nsp, hnsp, .refl _ _⟩
  | @create i c r₀ bc result call missed created =>
    cases createLocked_created created with
    | found | full => exact ⟨hr, nsp, hnsp, .refl _ _⟩
    | @created nsp₀ b f acts ws object absent template =>
      refine ⟨hr, ?_⟩
      by_cases hr₀ : r₀ = r
      · subst hr₀
        cases hnsp.symm.trans object
        refine ⟨nsp.addBucket c.bucketName b, ?_, rfl, fun b' hb' => ?_, fun h => absurd h template⟩
        · exact Directory.deref_modify_self.trans (by rw [hnsp]; rfl)
        · rw [lookup_addBucket, if_neg]
          · exact hb'
          · rintro rfl
            cases absent.symm.trans hb'
      · exact ⟨nsp, (Directory.deref_modify_ne hr₀).trans hnsp, .refl _ _⟩
  | @update order newConfig server returned covers updated =>
    have hsame : server.bucketContainer.namespaces.ref? ns =
        s.server.bucketContainer.namespaces.ref? ns := by
      by_contra hne
      exact hsevers ⟨server, updated, hne⟩
    obtain ⟨c, hc, hcfg⟩ := (updateBucketContainer_carried updated).old r nsp hnsp
    refine ⟨hsame.trans hr, _, hc, rfl, fun b hb => hb, fun h => ⟨?_, rfl⟩⟩
    exact hcfg.dynamicBucketTemplate.symm.trans h
  | @remove w r₀ watchers now ids removing =>
    rcases remove_cases fac removing with ⟨heq, -⟩ | ⟨nsp₀, b, hns, hlookup, hdoomed, heq⟩
    · simp only [setContainer, heq]
      exact ⟨hr, nsp, hnsp, .refl _ _⟩
    · simp only [setContainer, heq]
      refine ⟨hr, ?_⟩
      by_cases hr₀ : r₀ = r
      · subst hr₀
        have hne : bucketName ≠ w.bucketName := by
          rintro rfl
          exact hsevers ⟨_, hdoomed, rfl, hr⟩
        have hother : (nsp.dropBucket w.bucketName b).buckets.lookup bucketName =
            nsp.buckets.lookup bucketName := AList.lookup_erase_ne hne
        refine ⟨nsp.dropBucket w.bucketName b, ?_, rfl, fun b' hb' => hother.trans hb',
          fun h => ⟨h, hother⟩⟩
        exact Directory.deref_modify_self.trans (by rw [hnsp]; rfl)
      · exact ⟨nsp, (Directory.deref_modify_ne hr₀).trans hnsp, .refl _ _⟩

/-- A bucket is created where there was none. -/
theorem creates_absent (hcurrent : Current s)
    (hr : s.server.bucketContainer.namespaces.ref? ns = some r)
    (hnsp : s.server.bucketContainer.namespaces.deref r = some nsp)
    (hcreates : s.Creates fac ns bucketName a) (hs : s.step fac a = some s') :
    nsp.buckets.lookup bucketName = none ∧
      ∃ nsp', s'.server.bucketContainer.namespaces.deref r = some nsp' ∧
        nsp'.buckets.lookup bucketName ≠ none := by
  cases a with
  | create i =>
    obtain ⟨c, hc, rfl, rfl, s'', hs'', hlt⟩ := hcreates
    cases hs.symm.trans hs''
    cases step_moved hs with
    | create call missed created =>
      cases hc.symm.trans call
      have hread := hcurrent c (List.mem_of_getElem? call) _ (by rw [missed]; rfl)
      cases hr.symm.trans hread
      cases createLocked_created created with
      | found | full => exact absurd hlt (lt_irrefl _)
      | @created nsp₀ b f acts ws object absent template =>
        cases hnsp.symm.trans object
        refine ⟨absent, nsp.addBucket c.bucketName b, ?_, ?_⟩
        · exact Directory.deref_modify_self.trans (by rw [hnsp]; rfl)
        · simp [lookup_addBucket]
    | reaper => exact absurd hlt (lt_irrefl _)
  | enter | look | report | update | addNewWatcher | checkExpirations | check | removeBucket
  | removeFromNamespace | endPass | elapse => exact hcreates.elim

/-- Between removals the bucket is created once, and not at all where it is held already. -/
theorem creations_le {actions : List Action} (hcurrent : Current s)
    (hr : s.server.bucketContainer.namespaces.ref? ns = some r)
    (hnsp : s.server.bucketContainer.namespaces.deref r = some nsp)
    (hstretch : Machine.Along (step fac) (fun s a => ¬ s.Severs fac ns bucketName a) s actions) :
    creations fac ns bucketName s actions ≤
      if nsp.buckets.lookup bucketName = none then 1 else 0 := by
  induction actions generalizing s nsp with
  | nil => exact Nat.zero_le _
  | cons a actions ih =>
    unfold creations
    cases hs : s.step fac a with
    | none =>
      have hnot : ¬ s.Creates fac ns bucketName a := by
        intro hcreates
        cases a with
        | create i =>
          obtain ⟨c, -, -, -, s'', hs'', -⟩ := hcreates
          cases hs.symm.trans hs''
        | _ => exact hcreates.elim
      simp [hnot]
    | some s₁ =>
      obtain ⟨hr₁, nsp₁, hnsp₁, hsteady⟩ := step_steady hs hstretch.1 hr hnsp
      have hrest := ih (step_current hcurrent hs) hr₁ hnsp₁ (hstretch.2 s₁ hs)
      by_cases hcreates : s.Creates fac ns bucketName a
      · obtain ⟨hnone, nsp', hnsp', hheld⟩ := creates_absent hcurrent hr hnsp hcreates hs
        cases hnsp₁.symm.trans hnsp'
        rw [if_neg hheld] at hrest
        rw [if_pos hcreates, if_pos hnone]
        exact Nat.add_le_add_left hrest 1
      · rw [if_neg hcreates, Nat.zero_add]
        apply hrest.trans
        cases hlookup : nsp.buckets.lookup bucketName with
        | none =>
          rw [if_pos rfl]
          split_ifs <;> simp
        | some b => rw [hsteady.held b hlookup]

/-- What the calls have come to that have looked the bucket up since `s₀` is what a lookup would
come to now. -/
structure Agreed (s₀ s : System F B) (ns bucketName : String) (r : ℕ) : Prop where
  current : Current s
  ref : s.server.bucketContainer.namespaces.ref? ns = some r
  answers : ∀ i b, Answered s₀ s ns bucketName i b →
    ∃ nsp, s.server.bucketContainer.namespaces.deref r = some nsp ∧ nsp.Decided bucketName ∧
      b = nsp.answer bucketName

theorem agreed_start (hcurrent : Current s)
    (hr : s.server.bucketContainer.namespaces.ref? ns = some r) : Agreed s s ns bucketName r := by
  refine ⟨hcurrent, hr, fun i b h => ?_⟩
  obtain ⟨c, hc, -, -, hanswer⟩ := h.call
  have hread := h.since c hc
  cases hphase : c.phase <;> simp [hphase, Phase.answer, Phase.read] at hanswer hread

/-- A call that has its answer after a step had it before, or comes to what a lookup comes to. -/
theorem answered_step {s₀ : System F B} (hs : s.step fac a = some s') (hcurrent : Current s)
    (hr : s.server.bucketContainer.namespaces.ref? ns = some r) {i : ℕ} {b : Option (Bucket B)}
    (h : Answered s₀ s' ns bucketName i b) :
    Answered s₀ s ns bucketName i b ∨
      ∃ nsp, s'.server.bucketContainer.namespaces.deref r = some nsp ∧ nsp.Decided bucketName ∧
        b = nsp.answer bucketName := by
  obtain ⟨⟨c, hc, hns, hname, hanswer⟩, hsince⟩ := h
  have hsame : s.calls[i]? = some c → Answered s₀ s ns bucketName i b :=
    fun hc => ⟨⟨c, hc, hns, hname, hanswer⟩, hsince⟩
  have hset : ∀ {k : ℕ} {c₀ : Call B} {phase : Phase B},
      (s.calls.set k { c₀ with phase := phase })[i]? = some c →
      s.calls[i]? = some c ∨ (k = i ∧ c = { c₀ with phase := phase }) := by
    intro k c₀ phase hc
    rw [List.getElem?_set] at hc
    split_ifs at hc with hk hlt
    · exact Or.inr ⟨hk, (Option.some.inj hc).symm⟩
    · exact Or.inl hc
  cases step_moved hs with
  | enter ns' bucketName' =>
    by_cases hi : i < s.calls.length
    · exact Or.inl (hsame ((List.getElem?_append_left hi).symm.trans hc))
    · have hmem := List.mem_of_getElem? ((List.getElem?_append_right (not_lt.mp hi)).symm.trans hc)
      rw [List.mem_singleton] at hmem
      subst hmem
      cases hanswer
  | @look k c₀ r₀ phase call fetched looked =>
    rcases hset hc with hc | ⟨rfl, rfl⟩
    · exact Or.inl (hsame hc)
    · have hread := hcurrent c₀ (List.mem_of_getElem? call) _ (by rw [fetched]; rfl)
      obtain rfl : c₀.namespace = ns := hns
      obtain rfl : c₀.bucketName = bucketName := hname
      obtain rfl : some r = r₀ := hr.symm.trans hread
      cases look_looked looked with
      | found object held =>
        cases hanswer
        exact Or.inr ⟨_, object, Or.inl (by simp [held]), by simp [Namespace.answer, held]⟩
      | default object absent static =>
        cases hanswer
        exact Or.inr ⟨_, object, Or.inr static, by simp [Namespace.answer, absent]⟩
      | missed => cases hanswer
  | @create k c₀ r₀ bc result call missed created =>
    rcases hset hc with hc | ⟨rfl, rfl⟩
    · exact Or.inl (hsame hc)
    · have hread := hcurrent c₀ (List.mem_of_getElem? call) _ (by rw [missed]; rfl)
      obtain rfl : c₀.namespace = ns := hns
      obtain rfl : c₀.bucketName = bucketName := hname
      obtain rfl : r = r₀ := Option.some.inj (hr.symm.trans hread)
      cases createLocked_created created with
      | found acts object held =>
        cases hanswer
        exact Or.inr ⟨_, object, Or.inl (by simp [held]), by simp [Namespace.answer, held]⟩
      | full => cases hanswer
      | @created nsp b' f acts ws object =>
        cases hanswer
        refine Or.inr ⟨nsp.addBucket c₀.bucketName b', ?_, Or.inl ?_, ?_⟩
        · exact Directory.deref_modify_self.trans (by rw [object]; rfl)
        · simp [lookup_addBucket]
        · simp [Namespace.answer, lookup_addBucket]
  | @report k c₀ b₀ acts call reporting =>
    rcases hset hc with hc | ⟨rfl, rfl⟩
    · exact Or.inl (hsame hc)
    · refine Or.inl ⟨⟨c₀, call, hns, hname, ?_⟩, hsince⟩
      rw [reporting]
      exact hanswer
  | update | reaper | remove => exact Or.inl (hsame hc)

theorem step_agreed {s₀ : System F B} (h : Agreed s₀ s ns bucketName r)
    (hsevers : ¬ s.Severs fac ns bucketName a) (hs : s.step fac a = some s') :
    Agreed s₀ s' ns bucketName r := by
  obtain ⟨nsp, hnsp⟩ := Directory.exists_deref h.ref
  obtain ⟨hr, nsp', hnsp', hsteady⟩ := step_steady hs hsevers h.ref hnsp
  refine ⟨step_current h.current hs, hr, fun i b hb => ?_⟩
  rcases answered_step hs h.current h.ref hb with hold | hnew
  · obtain ⟨nsp₀, hnsp₀, hdecided, heq⟩ := h.answers i b hold
    cases hnsp.symm.trans hnsp₀
    obtain ⟨hdecided', hanswer⟩ := hsteady.decided hdecided
    exact ⟨nsp', hnsp', hdecided', heq.trans hanswer.symm⟩
  · exact hnew

end Stretch

/-- In every state that any run reaches, every namespace accounts for its dynamic buckets; and from
there on, until a bucket is removed or its namespace replaced, the bucket is created at most once
and all calls that look it up come to the same. -/
theorem dynamic_bucket_accounting (fac : BucketFactory F B) (factory : F) (now : ℤ)
    (actions : List Action) (s : System F B)
    (hrun : Machine.run (step fac) (init factory now) actions = some s) :
    (∀ name ns, s.server.bucketContainer.namespaces.get? name = some ns →
      Accounted ns ∧ (ns.numDynamic < 2 ^ 31 → ns.dynamicBucketCount = ns.numDynamic)) ∧
    ∀ (ns bucketName : String) (r : ℕ) (actions' : List Action) (s' : System F B),
      s.server.bucketContainer.namespaces.ref? ns = some r →
      Machine.Along (step fac) (fun s a => ¬ s.Severs fac ns bucketName a) s actions' →
      Machine.run (step fac) s actions' = some s' →
      creations fac ns bucketName s actions' ≤ 1 ∧
        ∀ i j b b', Answered s s' ns bucketName i b → Answered s s' ns bucketName j b' →
          b = b' := by
  have hcurrent : Current s :=
    Machine.run_invariant Current (fun _ _ _ => step_current) (current_init factory now) hrun
  have haccounted : ∀ r ns, s.server.bucketContainer.namespaces.deref r = some ns →
      Accounted ns := by
    refine Machine.run_invariant (fun s => ∀ r ns,
      s.server.bucketContainer.namespaces.deref r = some ns → Accounted ns)
      (fun _ _ _ => step_accounted) ?_ hrun
    simp [init, empty, NewBucketContainer]
  constructor
  · intro name ns hget
    obtain ⟨r, -, hns⟩ := Directory.get?_eq_some.mp hget
    exact ⟨haccounted r ns hns, (haccounted r ns hns).count_eq⟩
  · intro ns bucketName r actions' s' hr hstretch hrun'
    obtain ⟨nsp, hnsp⟩ := Directory.exists_deref hr
    constructor
    · apply (creations_le hcurrent hr hnsp hstretch).trans
      split_ifs <;> simp
    · intro i j b b' hb hb'
      have hagreed : Agreed s s' ns bucketName r :=
        Machine.run_induction (fun t => Agreed s t ns bucketName r)
          (fun _ _ _ h hsevers hs => step_agreed h hsevers hs) (agreed_start hcurrent hr) hstretch
          hrun'
      obtain ⟨nsp₁, hnsp₁, -, rfl⟩ := hagreed.answers i b hb
      obtain ⟨nsp₂, hnsp₂, -, rfl⟩ := hagreed.answers j b' hb'
      cases hnsp₁.symm.trans hnsp₂
      rfl

/-- Two calls that have both missed the only bucket that there is room for. -/
theorem dynamic_bucket_accounting_raced :
    let cfg : ServiceConfig := { namespaces := .table (AList.singleton "a" (some
      { name := "a", dynamicBucketTemplate := some {}, maxDynamicBuckets := 1 })) }
    let calls : List Action := [.enter "a" "x", .enter "a" "x", .look 0, .look 1, .create 1,
      .create 0]
    ∃ s s', Machine.run (step memoryFactory) (init () 0) [.update [] cfg] = some s ∧
      Machine.run (step memoryFactory) s calls = some s' ∧
      creations memoryFactory "a" "x" s calls ≤ 1 ∧
      ∃ b b', Answered s s' "a" "x" 0 b ∧ Answered s s' "a" "x" 1 b' ∧ b = b' := by
  intro cfg calls
  have hrun := (Option.some_get (show (Machine.run (step memoryFactory) (init () 0)
    [.update [] cfg]).isSome = true by decide)).symm
  have hrun' := (Option.some_get (show (Machine.run (step memoryFactory) (Option.get _ (show
    (Machine.run (step memoryFactory) (init () 0) [.update [] cfg]).isSome = true by decide))
      calls).isSome = true by decide)).symm
  obtain ⟨honce, hsame⟩ := (dynamic_bucket_accounting memoryFactory () 0 _ _ hrun).2 "a" "x" 0 calls
    _ (by decide) (by decide) hrun'
  refine ⟨_, _, hrun, hrun', honce, _, _, ⟨⟨_, rfl, rfl, rfl, rfl⟩, fun _ h => nomatch h⟩,
    ⟨⟨_, rfl, rfl, rfl, rfl⟩, fun _ h => nomatch h⟩, ?_⟩
  exact hsame 0 1 _ _ ⟨⟨_, rfl, rfl, rfl, rfl⟩, fun _ h => nomatch h⟩
    ⟨⟨_, rfl, rfl, rfl, rfl⟩, fun _ h => nomatch h⟩

end System

end QuotaService.Container
