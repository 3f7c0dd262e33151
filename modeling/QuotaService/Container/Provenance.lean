import QuotaService.Buckets.Reached
import QuotaService.Container.Answering

/-! Where the buckets come from. Whatever the configs, every bucket that the container holds or that a
call has got was made by the factory from the bucket's own config; and as the loops leave them, the
in-memory buckets are in states that a bucket reaches. -/
namespace QuotaService.Container
open Config

/-- The factory has made the bucket, from its own config. -/
def Bucket.Genuine {F B : Type} (fac : BucketFactory F B) (b : Bucket B) : Prop :=
  ∃ ns bucketName, Made fac (fun _ => True) ns bucketName b

section Container
variable {F B : Type} {fac : BucketFactory F B} {bc bc' : BucketContainer F B} {ns : Namespace B}

structure Namespace.Genuine (fac : BucketFactory F B) (ns : Namespace B) : Prop where
  default : ∀ b ∈ ns.defaultBucket, b.Genuine fac
  buckets : ∀ bucketName b, ns.buckets.lookup bucketName = some b → b.Genuine fac

structure BucketContainer.Genuine (fac : BucketFactory F B) (bc : BucketContainer F B) : Prop where
  default : ∀ b ∈ bc.defaultBucket, b.Genuine fac
  objects : ∀ r ns, bc.namespaces.deref r = some ns → ns.Genuine fac

theorem Built.genuine {nsCfg : NamespaceConfig} (h : Built fac (fun _ => True) nsCfg ns) :
    ns.Genuine fac := by
  constructor
  · intro b hb
    exact ⟨_, _, (h.default_made b hb).2.2⟩
  · intro bucketName b hb
    exact ⟨_, _, (h.buckets_made bucketName b hb).2.2⟩

/-- Changing one object. -/
theorem BucketContainer.Genuine.modify (h : bc.Genuine fac) {r : ℕ} (f : Namespace B → Namespace B)
    (hf : ∀ ns, bc.namespaces.deref r = some ns → (f ns).Genuine fac) {r' : ℕ} {ns' : Namespace B}
    (hns' : (bc.namespaces.modify r f).deref r' = some ns') : ns'.Genuine fac := by
  rw [Directory.deref_modify] at hns'
  split_ifs at hns' with hr
  · subst hr
    obtain ⟨ns, hns, rfl⟩ := Option.map_eq_some_iff.mp hns'
    exact hf ns hns
  · exact h.objects r' ns' hns'

theorem createNamespaceLocked_genuine (h : bc.Genuine fac) {nsCfg : NamespaceConfig}
    (hs : bc.createNamespaceLocked fac nsCfg = some bc') : bc'.Genuine fac := by
  obtain ⟨f, m, ns', rfl, -, hbuilt, -⟩ := createNamespaceLocked_spec (stable_true fac) trivial hs
  constructor
  · exact h.default
  · intro r ns hns
    rcases Directory.deref_bind_eq_some hns with hold | ⟨-, rfl⟩
    · exact h.objects r ns hold
    · exact hbuilt.genuine

theorem destroyNamespace_genuine (h : bc.Genuine fac) (ns : Namespace B) :
    (bc.destroyNamespace fac ns).Genuine fac := by
  obtain ⟨f, heq⟩ := destroyNamespace_eq fac bc ns
  rw [heq]
  exact ⟨h.default, h.objects⟩

theorem updateNamespace_genuine (h : bc.Genuine fac) {newConfig : ServiceConfig} {name : String}
    (hs : bc.updateNamespace fac newConfig name = some bc') : bc'.Genuine fac := by
  cases updateNamespace_visited hs with
  | absent => exact h
  | @swapped r ns nsCfg fetched configured same =>
    have hswap : ∀ ns, bc.namespaces.deref r = some ns → (ns.swapCfg nsCfg).Genuine fac :=
      fun ns hns => ⟨(h.objects r ns hns).default, (h.objects r ns hns).buckets⟩
    exact ⟨h.default, fun _ _ hns' => h.modify _ hswap hns'⟩
  | @replaced r ns nsCfg _ fetched configured different created =>
    exact createNamespaceLocked_genuine (destroyNamespace_genuine h ns) created
  | @removed r ns fetched gone =>
    have hdestroy := destroyNamespace_genuine h ns
    exact ⟨hdestroy.default, hdestroy.objects⟩

theorem addNamespace_genuine (h : bc.Genuine fac) {e : String × Option NamespaceConfig}
    (hs : bc.addNamespace fac e = some bc') : bc'.Genuine fac := by
  unfold BucketContainer.addNamespace at hs
  split_ifs at hs
  · cases hs
    exact h
  · obtain ⟨nsCfg, -, hs⟩ := Option.bind_eq_some_iff.mp hs
    exact createNamespaceLocked_genuine h hs

theorem createGlobalDefaultBucketLocked_genuine (h : bc.Genuine fac) (cfg : BucketConfig) :
    (bc.createGlobalDefaultBucketLocked fac cfg).Genuine fac := by
  obtain ⟨f, b, heq, -, -, -, -, hmade⟩ :=
    createGlobalDefaultBucketLocked_spec (stable_true fac) bc trivial cfg
  rw [heq]
  constructor
  · intro b' hb'
    cases hb'
    exact ⟨_, _, hmade⟩
  · exact h.objects

theorem initGlobalDefaultBucket_genuine (h : bc.Genuine fac) (cfg : Option BucketConfig) :
    (bc.initGlobalDefaultBucket fac cfg).Genuine fac := by
  cases cfg with
  | none => exact h
  | some cfg => exact createGlobalDefaultBucketLocked_genuine h cfg

theorem updateGlobalDefaultBucket_genuine (h : bc.Genuine fac) (newConfig : ServiceConfig) :
    (bc.updateGlobalDefaultBucket fac newConfig).Genuine fac := by
  obtain ⟨f, heq⟩ := destroyDefault_eq fac bc bc.defaultBucket
  unfold BucketContainer.updateGlobalDefaultBucket
  split_ifs
  · simp only [heq]
    cases newConfig.globalDefaultBucket with
    | none =>
      constructor
      · intro b hb
        cases hb
      · exact h.objects
    | some cfg =>
      have hdestroyed : BucketContainer.Genuine fac { bc with
          factory := f, destroyed := bucketId bc.defaultBucket + bc.destroyed } :=
        ⟨h.default, h.objects⟩
      exact createGlobalDefaultBucketLocked_genuine hdestroyed cfg
  · exact h

/-- A loop whose body keeps the buckets genuine. -/
theorem foldlM_genuine {α : Type} {g : BucketContainer F B → α → Option (BucketContainer F B)}
    (hg : ∀ bc a bc', bc.Genuine fac → g bc a = some bc' → bc'.Genuine fac) {l : List α}
    (h : bc.Genuine fac) (hs : l.foldlM g bc = some bc') : bc'.Genuine fac := by
  induction l generalizing bc with
  | nil =>
    cases hs
    exact h
  | cons a l ih =>
    rw [List.foldlM_cons] at hs
    obtain ⟨bc₁, h₁, hs⟩ := Option.bind_eq_some_iff.mp hs
    exact ih (hg bc a bc₁ h h₁) hs

theorem initLocked_genuine (h : bc.Genuine fac) {cfg : ServiceConfig}
    (hs : bc.initLocked fac cfg = some bc') : bc'.Genuine fac := by
  have hcfg : BucketContainer.Genuine fac { bc with cfg := some (nameNamespaces cfg) } :=
    ⟨h.default, h.objects⟩
  refine foldlM_genuine (fun bc e bc' hbc he => ?_) (initGlobalDefaultBucket_genuine hcfg _) hs
  obtain ⟨nsCfg, -, he⟩ := Option.bind_eq_some_iff.mp he
  exact createNamespaceLocked_genuine hbc he

theorem update_genuine (h : bc.Genuine fac) {order : List String} {newConfig : ServiceConfig}
    (hs : bc.update fac order newConfig = some bc') : bc'.Genuine fac := by
  have hcfg : BucketContainer.Genuine fac { bc with cfg := some newConfig } :=
    ⟨h.default, h.objects⟩
  obtain ⟨bc₁, h₁, h₂⟩ := Option.bind_eq_some_iff.mp hs
  have hfirst := foldlM_genuine (fun _ _ _ hbc => updateNamespace_genuine hbc)
    (updateGlobalDefaultBucket_genuine hcfg newConfig) h₁
  exact foldlM_genuine (fun _ _ _ hbc => addNamespace_genuine hbc) hfirst h₂

theorem updateBucketContainer_genuine {s s' : Server F B} (h : s.bucketContainer.Genuine fac)
    {order : List String} {newConfig : ServiceConfig}
    (hs : updateBucketContainer fac order newConfig s = some s') :
    s'.bucketContainer.Genuine fac := by
  have hfactory : BucketContainer.Genuine fac { s.bucketContainer with
      factory := fac.init s.bucketContainer.factory newConfig } := ⟨h.default, h.objects⟩
  cases updateBucketContainer_followed hs with
  | ignored => exact h
  | initialised newer cfg init => exact initLocked_genuine hfactory init
  | updated newer cfg update => exact update_genuine hfactory update

theorem createLocked_genuine (h : bc.Genuine fac) {name bucketName : String} {r : ℕ}
    {result : Except String (Option (Bucket B))}
    (hs : bc.createLocked fac name bucketName r = some (bc', result)) :
    bc'.Genuine fac ∧ ∀ b, result = .ok (some b) → b.Genuine fac := by
  obtain ⟨nsp, hnsp, hs⟩ := Option.bind_eq_some_iff.mp hs
  have hheld := h.objects r nsp hnsp
  cases hlookup : nsp.buckets.lookup bucketName with
  | some b =>
    simp only [hlookup, Option.some.injEq, Prod.mk.injEq] at hs
    obtain ⟨rfl, rfl⟩ := hs
    obtain ⟨acts, heq⟩ := reportBucket_eq bc (some b)
    have hreport : bc.reportActivity b = { bc with activities := acts } := heq
    rw [hreport]
    refine ⟨⟨h.default, h.objects⟩, fun b' hb' => ?_⟩
    cases hb'
    exact hheld.buckets bucketName b hlookup
  | none =>
    simp only [hlookup] at hs
    obtain ⟨template, htemplate, hs⟩ := Option.map_eq_some_iff.mp hs
    have hspec := @createNewNamedBucket_spec F B fac (fun _ => True) bc nsp (stable_true fac)
      trivial name bucketName r template htemplate
    rcases hspec with ⟨hnone, -⟩ | ⟨f, b, acts, ws, heq, -, -, hmade, -⟩
    · simp only [hnone, Prod.mk.injEq] at hs
      obtain ⟨rfl, rfl⟩ := hs
      refine ⟨h, fun b' hb' => ?_⟩
      cases hb'
    · simp only [heq, Prod.mk.injEq] at hs
      obtain ⟨rfl, rfl⟩ := hs
      constructor
      · have hadded : (nsp.addBucket bucketName b).Genuine fac := by
          refine ⟨hheld.default, fun n b' hb' => ?_⟩
          rw [lookup_addBucket] at hb'
          split_ifs at hb'
          · cases hb'
            exact ⟨_, _, hmade⟩
          · exact hheld.buckets n b' hb'
        exact ⟨h.default, fun _ _ hns' => h.modify _ (fun _ _ => hadded) hns'⟩
      · intro b' hb'
        cases hb'
        exact ⟨_, _, hmade⟩

theorem removeBucket_genuine (h : bc.Genuine fac) (r : ℕ) (bucketName : String) :
    (bc.removeBucket fac r bucketName).Genuine fac := by
  unfold BucketContainer.removeBucket
  split
  · exact h
  · rename_i b _
    have hdropped : ∀ ns, bc.namespaces.deref r = some ns →
        (ns.dropBucket bucketName b).Genuine fac := by
      refine fun ns hns => ⟨(h.objects r ns hns).default, fun n b' hb' => ?_⟩
      have hlookup : ns.buckets.lookup n = some b' := (AList.lookup_erase_cases hb').2
      exact (h.objects r ns hns).buckets n b' hlookup
    exact ⟨h.default, fun _ _ hns' => h.modify _ hdropped hns'⟩

end Container

namespace System
variable {F B : Type} {fac : BucketFactory F B} {s s' : System F B} {a : Action}

structure Genuine (fac : BucketFactory F B) (s : System F B) : Prop where
  container : s.server.bucketContainer.Genuine fac
  calls : ∀ c ∈ s.calls, ∀ b, c.phase.obtained = some b → b.Genuine fac

theorem genuine_init (factory : F) (now : ℤ) : Genuine fac (init factory now : System F B) := by
  refine ⟨⟨?_, ?_⟩, ?_⟩
  · intro b hb
    cases hb
  · intro r ns hns
    simp [init, empty, NewBucketContainer] at hns
  · intro c hc
    cases hc

/-- What a call that goes on has got. -/
theorem Genuine.setPhase (h : Genuine fac s) {bc : BucketContainer F B} (hbc : bc.Genuine fac)
    {i : ℕ} {c : Call B} {phase : Phase B} (hphase : ∀ b, phase.obtained = some b → b.Genuine fac) :
    Genuine fac ((s.setContainer bc).setPhase i c phase) := by
  refine ⟨hbc, fun c' hc' b hb => ?_⟩
  rcases mem_setPhase hc' with hc' | rfl
  · exact h.calls c' hc' b hb
  · exact hphase b hb

theorem looked_genuine {bc : BucketContainer F B} (h : bc.Genuine fac) {bucketName : String}
    {r : Option ℕ} {phase : Phase B} (hlooked : Looked bc bucketName r phase) {b : Bucket B}
    (hb : phase.obtained = some b) : b.Genuine fac := by
  cases hlooked with
  | global => exact h.default b hb
  | found object held =>
    cases hb
    exact (h.objects _ _ object).buckets _ _ held
  | default object => exact (h.objects _ _ object).default b hb
  | missed => cases hb

theorem step_genuine (h : Genuine fac s) (hs : s.step fac a = some s') : Genuine fac s' := by
  cases step_moved hs with
  | enter ns bucketName =>
    refine ⟨h.container, fun c hc b hb => ?_⟩
    rcases List.mem_append.mp hc with hc | hc
    · exact h.calls c hc b hb
    · rw [List.mem_singleton.mp hc] at hb
      cases hb
  | look call fetched looked =>
    exact h.setPhase h.container fun b hb => looked_genuine h.container (look_looked looked) hb
  | create call missed created =>
    obtain ⟨hbc, hresult⟩ := createLocked_genuine h.container created
    refine h.setPhase hbc fun b hb => ?_
    rename_i result
    cases result with
    | error message => cases hb
    | ok found =>
      have hfound : found = some b := hb
      exact hresult b (by rw [hfound])
  | @report i c b acts call reporting =>
    have hacts : BucketContainer.Genuine fac { s.server.bucketContainer with activities := acts } :=
      ⟨h.container.default, h.container.objects⟩
    refine h.setPhase hacts fun b hb => ?_
    refine h.calls _ (List.mem_of_getElem? call) b ?_
    rw [reporting]
    exact hb
  | update returned covers updated => exact ⟨updateBucketContainer_genuine h.container updated, h.calls⟩
  | reaper => exact ⟨⟨h.container.default, h.container.objects⟩, h.calls⟩
  | remove removing => exact ⟨removeBucket_genuine h.container _ _, h.calls⟩

end System

/-- What a loop has done with the request of a call, at a reading of the clock. -/
structure Served where
  call : ℕ
  request : Request
  bucket : Bucket Memory.TokenBucket
  before : Memory.TokenBucket
  now : ℤ
  after : Memory.TokenBucket
  reply : Reply

/-- The request as the loop has got it. -/
def Served.input (x : Served) : Memory.Call :=
  ⟨x.now, x.request.tokensRequested, x.request.maxWaitTime x.bucket.cfg⟩

namespace Loops
variable {s s' : Loops} {a : LoopAction}

/-- What a step serves, if its loop does not divide by zero. -/
def served (s : Loops) : LoopAction → Option Served
  | .respond id now => (s.serving.lookup id).bind fun i => (s.clients.lookup i).bind fun c =>
    match c.progress with
    | .waiting b =>
      let p := (s.bucket b).calcWaitTime .int64
        ⟨now, c.request.tokensRequested, c.request.maxWaitTime b.cfg⟩
      some ⟨i, c.request, b, s.bucket b, now, p.1, Request.afterTake b p.2⟩
    | _ => none
  | _ => none

/-- The clock shows a time, and the loop does not panic. -/
def Sane (s : Loops) (a : LoopAction) : Prop :=
  ∀ x ∈ s.served a, Memory.Reading x.now ∧ ¬ Memory.DividesByZero x.before x.input

instance (s : Loops) (a : LoopAction) : Decidable (s.Sane a) :=
  inferInstanceAs (Decidable (∀ x ∈ s.served a, _))

/-- What a step that serves a request does. -/
theorem served_eq_some {x : Served} (hx : s.served a = some x) :
    ∃ id, a = .respond id x.now ∧ s.serving.lookup id = some x.call ∧
      s.clients.lookup x.call = some ⟨x.request, .waiting x.bucket⟩ ∧
      x.before = s.bucket x.bucket ∧ x.after = (x.before.calcWaitTime .int64 x.input).1 ∧
      x.reply = Request.afterTake x.bucket (x.before.calcWaitTime .int64 x.input).2 ∧
      s.step a = some { s.setProgress x.call ⟨x.request, .waiting x.bucket⟩ (.replied x.reply) with
        serving := s.serving.erase id
        tokens := s.tokens.insert id x.after } := by
  cases a with
  | respond id now =>
    obtain ⟨i, hi, h⟩ := Option.bind_eq_some_iff.mp hx
    obtain ⟨⟨r, progress⟩, hc, h⟩ := Option.bind_eq_some_iff.mp h
    cases progress with
    | sending b => cases h
    | replied reply => cases h
    | waiting b =>
      cases h
      refine ⟨id, rfl, hi, hc, rfl, rfl, rfl, ?_⟩
      simp only [step, hi, hc, Option.bind_some]
  | base | take | receive | exit => cases hx

/-- A step that serves nothing leaves the buckets as they are. -/
theorem tokens_of_served_eq_none (hx : s.served a = none) (hs : s.step a = some s') :
    s'.tokens = s.tokens := by
  cases step_turned hs with
  | base | take | receive | exit => rfl
  | @respond id i now c b reply tokens hserved client waiting =>
    simp [served, hserved, client, waiting] at hx

/-- The buckets are genuine, and in states that buckets reach. -/
structure Descended (s : Loops) : Prop where
  sys : s.sys.Genuine memoryFactory
  pending : ∀ i c, s.clients.lookup i = some c → ∀ b ∈ c.progress.pending, b.Genuine memoryFactory
  tokens : ∀ id b, s.tokens.lookup id = some b → ∃ cfg dyn, Memory.Reached cfg dyn b

theorem genuine_reached {b : Bucket Memory.TokenBucket} (h : b.Genuine memoryFactory) :
    Memory.Reached b.cfg b.dynamic b.impl := by
  obtain ⟨ns, bucketName, f, -, himpl⟩ := h
  rw [himpl]
  exact .new ns bucketName

theorem Descended.reached (h : Descended s) {i : ℕ} {c : Client} (hc : s.clients.lookup i = some c)
    {b : Bucket Memory.TokenBucket} (hb : b ∈ c.progress.pending) :
    ∃ cfg dyn, Memory.Reached cfg dyn (s.bucket b) := by
  unfold bucket
  cases htokens : s.tokens.lookup b.id with
  | none => exact ⟨_, _, genuine_reached (h.pending i c hc b hb)⟩
  | some t => exact h.tokens b.id t htokens

/-- The bucket that a request is served by is in a state that a bucket reaches. -/
theorem Descended.served (h : Descended s) {x : Served} (hx : s.served a = some x) :
    ∃ cfg dyn, Memory.Reached cfg dyn x.before := by
  obtain ⟨id, -, -, hc, hbefore, -⟩ := served_eq_some hx
  rw [hbefore]
  exact h.reached hc rfl

theorem Descended.setProgress (h : Descended s) {i : ℕ} {c : Client} {progress : Progress}
    (hprogress : ∀ b ∈ progress.pending, b.Genuine memoryFactory) :
    ∀ j c', (s.setProgress i c progress).clients.lookup j = some c' →
      ∀ b ∈ c'.progress.pending, b.Genuine memoryFactory :=
  pending_setProgress (P := fun _ b => b.Genuine memoryFactory) h.pending hprogress

theorem step_descended (h : Descended s) (hok : s.Sane a) (hs : s.step a = some s') :
    Descended s' := by
  cases hserved : s.served a with
  | some x =>
    obtain ⟨hreading, hdivisor⟩ := hok x hserved
    obtain ⟨cfg, dyn, hreached⟩ := h.served hserved
    obtain ⟨id, -, -, -, -, hafter, -, hstep⟩ := served_eq_some hserved
    cases hstep.symm.trans hs
    refine ⟨h.sys, h.setProgress fun b hb => ?_, fun id' b hb => ?_⟩
    · cases hb
    · rcases AList.lookup_insert_cases hb with ⟨rfl, rfl⟩ | ⟨-, hold⟩
      · rw [hafter]
        exact ⟨cfg, dyn, .take hreached hreading hdivisor⟩
      · exact h.tokens id' b hold
  | none =>
    have htokens : ∀ id b, s'.tokens.lookup id = some b → ∃ cfg dyn, Memory.Reached cfg dyn b := by
      rw [tokens_of_served_eq_none hserved hs]
      exact h.tokens
    cases step_turned hs with
    | base step => exact ⟨System.step_genuine h.sys step, h.pending, htokens⟩
    | @take i r c result absent call returned =>
      refine ⟨h.sys, ?_, htokens⟩
      refine h.setProgress (c := ⟨r, r.afterFind result⟩) fun b hb => ?_
      refine h.sys.calls c (List.mem_of_getElem? call) b ?_
      rw [returned, pending_afterFind hb]
      rfl
    | @receive i c b client sending idle =>
      refine ⟨h.sys, h.setProgress fun b' hb' => ?_, htokens⟩
      refine h.pending i c client b' ?_
      rw [sending]
      exact hb'
    | exit => exact ⟨h.sys, h.pending, htokens⟩
    | respond reply tokens hserving client waiting =>
      simp [Loops.served, hserving, client, waiting] at hserved

theorem descended_init (now : ℤ) : Descended (init now) := by
  refine ⟨System.genuine_init () now, ?_, ?_⟩
  · intro i c hc
    cases hc
  · intro id b hb
    cases hb

end Loops

end QuotaService.Container
