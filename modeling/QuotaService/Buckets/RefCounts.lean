import QuotaService.Buckets.Redis
import QuotaService.Config.Defaults
import QuotaService.Lib.Machine
import QuotaService.Lib.RefCount

/-! The attributes that the dynamic buckets of a namespace share, over any calls of `NewBucket` and
`Destroy` on one Redis factory. They are kept under the namespace that `NewBucket` is given, and let go
under the one that the config of the bucket names. -/
namespace QuotaService.Redis
open Config RefCount

namespace BucketFactory
variable (bf : BucketFactory)

/-- The two maps of the factory. -/
def table : Table String ConfigAttributes := ⟨bf.refcounts, bf.sharedAttributes⟩

/-- A new dynamic bucket holds the attributes of the namespace. -/
theorem newBucket_dynamic (ns bucketName : String) (cfg : BucketConfig) :
    (bf.newBucket ns bucketName cfg true).1.table =
        (bf.table.acquire ns (newConfigAttributes cfg (idleOf cfg))).1 ∧
      (bf.newBucket ns bucketName cfg true).2.configAttributes =
        (bf.table.acquire ns (newConfigAttributes cfg (idleOf cfg))).2 ∧
      (bf.newBucket ns bucketName cfg true).2.dynamic = true := by
  unfold newBucket table Table.acquire
  cases hshared : bf.sharedAttributes.lookup ns with
  | some attribs => simp
  | none => simp

theorem destroy_dynamic {b : RedisBucket} (h : b.dynamic = true) :
    (bf.destroy b).map table = bf.table.release b.cfg.namespace := by
  unfold destroy table Table.release
  simp only [h, if_true]
  split_ifs <;> rfl

theorem destroy_static {b : RedisBucket} (h : b.dynamic = false) : bf.destroy b = some bf := by
  simp [destroy, h]

end BucketFactory

/-- A bucket that has not been destroyed, and the namespace that it was made for. -/
structure Live where
  «namespace» : String
  bucket : RedisBucket

/-- What a dynamic bucket holds. -/
def Live.held (l : Live) : Option (String × ConfigAttributes) :=
  if l.bucket.dynamic then some (l.namespace, l.bucket.configAttributes) else none

structure FactoryState where
  factory : BucketFactory
  live : List Live

namespace FactoryState

def start (keyMaxIdleTime : ℤ) (cfg : ServiceConfig) : FactoryState :=
  ⟨(BucketFactory.new keyMaxIdleTime).init cfg, []⟩

/-- The number of dynamic buckets of a namespace. -/
def liveDynamic (s : FactoryState) (ns : String) : ℕ :=
  s.live.countP fun l => l.bucket.dynamic && l.namespace == ns

inductive Action
  | init (cfg : ServiceConfig)
  | newBucket (ns bucketName : String) (cfg : BucketConfig) (dyn : Bool)
  | destroy (n : ℕ)

/-- A bucket that is destroyed is no longer there. Where `Destroy` is fatal there is no next state. -/
def step (s : FactoryState) : Action → Option FactoryState
  | .init cfg => some { s with factory := s.factory.init cfg }
  | .newBucket ns bucketName cfg dyn =>
    let made := s.factory.newBucket ns bucketName cfg dyn
    some ⟨made.1, ⟨ns, made.2⟩ :: s.live⟩
  | .destroy n => do
    let l ← s.live[n]?
    let bf ← s.factory.destroy l.bucket
    some ⟨bf, s.live.eraseIdx n⟩

/-- Configs have their defaults. The config of a dynamic bucket, the template, names the namespace, and
is not another one than that of the dynamic buckets that the namespace has. -/
def Admitted (s : FactoryState) : Action → Prop
  | .newBucket ns _ cfg dyn => applyBucketDefaults cfg = cfg ∧
      (dyn = true → cfg.namespace = ns ∧
        ∀ l ∈ s.live, l.bucket.dynamic = true → l.namespace = ns → l.bucket.cfg = cfg)
  | _ => True

instance (s : FactoryState) : ∀ a, Decidable (Admitted s a)
  | .newBucket .. => inferInstanceAs (Decidable (_ ∧ _))
  | .init _ => isTrue trivial
  | .destroy _ => isTrue trivial

structure Inv (s : FactoryState) : Prop where
  held : Held s.factory.table (s.live.filterMap Live.held)
  named : ∀ l ∈ s.live, l.bucket.dynamic = true → l.bucket.cfg.namespace = l.namespace
  own : ∀ l ∈ s.live, l.bucket.dynamic = true →
    l.bucket.configAttributes = newConfigAttributes l.bucket.cfg (idleOf l.bucket.cfg)

theorem start_inv (keyMaxIdleTime : ℤ) (cfg : ServiceConfig) : Inv (start keyMaxIdleTime cfg) where
  held := held_empty
  named l hl := by cases hl
  own l hl := by cases hl

theorem holders_eq (s : FactoryState) (ns : String) :
    holders (s.live.filterMap Live.held) ns = s.liveDynamic ns := by
  unfold holders liveDynamic
  rw [List.countP_filterMap]
  apply List.countP_congr
  intro l _
  cases h : l.bucket.dynamic <;> simp [Live.held, h]

/-- Destroying a bucket that is there is not fatal. -/
theorem Inv.destroy {s : FactoryState} (h : Inv s) {n : ℕ} {l : Live} (hn : s.live[n]? = some l) :
    ∃ bf, s.factory.destroy l.bucket = some bf ∧ Inv ⟨bf, s.live.eraseIdx n⟩ := by
  obtain ⟨hlt, rfl⟩ := List.getElem?_eq_some_iff.mp hn
  have hperm := (List.getElem_cons_eraseIdx_perm hlt).filterMap Live.held
  have hrest : ∀ l' ∈ s.live.eraseIdx n, l' ∈ s.live := fun l' => List.mem_of_mem_eraseIdx
  have hnamed := fun l' hl' => h.named l' (hrest l' hl')
  have hown := fun l' hl' => h.own l' (hrest l' hl')
  cases hd : s.live[n].bucket.dynamic with
  | false =>
    rw [List.filterMap_cons_none (by simp [Live.held, hd])] at hperm
    exact ⟨s.factory, s.factory.destroy_static hd, h.held.perm hperm.symm, hnamed, hown⟩
  | true =>
    rw [List.filterMap_cons_some (b := (s.live[n].namespace, s.live[n].bucket.configAttributes))
      (by simp [Live.held, hd])] at hperm
    obtain ⟨t, ht, hheld⟩ := (h.held.perm hperm.symm).release
    have hdestroy := s.factory.destroy_dynamic hd
    rw [h.named _ (List.getElem_mem hlt) hd, ht, Option.map_eq_some_iff] at hdestroy
    obtain ⟨bf, hbf, rfl⟩ := hdestroy
    exact ⟨bf, hbf, hheld, hnamed, hown⟩

theorem step_inv {s s' : FactoryState} {a : Action} (h : Inv s) (ha : Admitted s a)
    (hs : step s a = some s') : Inv s' := by
  cases a with
  | init cfg =>
    cases hs
    exact ⟨h.held, h.named, h.own⟩
  | newBucket ns bucketName cfg dyn =>
    simp only [step, Option.some.injEq] at hs
    subst hs
    cases dyn with
    | false =>
      refine ⟨h.held, fun l hl hdyn => ?_, fun l hl hdyn => ?_⟩
      · rcases List.mem_cons.mp hl with rfl | hl
        · cases hdyn
        · exact h.named l hl hdyn
      · rcases List.mem_cons.mp hl with rfl | hl
        · cases hdyn
        · exact h.own l hl hdyn
    | true =>
      obtain ⟨hnamespace, htemplate⟩ := ha.2 rfl
      obtain ⟨htable, hattributes, hdynamic⟩ := s.factory.newBucket_dynamic ns bucketName cfg
      have hheld := h.held.acquire ns (newConfigAttributes cfg (idleOf cfg))
      rw [← htable, ← hattributes] at hheld
      have hnew : (s.factory.newBucket ns bucketName cfg true).2.configAttributes =
          newConfigAttributes cfg (idleOf cfg) := by
        rw [hattributes]
        rcases h.held.acquire_snd ns (newConfigAttributes cfg (idleOf cfg)) with
          ⟨x, hx, hkey, hvalue⟩ | ⟨-, hvalue⟩
        -- the attributes are those of a bucket with the same template
        · obtain ⟨l, hl, hlx⟩ := List.mem_filterMap.mp hx
          unfold Live.held at hlx
          split_ifs at hlx with hd
          cases hlx
          rw [hvalue, ← htemplate l hl hd hkey]
          exact h.own l hl hd
        · exact hvalue
      constructor
      · simpa [Live.held, hdynamic] using hheld
      · intro l hl hdyn
        rcases List.mem_cons.mp hl with rfl | hl
        · rw [BucketFactory.newBucket_cfg]
          exact hnamespace
        · exact h.named l hl hdyn
      · intro l hl hdyn
        rcases List.mem_cons.mp hl with rfl | hl
        · rw [BucketFactory.newBucket_cfg]
          exact hnew
        · exact h.own l hl hdyn
  | destroy n =>
    simp only [step, Option.bind_eq_bind, Option.bind_eq_some_iff] at hs
    obtain ⟨l, hn, bf, hbf, hs⟩ := hs
    cases hs
    obtain ⟨bf', hbf', hinv⟩ := h.destroy hn
    cases hbf.symm.trans hbf'
    exact hinv

/-- Shared attributes are there as long as they are counted, the count is that of the dynamic buckets,
it never gets negative, and each dynamic bucket runs with what its own config says. -/
theorem run_shared {keyMaxIdleTime : ℤ} {cfg : ServiceConfig} {as : List Action} {s : FactoryState}
    (hok : Machine.Along step Admitted (start keyMaxIdleTime cfg) as)
    (hr : Machine.run step (start keyMaxIdleTime cfg) as = some s) :
    (∀ ns, (s.factory.refcounts.lookup ns).isSome = (s.factory.sharedAttributes.lookup ns).isSome) ∧
      (∀ ns, (s.factory.refcounts.lookup ns).getD 0 = s.liveDynamic ns) ∧
      (∀ ns, ∀ count ∈ s.factory.refcounts.lookup ns, count = s.liveDynamic ns ∧ 0 < count) ∧
      (∀ l ∈ s.live, s.factory.destroy l.bucket ≠ none) ∧
      ∀ l ∈ s.live, l.bucket.dynamic = true →
        l.bucket.configAttributes = newConfigAttributes l.bucket.cfg (idleOf l.bucket.cfg) := by
  have h := Machine.run_induction Inv (fun _ _ _ => step_inv) (start_inv keyMaxIdleTime cfg) hok hr
  refine ⟨h.held.isSome_counts, fun ns => ?_, fun ns count hcount => ?_, fun l hl => ?_, h.own⟩
  · rw [← holders_eq]
    exact h.held.count_eq ns
  · have hcounts : s.factory.refcounts.lookup ns = _ := h.held.counts ns
    rw [holders_eq, hcount] at hcounts
    split_ifs at hcounts with hzero
    cases hcounts
    omega
  · obtain ⟨n, hlt, rfl⟩ := List.getElem_of_mem hl
    obtain ⟨bf, hbf, -⟩ := h.destroy (List.getElem?_eq_getElem hlt)
    rw [hbf]
    exact Option.some_ne_none bf

theorem run_shared_pair :
    let template := applyNamedDefaults "ns" dynamicBucketTemplateName { size := 7 }
    let as : List Action := [.newBucket "ns" "b1" template true, .newBucket "ns" "b2" template true,
      .destroy 1, .newBucket "ns" "b3" template true]
    Machine.Along step Admitted (start 0 {}) as ∧
      ∃ s, Machine.run step (start 0 {}) as = some s ∧ s.liveDynamic "ns" = 2 ∧
      (∀ ns, (s.factory.refcounts.lookup ns).isSome =
        (s.factory.sharedAttributes.lookup ns).isSome) ∧
      (∀ ns, (s.factory.refcounts.lookup ns).getD 0 = s.liveDynamic ns) ∧
      (∀ ns, ∀ count ∈ s.factory.refcounts.lookup ns, count = s.liveDynamic ns ∧ 0 < count) ∧
      (∀ l ∈ s.live, s.factory.destroy l.bucket ≠ none) ∧
      ∀ l ∈ s.live, l.bucket.dynamic = true →
        l.bucket.configAttributes = newConfigAttributes l.bucket.cfg (idleOf l.bucket.cfg) := by
  intro template as
  have hok : Machine.Along step Admitted (start 0 {}) as := by decide
  obtain ⟨s, hr, htwo⟩ : ∃ s, Machine.run step (start 0 {}) as = some s ∧ s.liveDynamic "ns" = 2 :=
    Machine.exists_run (by decide)
  exact ⟨hok, s, hr, htwo, run_shared hok hr⟩

end FactoryState

end QuotaService.Redis
